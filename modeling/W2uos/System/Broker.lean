import Mathlib.Data.List.Nodup
import Mathlib.Logic.Function.Basic
import W2uos.System.Interleaving

/-!
# A broker and its parties

Tasks publish on subjects and open channels that are subscribed to a subject.  Both need a fair
lock: a publish holds it, together with others, until its message is in all channels of the subject,
and to open a channel one must hold it alone.  A channel holds so many messages; a send to a full
one waits, and one to a closed one does nothing.

If some parties of a broker are *hidden*, tasks as well as channels, what the others see of it is a
broker again.

* `Broker.step` : the steps of the parties.
* `Broker.hide` : the broker without some of its parties.
* `Broker.hide_step` : what is seen of a step is a step there.
* `Broker.hide_eq_of_not_shows` : what is not seen of it changes nothing.
* `Broker.step_of_hide` : what the others could do without the hidden, they can do, if nothing
  hidden is in the way.
-/

/-- What a task asks the lock for. -/
inductive Broker.Request (τ ι κ μ : Type)
  | publish (task : τ) (subject : κ) (msg : μ)
  | subscribe (task : τ) (channel : ι) (subject : κ)
  deriving DecidableEq

/-- A publish in progress, and the channels it has still to send to. -/
structure Broker.Call (τ ι κ μ : Type) where
  task : τ
  subject : κ
  msg : μ
  remaining : List ι
  deriving DecidableEq

/-- A broker. -/
structure Broker (τ ι κ μ : Type) where
  /-- The channels with their subjects, in the order they were opened. -/
  opened : List (ι × κ)
  /-- The messages in a channel with their senders, oldest first; `none` if it is closed. -/
  queue : ι → Option (List (τ × μ))
  calls : List (Broker.Call τ ι κ μ)
  /-- Those that wait for the lock, first come first served. -/
  waiting : List (Broker.Request τ ι κ μ)

namespace Broker

variable {τ ι κ μ : Type}

/-- The task that asks. -/
def Request.task : Request τ ι κ μ → τ
  | publish task _ _ => task
  | subscribe task _ _ => task

/-- The steps of the parties. -/
inductive Action (τ ι κ μ : Type)
  /-- A task asks for the lock. -/
  | ask (request : Request τ ι κ μ)
  /-- The task that waits first gets it. -/
  | grant (task : τ)
  /-- The next send of the call of a task. -/
  | send (task : τ)
  /-- The call of a task returns. -/
  | finish (task : τ)
  /-- A task gives up its call or its place. -/
  | abort (task : τ)
  /-- A message is taken out of a channel. -/
  | recv (channel : ι)
  /-- A channel is closed. -/
  | close (channel : ι)

/-- A broker without channels. -/
def new : Broker τ ι κ μ where
  opened := []
  queue _ := none
  calls := []
  waiting := []

section Steps

variable [DecidableEq τ] [DecidableEq ι] [DecidableEq κ]

/-- The channels of a subject. -/
def subscribers (b : Broker τ ι κ μ) (subject : κ) : List ι :=
  (b.opened.filter fun c => c.2 = subject).map Prod.fst

/-- The task is in a call, or waits. -/
def Busy (b : Broker τ ι κ μ) (task : τ) : Prop :=
  task ∈ b.waiting.map Request.task ∨ task ∈ b.calls.map Call.task

instance (b : Broker τ ι κ μ) (task : τ) : Decidable (b.Busy task) :=
  inferInstanceAs (Decidable (_ ∨ _))

/-- The call of a task. -/
def callOf (b : Broker τ ι κ μ) (task : τ) : Option (Call τ ι κ μ) :=
  b.calls.find? fun call => call.task = task

/-- The call of a task goes on to these channels. -/
def setCall (b : Broker τ ι κ μ) (task : τ) (remaining : List ι) : Broker τ ι κ μ :=
  { b with
    calls := b.calls.map fun call =>
      if call.task = task then { call with remaining := remaining } else call }

def setQueue (b : Broker τ ι κ μ) (channel : ι) (queue : Option (List (τ × μ))) :
    Broker τ ι κ μ :=
  { b with queue := Function.update b.queue channel queue }

/-- The first request is carried out, if it is one of the task. -/
def grant (b : Broker τ ι κ μ) (task : τ) : Option (Broker τ ι κ μ) :=
  match b.waiting with
  | [] => none
  | .publish task' subject msg :: waiting =>
    if task' = task then
      some { b with
        calls := b.calls ++ [⟨task', subject, msg, b.subscribers subject⟩]
        waiting := waiting }
    else none
  | .subscribe task' channel subject :: waiting =>
    if task' = task ∧ b.calls.isEmpty ∧ channel ∉ b.opened.map Prod.fst then
      some { b with
        opened := b.opened ++ [(channel, subject)]
        queue := Function.update b.queue channel (some [])
        waiting := waiting }
    else none

/-- The next send of a call. -/
def send (capacity : ℕ) (b : Broker τ ι κ μ) (task : τ) : Option (Broker τ ι κ μ) :=
  match b.callOf task with
  | some ⟨_, _, msg, channel :: remaining⟩ =>
    match b.queue channel with
    | none => some (b.setCall task remaining)
    | some queue =>
      if queue.length < capacity then
        some ((b.setCall task remaining).setQueue channel (some (queue ++ [(task, msg)])))
      else none
  | _ => none

/-- A call returns. -/
def finish (b : Broker τ ι κ μ) (task : τ) : Option (Broker τ ι κ μ) :=
  match b.callOf task with
  | some ⟨_, _, _, []⟩ => some { b with calls := b.calls.filter fun call => call.task ≠ task }
  | _ => none

/-- A task gives up. -/
def abort (b : Broker τ ι κ μ) (task : τ) : Option (Broker τ ι κ μ) :=
  if b.Busy task then
    some { b with
      calls := b.calls.filter fun call => call.task ≠ task
      waiting := b.waiting.filter fun q => q.task ≠ task }
  else none

/-- A message is taken. -/
def recv (b : Broker τ ι κ μ) (channel : ι) : Option (Broker τ ι κ μ) :=
  match b.queue channel with
  | some (_ :: queue) => some (b.setQueue channel (some queue))
  | _ => none

/-- A channel is closed. -/
def close (b : Broker τ ι κ μ) (channel : ι) : Option (Broker τ ι κ μ) :=
  match b.queue channel with
  | some _ => some (b.setQueue channel none)
  | none => none

/-- One step. -/
def step (capacity : ℕ) (b : Broker τ ι κ μ) : Action τ ι κ μ → Option (Broker τ ι κ μ)
  | .ask request =>
    if b.Busy request.task then none else some { b with waiting := b.waiting ++ [request] }
  | .grant task => b.grant task
  | .send task => b.send capacity task
  | .finish task => b.finish task
  | .abort task => b.abort task
  | .recv channel => b.recv channel
  | .close channel => b.close channel

section Specs

set_option linter.unusedSectionVars false

variable {b b' : Broker τ ι κ μ} {task : τ} {channel : ι} {capacity : ℕ}

theorem queue_setQueue_self (b : Broker τ ι κ μ) (channel : ι) (queue : Option (List (τ × μ))) :
    (b.setQueue channel queue).queue channel = queue := Function.update_self ..

theorem queue_setQueue_ne (b : Broker τ ι κ μ) {channel channel' : ι} (h : channel' ≠ channel)
    (queue : Option (List (τ × μ))) :
    (b.setQueue channel queue).queue channel' = b.queue channel' := Function.update_of_ne h ..

theorem ask_spec {q : Request τ ι κ μ} (h : b.step capacity (.ask q) = some b') :
    ¬ b.Busy q.task ∧ b' = { b with waiting := b.waiting ++ [q] } := by
  simp only [step] at h
  split_ifs at h with hbusy
  exact ⟨hbusy, (Option.some.inj h).symm⟩

theorem grant_spec (h : b.grant task = some b') :
    (∃ subject msg waiting, b.waiting = .publish task subject msg :: waiting ∧
      b' = { b with
        calls := b.calls ++ [⟨task, subject, msg, b.subscribers subject⟩]
        waiting := waiting }) ∨
    ∃ channel subject waiting, b.waiting = .subscribe task channel subject :: waiting ∧
      b.calls = [] ∧ channel ∉ b.opened.map Prod.fst ∧
      b' = { b with
        opened := b.opened ++ [(channel, subject)]
        queue := Function.update b.queue channel (some [])
        waiting := waiting } := by
  unfold grant at h
  split at h
  · cases h
  · rename_i task' subject msg waiting hwaiting
    split_ifs at h with htask
    subst htask
    exact Or.inl ⟨subject, msg, waiting, hwaiting, (Option.some.inj h).symm⟩
  · rename_i task' channel subject waiting hwaiting
    split_ifs at h with hcond
    obtain ⟨rfl, hcalls, hfresh⟩ := hcond
    exact Or.inr ⟨channel, subject, waiting, hwaiting, List.isEmpty_iff.1 hcalls, hfresh,
      (Option.some.inj h).symm⟩

theorem send_spec (h : b.send capacity task = some b') :
    ∃ subject msg channel remaining,
      b.callOf task = some ⟨task, subject, msg, channel :: remaining⟩ ∧
      ((b.queue channel = none ∧ b' = b.setCall task remaining) ∨
        ∃ queue, b.queue channel = some queue ∧ queue.length < capacity ∧
          b' = (b.setCall task remaining).setQueue channel (some (queue ++ [(task, msg)]))) := by
  unfold send at h
  split at h
  · rename_i task' subject msg channel remaining hcall
    obtain rfl : task' = task := by simpa using List.find?_some hcall
    refine ⟨subject, msg, channel, remaining, hcall, ?_⟩
    split at h
    · rename_i hqueue
      exact Or.inl ⟨hqueue, (Option.some.inj h).symm⟩
    · rename_i queue hqueue
      split_ifs at h with hroom
      exact Or.inr ⟨queue, hqueue, hroom, (Option.some.inj h).symm⟩
  · cases h

theorem finish_spec (h : b.finish task = some b') :
    (∃ subject msg, b.callOf task = some ⟨task, subject, msg, []⟩) ∧
      b' = { b with calls := b.calls.filter fun call => call.task ≠ task } := by
  unfold finish at h
  split at h
  · rename_i task' subject msg hcall
    obtain rfl : task' = task := by simpa using List.find?_some hcall
    exact ⟨⟨subject, msg, hcall⟩, (Option.some.inj h).symm⟩
  · cases h

theorem abort_spec (h : b.abort task = some b') :
    b.Busy task ∧ b' = { b with
      calls := b.calls.filter fun call => call.task ≠ task
      waiting := b.waiting.filter fun q => q.task ≠ task } := by
  unfold abort at h
  split_ifs at h with hbusy
  exact ⟨hbusy, (Option.some.inj h).symm⟩

theorem recv_spec (h : b.recv channel = some b') :
    ∃ m queue, b.queue channel = some (m :: queue) ∧ b' = b.setQueue channel (some queue) := by
  unfold recv at h
  split at h
  · rename_i m queue hqueue
    exact ⟨m, queue, hqueue, (Option.some.inj h).symm⟩
  · cases h

theorem close_spec (h : b.close channel = some b') :
    (∃ queue, b.queue channel = some queue) ∧ b' = b.setQueue channel none := by
  unfold close at h
  split at h
  · rename_i queue hqueue
    exact ⟨⟨queue, hqueue⟩, (Option.some.inj h).symm⟩
  · cases h

/-- Every task is in one call, or waits once; no channel is opened twice, and a call sends to each
once. -/
structure Wf (b : Broker τ ι κ μ) : Prop where
  tasks : (b.waiting.map Request.task ++ b.calls.map Call.task).Nodup
  opened : (b.opened.map Prod.fst).Nodup
  remaining : ∀ call ∈ b.calls, call.remaining.Nodup

theorem wf_new : (new : Broker τ ι κ μ).Wf where
  tasks := List.nodup_nil
  opened := List.nodup_nil
  remaining := List.forall_mem_nil _

theorem tasks_setCall (remaining : List ι) :
    (b.setCall task remaining).calls.map Call.task = b.calls.map Call.task := by
  rw [setCall, List.map_map]
  refine List.map_congr_left fun call _ => ?_
  rw [Function.comp_apply]
  split_ifs <;> rfl

theorem callOf_setCall {call : Call τ ι κ μ} (hcall : b.callOf task = some call)
    (remaining : List ι) :
    (b.setCall task remaining).callOf task = some { call with remaining := remaining } := by
  have htask : call.task = task := by simpa using List.find?_some hcall
  unfold callOf setCall at *
  rw [List.find?_map]
  have hfind : b.calls.find? ((fun call => decide (call.task = task)) ∘ fun call =>
      if call.task = task then { call with remaining := remaining } else call) =
      b.calls.find? fun call => decide (call.task = task) := by
    refine congrFun (congrArg List.find? (funext fun call' => ?_)) b.calls
    rw [Function.comp_apply]
    split_ifs <;> rfl
  rw [hfind, hcall, Option.map_some, if_pos htask]

theorem Wf.setQueue (hb : b.Wf) (queue : Option (List (τ × μ))) : (b.setQueue channel queue).Wf :=
  ⟨hb.tasks, hb.opened, hb.remaining⟩

theorem Wf.setCall (hb : b.Wf) {remaining : List ι} (h : remaining.Nodup) :
    (b.setCall task remaining).Wf where
  tasks := by
    rw [tasks_setCall]
    exact hb.tasks
  opened := hb.opened
  remaining call hcall := by
    obtain ⟨old, hold, rfl⟩ := List.mem_map.1 hcall
    split_ifs
    · exact h
    · exact hb.remaining old hold

/-- **Every step keeps it so.** -/
theorem Wf.step (hb : b.Wf) {a : Action τ ι κ μ} (h : b.step capacity a = some b') : b'.Wf := by
  cases a with
  | ask q =>
    obtain ⟨hbusy, rfl⟩ := ask_spec h
    refine ⟨?_, hb.opened, hb.remaining⟩
    rw [List.map_append, List.append_assoc, List.map_singleton]
    refine (List.perm_append_comm_assoc _ _ _).nodup_iff.2 ?_
    rw [List.singleton_append, List.nodup_cons, List.mem_append]
    exact ⟨hbusy, hb.tasks⟩
  | grant task =>
    obtain ⟨htasks, hopened, hremaining⟩ := hb
    obtain ⟨subject, msg, waiting, hwaiting, rfl⟩ |
        ⟨c, subject, waiting, hwaiting, -, hfresh, rfl⟩ := grant_spec h
    · rw [hwaiting, List.map_cons, List.cons_append] at htasks
      refine ⟨?_, hopened, fun call hcall => ?_⟩
      · rw [List.map_append, List.map_singleton, ← List.append_assoc]
        exact (List.perm_append_singleton _ _).nodup_iff.2 htasks
      · rcases List.mem_append.1 hcall with hcall | hcall
        · exact hremaining call hcall
        · rw [List.mem_singleton.1 hcall]
          exact hopened.sublist (List.filter_sublist.map _)
    · rw [hwaiting, List.map_cons, List.cons_append] at htasks
      refine ⟨htasks.of_cons, ?_, hremaining⟩
      rw [List.map_append]
      exact (List.perm_append_singleton _ _).nodup_iff.2 (List.nodup_cons.2 ⟨hfresh, hopened⟩)
  | send task =>
    obtain ⟨subject, msg, c, remaining, hcall, hsent⟩ := send_spec h
    have htail : remaining.Nodup :=
      (hb.remaining _ (List.mem_of_find?_eq_some hcall)).of_cons
    obtain ⟨-, rfl⟩ | ⟨queue, -, -, rfl⟩ := hsent
    · exact hb.setCall htail
    · exact (hb.setCall htail).setQueue _
  | finish task =>
    obtain ⟨-, rfl⟩ := finish_spec h
    exact ⟨hb.tasks.sublist ((List.filter_sublist.map _).append_left _), hb.opened,
      fun call hcall => hb.remaining call (List.mem_filter.1 hcall).1⟩
  | abort task =>
    obtain ⟨-, rfl⟩ := abort_spec h
    exact ⟨hb.tasks.sublist ((List.filter_sublist.map _).append (List.filter_sublist.map _)),
      hb.opened, fun call hcall => hb.remaining call (List.mem_filter.1 hcall).1⟩
  | recv c =>
    obtain ⟨m, queue, -, rfl⟩ := recv_spec h
    exact hb.setQueue _
  | close c =>
    obtain ⟨-, rfl⟩ := close_spec h
    exact hb.setQueue _

theorem Wf.not_called (hb : b.Wf) {q : Request τ ι κ μ} (h : q ∈ b.waiting) :
    q.task ∉ b.calls.map Call.task := fun hmem =>
  List.disjoint_of_nodup_append hb.tasks (List.mem_map_of_mem h) hmem

/-- A party waits once. -/
theorem Wf.not_waiting (hb : b.Wf) {q : Request τ ι κ μ} {waiting : List (Request τ ι κ μ)}
    (hwaiting : b.waiting = q :: waiting) : ∀ q' ∈ waiting, q'.task ≠ q.task := by
  intro q' hq' heq
  have htasks := hb.tasks
  rw [hwaiting, List.map_cons, List.cons_append, List.nodup_cons] at htasks
  exact htasks.1 (List.mem_append_left _ (List.mem_map.2 ⟨q', hq', heq⟩))

theorem Wf.call_eq (hb : b.Wf) {call call' : Call τ ι κ μ} (h : b.callOf task = some call)
    (hmem : call' ∈ b.calls) (htask : call'.task = task) : call' = call := by
  have hnodup : (b.calls.map Call.task).Nodup := (List.nodup_append.1 hb.tasks).2.1
  have hcall : call.task = task := by simpa using List.find?_some h
  exact List.inj_on_of_nodup_map hnodup hmem (List.mem_of_find?_eq_some h)
    (htask.trans hcall.symm)

end Specs

/-! ### Hiding parties -/

section Hiding

set_option linter.unusedSectionVars false

variable (V : τ → Bool) (W : ι → Bool)

/-- A call without the hidden channels. -/
def Call.hide (call : Call τ ι κ μ) : Call τ ι κ μ :=
  { call with remaining := call.remaining.filter W }

/-- The broker without the parties that are hidden: those of the tasks not in `V`, and the channels
not in `W`. -/
def hide (b : Broker τ ι κ μ) : Broker τ ι κ μ where
  opened := b.opened.filter fun c => W c.1
  queue channel :=
    if W channel then (b.queue channel).map fun queue => queue.filter fun m => V m.1 else none
  calls := (b.calls.filter fun call => V call.task).map (Call.hide W)
  waiting := b.waiting.filter fun q => V q.task

/-- A hidden task opens hidden channels only, and the others open none of these. -/
def Request.Fits : Request τ ι κ μ → Prop
  | publish _ _ _ => True
  | subscribe task channel _ => V task = W channel

variable {V W} {b b' : Broker τ ι κ μ} {task : τ} {channel : ι} {capacity : ℕ}

theorem subscribers_hide (subject : κ) :
    (b.hide V W).subscribers subject = (b.subscribers subject).filter W := by
  unfold subscribers hide
  rw [List.filter_map, List.filter_filter, List.filter_filter]
  refine congrArg (List.map Prod.fst) (List.filter_congr fun c _ => ?_)
  exact Bool.and_comm _ _

theorem queue_hide (h : W channel = true) : (b.hide V W).queue channel =
    (b.queue channel).map fun queue => queue.filter fun m => V m.1 :=
  if_pos h

theorem busy_hide (h : V task = true) : (b.hide V W).Busy task ↔ b.Busy task := by
  have hwaits : task ∈ (b.waiting.filter fun q => V q.task).map Request.task ↔
      task ∈ b.waiting.map Request.task := by
    simp only [List.mem_map, List.mem_filter]
    exact exists_congr fun q => and_congr_left fun hq => and_iff_left (hq ▸ h)
  have hcalls : task ∈ ((b.calls.filter fun call => V call.task).map (Call.hide W)).map Call.task ↔
      task ∈ b.calls.map Call.task := by
    rw [List.map_map]
    simp only [List.mem_map, List.mem_filter, Function.comp_apply, Call.hide]
    exact exists_congr fun call => and_congr_left fun hcall => and_iff_left (hcall ▸ h)
  exact or_congr hwaits hcalls

theorem callOf_hide (h : V task = true) :
    (b.hide V W).callOf task = (b.callOf task).map (Call.hide W) := by
  unfold callOf hide
  rw [List.find?_map, List.find?_filter]
  refine congrArg (Option.map (Call.hide W)) (congrFun (congrArg List.find? ?_) b.calls)
  funext call
  by_cases htask : call.task = task
  · simp [Call.hide, htask, h]
  · simp [Call.hide, htask]

theorem hide_setCall (remaining : List ι) :
    (b.setCall task remaining).hide V W =
      (b.hide V W).setCall task (remaining.filter W) := by
  unfold hide setCall
  dsimp only
  congr 1
  rw [List.filter_map, List.map_map, List.map_map]
  have hfilter : (b.calls.filter ((fun call => V call.task) ∘ fun call =>
      if call.task = task then { call with remaining := remaining } else call)) =
      b.calls.filter fun call => V call.task := by
    refine List.filter_congr fun call _ => ?_
    rw [Function.comp_apply]
    split_ifs <;> rfl
  rw [hfilter]
  refine List.map_congr_left fun call _ => ?_
  by_cases htask : call.task = task <;> simp [Call.hide, htask]

/-- Only the call of a visible task is seen, and only what it has still to send to the visible
channels. -/
theorem hide_setCall_eq (hb : b.Wf) {call : Call τ ι κ μ} (hcall : b.callOf task = some call)
    {remaining : List ι}
    (h : V task = false ∨ remaining.filter W = call.remaining.filter W) :
    (b.setCall task remaining).hide V W = b.hide V W := by
  rw [hide_setCall]
  unfold hide setCall
  dsimp only
  congr 1
  rw [List.map_map]
  refine List.map_congr_left fun call' hmem => ?_
  obtain ⟨hmem, hvisible⟩ := List.mem_filter.1 hmem
  by_cases htask : call'.task = task
  · obtain rfl := hb.call_eq hcall hmem htask
    rcases h with hhidden | hsame
    · rw [htask, hhidden] at hvisible
      cases hvisible
    · simp [Call.hide, htask, hsame]
  · simp [Call.hide, htask]

theorem hide_setQueue (h : W channel = true) (queue : Option (List (τ × μ))) :
    (b.setQueue channel queue).hide V W = (b.hide V W).setQueue channel
      (queue.map fun queue => queue.filter fun m => V m.1) := by
  unfold hide setQueue
  dsimp only
  congr 1
  funext channel'
  by_cases heq : channel' = channel
  · rw [heq, Function.update_self, Function.update_self, if_pos h]
  · rw [Function.update_of_ne heq, Function.update_of_ne heq]

theorem hide_setQueue_eq {queue : Option (List (τ × μ))}
    (h : W channel = false ∨ (queue.map fun queue => queue.filter fun m => V m.1) =
      (b.queue channel).map fun queue => queue.filter fun m => V m.1) :
    (b.setQueue channel queue).hide V W = b.hide V W := by
  unfold hide setQueue
  dsimp only
  congr 1
  funext channel'
  by_cases heq : channel' = channel
  · rw [heq, Function.update_self]
    rcases h with h | h
    · simp [h]
    · rw [h]
  · rw [Function.update_of_ne heq]

/-- Whom an action is of: its task, or its channel. -/
def Action.visible (V : τ → Bool) (W : ι → Bool) : Action τ ι κ μ → Bool
  | ask request => V request.task
  | grant task => V task
  | send task => V task
  | finish task => V task
  | abort task => V task
  | recv channel => W channel
  | close channel => W channel

/-- What is seen of an action in a state: a send to a visible channel, a message of a visible
task. -/
def Shows (V : τ → Bool) (W : ι → Bool) (b : Broker τ ι κ μ) (a : Action τ ι κ μ) : Prop :=
  a.visible V W = true ∧
    match a with
    | .send task => ∀ call, b.callOf task = some call → ∀ c ∈ call.remaining.head?, W c = true
    | .recv channel => ∀ queue, b.queue channel = some queue → ∀ m ∈ queue.head?, V m.1 = true
    | _ => True

theorem hide_calls_filter (h : V task = false) :
    ((b.calls.filter fun call => call.task ≠ task).filter fun call => V call.task) =
      b.calls.filter fun call => V call.task := by
  rw [List.filter_filter]
  refine List.filter_congr fun call _ => ?_
  by_cases htask : call.task = task <;> simp [htask, h]

theorem hidden_step (hb : b.Wf) (hfits : ∀ q ∈ b.waiting, q.Fits V W) {a : Action τ ι κ μ}
    (ha : a.visible V W = false) (h : b.step capacity a = some b') : b'.hide V W = b.hide V W := by
  cases a with
  | ask q =>
    obtain ⟨-, rfl⟩ := ask_spec h
    have hq : V q.task = false := ha
    simp [hide, List.filter_append, hq]
  | grant task =>
    have htask : V task = false := ha
    obtain ⟨subject, msg, waiting, hwaiting, rfl⟩ | ⟨c, subject, waiting, hwaiting, -, -, rfl⟩ :=
      grant_spec h
    · simp [hide, List.filter_append, hwaiting, Request.task, htask]
    · have hc : W c = false := by
        have hfit := hfits (.subscribe task c subject) (hwaiting ▸ List.mem_cons_self)
        exact hfit.symm.trans htask
      have hqueue : ∀ c', W c' = true → c' ≠ c := by
        rintro c' hc' rfl
        rw [hc] at hc'
        cases hc'
      simp only [hide, List.filter_append, hwaiting, List.filter_cons, Request.task, htask, hc,
        List.filter_nil, List.append_nil, Bool.false_eq_true, if_false]
      congr 1
      funext c'
      split_ifs with hc'
      · rw [Function.update_of_ne (hqueue c' hc')]
      · rfl
  | send task =>
    have htask : V task = false := ha
    obtain ⟨subject, msg, c, remaining, hcall, ⟨-, rfl⟩ | ⟨queue, hqueue, -, rfl⟩⟩ := send_spec h
    · exact hide_setCall_eq hb hcall (Or.inl htask)
    · rw [hide_setQueue_eq, hide_setCall_eq hb hcall (Or.inl htask)]
      refine Or.inr ?_
      change _ = (b.queue c).map _
      rw [hqueue]
      simp [htask]
  | finish task =>
    have htask : V task = false := ha
    obtain ⟨-, rfl⟩ := finish_spec h
    simp only [hide, hide_calls_filter htask]
  | abort task =>
    have htask : V task = false := ha
    obtain ⟨-, rfl⟩ := abort_spec h
    have hwaiting : ((b.waiting.filter fun q => q.task ≠ task).filter fun q => V q.task) =
        b.waiting.filter fun q => V q.task := by
      rw [List.filter_filter]
      refine List.filter_congr fun q _ => ?_
      by_cases heq : q.task = task <;> simp [heq, htask]
    simp only [hide, hide_calls_filter htask, hwaiting]
  | recv c =>
    obtain ⟨m, queue, -, rfl⟩ := recv_spec h
    exact hide_setQueue_eq (Or.inl ha)
  | close c =>
    obtain ⟨-, rfl⟩ := close_spec h
    exact hide_setQueue_eq (Or.inl ha)

theorem hide_ask {q : Request τ ι κ μ} (hq : V q.task = true)
    (h : b.step capacity (.ask q) = some b') :
    (b.hide V W).step capacity (.ask q) = some (b'.hide V W) := by
  obtain ⟨hbusy, rfl⟩ := ask_spec h
  have hhide : ¬ (b.hide V W).Busy q.task := fun hmem => hbusy ((busy_hide hq).1 hmem)
  rw [step, if_neg hhide]
  simp [hide, List.filter_append, hq]

theorem hide_grant (hfits : ∀ q ∈ b.waiting, q.Fits V W) (htask : V task = true)
    (h : b.grant task = some b') : (b.hide V W).grant task = some (b'.hide V W) := by
  obtain ⟨subject, msg, waiting, hwaiting, rfl⟩ | ⟨c, subject, waiting, hwaiting, hcalls, hfresh,
    rfl⟩ := grant_spec h
  · have hhead : (b.hide V W).waiting =
        .publish task subject msg :: waiting.filter fun q => V q.task := by
      simp [hide, hwaiting, Request.task, htask]
    have hsub := subscribers_hide (V := V) (W := W) (b := b) subject
    rw [grant, hhead]
    dsimp only
    rw [if_pos rfl, hsub]
    simp [hide, List.filter_append, htask, Call.hide]
  · have hc : W c = true := by
      have hfit := hfits (.subscribe task c subject) (hwaiting ▸ List.mem_cons_self)
      exact hfit.symm.trans htask
    have hhead : (b.hide V W).waiting =
        .subscribe task c subject :: waiting.filter fun q => V q.task := by
      simp [hide, hwaiting, Request.task, htask]
    have hfresh' : c ∉ (b.hide V W).opened.map Prod.fst := fun hmem =>
      hfresh (List.map_subset _ (List.filter_subset_self _) hmem)
    have hempty : (b.hide V W).calls.isEmpty = true := by simp [hide, hcalls]
    have hqueue : Function.update (b.hide V W).queue c (some []) = fun c' =>
        if W c' = true then (Function.update b.queue c (some []) c').map
          fun queue => queue.filter fun m => V m.1 else none := by
      funext c'
      by_cases heq : c' = c
      · rw [heq, Function.update_self, Function.update_self, if_pos hc]
        rfl
      · rw [Function.update_of_ne heq, Function.update_of_ne heq]
        rfl
    rw [grant, hhead]
    dsimp only
    rw [if_pos ⟨rfl, hempty, hfresh'⟩, hqueue]
    simp [hide, List.filter_append, hc]

theorem hidden_send (hb : b.Wf) {subject : κ} {msg : μ} {remaining : List ι}
    (hcall : b.callOf task = some ⟨task, subject, msg, channel :: remaining⟩)
    (hc : W channel = false) (h : b.send capacity task = some b') : b'.hide V W = b.hide V W := by
  have hsame : remaining.filter W = (channel :: remaining).filter W := by
    rw [List.filter_cons, hc]
    rfl
  obtain ⟨subject', msg', c, remaining', hcall', hsent⟩ := send_spec h
  rw [hcall] at hcall'
  cases hcall'
  obtain ⟨-, rfl⟩ | ⟨queue, -, -, rfl⟩ := hsent
  · exact hide_setCall_eq hb hcall (Or.inr hsame)
  · rw [hide_setQueue_eq (Or.inl hc)]
    exact hide_setCall_eq hb hcall (Or.inr hsame)

theorem hide_send (htask : V task = true) {subject : κ} {msg : μ} {remaining : List ι}
    (hcall : b.callOf task = some ⟨task, subject, msg, channel :: remaining⟩)
    (hc : W channel = true) (h : b.send capacity task = some b') :
    (b.hide V W).send capacity task = some (b'.hide V W) := by
  obtain ⟨subject', msg', c, remaining', hcall', hsent⟩ := send_spec h
  rw [hcall] at hcall'
  cases hcall'
  have hhide : (b.hide V W).callOf task =
      some ⟨task, subject, msg, channel :: remaining.filter W⟩ := by
    rw [callOf_hide htask, hcall]
    simp [Call.hide, hc]
  rw [send, hhide]
  dsimp only
  rw [queue_hide hc]
  obtain ⟨hqueue, rfl⟩ | ⟨queue, hqueue, hroom, rfl⟩ := hsent
  · rw [hqueue, hide_setCall]
    rfl
  · have hlen : (queue.filter fun m => V m.1).length < capacity :=
      Nat.lt_of_le_of_lt (List.length_filter_le _ _) hroom
    rw [hqueue, hide_setQueue hc, hide_setCall]
    dsimp only [Option.map_some]
    rw [if_pos hlen, List.filter_append]
    simp [htask]

theorem hide_finish (htask : V task = true) (h : b.finish task = some b') :
    (b.hide V W).finish task = some (b'.hide V W) := by
  obtain ⟨⟨subject, msg, hcall⟩, rfl⟩ := finish_spec h
  have hcall' : (b.hide V W).callOf task = some ⟨task, subject, msg, []⟩ := by
    rw [callOf_hide htask, hcall]
    rfl
  rw [finish, hcall']
  dsimp only [hide]
  rw [List.filter_map, List.filter_comm]
  rfl

theorem hide_abort (htask : V task = true) (h : b.abort task = some b') :
    (b.hide V W).abort task = some (b'.hide V W) := by
  obtain ⟨hbusy, rfl⟩ := abort_spec h
  rw [abort, if_pos ((busy_hide htask).2 hbusy)]
  dsimp only [hide]
  rw [List.filter_map, List.filter_comm,
    List.filter_comm (fun q : Request τ ι κ μ => q.task ≠ task)]
  rfl

theorem hidden_recv {m : τ × μ} {queue : List (τ × μ)}
    (hqueue : b.queue channel = some (m :: queue)) (hm : V m.1 = false)
    (h : b.recv channel = some b') : b'.hide V W = b.hide V W := by
  obtain ⟨m', queue', hqueue', rfl⟩ := recv_spec h
  rw [hqueue] at hqueue'
  cases hqueue'
  refine hide_setQueue_eq (Or.inr ?_)
  rw [hqueue]
  simp [hm]

theorem hide_recv (hc : W channel = true) {m : τ × μ} {queue : List (τ × μ)}
    (hqueue : b.queue channel = some (m :: queue)) (hm : V m.1 = true)
    (h : b.recv channel = some b') : (b.hide V W).recv channel = some (b'.hide V W) := by
  obtain ⟨m', queue', hqueue', rfl⟩ := recv_spec h
  rw [hqueue] at hqueue'
  cases hqueue'
  rw [recv, queue_hide hc, hqueue, hide_setQueue hc]
  simp [hm]

theorem hide_close (hc : W channel = true) (h : b.close channel = some b') :
    (b.hide V W).close channel = some (b'.hide V W) := by
  obtain ⟨⟨queue, hqueue⟩, rfl⟩ := close_spec h
  rw [close, queue_hide hc, hqueue, hide_setQueue hc]
  rfl

/-- **What is seen of a step is a step.** -/
theorem hide_step (hfits : ∀ q ∈ b.waiting, q.Fits V W) {a : Action τ ι κ μ}
    (ha : b.Shows V W a) (h : b.step capacity a = some b') :
    (b.hide V W).step capacity a = some (b'.hide V W) := by
  obtain ⟨hvisible, hshows⟩ := ha
  cases a with
  | ask q => exact hide_ask hvisible h
  | grant task => exact hide_grant hfits hvisible h
  | send task =>
    obtain ⟨subject, msg, c, remaining, hcall, -⟩ := send_spec h
    exact hide_send hvisible hcall (hshows _ hcall c rfl) h
  | finish task => exact hide_finish hvisible h
  | abort task => exact hide_abort hvisible h
  | recv c =>
    obtain ⟨m, queue, hqueue, -⟩ := recv_spec h
    exact hide_recv hvisible hqueue (hshows _ hqueue m rfl) h
  | close c => exact hide_close hvisible h

/-- **What is not seen of it changes nothing.** -/
theorem hide_eq_of_not_shows (hb : b.Wf) (hfits : ∀ q ∈ b.waiting, q.Fits V W)
    {a : Action τ ι κ μ} (ha : ¬ b.Shows V W a) (h : b.step capacity a = some b') :
    b'.hide V W = b.hide V W := by
  cases hvisible : a.visible V W with
  | false => exact hidden_step hb hfits hvisible h
  | true =>
    have hshows := fun h => ha ⟨hvisible, h⟩
    cases a with
    | send task =>
      obtain ⟨subject, msg, c, remaining, hcall, -⟩ := send_spec h
      refine hidden_send hb hcall (Bool.eq_false_iff.2 fun hc => hshows ?_) h
      intro call hcall' c' hc'
      rw [hcall] at hcall'
      cases hcall'
      cases hc'
      exact hc
    | recv c =>
      obtain ⟨m, queue, hqueue, -⟩ := recv_spec h
      refine hidden_recv hqueue (Bool.eq_false_iff.2 fun hm => hshows ?_) h
      intro queue' hqueue' m' hm'
      rw [hqueue] at hqueue'
      cases hqueue'
      cases hm'
      exact hm
    | _ => exact absurd trivial hshows

/-- Nothing hidden stands in the way of an action: no request before the one that gets the lock and
no call beside it, no channel before those a call has still to send to, no message before the one
that is taken, and none that takes up the room. -/
def Clear (V : τ → Bool) (W : ι → Bool) (capacity : ℕ) (b : Broker τ ι κ μ) :
    Action τ ι κ μ → Prop
  | .grant _ => (∀ q ∈ b.waiting.head?, V q.task = true) ∧ ∀ call ∈ b.calls, V call.task = true
  | .send task => ∀ call, b.callOf task = some call → ∀ c ∈ call.remaining.head?, W c = true ∧
      ∀ queue, b.queue c = some queue → queue.length < capacity ∨ ∀ m ∈ queue, V m.1 = true
  | .finish task => ∀ call, b.callOf task = some call → ∀ c ∈ call.remaining.head?, W c = true
  | .recv channel => ∀ queue, b.queue channel = some queue → ∀ m ∈ queue.head?, V m.1 = true
  | _ => True

theorem Clear.shows {a : Action τ ι κ μ} (h : b.Clear V W capacity a)
    (ha : a.visible V W = true) : b.Shows V W a := by
  refine ⟨ha, ?_⟩
  cases a with
  | send task => exact fun call hcall c hc => (h call hcall c hc).1
  | recv c => exact h
  | _ => trivial

/-- The first channel of a call is visible if it is the first visible one. -/
theorem remaining_of_hide {call : Call τ ι κ μ} {rest : List ι}
    (hclear : ∀ c ∈ call.remaining.head?, W c = true)
    (h : call.remaining.filter W = channel :: rest) : ∃ tail, call.remaining = channel :: tail := by
  cases hremaining : call.remaining with
  | nil =>
    rw [hremaining] at h
    cases h
  | cons c tail =>
    have hc : W c = true := hclear c (by rw [hremaining, List.head?_cons]; rfl)
    rw [hremaining, List.filter_cons, hc, if_pos rfl] at h
    exact ⟨tail, by rw [(List.cons.inj h).1]⟩

/-- The lock is given to the others when nothing hidden is before them. -/
theorem grant_of_hide (hfits : ∀ q ∈ b.waiting, q.Fits V W) (htask : V task = true)
    (hclear : b.Clear V W capacity (.grant task)) {v : Broker τ ι κ μ}
    (h : (b.hide V W).grant task = some v) : ∃ b', b.grant task = some b' := by
  obtain ⟨hhead, hcalls⟩ := hclear
  have hsplit : ∀ q waiting, (b.hide V W).waiting = q :: waiting →
      ∃ waiting', b.waiting = q :: waiting' := by
    intro q waiting hwaiting
    cases hw : b.waiting with
    | nil =>
      rw [hide, hw] at hwaiting
      cases hwaiting
    | cons q' waiting' =>
      have hq' : V q'.task = true := hhead q' (by rw [hw]; rfl)
      rw [hide, hw, List.filter_cons, hq', if_pos rfl] at hwaiting
      exact ⟨waiting', by rw [(List.cons.inj hwaiting).1]⟩
  obtain ⟨subject, msg, waiting, hwaiting, -⟩ |
      ⟨c, subject, waiting, hwaiting, hnone, hfresh, -⟩ := grant_spec h
  · obtain ⟨waiting', hwaiting'⟩ := hsplit _ _ hwaiting
    rw [grant, hwaiting']
    exact ⟨_, if_pos rfl⟩
  · obtain ⟨waiting', hwaiting'⟩ := hsplit _ _ hwaiting
    have hc : W c = true := by
      have hfit := hfits (.subscribe task c subject) (hwaiting' ▸ List.mem_cons_self)
      exact hfit.symm.trans htask
    have hfresh' : c ∉ b.opened.map Prod.fst := by
      intro hmem
      obtain ⟨o, ho, rfl⟩ := List.mem_map.1 hmem
      exact hfresh (List.mem_map_of_mem (List.mem_filter.2 ⟨ho, hc⟩))
    have hnone' : b.calls.isEmpty = true := by
      refine List.isEmpty_iff.2 (List.eq_nil_iff_forall_not_mem.2 fun call hcall => ?_)
      have hmem : call.hide W ∈ (b.hide V W).calls :=
        List.mem_map_of_mem (List.mem_filter.2 ⟨hcall, hcalls call hcall⟩)
      rw [hnone] at hmem
      cases hmem
    rw [grant, hwaiting']
    exact ⟨_, if_pos ⟨rfl, hnone', hfresh'⟩⟩

theorem send_of_hide (htask : V task = true) (hclear : b.Clear V W capacity (.send task))
    {v : Broker τ ι κ μ} (h : (b.hide V W).send capacity task = some v) :
    ∃ b', b.send capacity task = some b' := by
  obtain ⟨subject, msg, c, remaining, hcall, hsent⟩ := send_spec h
  rw [callOf_hide htask] at hcall
  obtain ⟨call, hcall', hhide⟩ := Option.map_eq_some_iff.1 hcall
  have hrest : call.remaining.filter W = c :: remaining := congrArg Call.remaining hhide
  obtain ⟨tail, htail⟩ :=
    remaining_of_hide (fun c' hc' => (hclear call hcall' c' hc').1) hrest
  obtain ⟨hc, hroom⟩ := hclear call hcall' c (by rw [htail]; rfl)
  obtain ⟨task', subject', msg', remaining'⟩ := call
  cases htail
  rw [send, hcall']
  dsimp only
  rw [queue_hide hc] at hsent
  cases hqueue : b.queue c with
  | none => exact ⟨_, rfl⟩
  | some queue =>
    dsimp only
    rw [hqueue] at hsent
    obtain ⟨hqueue', -⟩ | ⟨queue', hqueue', hlen, -⟩ := hsent
    · cases hqueue'
    · have hlen' : queue.length < capacity := by
        rcases hroom queue hqueue with hroom | hall
        · exact hroom
        · rw [Option.map_some, Option.some.injEq] at hqueue'
          rwa [← hqueue', List.filter_eq_self.2 fun m hm => hall m hm] at hlen
      rw [if_pos hlen']
      exact ⟨_, rfl⟩

theorem finish_of_hide (htask : V task = true) (hclear : b.Clear V W capacity (.finish task))
    {v : Broker τ ι κ μ} (h : (b.hide V W).finish task = some v) :
    ∃ b', b.finish task = some b' := by
  obtain ⟨⟨subject, msg, hcall⟩, -⟩ := finish_spec h
  rw [callOf_hide htask] at hcall
  obtain ⟨⟨task', subject', msg', remaining⟩, hcall', hhide⟩ := Option.map_eq_some_iff.1 hcall
  have hnil : remaining = [] := by
    cases remaining with
    | nil => rfl
    | cons c tail =>
      have hc : W c = true := hclear _ hcall' c rfl
      have hrest : (c :: tail).filter W = [] := congrArg Call.remaining hhide
      rw [List.filter_cons, hc, if_pos rfl] at hrest
      cases hrest
  rw [finish, hcall', hnil]
  exact ⟨_, rfl⟩

theorem recv_of_hide (hc : W channel = true) {v : Broker τ ι κ μ}
    (h : (b.hide V W).recv channel = some v) : ∃ b', b.recv channel = some b' := by
  obtain ⟨m, queue, hqueue, -⟩ := recv_spec h
  rw [queue_hide hc] at hqueue
  obtain ⟨_ | ⟨m', queue'⟩, hqueue', hfilter⟩ := Option.map_eq_some_iff.1 hqueue
  · cases hfilter
  · rw [recv, hqueue']
    exact ⟨_, rfl⟩

theorem close_of_hide (hc : W channel = true) {v : Broker τ ι κ μ}
    (h : (b.hide V W).close channel = some v) : ∃ b', b.close channel = some b' := by
  obtain ⟨⟨queue, hqueue⟩, -⟩ := close_spec h
  rw [queue_hide hc] at hqueue
  obtain ⟨queue', hqueue', -⟩ := Option.map_eq_some_iff.1 hqueue
  rw [close, hqueue']
  exact ⟨_, rfl⟩

/-- **What the others could do without the hidden, they can do**, if nothing hidden is in the
way. -/
theorem step_of_hide (hfits : ∀ q ∈ b.waiting, q.Fits V W) {a : Action τ ι κ μ}
    (ha : a.visible V W = true) (hclear : b.Clear V W capacity a) {v : Broker τ ι κ μ}
    (h : (b.hide V W).step capacity a = some v) :
    ∃ b', b.step capacity a = some b' ∧ b'.hide V W = v := by
  suffices hstep : ∃ b', b.step capacity a = some b' by
    obtain ⟨b', hb'⟩ := hstep
    have hview := hide_step hfits (hclear.shows ha) hb'
    rw [h, Option.some.injEq] at hview
    exact ⟨b', hb', hview.symm⟩
  cases a with
  | ask q =>
    obtain ⟨hbusy, -⟩ := ask_spec h
    have hq : V q.task = true := ha
    have hfree : ¬ b.Busy q.task := fun hmem => hbusy ((busy_hide hq).2 hmem)
    rw [step, if_neg hfree]
    exact ⟨_, rfl⟩
  | grant task => exact grant_of_hide hfits ha hclear h
  | send task => exact send_of_hide ha hclear h
  | finish task => exact finish_of_hide ha hclear h
  | abort task =>
    have htask : V task = true := ha
    obtain ⟨hbusy, -⟩ := abort_spec h
    rw [step, abort, if_pos ((busy_hide htask).1 hbusy)]
    exact ⟨_, rfl⟩
  | recv c => exact recv_of_hide ha h
  | close c => exact close_of_hide ha h

end Hiding

end Steps

end Broker
