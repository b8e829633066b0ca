import W2uos.Risk.OnBus

/-!
# The supervisor and its own events

The run task of the supervisor is subscribed to `log.event`, and it publishes there when the breaker
trips.  While it publishes it takes nothing out of its three queues.  If the queue of `log.event` is
full by the time it has to send to itself, it waits for a message to be taken that nobody but itself
could take.  The fair lock of the bus adds a second way: the task waits behind a subscriber, who
waits for a publisher, who waits for room in one of the task's queues.

* `trapped_step`, `trapped_abort` : a trap is closed by the steps that do not keep room, and opened
  at most when another task is aborted;
* `moves_on` : whoever is not trapped moves on;
* `supervisor_stalls_iff`, `supervisor_blocks_itself` : exactly when the supervisor cannot block
  itself.
-/

namespace W2uos

namespace SupervisedBus

/-! ### Blocking -/

/-- The run task waits for room in a queue that only itself drains. -/
def SelfBlocked (u : SupervisedBus) : Prop :=
  ∃ r ∈ u.subs, u.bus.nextSend runTask = some r ∧ u.bus.Full r

/-- The action is one of the run task. -/
def IsOwn (u : SupervisedBus) : SupervisedAction → Prop
  | .locked (.ask request) => request.task = runTask
  | .locked .grant => u.locked.waiting.head?.map LockRequest.task = some runTask
  | .locked (.send task) => task = runTask
  | .locked (.finish task) => task = runTask
  | .locked (.abort _) => False
  | .locked (.recv _) => False
  | .locked (.drop _) => False
  | .take _ _ _ => True
  | .tick _ => True

/-- The run task can take a step; or it waits for the lock, and the lock is given to somebody, or
a call that holds it goes on; or its own call, or one that holds the lock it waits for, waits for a
queue that another task drains. -/
def MovesOn [CaseTable] (u : SupervisedBus) : Prop :=
  (∃ a v, u.IsOwn a ∧ u.step a = some v) ∨
    (u.WaitsForLock ∧ ∃ a v, (a = .grant ∨ ∃ task, a = .send task ∨ a = .finish task) ∧
      u.step (.locked a) = some v) ∨
    ∃ task r, (task = runTask ∨ u.WaitsForLock) ∧ u.bus.nextSend task = some r ∧ u.bus.Full r ∧
      r ∉ u.subs

/-! ### Traps -/

/-- What the run task has still to publish after the call it is in. -/
def upcoming (u : SupervisedBus) : List RiskOutput :=
  if runTask ∈ u.bus.calls then u.outbox.tail else u.outbox

/-- A message that is still to be published goes to the receiver. -/
def Upcoming (u : SupervisedBus) (r : ℕ) : Prop :=
  ∃ out ∈ u.upcoming, r ∈ u.bus.subscribers out.subject

/-- The channel of the receiver must have room before the run task takes its next message: the task
has still to send to it, or it waits for the lock behind a subscriber, and somebody in a call has
still to send to it. -/
def Needs (u : SupervisedBus) (r : ℕ) : Prop :=
  u.bus.Owes runTask r ∨ u.Upcoming r ∨
    (Behind u.locked.waiting runTask ∧ ∃ task, u.bus.Owes task r)

/-- The same, the next send of a task apart. -/
def NeedsBeside (u : SupervisedBus) (task r : ℕ) : Prop :=
  (task ≠ runTask ∧ u.bus.Owes runTask r) ∨ u.Upcoming r ∨
    (Behind u.locked.waiting runTask ∧ ∃ task', task' ≠ task ∧ u.bus.Owes task' r)

/-- A queue of the run task is full that must have room before the task takes its next message. -/
def Trapped (u : SupervisedBus) : Prop := ∃ r ∈ u.subs, u.bus.Full r ∧ u.Needs r

/-- The step does not close a trap: the breaker does not trip while a queue its messages go to is
full; nobody takes the last place in a queue that must have room; the run task does not begin to
wait behind a subscriber while somebody in a call has still to send to a full queue of its; and
nobody who is to send to such a queue gets the lock before it. -/
def KeepsRoom [CaseTable] (u : SupervisedBus) : SupervisedAction → Prop
  | .take k recorded clock =>
    ∀ r' i, u.input k recorded clock = some (r', i) → u.service.Trips i →
      ∀ r ∈ u.subs, r ≠ r' → u.bus.Full r → ∀ subject ∈ alarm, r ∉ u.bus.subscribers subject
  | .tick clock =>
    u.service.Trips (.tick clock) →
      ∀ r ∈ u.subs, u.bus.Full r → ∀ subject ∈ alarm, r ∉ u.bus.subscribers subject
  | .locked (.send task) =>
    ∀ r ∈ u.subs, u.bus.nextSend task = some r → u.bus.LastPlace r → ¬ u.NeedsBeside task r
  | .locked (.ask request) =>
    request.task = runTask → (∃ w ∈ u.locked.waiting ++ [request], w.IsSubscribe) →
      ∀ r ∈ u.subs, u.bus.Full r → ∀ task, ¬ u.bus.Owes task r
  | .locked .grant =>
    ∀ task subject msg waiting, u.locked.waiting = .publish task subject msg :: waiting →
      Behind waiting runTask → ∀ r ∈ u.subs, u.bus.Full r → r ∉ u.bus.subscribers subject
  | .locked (.finish _) => True
  | .locked (.abort _) => True
  | .locked (.recv _) => True
  | .locked (.drop _) => True

section Steps

variable [CaseTable] {u v : SupervisedBus}

/-! ### Closing a trap -/

omit [CaseTable] in
/-- A step that leaves the task's channels alone traps it by what is now needed in addition. -/
theorem trapped_congr {P : ℕ → Prop} (hsubs : v.subs = u.subs)
    (hfull : ∀ r ∈ u.subs, v.bus.Full r ↔ u.bus.Full r)
    (hneeds : ∀ r ∈ u.subs, v.Needs r ↔ u.Needs r ∨ P r) :
    v.Trapped ↔ u.Trapped ∨ ∃ r ∈ u.subs, u.bus.Full r ∧ P r := by
  unfold Trapped
  rw [hsubs]
  constructor
  · rintro ⟨r, hr, hf, hn⟩
    rcases (hneeds r hr).1 hn with hn | hp
    · exact Or.inl ⟨r, hr, (hfull r hr).1 hf, hn⟩
    · exact Or.inr ⟨r, hr, (hfull r hr).1 hf, hp⟩
  · rintro (⟨r, hr, hf, hn⟩ | ⟨r, hr, hf, hp⟩)
    · exact ⟨r, hr, (hfull r hr).2 hf, (hneeds r hr).2 (Or.inl hn)⟩
    · exact ⟨r, hr, (hfull r hr).2 hf, (hneeds r hr).2 (Or.inr hp)⟩

omit [CaseTable] in
theorem trapped_same (hsubs : v.subs = u.subs)
    (hfull : ∀ r ∈ u.subs, v.bus.Full r ↔ u.bus.Full r)
    (hneeds : ∀ r ∈ u.subs, v.Needs r ↔ u.Needs r) : v.Trapped ↔ u.Trapped := by
  refine (trapped_congr (P := fun _ => False) hsubs hfull ?_).trans (by simp)
  exact fun r hr => (hneeds r hr).trans (or_iff_left id).symm

omit [CaseTable] in
theorem needs_congr {r : ℕ} (howes : ∀ task, v.bus.Owes task r ↔ u.bus.Owes task r)
    (hsubscribers : v.bus.subscribers = u.bus.subscribers) (hupcoming : v.upcoming = u.upcoming)
    (hwaiting : v.locked.waiting = u.locked.waiting) : v.Needs r ↔ u.Needs r := by
  unfold Needs Upcoming
  rw [hupcoming, hsubscribers, hwaiting]
  simp only [howes]

omit [CaseTable] in
/-- While nobody has to send to a receiver, only what is still to be published needs it. -/
theorem needs_iff_upcoming {r : ℕ} (howes : ∀ task, ¬ u.bus.Owes task r) :
    u.Needs r ↔ u.Upcoming r := by
  simp [Needs, howes]

omit [CaseTable] in
theorem needs_idle {r : ℕ} (hcall : runTask ∉ u.bus.calls) (hwaits : ¬ u.WaitsForLock) :
    u.Needs r ↔ ∃ out ∈ u.outbox, r ∈ u.bus.subscribers out.subject := by
  have hbehind : ¬ Behind u.locked.waiting runTask := fun hb => hwaits hb.mem
  have howes : ¬ u.bus.Owes runTask r := by
    rintro ⟨call, hcall', -⟩
    exact hcall (Finmap.mem_of_lookup_eq_some hcall')
  simp [Needs, Upcoming, upcoming, hbehind, howes, hcall]

/-- When the loop has handled an input, it needs room for what it publishes. -/
theorem needs_handle {bus : LocalBus BusMessage} {i : RiskInput} {r : ℕ}
    (hcall : runTask ∉ bus.calls) (hwaits : ¬ u.WaitsForLock) :
    Needs ({ u with locked := { u.locked with bus := bus } }.handle i) r ↔
      u.service.Trips i ∧ ∃ subject ∈ alarm, r ∈ bus.subscribers subject := by
  refine (needs_idle (u := { u with locked := { u.locked with bus := bus } }.handle i) hcall
    hwaits).trans ?_
  show (∃ out ∈ riskSupervisor.emit u.service i, r ∈ bus.subscribers out.subject) ↔ _
  constructor
  · rintro ⟨out, hout, hr⟩
    obtain ⟨htrips, hmem⟩ := mem_emit_subject.1 (List.mem_map_of_mem hout)
    exact ⟨htrips, out.subject, hmem, hr⟩
  · rintro ⟨htrips, subject, hmem, hr⟩
    obtain ⟨out, hout, rfl⟩ := List.mem_map.1 (mem_emit_subject.2 ⟨htrips, hmem⟩)
    exact ⟨out, hout, hr⟩

omit [CaseTable] in
theorem upcoming_congr (hcalls : runTask ∈ v.bus.calls ↔ runTask ∈ u.bus.calls)
    (houtbox : v.outbox = u.outbox) : v.upcoming = u.upcoming := by
  unfold upcoming
  rw [houtbox]
  exact if_congr hcalls rfl rfl

theorem trapped_ask {q : LockRequest BusMessage} (h : u.step (.locked (.ask q)) = some v) :
    v.Trapped ↔ u.Trapped ∨ ¬ u.KeepsRoom (.locked (.ask q)) := by
  obtain ⟨-, locked, hlocked, rfl⟩ := step_locked h
  obtain ⟨-, rfl⟩ := LockedBus.ask_spec hlocked
  refine (trapped_congr (u := u) (P := fun r => (q.task = runTask ∧
    ∃ w ∈ u.locked.waiting ++ [q], w.IsSubscribe) ∧ ∃ task, u.bus.Owes task r) ?_ ?_ ?_).trans ?_
  · rfl
  · exact fun r _ => Iff.rfl
  · intro r _
    unfold Needs
    rw [behind_concat]
    show _ ∨ u.Upcoming r ∨ _ ↔ _
    tauto
  · refine or_congr_right ?_
    unfold KeepsRoom
    push Not
    tauto

omit [CaseTable] in
/-- The lock goes to a publish: if it is the task's own, what was to be published now is to be
sent; if it is another one, the task may wait behind a subscriber for it. -/
theorem needs_publish (hu : u.Wf) {task r : ℕ} {subject : String} {msg : BusMessage}
    {waiting : List (LockRequest BusMessage)} {bus : LocalBus BusMessage} {subs : List ℕ}
    (hwaiting : u.locked.waiting = .publish task subject msg :: waiting)
    (hbus : u.bus.publish task subject msg = some bus) :
    Needs { u with locked := { bus := bus, waiting := waiting }, subs := subs } r ↔
      u.Needs r ∨ (Behind waiting runTask ∧ r ∈ u.bus.subscribers subject) := by
  have hhead : task ∉ waiting.map LockRequest.task := hu.locked.head_not_mem hwaiting
  have hfree : task ∉ u.bus.calls := by
    refine Finmap.lookup_eq_none.1 (hu.locked.free (.publish task subject msg) ?_)
    rw [hwaiting]
    exact List.mem_cons_self
  have hbehind : Behind u.locked.waiting runTask ↔ Behind waiting runTask := by
    rw [hwaiting]
    refine behind_cons id ?_
    by_cases heq : task = runTask
    · exact Or.inr (heq ▸ hhead)
    · exact Or.inl heq
  have howes : ∀ task', bus.Owes task' r ↔
      u.bus.Owes task' r ∨ (task' = task ∧ r ∈ u.bus.subscribers subject) :=
    fun task' => LocalBus.owes_publish hbus
  have hcalls : runTask ∈ bus.calls ↔ runTask = task ∨ runTask ∈ u.bus.calls :=
    LocalBus.mem_calls_publish hbus
  have hsubscribers : bus.subscribers = u.bus.subscribers := by
    obtain ⟨-, rfl⟩ := LocalBus.publish_spec hbus
    rfl
  have hneeds : Needs { u with locked := { bus := bus, waiting := waiting }, subs := subs } r ↔
      bus.Owes runTask r ∨
        (∃ out ∈ (if runTask ∈ bus.calls then u.outbox.tail else u.outbox),
          r ∈ u.bus.subscribers out.subject) ∨
        (Behind waiting runTask ∧ ∃ task', bus.Owes task' r) := by
    rw [← hsubscribers]
    exact Iff.rfl
  rw [hneeds, howes]
  by_cases heq : task = runTask
  · subst heq
    obtain ⟨-, out, outbox, houtbox, rfl⟩ :=
      wants_publish (hu.asked _ (hwaiting ▸ List.mem_cons_self) rfl)
    have hnot : ¬ Behind waiting runTask := fun hb => hhead hb.mem
    have howed : ¬ u.bus.Owes runTask r := by
      rintro ⟨call, hcall, -⟩
      exact hfree (Finmap.mem_of_lookup_eq_some hcall)
    -- the call sends the message that was first to be published
    have hupcoming : u.Upcoming r ↔ r ∈ u.bus.subscribers out.subject ∨
        ∃ out' ∈ outbox, r ∈ u.bus.subscribers out'.subject := by
      unfold Upcoming upcoming
      rw [if_neg hfree, houtbox, List.exists_mem_cons_iff]
    rw [if_pos (hcalls.2 (Or.inl rfl)), houtbox]
    simp [Needs, hbehind, hnot, howed, hupcoming]
  · have hne : runTask ≠ task := Ne.symm heq
    have hsame : runTask ∈ bus.calls ↔ runTask ∈ u.bus.calls := hcalls.trans (or_iff_right hne)
    have hnew : (∃ task', bus.Owes task' r) ↔
        (∃ task', u.bus.Owes task' r) ∨ r ∈ u.bus.subscribers subject := by
      simp only [howes, exists_or, exists_eq_left]
    have hother : ¬ (runTask = task ∧ r ∈ u.bus.subscribers subject) := fun h => hne h.1
    rw [if_congr hsame rfl rfl, hnew, or_iff_left hother, and_or_left]
    unfold Needs Upcoming upcoming
    rw [hbehind, or_assoc, or_assoc]

omit [CaseTable] in
/-- The lock goes to a subscriber: nobody is in a call, and the new channel is empty. -/
theorem trapped_subscribe (hu : u.Wf) {subject : String}
    {waiting : List (LockRequest BusMessage)} {bus : LocalBus BusMessage} {subs : List ℕ}
    (hbus : u.bus.subscribe subject = some bus) (hsubset : ∀ r ∈ u.subs, r ∈ subs)
    (hsubs : ∀ r ∈ subs, r ∈ u.subs ∨ r = u.bus.next) :
    Trapped { u with locked := { bus := bus, waiting := waiting }, subs := subs } ↔
      u.Trapped := by
  have hfull : ∀ r, bus.Full r ↔ u.bus.Full r :=
    fun r => LocalBus.full_subscribe hu.locked.bus hbus
  have hnum : ∀ r, u.bus.Full r → r ≠ u.bus.next := by
    rintro r ⟨ch, hch, -⟩
    exact (hu.locked.bus.numbered r ch hch).ne
  have hneeds : ∀ r, u.bus.Full r → (Needs
      { u with locked := { bus := bus, waiting := waiting }, subs := subs } r ↔ u.Needs r) := by
    intro r hr
    have howes : ∀ task, ¬ u.bus.Owes task r := fun _ => LocalBus.not_owes_of_subscribe hbus
    obtain ⟨-, rfl⟩ := LocalBus.subscribe_spec hbus
    have hmem : ∀ subject', r ∈ Function.update u.bus.subscribers subject
        (u.bus.subscribers subject ++ [u.bus.next]) subject' ↔ r ∈ u.bus.subscribers subject' := by
      intro subject'
      by_cases heq : subject' = subject
      · subst heq
        simp [hnum r hr]
      · simp [Function.update_of_ne heq]
    rw [needs_iff_upcoming howes, needs_iff_upcoming]
    · exact exists_congr fun out => and_congr Iff.rfl (hmem out.subject)
    · exact howes
  constructor
  · rintro ⟨r, hr, hf, hn⟩
    have hf' := (hfull r).1 hf
    exact ⟨r, (hsubs r hr).resolve_right (hnum r hf'), hf', (hneeds r hf').1 hn⟩
  · rintro ⟨r, hr, hf, hn⟩
    exact ⟨r, hsubset r hr, (hfull r).2 hf, (hneeds r hf).2 hn⟩

theorem trapped_grant (hu : u.Wf) (h : u.step (.locked .grant) = some v) :
    v.Trapped ↔ u.Trapped ∨ ¬ u.KeepsRoom (.locked .grant) := by
  obtain ⟨-, locked, hlocked, rfl⟩ := step_locked h
  obtain ⟨q, waiting, bus, hwaiting, hbus, rfl⟩ := LockedBus.grant_spec hlocked
  have hhead := hu.locked.head_not_mem hwaiting
  cases q with
  | publish task subject msg =>
    have hsubs : u.subsAfter .grant = u.subs := by simp [subsAfter, hwaiting]
    have hkeep : u.KeepsRoom (.locked .grant) ↔
        (Behind waiting runTask → ∀ r ∈ u.subs, u.bus.Full r → r ∉ u.bus.subscribers subject) := by
      refine ⟨fun hk => hk task subject msg waiting hwaiting, ?_⟩
      intro hk task' subject' msg' waiting' heq
      obtain ⟨hq, rfl⟩ := List.cons.inj (hwaiting.symm.trans heq)
      cases hq
      exact hk
    refine (trapped_congr (u := u)
      (P := fun r => Behind waiting runTask ∧ r ∈ u.bus.subscribers subject) hsubs ?_ ?_).trans ?_
    · intro r _
      obtain ⟨-, rfl⟩ := LocalBus.publish_spec hbus
      exact Iff.rfl
    · intro r _
      exact needs_publish hu hwaiting hbus
    · refine or_congr_right ?_
      rw [hkeep]
      push Not
      tauto
  | subscribe task subject =>
    have hkeep : u.KeepsRoom (.locked .grant) := by
      intro task' subject' msg' waiting' heq
      rw [hwaiting] at heq
      cases heq
    rw [or_iff_left (not_not.2 hkeep)]
    refine trapped_subscribe hu hbus ?_ ?_
    · intro r hr
      unfold subsAfter
      rw [hwaiting]
      show r ∈ (if task = runTask then u.subs ++ [u.bus.next] else u.subs)
      split_ifs
      · exact List.mem_append_left _ hr
      · exact hr
    · intro r hr
      unfold subsAfter at hr
      rw [hwaiting] at hr
      change r ∈ (if task = runTask then u.subs ++ [u.bus.next] else u.subs) at hr
      split_ifs at hr
      · simpa using hr
      · exact Or.inl hr

theorem trapped_send (hu : u.Wf) {task : ℕ} (h : u.step (.locked (.send task)) = some v) :
    v.Trapped ↔ u.Trapped ∨ ¬ u.KeepsRoom (.locked (.send task)) := by
  obtain ⟨-, locked, hlocked, rfl⟩ := step_locked h
  obtain ⟨bus, hbus, rfl⟩ := Option.map_eq_some_iff.1 hlocked
  have hfull : ∀ r, bus.Full r ↔
      u.bus.Full r ∨ (u.bus.nextSend task = some r ∧ u.bus.LastPlace r) :=
    fun r => LocalBus.full_send hbus
  have hneeds : ∀ r, Needs { u with locked := { u.locked with bus := bus } } r ↔
      (u.bus.Owes runTask r ∧ ¬ (runTask = task ∧ u.bus.nextSend task = some r)) ∨
        u.Upcoming r ∨ (Behind u.locked.waiting runTask ∧
          ∃ task', u.bus.Owes task' r ∧ ¬ (task' = task ∧ u.bus.nextSend task = some r)) := by
    intro r
    have howes : ∀ task', bus.Owes task' r ↔
        u.bus.Owes task' r ∧ ¬ (task' = task ∧ u.bus.nextSend task = some r) :=
      fun _ => LocalBus.owes_send hu.locked.bus hbus
    have hupcoming : upcoming { u with locked := { u.locked with bus := bus } } = u.upcoming :=
      upcoming_congr (LocalBus.mem_calls_send hbus) rfl
    unfold Needs Upcoming
    rw [hupcoming]
    dsimp only [SupervisedBus.bus]
    simp only [howes, LocalBus.subscribers_send hbus]
  have hbeside : ∀ r, u.bus.nextSend task = some r →
      (Needs { u with locked := { u.locked with bus := bus } } r ↔ u.NeedsBeside task r) := by
    intro r hr
    rw [hneeds]
    unfold NeedsBeside
    simp only [hr, and_true]
    rw [and_comm (a := u.bus.Owes runTask r), eq_comm (a := runTask)]
    simp only [and_comm]
  have hother : ∀ r, u.bus.nextSend task ≠ some r →
      (Needs { u with locked := { u.locked with bus := bus } } r ↔ u.Needs r) := by
    intro r hr
    rw [hneeds]
    unfold Needs
    simp only [hr, and_false, not_false_eq_true, and_true]
  constructor
  · rintro ⟨r, hr, hf, hn⟩
    by_cases hnext : u.bus.nextSend task = some r
    · refine Or.inr fun hkeep => ?_
      rcases (hfull r).1 hf with hf | ⟨-, hlast⟩
      · exact LocalBus.not_full_of_send hbus hnext hf
      · exact hkeep r hr hnext hlast ((hbeside r hnext).1 hn)
    · have hf' : u.bus.Full r := ((hfull r).1 hf).resolve_right fun h => hnext h.1
      exact Or.inl ⟨r, hr, hf', (hother r hnext).1 hn⟩
  · rintro (⟨r, hr, hf, hn⟩ | hkeep)
    · have hnext : u.bus.nextSend task ≠ some r := fun h => LocalBus.not_full_of_send hbus h hf
      exact ⟨r, hr, (hfull r).2 (Or.inl hf), (hother r hnext).2 hn⟩
    · unfold KeepsRoom at hkeep
      push Not at hkeep
      obtain ⟨r, hr, hnext, hlast, hn⟩ := hkeep
      exact ⟨r, hr, (hfull r).2 (Or.inr ⟨hnext, hlast⟩), (hbeside r hnext).2 hn⟩

theorem trapped_finish {task : ℕ} (h : u.step (.locked (.finish task)) = some v) :
    v.Trapped ↔ u.Trapped := by
  obtain ⟨-, locked, hlocked, rfl⟩ := step_locked h
  obtain ⟨bus, hbus, rfl⟩ := Option.map_eq_some_iff.1 hlocked
  obtain ⟨hmem, hcalls⟩ : task ∈ u.bus.calls ∧
      (runTask ∈ bus.calls ↔ runTask ≠ task ∧ runTask ∈ u.bus.calls) :=
    LocalBus.mem_calls_finish hbus
  have howes : ∀ task' r, bus.Owes task' r ↔ u.bus.Owes task' r :=
    fun _ _ => LocalBus.owes_finish hbus
  obtain ⟨-, rfl⟩ := LocalBus.finish_spec hbus
  refine trapped_same rfl (fun r _ => Iff.rfl) fun r _ => ?_
  refine needs_congr (fun task' => howes task' r) rfl ?_ rfl
  unfold upcoming outboxAfter
  by_cases heq : task = runTask
  · -- the message of its call was the first of the outbox
    subst heq
    rw [if_neg fun hcall => (hcalls.1 hcall).1 rfl, if_pos hmem]
    show (if runTask = runTask then u.outbox.tail else u.outbox) = u.outbox.tail
    exact if_pos rfl
  · rw [if_congr (hcalls.trans (and_iff_right (Ne.symm heq))) rfl rfl]
    dsimp only
    rw [if_neg heq]

theorem trapped_recv (hu : u.Wf) {r : ℕ} (h : u.step (.locked (.recv r)) = some v) :
    v.Trapped ↔ u.Trapped := by
  obtain ⟨hallows, locked, hlocked, rfl⟩ := step_locked h
  obtain ⟨bus, hbus, rfl⟩ := Option.map_eq_some_iff.1 hlocked
  have hfull : ∀ r', bus.Full r' ↔ u.bus.Full r' ∧ r' ≠ r :=
    fun _ => LocalBus.full_recv hu.locked.bounded hbus
  obtain ⟨ch, m, queue, -, -, -, rfl⟩ := LocalBus.recv_spec hbus
  refine trapped_same rfl ?_ fun r _ => needs_congr (fun _ => Iff.rfl) rfl rfl rfl
  intro r' hr'
  have hne : r' ≠ r := fun heq => hallows (heq ▸ hr')
  exact (hfull r').trans (and_iff_left hne)

/-- Another task is aborted: what is needed may become less. -/
theorem trapped_abort {task : ℕ} (h : u.step (.locked (.abort task)) = some v)
    (hv : v.Trapped) : u.Trapped := by
  obtain ⟨hallows, locked, hlocked, rfl⟩ := step_locked h
  obtain ⟨-, rfl⟩ := LockedBus.abort_spec hlocked
  have hne : runTask ≠ task := Ne.symm hallows
  have howes : ∀ task' r, (u.locked.abort task).bus.Owes task' r → u.bus.Owes task' r := by
    rintro task' r ⟨call, hcall, hr⟩
    refine ⟨call, ?_, hr⟩
    have hne' : task' ≠ task := by
      rintro rfl
      rw [show (u.locked.abort task').bus.calls.lookup task' = none from
        Finmap.lookup_erase _ _] at hcall
      cases hcall
    exact (Finmap.lookup_erase_ne hne').symm.trans hcall
  have hupcoming : upcoming { u with locked := u.locked.abort task } = u.upcoming := by
    refine upcoming_congr ?_ rfl
    exact Finmap.mem_erase.trans (and_iff_right hne)
  obtain ⟨r, hr, hfull, hneeds⟩ := hv
  refine ⟨r, hr, hfull, ?_⟩
  rcases hneeds with hown | hup | ⟨hbehind, task', hother⟩
  · exact Or.inl (howes _ _ hown)
  · obtain ⟨out, hout, hmem⟩ := hup
    exact Or.inr (Or.inl ⟨out, hupcoming ▸ hout, hmem⟩)
  · exact Or.inr (Or.inr ⟨hbehind.mono List.filter_sublist, task', howes _ _ hother⟩)

theorem trapped_drop {r : ℕ} (h : u.step (.locked (.drop r)) = some v) :
    v.Trapped ↔ u.Trapped := by
  obtain ⟨hallows, locked, hlocked, rfl⟩ := step_locked h
  obtain ⟨bus, hbus, rfl⟩ := Option.map_eq_some_iff.1 hlocked
  have hfull : ∀ r', bus.Full r' ↔ u.bus.Full r' ∧ r' ≠ r := fun _ => LocalBus.full_drop hbus
  obtain ⟨ch, -, -, rfl⟩ := LocalBus.drop_spec hbus
  refine trapped_same rfl ?_ fun r _ => needs_congr (fun _ => Iff.rfl) rfl rfl rfl
  intro r' hr'
  have hne : r' ≠ r := fun heq => hallows (heq ▸ hr')
  exact (hfull r').trans (and_iff_left hne)

omit [CaseTable] in
theorem Wf.not_trapped (hu : u.Wf) (h : u.Listening) : ¬ u.Trapped := by
  obtain ⟨hcall, hwaits, houtbox, -⟩ := hu.idle h
  rintro ⟨r, -, -, hneeds⟩
  rw [needs_idle hcall hwaits, houtbox] at hneeds
  obtain ⟨out, hout, -⟩ := hneeds
  cases hout

theorem trapped_take (hu : u.Wf) {k : ℕ} {recorded : Instant} {clock : Clocks}
    (h : u.step (.take k recorded clock) = some v) :
    v.Trapped ↔ u.Trapped ∨ ¬ u.KeepsRoom (.take k recorded clock) := by
  obtain ⟨hlistening, r, i, bus, hinput, hbus, rfl⟩ := step_take h
  obtain ⟨hcall, hwaits, -, -⟩ := hu.idle hlistening
  rw [or_iff_right (hu.not_trapped hlistening)]
  have hfull : ∀ r', bus.Full r' ↔ u.bus.Full r' ∧ r' ≠ r :=
    fun _ => LocalBus.full_recv hu.locked.bounded hbus
  have hsame : bus.calls = u.bus.calls ∧ bus.subscribers = u.bus.subscribers := by
    obtain ⟨ch, m, queue, -, -, -, rfl⟩ := LocalBus.recv_spec hbus
    exact ⟨rfl, rfl⟩
  have hneeds := fun r' => needs_handle (i := i) (r := r') (hsame.1 ▸ hcall) hwaits
  rw [hsame.2] at hneeds
  unfold KeepsRoom
  push Not
  constructor
  · rintro ⟨r', hr', hf, hn⟩
    obtain ⟨hf, hne⟩ := (hfull r').1 hf
    obtain ⟨htrips, hn⟩ := (hneeds r').1 hn
    exact ⟨r, i, hinput, htrips, r', hr', hne, hf, hn⟩
  · rintro ⟨r₁, i₁, hinput₁, htrips, r', hr', hne, hf, hn⟩
    rw [hinput, Option.some.injEq, Prod.mk.injEq] at hinput₁
    obtain ⟨rfl, rfl⟩ := hinput₁
    exact ⟨r', hr', (hfull r').2 ⟨hf, hne⟩, (hneeds r').2 ⟨htrips, hn⟩⟩

theorem trapped_tick (hu : u.Wf) {clock : Clocks} (h : u.step (.tick clock) = some v) :
    v.Trapped ↔ u.Trapped ∨ ¬ u.KeepsRoom (.tick clock) := by
  obtain ⟨hlistening, rfl⟩ := step_tick h
  obtain ⟨hcall, hwaits, -, -⟩ := hu.idle hlistening
  rw [or_iff_right (hu.not_trapped hlistening)]
  have hneeds := fun r => needs_handle (i := .tick clock) (r := r) hcall hwaits
  unfold KeepsRoom
  push Not
  constructor
  · rintro ⟨r, hr, hf, hn⟩
    obtain ⟨htrips, hn⟩ := (hneeds r).1 hn
    exact ⟨htrips, r, hr, hf, hn⟩
  · rintro ⟨htrips, r, hr, hf, hn⟩
    exact ⟨r, hr, hf, (hneeds r).2 ⟨htrips, hn⟩⟩

/-- **A trap is closed by the steps that do not keep room**, and opened at most when a task is
aborted. -/
theorem trapped_step (hu : u.Wf) {a : SupervisedAction} (h : u.step a = some v)
    (ha : ¬ a.IsAbort) : v.Trapped ↔ u.Trapped ∨ ¬ u.KeepsRoom a := by
  have hkeep : u.KeepsRoom a → (v.Trapped ↔ u.Trapped) →
      (v.Trapped ↔ u.Trapped ∨ ¬ u.KeepsRoom a) :=
    fun hk hsame => hsame.trans (or_iff_left (not_not.2 hk)).symm
  cases a with
  | take k recorded clock => exact trapped_take hu h
  | tick clock => exact trapped_tick hu h
  | locked a =>
    cases a with
    | ask q => exact trapped_ask h
    | grant => exact trapped_grant hu h
    | send task => exact trapped_send hu h
    | finish task => exact hkeep trivial (trapped_finish h)
    | abort task => exact absurd trivial ha
    | recv r => exact hkeep trivial (trapped_recv hu h)
    | drop r => exact hkeep trivial (trapped_drop h)

theorem not_trapped_step (hu : u.Wf) {a : SupervisedAction} (h : u.step a = some v)
    (hnot : ¬ u.Trapped) (hkeeps : u.KeepsRoom a) : ¬ v.Trapped := by
  intro hv
  by_cases ha : a.IsAbort
  · obtain ⟨task, rfl⟩ := a.isAbort_iff.1 ha
    exact hnot (trapped_abort h hv)
  · exact ((trapped_step hu h ha).1 hv).elim hnot fun hk => hk hkeeps

/-! ### Whoever is not trapped moves on -/

omit [CaseTable] in
theorem wants_task {q : LockRequest BusMessage} (h : u.wants = some q) : q.task = runTask := by
  unfold wants at h
  cases hsubs : riskSubjects[u.subs.length]? with
  | some subject =>
    rw [hsubs, Option.some.injEq] at h
    exact h ▸ rfl
  | none =>
    rw [hsubs] at h
    cases houtbox : u.outbox with
    | nil =>
      rw [houtbox] at h
      cases h
    | cons out outbox =>
      rw [houtbox, Option.some.injEq] at h
      exact h ▸ rfl

omit [CaseTable] in
theorem not_selfBlocked (h : ¬ u.Trapped) : ¬ u.SelfBlocked := by
  rintro ⟨r, hr, hnext, hfull⟩
  exact h ⟨r, hr, hfull, Or.inl (LocalBus.owes_of_nextSend hnext)⟩

theorem call_advances (hu : u.Wf) {task : ℕ} (hcall : task ∈ u.bus.calls) :
    (∃ a v, (a = .send task ∨ a = .finish task) ∧ u.step (.locked a) = some v) ∨
      ∃ r, u.bus.nextSend task = some r ∧ u.bus.Full r := by
  obtain ⟨call, hlookup⟩ := Finmap.mem_iff.1 hcall
  cases hnext : u.bus.nextSend task with
  | none =>
    obtain ⟨bus, hbus⟩ := LocalBus.exists_finish hlookup hnext
    obtain ⟨v, hv⟩ := exists_step (a := .finish task) trivial (congrArg (Option.map _) hbus)
    exact Or.inl ⟨_, v, Or.inr rfl, hv⟩
  | some r =>
    by_cases hfull : u.bus.Full r
    · exact Or.inr ⟨r, rfl, hfull⟩
    · obtain ⟨bus, hbus⟩ := LocalBus.exists_send hu.locked.bus hnext hfull
      obtain ⟨v, hv⟩ := exists_step (a := .send task) trivial (congrArg (Option.map _) hbus)
      exact Or.inl ⟨_, v, Or.inl rfl, hv⟩

/-- While the task waits for the lock, the lock is given to somebody, or a call in progress goes on
or waits for somebody else's queue. -/
theorem lock_moves_on (hu : u.Wf) (h : ¬ u.Trapped) (hwaits : u.WaitsForLock) : u.MovesOn := by
  obtain ⟨q, waiting, hwaiting⟩ : ∃ q waiting, u.locked.waiting = q :: waiting := by
    refine List.exists_cons_of_ne_nil fun hnil => ?_
    unfold WaitsForLock at hwaits
    rw [hnil] at hwaits
    cases hwaits
  have hgrant : ∀ {bus}, u.bus.carryOut q = some bus → u.MovesOn := by
    intro bus hbus
    have hlocked : (lockedBus BusMessage).step u.locked .grant = some ⟨bus, waiting⟩ := by
      rw [LockedBus.step_grant hwaiting, hbus]
      rfl
    obtain ⟨v, hv⟩ := exists_step (a := .grant) trivial hlocked
    exact Or.inr (Or.inl ⟨hwaits, .grant, v, Or.inl rfl, hv⟩)
  cases q with
  | publish task subject msg =>
    -- a publish gets the lock whoever is in a call
    have hnone : u.bus.calls.lookup task = none :=
      hu.locked.free (.publish task subject msg) (hwaiting ▸ List.mem_cons_self)
    have hbus : u.bus.publish task subject msg = some { u.bus with
        calls := u.bus.calls.insert task ⟨subject, msg, u.bus.subscribers subject⟩ } := by
      unfold LocalBus.publish
      rw [hnone]
    exact hgrant hbus
  | subscribe task subject =>
    by_cases hkeys : u.bus.calls.keys = ∅
    · exact hgrant (if_pos hkeys)
    · -- a subscribe waits for the calls in progress
      obtain ⟨task', htask'⟩ := Finset.nonempty_iff_ne_empty.2 hkeys
      rcases call_advances hu (Finmap.mem_keys.1 htask') with ⟨a, v, ha, hv⟩ | ⟨r, hnext, hfull⟩
      · exact Or.inr (Or.inl ⟨hwaits, a, v, Or.inr ⟨task', ha⟩, hv⟩)
      · have hbehind : Behind u.locked.waiting runTask := by
          rw [hwaiting]
          refine behind_of_subscribe trivial ?_
          rw [← hwaiting]
          exact hwaits
        refine Or.inr (Or.inr ⟨task', r, Or.inr hwaits, hnext, hfull, fun hr => ?_⟩)
        refine h ⟨r, hr, hfull, Or.inr (Or.inr ⟨hbehind, task', ?_⟩)⟩
        exact LocalBus.owes_of_nextSend hnext

/-- **Whoever is not trapped moves on.** -/
theorem moves_on (hu : u.Wf) (h : ¬ u.Trapped) : u.MovesOn := by
  by_cases hcall : runTask ∈ u.bus.calls
  · -- in a call it sends or returns, or waits for somebody else's queue
    rcases call_advances hu hcall with ⟨a, v, ha, hv⟩ | ⟨r, hnext, hfull⟩
    · refine Or.inl ⟨_, v, ?_, hv⟩
      rcases ha with rfl | rfl <;> rfl
    · refine Or.inr (Or.inr ⟨runTask, r, Or.inl rfl, hnext, hfull, ?_⟩)
      exact fun hr => h ⟨r, hr, hfull, Or.inl (LocalBus.owes_of_nextSend hnext)⟩
  · by_cases hwaits : u.WaitsForLock
    · exact lock_moves_on hu h hwaits
    · cases hwants : u.wants with
      | none => exact Or.inl ⟨.tick ⟨0, 0⟩, _, trivial, if_pos hwants⟩
      | some q =>
        have htask := wants_task hwants
        have hbusy : ¬ u.locked.Busy q.task := by
          rw [htask]
          exact not_or.2 ⟨hwaits, hcall⟩
        obtain ⟨v, hv⟩ := exists_step (a := .ask q) (fun _ => hwants) (if_neg hbusy)
        exact Or.inl ⟨.locked (.ask q), v, htask, hv⟩

/-! ### Runs -/

theorem service_step (hnot : ¬ u.Listening) {a : SupervisedAction} (h : u.step a = some v) :
    v.service = u.service := by
  cases a with
  | take k recorded clock => exact absurd (step_take h).1 hnot
  | tick clock => exact absurd (step_tick h).1 hnot
  | locked a =>
    obtain ⟨-, locked, -, rfl⟩ := step_locked h
    rfl

/-- **A trapped task never takes a message again**, unless a task is aborted. -/
theorem trapped_forever (hu : u.Wf) (ht : u.Trapped) {bs : List SupervisedAction}
    (hbs : ∀ b ∈ bs, ¬ b.IsAbort) (h : supervisedBus.exec u bs = some v) :
    v.Wf ∧ v.Trapped ∧ v.service = u.service := by
  induction bs using List.reverseRecOn generalizing v with
  | nil =>
    cases h
    exact ⟨hu, ht, rfl⟩
  | append_singleton bs b ih =>
    obtain ⟨t, hexec, hstep⟩ := supervisedBus.exec_concat_iff.1 h
    obtain ⟨hwf, htrapped, hservice⟩ := ih (fun c hc => hbs c (List.mem_append_left _ hc)) hexec
    have hb : ¬ b.IsAbort := hbs b (by simp)
    refine ⟨hwf.step hstep, (trapped_step hwf hstep hb).2 (Or.inl htrapped), ?_⟩
    exact (service_step (fun hl => hwf.not_trapped hl htrapped) hstep).trans hservice

theorem kept_run (cfg : GlobalRiskConfig) {as : List SupervisedAction}
    (h : supervisedBus.exec (start cfg) as = some u) :
    u.Wf ∧ (supervisedBus.Throughout (start cfg) KeepsRoom as → ¬ u.Trapped) := by
  refine ⟨Interleaving.exec_invariant (wf_start cfg) (fun _ _ _ hwf ha => hwf.step ha) h, ?_⟩
  intro hkeeps
  have hinv : u.Wf ∧ ¬ u.Trapped := by
    refine hkeeps.invariant (Q := fun u => u.Wf ∧ ¬ u.Trapped) ⟨wf_start cfg, ?_⟩ ?_ h
    · rintro ⟨r, hr, -⟩
      cases hr
    · rintro t a t' ⟨hwf, hnot⟩ hnow ha
      exact ⟨hwf.step ha, not_trapped_step hwf ha hnot hnow⟩
  exact hinv.2

/-- **Exactly when the supervisor cannot block itself**: as long as every step keeps room, it does
not wait for room in its own queue, and can go on or waits for others; after a step that does not,
it never takes a message again, unless a task is aborted. -/
theorem supervisor_stalls_iff (cfg : GlobalRiskConfig) {as : List SupervisedAction}
    (h : supervisedBus.exec (start cfg) as = some u) :
    (supervisedBus.Throughout (start cfg) KeepsRoom as → ¬ u.SelfBlocked ∧ u.MovesOn) ∧
      ∀ a t, supervisedBus.step u a = some t → ¬ u.KeepsRoom a →
        ∀ bs v, (∀ b ∈ bs, ¬ b.IsAbort) → supervisedBus.exec t bs = some v →
          v.service = t.service ∧ ¬ v.Listening := by
  obtain ⟨hwf, hnot⟩ := kept_run cfg h
  constructor
  · intro hkeeps
    exact ⟨not_selfBlocked (hnot hkeeps), moves_on hwf (hnot hkeeps)⟩
  · intro a t ha hkeep bs v hbs hexec
    -- the step is no abort, so it closes the trap
    have habort : ¬ a.IsAbort := by
      intro habort
      obtain ⟨task, rfl⟩ := a.isAbort_iff.1 habort
      exact hkeep trivial
    have htrapped : t.Trapped := (trapped_step hwf ha habort).2 (Or.inr hkeep)
    obtain ⟨hwf', htrapped', hservice⟩ := trapped_forever (hwf.step ha) htrapped hbs hexec
    exact ⟨hservice, fun hl => hwf'.not_trapped hl htrapped'⟩

end Steps

/-! ### The log queue fills up before the breaker trips -/

/-- The run task makes its subscriptions. -/
def subscribing : List SupervisedAction :=
  riskSubjects.flatMap fun subject =>
    [.locked (.ask (.subscribe runTask subject)), .locked .grant]

/-- Another task publishes to one subscriber. -/
def publishing (subject : String) (msg : BusMessage) : List SupervisedAction :=
  [.locked (.ask (.publish 1 subject msg)), .locked .grant, .locked (.send 1), .locked (.finish 1)]

/-- The run task publishes a signal that nobody is subscribed to. -/
def signalling (subject : String) : List SupervisedAction :=
  [.locked (.ask (.publish runTask subject .empty)), .locked .grant, .locked (.finish runTask)]

/-- The event the breaker publishes. -/
def breakerEvent : LogEvent where
  ts := 0
  level := .error
  source := .kernel
  message := "circuit breaker triggered"
  fields := [("reason", .text "risk limits breached")]
  correlationId := none
  traceId := none

/-- The run task gets the lock to publish the event. -/
def announcing : List SupervisedAction :=
  [.locked (.ask (.publish runTask "log.event" (.ofLog breakerEvent))), .locked .grant]

/-- Errors come into the queue of `log.event`, and the task takes an order that breaches the
limits. -/
def alarmed (errors : ℕ) : List SupervisedAction :=
  subscribing ++ (List.replicate errors (publishing "log.event" (.ofLog breakerEvent))).flatten ++
    publishing "orders.result" (.ofOrder lossOrder) ++ [.take 0 0 ⟨0, 0⟩]

/-- Errors fill the queue; the task takes the order, and publishes what the breaker has to say. -/
def stalling : List SupervisedAction :=
  alarmed channelCapacity ++ announcement.flatMap signalling ++ announcing

/-- The run task has subscribed, nobody is in a call or waits for the lock, and the queues of orders
and events hold so much. -/
structure Quiet (u : SupervisedBus) (service : RiskSupervisorService) (outbox : List RiskOutput)
    (orders : List (Sent BusMessage)) (n : ℕ) : Prop where
  service : u.service = service
  outbox : u.outbox = outbox
  subs : u.subs = [0, 1, 2]
  waiting : u.locked.waiting = []
  calls : ∀ task, u.bus.calls.lookup task = none
  toOrders : u.bus.subscribers "orders.result" = [0]
  toLogs : u.bus.subscribers "log.event" = [1]
  toNobody : ∀ subject ∈ announcement, u.bus.subscribers subject = []
  orders : ∃ ch, u.bus.channels.lookup 0 = some ch ∧ ch.alive = true ∧ ch.queue = orders
  logs : ∃ ch, u.bus.channels.lookup 1 = some ch ∧ ch.alive = true ∧ ch.queue.length = n

section Stalling

variable [CaseTable] {u : SupervisedBus} {service : RiskSupervisorService}
  {outbox : List RiskOutput} {orders : List (Sent BusMessage)} {n : ℕ}

theorem exec_subscribing (cfg : GlobalRiskConfig) :
    ∃ u, supervisedBus.exec (start cfg) subscribing = some u ∧ u.Quiet (.new cfg) [] [] 0 := by
  refine ⟨_, rfl, rfl, rfl, rfl, rfl, fun _ => rfl, rfl, rfl, ?_, ⟨_, rfl, rfl, rfl⟩,
    ⟨_, rfl, rfl, rfl⟩⟩
  refine List.forall_mem_cons.2 ⟨rfl, List.forall_mem_cons.2 ⟨rfl, ?_⟩⟩
  exact fun _ h => absurd h List.not_mem_nil

omit [CaseTable] in
theorem lookup_erase_of {calls : Finmap fun _ : ℕ => Call BusMessage} {task task' : ℕ}
    (h : task' ≠ task → calls.lookup task' = none) : (calls.erase task).lookup task' = none := by
  by_cases heq : task' = task
  · rw [heq, Finmap.lookup_erase]
  · rw [Finmap.lookup_erase_ne heq, h heq]

theorem exec_publishing {subject : String} {msg : BusMessage} {r : ℕ} {ch : Channel BusMessage}
    (hu : u.Quiet service outbox orders n) (hsub : u.bus.subscribers subject = [r])
    (hch : u.bus.channels.lookup r = some ch) (halive : ch.alive = true)
    (hroom : ch.queue.length < channelCapacity) :
    ∃ calls, (∀ task, calls.lookup task = none) ∧
      supervisedBus.exec u (publishing subject msg) = some { u with
        locked := { u.locked with bus := { u.bus with
          calls := calls
          channels := u.bus.channels.insert r
            { ch with queue := ch.queue ++ [⟨1, msg⟩] } } } } := by
  obtain ⟨⟨bus, waiting⟩, service', subs, outbox'⟩ := u
  obtain ⟨rfl, rfl, rfl, rfl, hcalls, -⟩ := hu
  dsimp only [SupervisedBus.bus] at hcalls hsub hch
  have hnot : 1 ∉ bus.calls := Finmap.lookup_eq_none.1 (hcalls 1)
  refine ⟨((bus.calls.insert 1 ⟨subject, msg, [r]⟩).insert 1 ⟨subject, msg, []⟩).erase 1, ?_, ?_⟩
  · intro task
    refine lookup_erase_of fun hne => ?_
    rw [Finmap.lookup_insert_of_ne _ hne, Finmap.lookup_insert_of_ne _ hne, hcalls]
  · simp [publishing, supervisedBus, Interleaving.exec, step, lockedBus, Allows, LockedBus.Busy,
      LocalBus.carryOut, LocalBus.publish, hcalls, hnot, hsub, LocalBus.send, LockRequest.task,
      runTask, hch, halive, hroom, LocalBus.finish, subsAfter, outboxAfter]

theorem exec_event (hu : u.Quiet service outbox orders n) (hn : n < channelCapacity) :
    ∃ v, supervisedBus.exec u (publishing "log.event" (.ofLog breakerEvent)) = some v ∧
      v.Quiet service outbox orders (n + 1) := by
  obtain ⟨ch, hch, halive, rfl⟩ := hu.logs
  obtain ⟨calls, hcalls, hexec⟩ := exec_publishing hu hu.toLogs hch halive hn
  refine ⟨_, hexec, { hu with calls := hcalls, orders := ?_, logs := ?_ }⟩
  · obtain ⟨ch', hch', horders⟩ := hu.orders
    exact ⟨ch', (Finmap.lookup_insert_of_ne _ (by decide)).trans hch', horders⟩
  · exact ⟨_, Finmap.lookup_insert _, halive, by simp⟩

theorem exec_events (hu : u.Quiet service outbox orders 0) : ∀ n, n ≤ channelCapacity →
    ∃ v, supervisedBus.exec u
        (List.replicate n (publishing "log.event" (.ofLog breakerEvent))).flatten = some v ∧
      v.Quiet service outbox orders n := by
  intro n
  induction n with
  | zero => exact fun _ => ⟨u, rfl, hu⟩
  | succ n ih =>
    intro hn
    obtain ⟨v, hv, hquiet⟩ := ih (Nat.le_of_succ_le hn)
    obtain ⟨w, hw, hquiet'⟩ := exec_event hquiet hn
    refine ⟨w, ?_, hquiet'⟩
    rw [List.replicate_succ', List.flatten_append]
    exact Interleaving.exec_trans hv (by simpa using hw)

theorem exec_order (result : OrderResult) (hu : u.Quiet service outbox [] n) :
    ∃ v, supervisedBus.exec u (publishing "orders.result" (.ofOrder result)) = some v ∧
      v.Quiet service outbox [⟨1, .ofOrder result⟩] n := by
  obtain ⟨ch, hch, halive, hqueue⟩ := hu.orders
  have hroom : ch.queue.length < channelCapacity := by simp [hqueue, channelCapacity]
  obtain ⟨calls, hcalls, hexec⟩ := exec_publishing hu hu.toOrders hch halive hroom
  refine ⟨_, hexec, { hu with calls := hcalls, orders := ?_, logs := ?_ }⟩
  · exact ⟨_, Finmap.lookup_insert _, halive, by simp [hqueue]⟩
  · obtain ⟨ch', hch', hlogs⟩ := hu.logs
    exact ⟨ch', (Finmap.lookup_insert_of_ne _ (by decide)).trans hch', hlogs⟩

theorem exec_signalling {subject : String} (hsubject : subject ∈ announcement)
    (hu : u.Quiet service (.signal subject :: outbox) orders n) :
    ∃ v, supervisedBus.exec u (signalling subject) = some v ∧ v.Quiet service outbox orders n := by
  obtain ⟨⟨bus, waiting⟩, service', subs, outbox'⟩ := u
  obtain ⟨rfl, rfl, rfl, rfl, hcalls, horders, hlogs, hnobody, hch, hch'⟩ := hu
  dsimp only [SupervisedBus.bus] at hcalls horders hlogs hnobody hch hch'
  have hnot : 0 ∉ bus.calls := Finmap.lookup_eq_none.1 (hcalls 0)
  have hsub := hnobody subject hsubject
  have hnone : riskSubjects[3]? = none := rfl
  have hexec : supervisedBus.exec
      ⟨⟨bus, []⟩, service', [0, 1, 2], .signal subject :: outbox⟩ (signalling subject) =
        some ⟨⟨{ bus with calls := (bus.calls.insert 0 ⟨subject, .empty, []⟩).erase 0 }, []⟩,
          service', [0, 1, 2], outbox⟩ := by
    simp [signalling, supervisedBus, Interleaving.exec, step, lockedBus, Allows, LockedBus.Busy,
      LocalBus.carryOut, LocalBus.publish, hcalls, hnot, hsub, LockRequest.task, runTask,
      LocalBus.finish, subsAfter, outboxAfter, wants, hnone, RiskOutput.subject,
      RiskOutput.message]
  refine ⟨_, hexec, rfl, rfl, rfl, rfl, ?_, horders, hlogs, hnobody, hch, hch'⟩
  intro task
  refine lookup_erase_of fun hne => ?_
  rw [Finmap.lookup_insert_of_ne _ hne, hcalls]

theorem exec_take {result : OrderResult} (clock : Clocks)
    (hu : u.Quiet service [] [⟨1, .ofOrder result⟩] n) :
    ∃ v, supervisedBus.exec u [.take 0 0 clock] = some v ∧
      v.Quiet (riskSupervisor.next service (.orderResult (some result) clock))
        (riskSupervisor.emit service (.orderResult (some result) clock)) [] n := by
  obtain ⟨⟨bus, waiting⟩, service', subs, outbox'⟩ := u
  obtain ⟨rfl, rfl, rfl, rfl, hcalls, horders, hlogs, hnobody, hch, hch'⟩ := hu
  obtain ⟨ch, hch, halive, hqueue⟩ := hch
  dsimp only [SupervisedBus.bus] at hcalls horders hlogs hnobody hch hch'
  obtain ⟨subject, alive, queue, received⟩ := ch
  dsimp only at halive hqueue
  subst halive hqueue
  have hlistening : Listening ⟨⟨bus, []⟩, service', [0, 1, 2], []⟩ := rfl
  let ch' : Channel BusMessage := ⟨subject, true, [], received ++ [⟨1, .ofOrder result⟩]⟩
  have hexec : supervisedBus.exec ⟨⟨bus, []⟩, service', [0, 1, 2], []⟩ [.take 0 0 clock] =
      some ⟨⟨{ bus with channels := bus.channels.insert 0 ch' }, []⟩,
        riskSupervisor.next service' (.orderResult (some result) clock), [0, 1, 2],
        riskSupervisor.emit service' (.orderResult (some result) clock)⟩ := by
    simp [supervisedBus, Interleaving.exec, step, hlistening, input, hch, LocalBus.recv, handle,
      riskInput, ch', BusMessage.ofOrder]
  refine ⟨_, hexec, rfl, rfl, rfl, rfl, hcalls, horders, hlogs, hnobody, ?_, ?_⟩
  · exact ⟨_, Finmap.lookup_insert _, rfl, rfl⟩
  · obtain ⟨ch', hch', hlogs⟩ := hch'
    exact ⟨ch', (Finmap.lookup_insert_of_ne _ (by decide)).trans hch', hlogs⟩

/-- The task gets the lock to publish its event, and its own queue is full. -/
theorem exec_blocked (hu : u.Quiet service [.log breakerEvent] orders channelCapacity) :
    ∃ v, supervisedBus.exec u announcing = some v ∧ v.SelfBlocked := by
  obtain ⟨⟨bus, waiting⟩, service', subs, outbox'⟩ := u
  obtain ⟨rfl, rfl, rfl, rfl, hcalls, horders, hlogs, hnobody, hch, hch'⟩ := hu
  obtain ⟨ch, hch', halive, hfull⟩ := hch'
  dsimp only [SupervisedBus.bus] at hcalls horders hlogs hnobody hch hch'
  have hnot : 0 ∉ bus.calls := Finmap.lookup_eq_none.1 (hcalls 0)
  have hnone : riskSubjects[3]? = none := rfl
  let call : Call BusMessage := ⟨"log.event", .ofLog breakerEvent, [1]⟩
  have hexec : supervisedBus.exec ⟨⟨bus, []⟩, service', [0, 1, 2], [.log breakerEvent]⟩
      announcing = some ⟨⟨{ bus with calls := bus.calls.insert 0 call }, []⟩, service', [0, 1, 2],
        [.log breakerEvent]⟩ := by
    simp [announcing, call, supervisedBus, Interleaving.exec, step, lockedBus, Allows,
      LockedBus.Busy, LocalBus.carryOut, LocalBus.publish, hcalls, hnot, hlogs, LockRequest.task,
      runTask, LocalBus.finish, subsAfter, outboxAfter, wants, hnone, RiskOutput.subject,
      RiskOutput.message]
  refine ⟨_, hexec, 1, List.mem_cons_of_mem 0 List.mem_cons_self, ?_, ch, hch', halive, hfull.ge⟩
  simp [LocalBus.nextSend, runTask, call]

end Stalling

theorem exec_alarmed {errors : ℕ} (h : errors ≤ channelCapacity) :
    ∃ u service, (@supervisedBus asciiCase).exec (start lossLimits) (alarmed errors) = some u ∧
      u.Quiet service
        [.signal "control.strategy.pause_all", .signal "control.exec.block_new_orders",
          .log breakerEvent] [] errors := by
  let _ := asciiCase
  -- the task subscribes, and the events come in
  obtain ⟨u₁, h₁, hq₁⟩ := exec_subscribing lossLimits
  obtain ⟨u₂, h₂, hq₂⟩ := exec_events hq₁ errors h
  -- the order comes in, and is taken
  obtain ⟨u₃, h₃, hq₃⟩ := exec_order lossOrder hq₂
  obtain ⟨u₄, h₄, hq₄⟩ := exec_take ⟨0, 0⟩ hq₃
  have hemit : riskSupervisor.emit (.new lossLimits) (.orderResult (some lossOrder) ⟨0, 0⟩) =
      [.signal "control.strategy.pause_all", .signal "control.exec.block_new_orders",
        .log breakerEvent] := by
    decide +kernel
  rw [hemit] at hq₄
  refine ⟨u₄, _, ?_, hq₄⟩
  have hrun := Interleaving.exec_trans h₁ (Interleaving.exec_trans h₂
    (Interleaving.exec_trans h₃ h₄))
  simpa [alarmed] using hrun

/-- Two errors are in the queue, the order is taken, and the first signal is out. -/
theorem supervisor_stalls_iff_sample :
    let as := alarmed 2 ++ signalling "control.strategy.pause_all"
    ∃ u, (@supervisedBus asciiCase).exec (start lossLimits) as = some u ∧
      ((@supervisedBus asciiCase).Throughout (start lossLimits) (@KeepsRoom asciiCase) as →
        ¬ u.SelfBlocked ∧ @MovesOn asciiCase u) ∧
      ∀ a t, (@supervisedBus asciiCase).step u a = some t → ¬ @KeepsRoom asciiCase u a →
        ∀ bs v, (∀ b ∈ bs, ¬ b.IsAbort) → (@supervisedBus asciiCase).exec t bs = some v →
          v.service = t.service ∧ ¬ v.Listening := by
  obtain ⟨u, service, hu, hquiet⟩ := exec_alarmed (show 2 ≤ channelCapacity by decide)
  obtain ⟨v, hv, -⟩ := @exec_signalling asciiCase _ _ _ _ _ _ (by decide) hquiet
  have hrun := Interleaving.exec_trans hu hv
  exact ⟨v, hrun, @supervisor_stalls_iff asciiCase _ lossLimits _ hrun⟩

/-- **The supervisor blocks itself**: errors fill the queue of `log.event`, an order trips the
breaker, and the breaker has to publish an event of its own. -/
theorem supervisor_blocks_itself :
    ∃ u, (@supervisedBus asciiCase).exec (start lossLimits) stalling = some u ∧ u.SelfBlocked := by
  let _ := asciiCase
  obtain ⟨u, service, hu, hquiet⟩ := exec_alarmed le_rfl
  -- the two signals are published, and the event is not
  obtain ⟨v, hv, hquiet⟩ := exec_signalling (by decide) hquiet
  obtain ⟨w, hw, hquiet⟩ := exec_signalling (by decide) hquiet
  obtain ⟨x, hx, hblocked⟩ := exec_blocked hquiet
  refine ⟨x, ?_, hblocked⟩
  have hrun := Interleaving.exec_trans hu (Interleaving.exec_trans hv
    (Interleaving.exec_trans hw hx))
  simpa [stalling, announcement] using hrun

end SupervisedBus

end W2uos
