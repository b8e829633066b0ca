import Mathlib.Tactic.Abel
import W2uos.Bus.Jams

/-!
# Draining the bus

When no task takes up anything new, the messages in the channels are handled one after the other,
and lead to others.  If this does not go round in circles, that is if no subject leads, over the
answers of the tasks, back to itself, everything comes to rest after finitely many steps, in any
order.

* `Wiring.Leads` : a message on a subject makes a task publish on another;
* `WiredBus.load` : what there is still to do;
* `load_shrinks` : every step but taking up work leaves less to do;
* `settles` : **every run without new work is finite, and ends when all is done or in a jam.**.
-/

namespace W2uos

variable {μ : Type} {W : Wiring}

/-- A message on the first subject makes a task publish on the second. -/
def Wiring.Leads (W : Wiring) (subject subject' : String) : Prop :=
  ∃ p, W.answers p subject subject'

/-- What is to be done for a message of a subject is more than for one it leads to; for one message,
it gets less from the request to the receipt. -/
def Wiring.Below (W : Wiring) : String × ℕ → String × ℕ → Prop :=
  Prod.Lex (fun subject' subject => W.Leads subject subject') (· < ·)

/-- The step does not take up anything new. -/
def WiredAction.IsInner : WiredAction μ → Prop
  | .work _ _ => False
  | _ => True

def Wiring.Inner (W : Wiring) (s : WiredBus μ) (a : WiredAction μ) : Prop :=
  a.IsInner ∧ W.Permits s a

def LockRequest.subject : LockRequest μ → String
  | publish _ subject _ => subject
  | subscribe _ subject => subject

namespace WiredBus

/-- The requests of a task, and the message it handles. -/
def taskLoad (x : WiredTask μ) : Multiset (String × ℕ) :=
  (x.outbox.map fun q => (q.subject, 5) : List (String × ℕ)) +
    (x.handling.toList.map fun subject => (subject, 0) : List (String × ℕ))

/-- The requests that wait. -/
def queueLoad (waiting : List (LockRequest μ)) : Multiset (String × ℕ) :=
  (waiting.map fun q => (q.subject, 4) : List (String × ℕ))

/-- A call and its sends. -/
def callLoad (c : Call μ) : Multiset (String × ℕ) :=
  (c.subject, 3) ::ₘ Multiset.replicate c.remaining.length (c.subject, 2)

/-- A receiver that is there, and its messages. -/
def channelLoad (ch : Channel μ) : Multiset (String × ℕ) :=
  if ch.alive then (ch.subject, 0) ::ₘ Multiset.replicate ch.queue.length (ch.subject, 1) else 0

/-- What there is still to do. -/
def load (s : WiredBus μ) : Multiset (String × ℕ) :=
  weight taskLoad s.tasks + queueLoad s.locked.waiting + weight callLoad s.locked.bus.calls +
    weight channelLoad s.locked.bus.channels

variable {s t : WiredBus μ} {p q r : ℕ}

theorem below_wf (h : WellFounded fun subject' subject => W.Leads subject subject') :
    WellFounded W.Below :=
  WellFounded.prod_lex h wellFounded_lt

theorem below_of_lt {subject : String} {m n : ℕ} (h : m < n) :
    W.Below (subject, m) (subject, n) := Prod.Lex.right _ h

theorem weight_task (s : WiredBus μ) (p : ℕ) :
    weight taskLoad s.tasks = taskLoad (s.task p) + weight taskLoad (s.tasks.erase p) := by
  cases h : s.tasks.lookup p with
  | none =>
    have hnew : s.task p = .new := by rw [task, h, Option.getD_none]
    have hzero : taskLoad (WiredTask.new : WiredTask μ) = 0 := rfl
    rw [hnew, hzero, zero_add, weight_erase_of_none h]
  | some x =>
    have hx : s.task p = x := by rw [task, h, Option.getD_some]
    rw [hx, weight_erase h]

theorem taskLoad_handling {x : WiredTask μ} {subject : String} (h : x.handling = none) :
    taskLoad { x with handling := some subject } = taskLoad x + {(subject, 0)} := by
  simp [taskLoad, h]

theorem taskLoad_handled {x : WiredTask μ} {subject : String} (h : x.handling = some subject)
    (hout : x.outbox = []) : taskLoad x = {(subject, 0)} := by
  simp [taskLoad, h, hout]

theorem taskLoad_ask {x : WiredTask μ} {request : LockRequest μ} {outbox : List (LockRequest μ)}
    (h : x.outbox = request :: outbox) :
    taskLoad x = {(request.subject, 5)} + taskLoad { x with outbox := outbox } := by
  simp [taskLoad, h]

theorem queueLoad_append (waiting waiting' : List (LockRequest μ)) :
    queueLoad (waiting ++ waiting') = queueLoad waiting + queueLoad waiting' := by
  simp [queueLoad]

theorem queueLoad_cons (request : LockRequest μ) (waiting : List (LockRequest μ)) :
    queueLoad (request :: waiting) = {(request.subject, 4)} + queueLoad waiting := by
  simp [queueLoad]

theorem callLoad_send {c : Call μ} {rs : List ℕ} (h : c.remaining = r :: rs) :
    callLoad c = {(c.subject, 2)} + callLoad { c with remaining := rs } := by
  rw [callLoad, h, List.length_cons, Multiset.replicate_succ, callLoad, Multiset.cons_swap,
    Multiset.singleton_add]

theorem channelLoad_append {ch : Channel μ} (halive : ch.alive = true) (m : Sent μ) :
    channelLoad { ch with queue := ch.queue ++ [m] } = channelLoad ch + {(ch.subject, 1)} := by
  simp only [channelLoad, halive, if_true, List.length_append, List.length_singleton,
    Multiset.replicate_succ]
  rw [Multiset.cons_swap, ← Multiset.singleton_add, add_comm]

theorem channelLoad_recv {ch : Channel μ} {m : Sent μ} {queue : List (Sent μ)}
    (halive : ch.alive = true) (hqueue : ch.queue = m :: queue) (received : List (Sent μ)) :
    channelLoad ch =
      channelLoad { ch with queue := queue, received := received } + {(ch.subject, 1)} := by
  simp only [channelLoad, halive, if_true, hqueue, List.length_cons, Multiset.replicate_succ]
  rw [Multiset.cons_swap, ← Multiset.singleton_add, add_comm]

theorem channelLoad_drop (ch : Channel μ) (queue : List (Sent μ)) :
    channelLoad { ch with alive := false, queue := queue } = 0 := rfl

theorem channelLoad_ne_zero {ch : Channel μ} (halive : ch.alive = true) : channelLoad ch ≠ 0 := by
  simp [channelLoad, halive]

/-! ### The steps -/

theorem load_take (h : (wiredBus μ).step s (.take p r) = some t) :
    Shrinks W.Below t.load s.load := by
  obtain ⟨hidle, -, ch, bus, hch, hbus, rfl⟩ := take_spec h
  obtain ⟨ch', m, queue, hch', halive, hqueue, rfl⟩ := LocalBus.recv_spec hbus
  rw [hch, Option.some.injEq] at hch'
  subst hch'
  refine shrinks_of_add_eq (a := (ch.subject, 1)) (u := {(ch.subject, 0)}) ?_ ?_
  · unfold load
    dsimp only
    rw [weight_insert, weight_insert, taskLoad_handling hidle.1, weight_task s p,
      weight_erase hch, channelLoad_recv halive hqueue (ch.received ++ [m])]
    abel
  · intro b hb
    rw [Multiset.mem_singleton.1 hb]
    exact below_of_lt (by decide)

theorem load_handle (hs : s.Wf W) {requests : List (LockRequest μ)}
    (hpermits : W.Permits s (.handle p requests))
    (h : (wiredBus μ).step s (.handle p requests) = some t) : Shrinks W.Below t.load s.load := by
  obtain ⟨⟨subject, hhandling⟩, rfl⟩ := handle_spec h
  have hsilent := hs.silent p (by rw [hhandling]; exact Option.some_ne_none _)
  have hout : (s.task p).outbox = [] := by
    by_contra hout
    exact hsilent (Or.inl hout)
  refine shrinks_of_add_eq (a := (subject, 0))
    (u := (requests.map fun q => (q.subject, 5) : List (String × ℕ))) ?_ ?_
  · unfold load setTask
    dsimp only
    rw [weight_insert, weight_task s p, taskLoad_handled hhandling hout]
    simp only [taskLoad, Option.toList_none, List.map_nil, Multiset.coe_nil, add_zero]
    abel
  · intro b hb
    obtain ⟨q, hq, rfl⟩ := List.mem_map.1 (Multiset.mem_coe.1 hb)
    obtain ⟨subject', msg, rfl, hanswers⟩ := hpermits subject hhandling q hq
    exact Prod.Lex.left _ _ ⟨p, hanswers⟩

theorem load_leave (h : (wiredBus μ).step s (.leave p r) = some t) :
    Shrinks W.Below t.load s.load := by
  obtain ⟨-, -, bus, hbus, rfl⟩ := leave_spec h
  obtain ⟨ch, hch, halive, rfl⟩ := LocalBus.drop_spec hbus
  refine shrinks_of_eq_add (u := channelLoad ch) ?_ (channelLoad_ne_zero halive)
  have htask : taskLoad { s.task p with subs := (s.task p).subs.erase r } = taskLoad (s.task p) :=
    rfl
  unfold load
  dsimp only
  rw [weight_insert, weight_insert, weight_task s p, weight_erase hch, channelLoad_drop, htask]
  abel

theorem load_ask (h : (wiredBus μ).step s (.ask p) = some t) :
    Shrinks W.Below t.load s.load := by
  obtain ⟨request, outbox, locked, houtbox, hlocked, rfl⟩ := ask_spec h
  obtain ⟨-, rfl⟩ := LockedBus.ask_spec hlocked
  refine shrinks_of_add_eq (a := (request.subject, 5)) (u := {(request.subject, 4)}) ?_ ?_
  · unfold load
    dsimp only
    rw [weight_insert, weight_task s p, taskLoad_ask houtbox, queueLoad_append, queueLoad_cons]
    simp only [queueLoad, List.map_nil, Multiset.coe_nil, add_zero]
    abel
  · intro b hb
    rw [Multiset.mem_singleton.1 hb]
    exact below_of_lt (by decide)

theorem load_grant (hs : s.Wf W) (h : (wiredBus μ).step s .grant = some t) :
    Shrinks W.Below t.load s.load := by
  obtain ⟨locked, hlocked, rfl⟩ := grant_spec h
  obtain ⟨request, waiting, bus, hwaiting, hbus, rfl⟩ := LockedBus.grant_spec hlocked
  cases request with
  | publish p subject msg =>
    obtain ⟨hnone, rfl⟩ := LocalBus.publish_spec hbus
    have htasks : s.granted = s.tasks := by rw [granted, hwaiting]
    refine shrinks_of_add_eq (a := (subject, 4))
      (u := callLoad ⟨subject, msg, s.locked.bus.subscribers subject⟩) ?_ ?_
    · unfold load
      dsimp only
      rw [htasks, hwaiting, weight_insert, weight_erase_of_none hnone, queueLoad_cons]
      simp only [LockRequest.subject]
      abel
    · intro b hb
      rcases Multiset.mem_cons.1 hb with rfl | hb
      · exact below_of_lt (by decide)
      · rw [Multiset.eq_of_mem_replicate hb]
        exact below_of_lt (by decide)
  | subscribe p subject =>
    obtain ⟨-, rfl⟩ := LocalBus.subscribe_spec hbus
    have hfresh : s.locked.bus.channels.lookup s.locked.bus.next = none := by
      cases hch : s.locked.bus.channels.lookup s.locked.bus.next with
      | none => rfl
      | some ch => exact absurd (hs.locked.bus.numbered _ ch hch) (lt_irrefl _)
    have htasks : weight taskLoad s.granted = weight taskLoad s.tasks := by
      have htask : taskLoad { s.task p with subs := (s.task p).subs ++ [s.locked.bus.next] } =
          taskLoad (s.task p) := rfl
      rw [granted, hwaiting]
      dsimp only
      rw [weight_insert, htask, weight_task s p]
    refine shrinks_of_add_eq (a := (subject, 4)) (u := {(subject, 0)}) ?_ ?_
    · unfold load
      dsimp only
      rw [htasks, hwaiting, weight_insert, weight_erase_of_none hfresh, queueLoad_cons]
      simp only [LockRequest.subject, channelLoad, if_true, List.length_nil,
        Multiset.replicate_zero, Multiset.cons_zero]
      abel
    · intro b hb
      rw [Multiset.mem_singleton.1 hb]
      exact below_of_lt (by decide)

theorem load_send (hs : s.Wf W) (h : (wiredBus μ).step s (.send p) = some t) :
    Shrinks W.Below t.load s.load := by
  obtain ⟨bus, hbus, rfl⟩ := send_spec h
  obtain ⟨call, r, rs, ch, hcall, hrem, hch, ⟨halive, -, rfl⟩ | ⟨-, rfl⟩⟩ :=
    LocalBus.send_spec hbus
  · -- the message is on its way
    have hsubject : ch.subject = call.subject := by
      have hmem : r ∈ s.locked.bus.subscribers call.subject :=
        (hs.locked.bus.calls p call hcall).subset (hrem ▸ List.mem_cons_self)
      obtain ⟨ch', hch', hsubject⟩ := hs.locked.bus.channel _ r hmem
      rw [hch, Option.some.injEq] at hch'
      rw [hch', hsubject]
    refine shrinks_of_add_eq (a := (call.subject, 2)) (u := {(call.subject, 1)}) ?_ ?_
    · unfold load
      dsimp only
      rw [weight_insert, weight_insert, weight_erase hcall, weight_erase hch, callLoad_send hrem,
        channelLoad_append halive, hsubject]
      abel
    · intro b hb
      rw [Multiset.mem_singleton.1 hb]
      exact below_of_lt (by decide)
  · refine shrinks_of_eq_add (u := {(call.subject, 2)}) ?_ (Multiset.singleton_ne_zero _)
    unfold load
    dsimp only
    rw [weight_insert, weight_erase hcall, callLoad_send hrem]
    abel

theorem load_finish (h : (wiredBus μ).step s (.finish p) = some t) :
    Shrinks W.Below t.load s.load := by
  obtain ⟨bus, hbus, rfl⟩ := finish_spec h
  obtain ⟨⟨call, hcall, -⟩, rfl⟩ := LocalBus.finish_spec hbus
  refine shrinks_of_eq_add (u := callLoad call) ?_ (Multiset.cons_ne_zero)
  unfold load
  dsimp only
  rw [weight_erase hcall]
  abel

theorem queueLoad_filter (waiting : List (LockRequest μ)) (p : ℕ) :
    queueLoad waiting = queueLoad (waiting.filter fun q => q.task = p) +
      queueLoad (waiting.filter fun q => q.task ≠ p) := by
  induction waiting with
  | nil => rfl
  | cons q waiting ih =>
    by_cases heq : q.task = p
    · rw [List.filter_cons_of_pos (by simpa using heq),
        List.filter_cons_of_neg (by simpa using heq), queueLoad_cons, queueLoad_cons, ih, add_assoc]
    · rw [List.filter_cons_of_neg (by simpa using heq),
        List.filter_cons_of_pos (by simpa using heq), queueLoad_cons, queueLoad_cons, ih]
      abel

theorem load_abort (h : (wiredBus μ).step s (.abort p) = some t) :
    Shrinks W.Below t.load s.load := by
  obtain ⟨hidle, rfl⟩ := abort_spec h
  have htask : taskLoad ({ s.task p with handling := none, outbox := [] } : WiredTask μ) = 0 := rfl
  by_cases hbusy : s.locked.Busy p
  · obtain ⟨c, hc, hload⟩ : ∃ c : Multiset (String × ℕ),
        (p ∈ s.locked.bus.calls → c ≠ 0) ∧ weight callLoad s.locked.bus.calls =
          c + weight callLoad (s.locked.bus.calls.erase p) := by
      cases hcall : s.locked.bus.calls.lookup p with
      | none =>
        refine ⟨0, fun hmem => absurd hmem (Finmap.lookup_eq_none.1 hcall), ?_⟩
        rw [zero_add, weight_erase_of_none hcall]
      | some call => exact ⟨callLoad call, fun _ => Multiset.cons_ne_zero, weight_erase hcall _⟩
    refine shrinks_of_eq_add
      (u := taskLoad (s.task p) + queueLoad (s.locked.waiting.filter fun q => q.task = p) + c) ?_ ?_
    · unfold load
      rw [if_pos hbusy]
      unfold LockedBus.abort
      dsimp only
      rw [weight_insert, htask, weight_task s p, hload, queueLoad_filter s.locked.waiting p]
      abel
    · rcases hbusy with hwaits | hcall
      · obtain ⟨q, hq, hqp⟩ := List.mem_map.1 hwaits
        obtain ⟨pre, post, heq⟩ := List.append_of_mem
          (List.mem_filter.2 ⟨hq, by simpa using hqp⟩ :
            q ∈ s.locked.waiting.filter fun q => q.task = p)
        rw [heq, queueLoad_append, queueLoad_cons]
        simp
      · simp [hc hcall]
  · refine shrinks_of_eq_add (u := taskLoad (s.task p)) ?_ ?_
    · unfold load
      rw [if_neg hbusy]
      rw [weight_insert, htask, weight_task s p]
      abel
    · -- it handles a message, or has something to ask
      intro hzero
      rw [taskLoad, add_eq_zero, Multiset.coe_eq_zero, Multiset.coe_eq_zero, List.map_eq_nil_iff,
        List.map_eq_nil_iff, Option.toList_eq_nil_iff] at hzero
      refine hidle ⟨hzero.2, ?_⟩
      rintro (hout | hbusy')
      · exact hout hzero.1
      · exact hbusy hbusy'

/-- **Whatever is done leaves less to do**, unless it is new. -/
theorem load_shrinks (hs : s.Wf W) {a : WiredAction μ} (ha : W.Inner s a)
    (h : (wiredBus μ).step s a = some t) : Shrinks W.Below t.load s.load := by
  cases a with
  | work p requests => exact absurd ha.1 id
  | take p r => exact load_take h
  | handle p requests => exact load_handle hs ha.2 h
  | leave p r => exact load_leave h
  | abort p => exact load_abort h
  | ask p => exact load_ask h
  | grant => exact load_grant hs h
  | send p => exact load_send hs h
  | finish p => exact load_finish h

/-- **Every run without new work is finite**, and when nobody can go on, all is done or the bus is
jammed. -/
theorem settles (hwf : WellFounded fun subject' subject => W.Leads subject subject')
    (hs : s.Wf W) :
    (wiredBus μ).Settles W.Inner W.Moves (fun u => u.Quiet ∨ u.Jammed) s :=
  Interleaving.settles_of_measure (shrinks_wf (below_wf hwf)) load
    (fun _ _ _ hu ha h => ⟨hu.step ha.2 h, load_shrinks hu ha h⟩)
    (fun _ hu hstuck => quiet_or_jammed hu hstuck) hs

end WiredBus

end W2uos
