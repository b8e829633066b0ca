import W2uos.Bus.Wiring

/-!
# Jams

A task in a call waits while the next channel it has to send to is full, and the channel stays full
while the task it belongs to does something else.  So tasks wait for each other.  The bus has one
more reason to wait: who wants to subscribe waits for the calls in progress, and whoever asks for
the lock after him waits for him.

A task is *caught* when it waits, over others, for itself or for one that is behind a subscriber.
If a task that is in a call is caught, the bus is *jammed*: nobody who is caught ever moves again,
and no subscriber, and nobody who asks for the lock after a subscriber, gets it.  As long as the bus
is not jammed somebody moves until all messages have been handled.

* `quiet_or_jammed` : **where no task can go on, all is done or the bus is jammed.**;
* `Jammed.step`, `Caught.step` : a jam is for ever, unless a task is aborted;
* `queue_stays` : who waits behind a subscriber then waits for ever.
-/

namespace W2uos

variable {μ : Type} {W : Wiring}

/-- What the first task publishes reaches the second. -/
def Wiring.Feeds (W : Wiring) (p q : ℕ) : Prop :=
  ∃ subject, W.Publishes p subject ∧ W.listens q subject

namespace WiredBus

variable {s t : WiredBus μ} {p q r : ℕ}

/-! ### Waiting -/

/-- The next channel the task has to send to is full and belongs to the other one. -/
def WaitsOn (s : WiredBus μ) (p q : ℕ) : Prop :=
  ∃ r, s.locked.bus.nextSend p = some r ∧ s.locked.bus.Full r ∧ r ∈ (s.task q).subs

/-- It waits, over others, for one that waits for itself, or for the lock behind a subscriber. -/
def Caught (s : WiredBus μ) (p : ℕ) : Prop :=
  ∃ q, Relation.ReflTransGen s.WaitsOn p q ∧
    (Relation.TransGen s.WaitsOn q q ∨ Behind s.locked.waiting q)

/-- A task that is in a call is caught. -/
def Jammed (s : WiredBus μ) : Prop := ∃ p ∈ s.locked.bus.calls, s.Caught p

/-- Nobody has anything to do, and all messages have been taken. -/
structure Quiet (s : WiredBus μ) : Prop where
  idle : ∀ p, s.Idle p
  taken : ∀ r ch, s.locked.bus.channels.lookup r = some ch → ch.alive = true → ch.queue = []

end WiredBus

/-- The step goes on with what has been begun. -/
def WiredAction.IsMove : WiredAction μ → Prop
  | .take _ _ => True
  | .handle _ _ => True
  | .ask _ => True
  | .grant => True
  | .send _ => True
  | .finish _ => True
  | .work _ _ => False
  | .leave _ _ => False
  | .abort _ => False

/-- A task goes on with what it has begun, as the wiring permits. -/
def Wiring.Moves (W : Wiring) (s : WiredBus μ) (a : WiredAction μ) : Prop :=
  a.IsMove ∧ W.Permits s a

namespace WiredBus

variable {s t : WiredBus μ} {p q r : ℕ}

theorem Caught.of_waitsOn (h : s.WaitsOn p q) (hq : s.Caught q) : s.Caught p := by
  obtain ⟨x, hpath, hx⟩ := hq
  exact ⟨x, hpath.head h, hx⟩

theorem caught_of_behind (h : Behind s.locked.waiting p) : s.Caught p :=
  ⟨p, .refl, Or.inr h⟩

/-- Whoever is caught waits for somebody who is caught, or behind a subscriber. -/
theorem Caught.cases (h : s.Caught p) :
    (∃ q, s.WaitsOn p q ∧ s.Caught q) ∨ Behind s.locked.waiting p := by
  obtain ⟨x, hpath, hx⟩ := h
  rcases Relation.ReflTransGen.cases_head hpath with rfl | ⟨q, hpq, hqx⟩
  · rcases hx with hcycle | hbehind
    · obtain ⟨q, hpq, hqp⟩ := Relation.TransGen.head'_iff.1 hcycle
      exact Or.inl ⟨q, hpq, p, hqp, Or.inl hcycle⟩
    · exact Or.inr hbehind
  · exact Or.inl ⟨q, hpq, x, hqx, hx⟩

/-! ### Who can wait for whom -/

theorem subject_of_waiting (hs : s.Wf W) (hnext : s.locked.bus.nextSend p = some r)
    (hfull : s.locked.bus.Full r) (hr : r ∈ (s.task q).subs) :
    ∃ subject, kind s.locked.bus.channels r = some (subject, true) ∧ W.Publishes p subject ∧
      W.listens q subject := by
  obtain ⟨call, hcall, hmem⟩ := LocalBus.owes_of_nextSend hnext
  obtain ⟨ch, hch, hsubject⟩ := hs.locked.bus.channel call.subject r
    ((hs.locked.bus.calls p call hcall).subset hmem)
  obtain ⟨ch', hch', halive, -⟩ := hfull
  rw [hch, Option.some.injEq] at hch'
  subst hch'
  obtain ⟨subject, alive, hkind, hlistens⟩ := hs.listening.subs q r hr
  have hkind' := kind_of_lookup hch
  rw [hkind', Option.some.injEq, Prod.mk.injEq] at hkind
  refine ⟨ch.subject, by rw [hkind', halive], ?_, hkind.1 ▸ hlistens⟩
  rw [hsubject]
  exact hs.calls p call hcall

theorem WaitsOn.feeds (hs : s.Wf W) (h : s.WaitsOn p q) : W.Feeds p q := by
  obtain ⟨r, hnext, hfull, hr⟩ := h
  obtain ⟨subject, -, hpublishes, hlistens⟩ := subject_of_waiting hs hnext hfull hr
  exact ⟨subject, hpublishes, hlistens⟩

theorem WaitsOn.mem_calls (h : s.WaitsOn p q) : p ∈ s.locked.bus.calls := by
  obtain ⟨r, hnext, -⟩ := h
  obtain ⟨call, hcall, -⟩ := LocalBus.owes_of_nextSend hnext
  exact Finmap.mem_of_lookup_eq_some hcall

/-! ### Somebody moves -/

theorem enabled_of_step {a : WiredAction μ} (ha : a.IsMove) (hpermits : W.Permits s a)
    (h : (wiredBus μ).step s a = some t) : (wiredBus μ).Enabled W.Moves s :=
  ⟨a, t, ⟨ha, hpermits⟩, h⟩

theorem enabled_ask (hs : s.Wf W) (hout : (s.task p).outbox ≠ []) (hbusy : ¬ s.locked.Busy p) :
    (wiredBus μ).Enabled W.Moves s := by
  obtain ⟨request, outbox, houtbox⟩ := List.exists_cons_of_ne_nil hout
  have htask : request.task = p := (hs.outbox p request (houtbox ▸ List.mem_cons_self)).task_eq
  have hask : (lockedBus μ).step s.locked (.ask request) =
      some { s.locked with waiting := s.locked.waiting ++ [request] } :=
    if_neg (htask.symm ▸ hbusy)
  refine enabled_of_step (a := .ask p) trivial trivial
    (t := ⟨{ s.locked with waiting := s.locked.waiting ++ [request] },
      s.tasks.insert p { s.task p with outbox := outbox }⟩) ?_
  simp only [wiredBus, houtbox, hask, Option.map_some]

/-- A call goes on, unless the next channel is full. -/
theorem enabled_call (hs : s.Wf W) (hcall : p ∈ s.locked.bus.calls) :
    (wiredBus μ).Enabled W.Moves s ∨
      ∃ r, s.locked.bus.nextSend p = some r ∧ s.locked.bus.Full r := by
  cases hnext : s.locked.bus.nextSend p with
  | none =>
    obtain ⟨call, hlookup⟩ := Finmap.mem_iff.1 hcall
    obtain ⟨bus, hbus⟩ := LocalBus.exists_finish hlookup hnext
    refine Or.inl (enabled_of_step (a := .finish p) trivial trivial
      (t := ⟨{ s.locked with bus := bus }, s.tasks⟩) ?_)
    simp only [wiredBus, lockedBus, hbus, Option.map_some]
  | some r =>
    by_cases hfull : s.locked.bus.Full r
    · exact Or.inr ⟨r, rfl, hfull⟩
    · obtain ⟨bus, hbus⟩ := LocalBus.exists_send hs.locked.bus hnext hfull
      refine Or.inl (enabled_of_step (a := .send p) trivial trivial
        (t := ⟨{ s.locked with bus := bus }, s.tasks⟩) ?_)
      simp only [wiredBus, lockedBus, hbus, Option.map_some]

/-- The lock is given to the first that waits, unless it is a subscriber and there are calls. -/
theorem enabled_grant (hs : s.Wf W) {request : LockRequest μ} {waiting : List (LockRequest μ)}
    (hwaiting : s.locked.waiting = request :: waiting) :
    (wiredBus μ).Enabled W.Moves s ∨
      (request.IsSubscribe ∧ ∃ p, p ∈ s.locked.bus.calls) := by
  have hgranted : ∀ {bus : LocalBus μ}, s.locked.bus.carryOut request = some bus →
      (wiredBus μ).Enabled W.Moves s := by
    intro bus hbus
    refine enabled_of_step (a := .grant) trivial trivial (t := ⟨⟨bus, waiting⟩, s.granted⟩) ?_
    simp only [wiredBus, LockedBus.step_grant hwaiting, hbus, Option.map_some]
  cases request with
  | publish task subject msg =>
    have hfree := hs.locked.free (.publish task subject msg) (hwaiting ▸ List.mem_cons_self)
    have hpublish : ∃ bus, s.locked.bus.publish task subject msg = some bus := by
      rw [LocalBus.publish, show s.locked.bus.calls.lookup task = none from hfree]
      exact ⟨_, rfl⟩
    obtain ⟨bus, hbus⟩ := hpublish
    exact Or.inl (hgranted hbus)
  | subscribe task subject =>
    by_cases hcalls : s.locked.bus.calls.keys = ∅
    · exact Or.inl (hgranted (if_pos hcalls))
    · obtain ⟨p, hp⟩ := Finset.nonempty_iff_ne_empty.2 hcalls
      exact Or.inr ⟨trivial, p, Finmap.mem_keys.1 hp⟩

theorem enabled_take (hidle : s.Idle p) (hr : r ∈ (s.task p).subs) {ch : Channel μ}
    (hch : s.locked.bus.channels.lookup r = some ch) (halive : ch.alive = true)
    (hqueue : ch.queue ≠ []) : (wiredBus μ).Enabled W.Moves s := by
  obtain ⟨subject, alive, queue, received⟩ := ch
  obtain ⟨m, queue, rfl⟩ := List.exists_cons_of_ne_nil hqueue
  cases halive
  have hrecv : ∃ bus, s.locked.bus.recv r = some bus := by
    rw [LocalBus.recv, hch]
    exact ⟨_, rfl⟩
  obtain ⟨bus, hbus⟩ := hrecv
  refine enabled_of_step (a := .take p r) trivial trivial
    (t := ⟨{ s.locked with bus := bus },
      s.tasks.insert p { s.task p with handling := some subject }⟩) ?_
  simp only [wiredBus, hidle, hr, and_self, if_true, hch, hbus]

theorem enabled_handle (hhandling : (s.task p).handling ≠ none) :
    (wiredBus μ).Enabled W.Moves s := by
  refine enabled_of_step (a := .handle p []) trivial (fun _ _ q hq => by cases hq)
    (t := s.setTask p { s.task p with handling := none, outbox := [] }) ?_
  simp only [wiredBus, Option.isSome_iff_ne_none.2 hhandling, if_true]

/-! ### Where nobody moves -/

/-- If nobody moves, who waits for the lock waits behind a subscriber. -/
theorem behind_of_stuck (hs : s.Wf W) (hstuck : ¬ (wiredBus μ).Enabled W.Moves s)
    (hp : p ∈ s.locked.waiting.map LockRequest.task) : Behind s.locked.waiting p := by
  cases hwaiting : s.locked.waiting with
  | nil =>
    rw [hwaiting] at hp
    cases hp
  | cons request waiting =>
    rw [hwaiting] at hp
    exact behind_of_subscribe ((enabled_grant hs hwaiting).resolve_left hstuck).1 hp

/-- If nobody moves, whoever talks is in a call or waits behind a subscriber. -/
theorem talking_of_stuck (hs : s.Wf W) (hstuck : ¬ (wiredBus μ).Enabled W.Moves s)
    (hp : s.Talking p) : p ∈ s.locked.bus.calls ∨ Behind s.locked.waiting p := by
  by_cases hbusy : s.locked.Busy p
  · rcases hbusy with hwaits | hcall
    · exact Or.inr (behind_of_stuck hs hstuck hwaits)
    · exact Or.inl hcall
  · exact absurd (enabled_ask hs (hp.resolve_right hbusy) hbusy) hstuck

/-- If nobody moves, whoever is in a call waits for somebody who is in one too, or behind a
subscriber. -/
theorem waits_of_stuck (hs : s.Wf W) (hstuck : ¬ (wiredBus μ).Enabled W.Moves s)
    (hp : p ∈ s.locked.bus.calls) :
    ∃ q, s.WaitsOn p q ∧ (q ∈ s.locked.bus.calls ∨ Behind s.locked.waiting q) := by
  obtain ⟨r, hnext, hfull⟩ := (enabled_call hs hp).resolve_left hstuck
  obtain ⟨ch, hch, halive, hlen⟩ := hfull
  obtain ⟨q, hq⟩ := hs.listening.owned r ch.subject (by rw [kind_of_lookup hch, halive])
  refine ⟨q, ⟨r, hnext, ⟨ch, hch, halive, hlen⟩, hq⟩, talking_of_stuck hs hstuck ?_⟩
  have hqueue : ch.queue ≠ [] := by
    rintro hnil
    rw [hnil] at hlen
    simp [channelCapacity] at hlen
  -- the owner of a full channel neither handles a message nor is idle
  by_contra htalking
  have hnone : (s.task q).handling = none := by
    by_contra hhandling
    exact hstuck (enabled_handle hhandling)
  exact hstuck (enabled_take ⟨hnone, htalking⟩ hq hch halive hqueue)

theorem caught_of_stuck (hs : s.Wf W) (hstuck : ¬ (wiredBus μ).Enabled W.Moves s)
    (hp : p ∈ s.locked.bus.calls) : s.Caught p := by
  by_contra hfree
  have hfinite : {q | q ∈ s.locked.bus.calls}.Finite :=
    (Finset.finite_toSet s.locked.bus.calls.keys).subset fun _ hq =>
      Finset.mem_coe.2 (Finmap.mem_keys.2 hq)
  -- those who are not caught wait for each other
  obtain ⟨x, ⟨-, hx⟩, hcycle⟩ := exists_transGen_self (R := s.WaitsOn)
    (s := {q | q ∈ s.locked.bus.calls ∧ ¬ s.Caught q}) (hfinite.subset fun _ hq => hq.1)
    ⟨p, hp, hfree⟩ (by
      rintro q ⟨hq, hqfree⟩
      obtain ⟨q', hwaits, hq'⟩ := waits_of_stuck hs hstuck hq
      have hq'free : ¬ s.Caught q' := fun hcaught => hqfree (hcaught.of_waitsOn hwaits)
      exact ⟨q', ⟨hq'.resolve_right fun hb => hq'free (caught_of_behind hb), hq'free⟩, hwaits⟩)
  exact hx ⟨x, .refl, Or.inl hcycle⟩

/-- **Where no task can go on, all is done or the bus is jammed.** -/
theorem quiet_or_jammed (hs : s.Wf W) (hstuck : ¬ (wiredBus μ).Enabled W.Moves s) :
    s.Quiet ∨ s.Jammed := by
  by_cases hcalls : ∃ p, p ∈ s.locked.bus.calls
  · obtain ⟨p, hp⟩ := hcalls
    exact Or.inr ⟨p, hp, caught_of_stuck hs hstuck hp⟩
  · -- nobody is in a call, so nobody waits for the lock
    left
    have hwaiting : s.locked.waiting = [] := by
      cases hwaiting : s.locked.waiting with
      | nil => rfl
      | cons request waiting =>
        exact absurd ((enabled_grant hs hwaiting).resolve_left hstuck).2 hcalls
    have hsilent : ∀ p, ¬ s.Talking p := by
      intro p hp
      have hbusy : ¬ s.locked.Busy p := by
        rintro (hwaits | hcall)
        · rw [hwaiting] at hwaits
          cases hwaits
        · exact hcalls ⟨p, hcall⟩
      exact hstuck (enabled_ask hs (hp.resolve_right hbusy) hbusy)
    have hidle : ∀ p, s.Idle p := by
      intro p
      refine ⟨?_, hsilent p⟩
      by_contra hhandling
      exact hstuck (enabled_handle hhandling)
    refine ⟨hidle, fun r ch hch halive => ?_⟩
    obtain ⟨p, hp⟩ := hs.listening.owned r ch.subject (by rw [kind_of_lookup hch, halive])
    by_contra hqueue
    exact hstuck (enabled_take (hidle p) hp hch halive hqueue)

/-! ### A jam is for ever -/

theorem Caught.not_idle (h : s.Caught p) : ¬ s.Idle p := by
  rintro ⟨-, hsilent⟩
  rcases h.cases with ⟨q, hwaits, -⟩ | hbehind
  · exact hsilent (Or.inr (Or.inr hwaits.mem_calls))
  · exact hsilent (Or.inr (Or.inl hbehind.mem))

/-- A call that waits for a full channel is as it was after a step of somebody who is not aborted,
if the owner of the channel is caught. -/
theorem full_step (hs : s.Wf W) {a : WiredAction μ} (ha : ∀ p, a ≠ .abort p)
    (h : (wiredBus μ).step s a = some t) (hnext : s.locked.bus.nextSend p = some r)
    (hfull : s.locked.bus.Full r) (hr : r ∈ (s.task q).subs) (hq : s.Caught q) :
    t.locked.bus.nextSend p = some r ∧ t.locked.bus.Full r := by
  obtain ⟨call, hcall, -⟩ := LocalBus.owes_of_nextSend hnext
  -- its own task does not take from the channel, and nobody else can
  have hother : ∀ {x r'}, s.Idle x → r' ∈ (s.task x).subs → r ≠ r' := by
    rintro x r' hidle hr' rfl
    exact hq.not_idle (hs.listening.unique _ _ _ hr' hr ▸ hidle)
  cases a with
  | work x requests =>
    obtain ⟨-, rfl⟩ := work_spec h
    exact ⟨hnext, hfull⟩
  | take x r' =>
    obtain ⟨hidle, hr', ch, bus, -, hbus, rfl⟩ := take_spec h
    refine ⟨?_, (LocalBus.full_recv hs.locked.bounded hbus).2 ⟨hfull, hother hidle hr'⟩⟩
    obtain ⟨ch', m, queue, -, -, -, rfl⟩ := LocalBus.recv_spec hbus
    exact hnext
  | handle x requests =>
    obtain ⟨-, rfl⟩ := handle_spec h
    exact ⟨hnext, hfull⟩
  | leave x r' =>
    obtain ⟨hidle, hr', bus, hbus, rfl⟩ := leave_spec h
    refine ⟨?_, (LocalBus.full_drop hbus).2 ⟨hfull, hother hidle hr'⟩⟩
    obtain ⟨ch', -, -, rfl⟩ := LocalBus.drop_spec hbus
    exact hnext
  | abort x => exact absurd rfl (ha x)
  | ask x =>
    obtain ⟨request, outbox, locked, -, hlocked, rfl⟩ := ask_spec h
    obtain ⟨-, rfl⟩ := LockedBus.ask_spec hlocked
    exact ⟨hnext, hfull⟩
  | grant =>
    obtain ⟨locked, hlocked, rfl⟩ := grant_spec h
    obtain ⟨request, waiting, bus, hwaiting, hbus, rfl⟩ := LockedBus.grant_spec hlocked
    cases request with
    | publish x subject msg =>
      obtain ⟨hnone, rfl⟩ := LocalBus.publish_spec hbus
      have hne : p ≠ x := by
        rintro rfl
        rw [hcall] at hnone
        cases hnone
      refine ⟨?_, hfull⟩
      rw [LocalBus.nextSend, Finmap.lookup_insert_of_ne _ hne]
      exact hnext
    | subscribe x subject =>
      have hno := (LocalBus.subscribe_spec hbus).1 p
      rw [hcall] at hno
      cases hno
  | send x =>
    obtain ⟨bus, hbus, rfl⟩ := send_spec h
    have hne : p ≠ x := by
      rintro rfl
      exact LocalBus.not_full_of_send hbus hnext hfull
    refine ⟨?_, (LocalBus.full_send hbus).2 (Or.inl hfull)⟩
    obtain ⟨call', r', rs, ch, -, -, -, ⟨-, -, rfl⟩ | ⟨-, rfl⟩⟩ := LocalBus.send_spec hbus
    · rw [LocalBus.nextSend, Finmap.lookup_insert_of_ne _ hne]
      exact hnext
    · rw [LocalBus.nextSend, Finmap.lookup_insert_of_ne _ hne]
      exact hnext
  | finish x =>
    obtain ⟨bus, hbus, rfl⟩ := finish_spec h
    obtain ⟨⟨call', hcall', hrem⟩, rfl⟩ := LocalBus.finish_spec hbus
    have hne : p ≠ x := by
      rintro rfl
      rw [LocalBus.nextSend, hcall', Option.bind_some, hrem] at hnext
      cases hnext
    refine ⟨?_, hfull⟩
    rw [LocalBus.nextSend, Finmap.lookup_erase_ne hne]
    exact hnext

/-- While somebody is in a call, who waits behind a subscriber stays there. -/
theorem behind_step (hs : s.Wf W) {a : WiredAction μ} (ha : ∀ p, a ≠ .abort p)
    (h : (wiredBus μ).step s a = some t) (hcalls : p ∈ s.locked.bus.calls)
    (hq : Behind s.locked.waiting q) : Behind t.locked.waiting q := by
  cases a with
  | work x requests =>
    obtain ⟨-, rfl⟩ := work_spec h
    exact hq
  | take x r =>
    obtain ⟨-, -, ch, bus, -, -, rfl⟩ := take_spec h
    exact hq
  | handle x requests =>
    obtain ⟨-, rfl⟩ := handle_spec h
    exact hq
  | leave x r =>
    obtain ⟨-, -, bus, -, rfl⟩ := leave_spec h
    exact hq
  | abort x => exact absurd rfl (ha x)
  | ask x =>
    obtain ⟨request, outbox, locked, -, hlocked, rfl⟩ := ask_spec h
    obtain ⟨-, rfl⟩ := LockedBus.ask_spec hlocked
    exact behind_concat.2 (Or.inl hq)
  | grant =>
    obtain ⟨locked, hlocked, rfl⟩ := grant_spec h
    obtain ⟨request, waiting, bus, hwaiting, hbus, rfl⟩ := LockedBus.grant_spec hlocked
    cases request with
    | publish x subject msg =>
      rw [hwaiting] at hq
      refine (behind_cons id ?_).1 hq
      by_cases heq : x = q
      · exact Or.inr (heq ▸ hs.locked.head_not_mem hwaiting)
      · exact Or.inl heq
    | subscribe x subject => exact absurd hcalls (LocalBus.not_mem_calls_of_subscribe hbus).1
  | send x =>
    obtain ⟨bus, -, rfl⟩ := send_spec h
    exact hq
  | finish x =>
    obtain ⟨bus, -, rfl⟩ := finish_spec h
    exact hq

theorem Caught.call_step (hs : s.Wf W) {a : WiredAction μ} (ha : ∀ p, a ≠ .abort p)
    (h : (wiredBus μ).step s a = some t) (hp : s.Caught p) (hcall : p ∈ s.locked.bus.calls) :
    p ∈ t.locked.bus.calls := by
  rcases hp.cases with ⟨q, ⟨r, hnext, hfull, hr⟩, hq⟩ | hbehind
  · obtain ⟨call, hlookup, -⟩ :=
      LocalBus.owes_of_nextSend (full_step hs ha h hnext hfull hr hq).1
    exact Finmap.mem_of_lookup_eq_some hlookup
  · obtain ⟨request, hrequest, rfl⟩ := List.mem_map.1 hbehind.mem
    exact absurd hcall (Finmap.lookup_eq_none.1 (hs.locked.free request hrequest))

theorem waitsOn_step (hs : s.Wf W) {a : WiredAction μ} (ha : ∀ p, a ≠ .abort p)
    (h : (wiredBus μ).step s a = some t) (hwaits : s.WaitsOn p q) (hq : s.Caught q) :
    t.WaitsOn p q := by
  obtain ⟨r, hnext, hfull, hr⟩ := hwaits
  obtain ⟨hnext', hfull'⟩ := full_step hs ha h hnext hfull hr hq
  refine ⟨r, hnext', hfull', ?_⟩
  -- it does not drop the receiver
  cases a with
  | leave x r' =>
    have hne : q ≠ x := by
      rintro rfl
      exact hq.not_idle (leave_spec h).1
    rwa [task_step h, taskAfter, if_neg hne]
  | work x requests =>
    rw [task_step h, taskAfter]
    split_ifs with heq
    · exact heq ▸ hr
    · exact hr
  | take x r' =>
    rw [task_step h, taskAfter]
    split_ifs with heq
    · exact heq ▸ hr
    · exact hr
  | handle x requests =>
    rw [task_step h, taskAfter]
    split_ifs with heq
    · exact heq ▸ hr
    · exact hr
  | ask x =>
    rw [task_step h, taskAfter]
    split_ifs with heq
    · exact heq ▸ hr
    · exact hr
  | abort x => exact absurd rfl (ha x)
  | grant =>
    rw [task_step h, taskAfter]
    split
    · split_ifs with heq
      · exact List.mem_append_left _ (heq ▸ hr)
      · exact hr
    · exact hr
  | send x =>
    rw [task_step h]
    exact hr
  | finish x =>
    rw [task_step h]
    exact hr

/-- **Whoever is caught while the bus is jammed stays caught.** -/
theorem Caught.step (hs : s.Wf W) {a : WiredAction μ} (ha : ∀ p, a ≠ .abort p)
    (h : (wiredBus μ).step s a = some t) (hjam : s.Jammed) (hp : s.Caught p) :
    t.Caught p := by
  -- whoever is on the way to a task that is caught is caught, so the ways are still there
  have hpath : ∀ {x y}, Relation.ReflTransGen s.WaitsOn x y → s.Caught y →
      s.Caught x ∧ Relation.ReflTransGen t.WaitsOn x y := by
    intro x y hxy hy
    induction hxy using Relation.ReflTransGen.head_induction_on with
    | refl => exact ⟨hy, .refl⟩
    | head hwaits _ ih =>
      exact ⟨ih.1.of_waitsOn hwaits, ih.2.head (waitsOn_step hs ha h hwaits ih.1)⟩
  obtain ⟨q, hpq, hq⟩ := hp
  have hcaught : s.Caught q := ⟨q, .refl, hq⟩
  refine ⟨q, (hpath hpq hcaught).2, ?_⟩
  rcases hq with hcycle | hbehind
  · left
    obtain ⟨x, hqx, hxq⟩ := Relation.TransGen.head'_iff.1 hcycle
    obtain ⟨hx, hxq'⟩ := hpath hxq hcaught
    exact Relation.TransGen.head' (waitsOn_step hs ha h hqx hx) hxq'
  · obtain ⟨x, hx, -⟩ := hjam
    exact Or.inr (behind_step hs ha h hx hbehind)

/-- **A jam is not cleared**, unless a task is aborted. -/
theorem Jammed.step (hs : s.Wf W) {a : WiredAction μ} (ha : ∀ p, a ≠ .abort p)
    (h : (wiredBus μ).step s a = some t) (hjam : s.Jammed) : t.Jammed := by
  obtain ⟨p, hcall, hp⟩ := hjam
  exact ⟨p, hp.call_step hs ha h hcall, hp.step hs ha h ⟨p, hcall, hp⟩⟩

/-- **Who waits behind a subscriber waits for ever.** -/
theorem queue_stays {a : WiredAction μ} (ha : ∀ p, a ≠ .abort p)
    (h : (wiredBus μ).step s a = some t) (hjam : s.Jammed) {pre post : List (LockRequest μ)}
    {w : LockRequest μ} (hw : w.IsSubscribe) (hwaiting : s.locked.waiting = pre ++ w :: post) :
    ∃ pre' new, t.locked.waiting = pre' ++ w :: (post ++ new) := by
  have hsame : t.locked.waiting = s.locked.waiting →
      ∃ pre' new, t.locked.waiting = pre' ++ w :: (post ++ new) :=
    fun heq => ⟨pre, [], by rw [heq, hwaiting, List.append_nil]⟩
  cases a with
  | ask x =>
    obtain ⟨request, outbox, locked, -, hlocked, rfl⟩ := ask_spec h
    obtain ⟨-, rfl⟩ := LockedBus.ask_spec hlocked
    exact ⟨pre, [request], by simp [hwaiting]⟩
  | grant =>
    obtain ⟨locked, hlocked, rfl⟩ := grant_spec h
    obtain ⟨request, waiting, bus, hwaiting', hbus, rfl⟩ := LockedBus.grant_spec hlocked
    obtain ⟨p, hp, -⟩ := hjam
    rw [hwaiting] at hwaiting'
    cases pre with
    | nil =>
      -- the subscriber would get the lock while somebody is in a call
      obtain ⟨rfl, -⟩ := List.cons.inj hwaiting'
      cases w with
      | publish x subject msg => exact absurd hw id
      | subscribe x subject => exact absurd hp (LocalBus.not_mem_calls_of_subscribe hbus).1
    | cons first pre =>
      obtain ⟨-, hrest⟩ := List.cons.inj hwaiting'
      refine ⟨pre, [], ?_⟩
      rw [List.append_nil]
      exact hrest.symm
  | work x requests =>
    obtain ⟨-, rfl⟩ := work_spec h
    exact hsame rfl
  | take x r =>
    obtain ⟨-, -, ch, bus, -, -, rfl⟩ := take_spec h
    exact hsame rfl
  | handle x requests =>
    obtain ⟨-, rfl⟩ := handle_spec h
    exact hsame rfl
  | leave x r =>
    obtain ⟨-, -, bus, -, rfl⟩ := leave_spec h
    exact hsame rfl
  | abort x => exact absurd rfl (ha x)
  | send x =>
    obtain ⟨bus, -, rfl⟩ := send_spec h
    exact hsame rfl
  | finish x =>
    obtain ⟨bus, -, rfl⟩ := finish_spec h
    exact hsame rfl

/-! ### Runs -/

theorem wf_of_exec {as : List (WiredAction μ)} (hs : s.Wf W)
    (hall : (wiredBus μ).Throughout s W.Permits as) (h : (wiredBus μ).exec s as = some t) :
    t.Wf W :=
  hall.invariant hs (fun _ _ _ hu ha ht => hu.step ha ht) h

/-- What a jam leaves of the bus: it is jammed, those who were caught are caught, and those who
waited behind a subscriber are still waiting. -/
structure Lost (s t : WiredBus μ) : Prop where
  jammed : t.Jammed
  caught : ∀ p, s.Caught p → t.Caught p
  waiting : ∀ pre w post, w.IsSubscribe → s.locked.waiting = pre ++ w :: post →
    ∃ pre' new, t.locked.waiting = pre' ++ w :: (post ++ new)

/-- **A jam is for ever**, if nobody is aborted. -/
theorem Jammed.exec {as : List (WiredAction μ)} (hs : s.Wf W) (hjam : s.Jammed)
    (hall : (wiredBus μ).Throughout s W.Permits as) (hkeep : ∀ p, .abort p ∉ as)
    (h : (wiredBus μ).exec s as = some t) : s.Lost t := by
  induction as generalizing s with
  | nil =>
    cases h
    exact ⟨hjam, fun _ hp => hp, fun pre w post _ heq => ⟨pre, [], by rw [heq, List.append_nil]⟩⟩
  | cons a as ih =>
    obtain ⟨u, hu, hrest⟩ := Option.bind_eq_some_iff.1 h
    obtain ⟨ha, hall⟩ := (Interleaving.throughout_cons hu).1 hall
    have hstep : ∀ p, a ≠ .abort p := fun p heq => hkeep p (heq ▸ List.mem_cons_self)
    obtain ⟨hlast, hcaught, hwaiting⟩ := ih (hs.step ha hu) (hjam.step hs hstep hu) hall
      (fun p hp => hkeep p (List.mem_cons_of_mem _ hp)) hrest
    refine ⟨hlast, fun p hp => hcaught p (hp.step hs hstep hu hjam), fun pre w post hw heq => ?_⟩
    obtain ⟨pre₁, new₁, h₁⟩ := queue_stays hstep hu hjam hw heq
    obtain ⟨pre₂, new₂, h₂⟩ := hwaiting pre₁ w (post ++ new₁) hw h₁
    exact ⟨pre₂, new₁ ++ new₂, by rw [h₂, List.append_assoc]⟩

end WiredBus

end W2uos
