import W2uos.Bus.Delivery

/-!
# The lock of the bus

A publish holds the read lock of the bus until its message is in all channels, and a subscribe
needs the write lock.  The lock is fair: whoever asks for it waits behind those that have asked
before, so one subscriber that waits for the publishes in progress keeps all later publishers
waiting with it.

* `LocalBus.full_send`, `LocalBus.owes_send`, … : what the steps of the bus do to these;
* `LockedBus.Wf.step` : well-formedness is kept.
-/

namespace W2uos

/-- Somebody asks for the lock of the bus. -/
inductive LockRequest (μ : Type)
  | publish (task : ℕ) (subject : String) (msg : μ)
  | subscribe (task : ℕ) (subject : String)
  deriving DecidableEq

/-- The bus, and those that wait for its lock, first come first served. -/
structure LockedBus (μ : Type) where
  bus : LocalBus μ
  waiting : List (LockRequest μ)

/-- The steps of tasks and receivers: ask for the lock, get it, send, return, be aborted, receive,
and be dropped. -/
inductive LockedAction (μ : Type)
  | ask (request : LockRequest μ)
  | grant
  | send (task : ℕ)
  | finish (task : ℕ)
  | abort (task : ℕ)
  | recv (receiver : ℕ)
  | drop (receiver : ℕ)

variable {μ : Type}

/-- The task that asks. -/
def LockRequest.task : LockRequest μ → ℕ
  | publish task _ _ => task
  | subscribe task _ => task

/-- The request is for the write lock. -/
def LockRequest.IsSubscribe : LockRequest μ → Prop
  | publish _ _ _ => False
  | subscribe _ _ => True

/-- What a task does when it gets the lock. -/
def LocalBus.carryOut (s : LocalBus μ) : LockRequest μ → Option (LocalBus μ)
  | .publish task subject msg => s.publish task subject msg
  | .subscribe _ subject => s.subscribe subject

/-- The task is in a call, or waits for the lock. -/
def LockedBus.Busy (s : LockedBus μ) (task : ℕ) : Prop :=
  task ∈ s.waiting.map LockRequest.task ∨ task ∈ s.bus.calls

instance (s : LockedBus μ) (task : ℕ) : Decidable (s.Busy task) :=
  inferInstanceAs (Decidable (_ ∨ _))

/-- A task is aborted: it leaves its call with the lock, or no longer waits. -/
def LockedBus.abort (s : LockedBus μ) (task : ℕ) : LockedBus μ where
  bus := { s.bus with calls := s.bus.calls.erase task }
  waiting := s.waiting.filter fun q => q.task ≠ task

/-- The bus with its lock. -/
def lockedBus (μ : Type) : Interleaving (LockedBus μ) (LockedAction μ) where
  step s
    | .ask request =>
      if s.Busy request.task then none else some { s with waiting := s.waiting ++ [request] }
    | .grant =>
      match s.waiting with
      | [] => none
      | request :: waiting =>
        (s.bus.carryOut request).map fun bus => { bus := bus, waiting := waiting }
    | .send task => (s.bus.send task).map fun bus => { s with bus := bus }
    | .finish task => (s.bus.finish task).map fun bus => { s with bus := bus }
    | .abort task => if s.Busy task then some (s.abort task) else none
    | .recv r => (s.bus.recv r).map fun bus => { s with bus := bus }
    | .drop r => (s.bus.drop r).map fun bus => { s with bus := bus }

namespace LocalBus

variable {s t : LocalBus μ} {task task' r r' : ℕ} {subject : String} {msg : μ}

/-- A send to the receiver waits. -/
def Full (s : LocalBus μ) (r : ℕ) : Prop :=
  ∃ ch, s.channels.lookup r = some ch ∧ ch.alive = true ∧ channelCapacity ≤ ch.queue.length

/-- There is room for one more message. -/
def LastPlace (s : LocalBus μ) (r : ℕ) : Prop :=
  ∃ ch, s.channels.lookup r = some ch ∧ ch.alive = true ∧ ch.queue.length + 1 = channelCapacity

/-- The receiver the call of a task sends to next. -/
def nextSend (s : LocalBus μ) (task : ℕ) : Option ℕ :=
  (s.calls.lookup task).bind fun call => call.remaining.head?

/-- The call of a task has still to send its message to the receiver. -/
def Owes (s : LocalBus μ) (task r : ℕ) : Prop :=
  ∃ call, s.calls.lookup task = some call ∧ r ∈ call.remaining

/-- No channel holds more messages than it has room for. -/
def Bounded (s : LocalBus μ) : Prop :=
  ∀ r ch, s.channels.lookup r = some ch → ch.queue.length ≤ channelCapacity

theorem full_congr (h : t.channels.lookup r = s.channels.lookup r) : t.Full r ↔ s.Full r := by
  unfold Full
  rw [h]

theorem owes_congr (h : t.calls.lookup task = s.calls.lookup task) :
    t.Owes task r ↔ s.Owes task r := by
  unfold Owes
  rw [h]

theorem owes_of_nextSend (h : s.nextSend task = some r) : s.Owes task r := by
  obtain ⟨call, hcall, hhead⟩ := Option.bind_eq_some_iff.1 h
  exact ⟨call, hcall, List.mem_of_mem_head? hhead⟩

/-! ### What the steps do -/

theorem owes_publish (h : s.publish task subject msg = some t) :
    t.Owes task' r ↔ s.Owes task' r ∨ (task' = task ∧ r ∈ s.subscribers subject) := by
  obtain ⟨hnone, rfl⟩ := publish_spec h
  by_cases heq : task' = task
  · subst heq
    simp [Owes, hnone]
  · rw [owes_congr (Finmap.lookup_insert_of_ne _ heq)]
    simp [heq]

theorem subscribers_send (h : s.send task = some t) : t.subscribers = s.subscribers := by
  obtain ⟨call, r, rs, ch, -, -, -, ⟨-, -, rfl⟩ | ⟨-, rfl⟩⟩ := send_spec h <;> rfl

theorem full_send (h : s.send task = some t) :
    t.Full r ↔ s.Full r ∨ (s.nextSend task = some r ∧ s.LastPlace r) := by
  obtain ⟨call, r', rs, ch, hcall, hrem, hch, ⟨halive, hroom, rfl⟩ | ⟨hdead, rfl⟩⟩ := send_spec h
  · have hnext : s.nextSend task = some r' := by simp [nextSend, hcall, hrem]
    rw [hnext, Option.some.injEq]
    by_cases heq : r' = r
    · subst heq
      simp only [Full, LastPlace, Finmap.lookup_insert, hch, Option.some.injEq, exists_eq_left',
        halive, List.length_append, List.length_singleton, true_and]
      omega
    · rw [full_congr (Finmap.lookup_insert_of_ne _ (Ne.symm heq))]
      simp [heq]
  · have hnext : s.nextSend task = some r' := by simp [nextSend, hcall, hrem]
    have hno : ¬ (s.nextSend task = some r ∧ s.LastPlace r) := by
      rintro ⟨hr, ch', hch', halive, -⟩
      rw [hnext, Option.some.injEq] at hr
      rw [← hr, hch, Option.some.injEq] at hch'
      rw [← hch', hdead] at halive
      cases halive
    exact (full_congr rfl).trans (or_iff_left hno).symm

theorem owes_send (hs : s.Wf) (h : s.send task = some t) :
    t.Owes task' r ↔ s.Owes task' r ∧ ¬ (task' = task ∧ s.nextSend task = some r) := by
  obtain ⟨call, r', rs, ch, hcall, hrem, -, hcases⟩ := send_spec h
  have ht : t.calls = s.calls.insert task { call with remaining := rs } := by
    rcases hcases with ⟨-, -, rfl⟩ | ⟨-, rfl⟩ <;> rfl
  have hnext : s.nextSend task = some r' := by simp [nextSend, hcall, hrem]
  by_cases heq : task' = task
  · subst heq
    -- a call sends to every receiver once
    have hnodup : (r' :: rs).Nodup :=
      hrem ▸ (hs.calls task' call hcall).sublist.nodup (hs.nodup call.subject)
    have hnot : r' ∉ rs := (List.nodup_cons.1 hnodup).1
    have howes : t.Owes task' r ↔ r ∈ rs := by simp [Owes, ht]
    have howed : s.Owes task' r ↔ r = r' ∨ r ∈ rs := by simp [Owes, hcall, hrem]
    rw [howes, howed, hnext, Option.some.injEq]
    constructor
    · intro hr
      exact ⟨Or.inr hr, fun hsame => hnot (hsame.2 ▸ hr)⟩
    · rintro ⟨hr | hr, hne⟩
      · exact absurd ⟨rfl, hr.symm⟩ hne
      · exact hr
  · have hsame : t.Owes task' r ↔ s.Owes task' r :=
      owes_congr (by rw [ht, Finmap.lookup_insert_of_ne _ heq])
    simp [hsame, heq]

theorem owes_finish (h : s.finish task = some t) : t.Owes task' r ↔ s.Owes task' r := by
  obtain ⟨⟨call, hcall, hrem⟩, rfl⟩ := finish_spec h
  by_cases heq : task' = task
  · subst heq
    simp [Owes, hcall, hrem]
  · exact owes_congr (Finmap.lookup_erase_ne heq)

theorem not_owes_of_subscribe (h : s.subscribe subject = some t) : ¬ s.Owes task r := by
  rintro ⟨call, hcall, -⟩
  rw [(subscribe_spec h).1 task] at hcall
  cases hcall

theorem full_subscribe (hs : s.Wf) (h : s.subscribe subject = some t) :
    t.Full r ↔ s.Full r := by
  obtain ⟨-, rfl⟩ := subscribe_spec h
  by_cases heq : r = s.next
  · -- the channel is new
    subst heq
    refine iff_of_false ?_ ?_
    · rintro ⟨ch, hch, -, hfull⟩
      rw [Finmap.lookup_insert, Option.some.injEq] at hch
      rw [← hch] at hfull
      simp [channelCapacity] at hfull
    · rintro ⟨ch, hch, -⟩
      exact (hs.numbered _ ch hch).ne rfl
  · exact full_congr (Finmap.lookup_insert_of_ne _ heq)

theorem full_recv (hs : s.Bounded) (h : s.recv r = some t) :
    t.Full r' ↔ s.Full r' ∧ r' ≠ r := by
  obtain ⟨ch, m, queue, hch, halive, hqueue, rfl⟩ := recv_spec h
  have hbound := hs r ch hch
  rw [hqueue, List.length_cons] at hbound
  by_cases heq : r' = r
  · subst heq
    refine iff_of_false ?_ fun hne => hne.2 rfl
    rintro ⟨ch', hch', -, hfull⟩
    rw [Finmap.lookup_insert, Option.some.injEq] at hch'
    rw [← hch'] at hfull
    dsimp only at hfull
    omega
  · rw [full_congr (Finmap.lookup_insert_of_ne _ heq)]
    simp [heq]

theorem full_drop (h : s.drop r = some t) : t.Full r' ↔ s.Full r' ∧ r' ≠ r := by
  obtain ⟨ch, hch, -, rfl⟩ := drop_spec h
  by_cases heq : r' = r
  · subst heq
    refine iff_of_false ?_ fun hne => hne.2 rfl
    rintro ⟨ch', hch', halive, -⟩
    rw [Finmap.lookup_insert, Option.some.injEq] at hch'
    rw [← hch'] at halive
    cases halive
  · rw [full_congr (Finmap.lookup_insert_of_ne _ heq)]
    simp [heq]

/-! ### Who is in a call -/

theorem mem_calls_publish (h : s.publish task subject msg = some t) :
    task' ∈ t.calls ↔ task' = task ∨ task' ∈ s.calls := by
  obtain ⟨-, rfl⟩ := publish_spec h
  exact Finmap.mem_insert

theorem mem_calls_send (h : s.send task = some t) : task' ∈ t.calls ↔ task' ∈ s.calls := by
  obtain ⟨call, r, rs, ch, hcall, -, -, hcases⟩ := send_spec h
  have hmem : task ∈ s.calls := Finmap.mem_of_lookup_eq_some hcall
  have hsame : ∀ c : Call μ, task' ∈ s.calls.insert task c ↔ task' ∈ s.calls := by
    intro c
    rw [Finmap.mem_insert]
    exact or_iff_right_of_imp fun heq => heq ▸ hmem
  rcases hcases with ⟨-, -, rfl⟩ | ⟨-, rfl⟩ <;> exact hsame _

theorem mem_calls_finish (h : s.finish task = some t) :
    task ∈ s.calls ∧ (task' ∈ t.calls ↔ task' ≠ task ∧ task' ∈ s.calls) := by
  obtain ⟨⟨call, hcall, -⟩, rfl⟩ := finish_spec h
  exact ⟨Finmap.mem_of_lookup_eq_some hcall, Finmap.mem_erase⟩

theorem not_mem_calls_of_subscribe (h : s.subscribe subject = some t) :
    task ∉ s.calls ∧ task ∉ t.calls := by
  obtain ⟨hnone, rfl⟩ := subscribe_spec h
  exact ⟨Finmap.lookup_eq_none.1 (hnone task), Finmap.lookup_eq_none.1 (hnone task)⟩

/-! ### What a task waits for -/

theorem not_full_of_send (h : s.send task = some t) (hr : s.nextSend task = some r) :
    ¬ s.Full r := by
  obtain ⟨call, r', rs, ch, hcall, hrem, hch, hcases⟩ := send_spec h
  have hnext : s.nextSend task = some r' := by simp [nextSend, hcall, hrem]
  rw [hnext, Option.some.injEq] at hr
  subst hr
  rintro ⟨ch', hch', halive, hfull⟩
  rw [hch, Option.some.injEq] at hch'
  subst hch'
  rcases hcases with ⟨-, hroom, -⟩ | ⟨hdead, -⟩
  · exact absurd hfull (not_le.2 hroom)
  · rw [hdead] at halive
    cases halive

theorem exists_send (hs : s.Wf) (h : s.nextSend task = some r) (hroom : ¬ s.Full r) :
    ∃ t, s.send task = some t := by
  obtain ⟨call, hcall, hhead⟩ := Option.bind_eq_some_iff.1 h
  obtain ⟨rs, hrem⟩ : ∃ rs, call.remaining = r :: rs := List.head?_eq_some_iff.1 hhead
  have hmem : r ∈ s.subscribers call.subject :=
    (hs.calls task call hcall).subset (by rw [hrem]; exact List.mem_cons_self)
  obtain ⟨ch, hch, -⟩ := hs.channel _ r hmem
  unfold send
  simp only [hcall, hrem, hch]
  cases halive : ch.alive with
  | false => exact ⟨_, rfl⟩
  | true =>
    have hlt : ch.queue.length < channelCapacity := by
      by_contra hge
      exact hroom ⟨ch, hch, halive, not_lt.1 hge⟩
    simp [hlt]

theorem exists_finish {call : Call μ} (hcall : s.calls.lookup task = some call)
    (h : s.nextSend task = none) : ∃ t, s.finish task = some t := by
  have hrem : call.remaining = [] := by
    simpa [nextSend, hcall] using h
  obtain ⟨subject, msg, remaining⟩ := call
  dsimp only at hrem
  subst hrem
  simp [finish, hcall]

theorem Bounded.step (hs : s.Bounded) {a : BusAction μ} (h : (localBus μ).step s a = some t) :
    t.Bounded := by
  -- a channel that is written holds no more than before, or had room
  have hinsert : ∀ {r : ℕ} {ch : Channel μ}, ch.queue.length ≤ channelCapacity →
      ∀ r' ch', (s.channels.insert r ch).lookup r' = some ch' →
        ch'.queue.length ≤ channelCapacity := by
    intro r ch hch r' ch' hch'
    by_cases heq : r' = r
    · rw [heq, Finmap.lookup_insert, Option.some.injEq] at hch'
      rwa [← hch']
    · rw [Finmap.lookup_insert_of_ne _ heq] at hch'
      exact hs r' ch' hch'
  cases a with
  | publish task subject msg =>
    obtain ⟨-, rfl⟩ := publish_spec h
    exact hs
  | send task =>
    obtain ⟨call, r, rs, ch, -, -, -, ⟨-, hroom, rfl⟩ | ⟨-, rfl⟩⟩ := send_spec h
    · refine hinsert ?_
      rw [List.length_append, List.length_singleton]
      exact hroom
    · exact hs
  | finish task =>
    obtain ⟨-, rfl⟩ := finish_spec h
    exact hs
  | subscribe subject =>
    obtain ⟨-, rfl⟩ := subscribe_spec h
    exact hinsert (Nat.zero_le _)
  | recv r =>
    obtain ⟨ch, m, queue, hch, -, hqueue, rfl⟩ := recv_spec h
    have hbound := hs r ch hch
    rw [hqueue, List.length_cons] at hbound
    exact hinsert (Nat.le_of_succ_le hbound)
  | drop r =>
    obtain ⟨ch, hch, -, rfl⟩ := drop_spec h
    exact hinsert (Nat.zero_le _)

end LocalBus

/-! ### Waiting for the lock -/

/-- The step of the bus that carries out a request. -/
def LockRequest.action : LockRequest μ → BusAction μ
  | publish task subject msg => .publish task subject msg
  | subscribe _ subject => .subscribe subject

theorem LocalBus.carryOut_eq (s : LocalBus μ) (q : LockRequest μ) :
    s.carryOut q = (localBus μ).step s q.action := by
  cases q <;> rfl

/-- A task waits for the lock, as a subscriber or behind one. -/
def Behind (waiting : List (LockRequest μ)) (task : ℕ) : Prop :=
  ∃ pre q post, waiting = pre ++ q :: post ∧ q.task = task ∧ ∃ w ∈ pre ++ [q], w.IsSubscribe

theorem Behind.mem {waiting : List (LockRequest μ)} {task : ℕ} (h : Behind waiting task) :
    task ∈ waiting.map LockRequest.task := by
  obtain ⟨pre, q, post, rfl, rfl, -⟩ := h
  simp

theorem Behind.mono {waiting waiting' : List (LockRequest μ)} {task : ℕ}
    (h : Behind waiting' task) (hsub : waiting'.Sublist waiting) : Behind waiting task := by
  obtain ⟨pre, q, post, rfl, htask, w, hw, hsubscribe⟩ := h
  obtain ⟨before, rest, rfl, hpre, hrest⟩ := List.append_sublist_iff.1 hsub
  obtain ⟨front, back, rfl, hq, -⟩ := List.cons_sublist_iff.1 hrest
  obtain ⟨front, tail, rfl⟩ := List.append_of_mem hq
  refine ⟨before ++ front, q, tail ++ back, by simp, htask, w, ?_, hsubscribe⟩
  rcases List.mem_append.1 hw with hw | hw
  · exact List.mem_append_left _ (List.mem_append_left _ (hpre.subset hw))
  · exact List.mem_append_right _ hw

theorem behind_of_subscribe {waiting : List (LockRequest μ)} {q : LockRequest μ} {task : ℕ}
    (hq : q.IsSubscribe) (h : task ∈ (q :: waiting).map LockRequest.task) :
    Behind (q :: waiting) task := by
  obtain ⟨q', hq', rfl⟩ := List.mem_map.1 h
  obtain ⟨pre, post, heq⟩ := List.append_of_mem hq'
  refine ⟨pre, q', post, heq, rfl, q, ?_, hq⟩
  cases pre with
  | nil =>
    rw [(List.cons.inj heq).1]
    exact List.mem_singleton_self q'
  | cons p pre =>
    rw [(List.cons.inj heq).1]
    exact List.mem_cons_self

theorem behind_concat {waiting : List (LockRequest μ)} {q : LockRequest μ} {task : ℕ} :
    Behind (waiting ++ [q]) task ↔
      Behind waiting task ∨ (q.task = task ∧ ∃ w ∈ waiting ++ [q], w.IsSubscribe) := by
  constructor
  · rintro ⟨pre, q', post, heq, htask, hw⟩
    rcases List.eq_nil_or_concat post with rfl | ⟨post, l, rfl⟩
    · obtain ⟨rfl, hq⟩ := List.append_inj' heq rfl
      cases hq
      exact Or.inr ⟨htask, hw⟩
    · have heq' : waiting ++ [q] = (pre ++ q' :: post) ++ [l] := by simpa using heq
      exact Or.inl ⟨pre, q', post, (List.append_inj' heq' rfl).1, htask, hw⟩
  · rintro (⟨pre, q', post, rfl, htask, hw⟩ | ⟨htask, hw⟩)
    · exact ⟨pre, q', post ++ [q], by simp, htask, hw⟩
    · exact ⟨waiting, q, [], rfl, htask, hw⟩

theorem behind_cons {waiting : List (LockRequest μ)} {q : LockRequest μ} {task : ℕ}
    (hq : ¬ q.IsSubscribe) (hne : q.task ≠ task ∨ task ∉ waiting.map LockRequest.task) :
    Behind (q :: waiting) task ↔ Behind waiting task := by
  constructor
  · rintro ⟨pre, q', post, heq, htask, w, hw, hsub⟩
    cases pre with
    | nil =>
      -- the task would be the one whose request is granted
      obtain ⟨rfl, rfl⟩ := List.cons.inj heq
      rw [List.nil_append, List.mem_singleton] at hw
      exact absurd (hw ▸ hsub) hq
    | cons p pre =>
      obtain ⟨rfl, rfl⟩ := List.cons.inj heq
      refine ⟨pre, q', post, rfl, htask, w, ?_, hsub⟩
      rcases List.mem_cons.1 hw with rfl | hw
      · exact absurd hsub hq
      · exact hw
  · rintro ⟨pre, q', post, rfl, htask, w, hw, hsub⟩
    exact ⟨q :: pre, q', post, rfl, htask, w, List.mem_cons_of_mem _ hw, hsub⟩

namespace LockedBus

/-- The bus is well formed, and nobody waits twice or while it is in a call. -/
structure Wf (s : LockedBus μ) : Prop where
  bus : s.bus.Wf
  bounded : s.bus.Bounded
  nodup : (s.waiting.map LockRequest.task).Nodup
  free : ∀ q ∈ s.waiting, s.bus.calls.lookup q.task = none

theorem wf_new : Wf ({ bus := .new, waiting := [] } : LockedBus μ) where
  bus := LocalBus.wf_new
  bounded r ch h := by simp [LocalBus.new] at h
  nodup := List.nodup_nil
  free q hq := by cases hq

variable {s t : LockedBus μ}

theorem ask_spec {q : LockRequest μ} (h : (lockedBus μ).step s (.ask q) = some t) :
    ¬ s.Busy q.task ∧ t = { s with waiting := s.waiting ++ [q] } := by
  change (if s.Busy q.task then none else some { s with waiting := s.waiting ++ [q] }) =
    some t at h
  split_ifs at h with hbusy
  exact ⟨hbusy, (Option.some.inj h).symm⟩

theorem abort_spec {task : ℕ} (h : (lockedBus μ).step s (.abort task) = some t) :
    s.Busy task ∧ t = s.abort task := by
  change (if s.Busy task then some (s.abort task) else none) = some t at h
  split_ifs at h with hbusy
  exact ⟨hbusy, (Option.some.inj h).symm⟩

theorem step_grant {q : LockRequest μ} {waiting : List (LockRequest μ)}
    (h : s.waiting = q :: waiting) :
    (lockedBus μ).step s .grant =
      (s.bus.carryOut q).map fun bus => { bus := bus, waiting := waiting } := by
  obtain ⟨bus, waiting'⟩ := s
  dsimp only at h
  subst h
  rfl

theorem grant_spec (h : (lockedBus μ).step s .grant = some t) :
    ∃ q waiting bus, s.waiting = q :: waiting ∧ s.bus.carryOut q = some bus ∧
      t = { bus := bus, waiting := waiting } := by
  cases hwaiting : s.waiting with
  | nil =>
    obtain ⟨bus, waiting⟩ := s
    dsimp only at hwaiting
    subst hwaiting
    cases h
  | cons q waiting =>
    rw [step_grant hwaiting] at h
    obtain ⟨bus, hbus, rfl⟩ := Option.map_eq_some_iff.1 h
    exact ⟨q, waiting, bus, rfl, hbus, rfl⟩

theorem Wf.head_not_mem (hs : s.Wf) {q : LockRequest μ} {waiting : List (LockRequest μ)}
    (h : s.waiting = q :: waiting) : q.task ∉ waiting.map LockRequest.task := by
  have hnodup := hs.nodup
  rw [h, List.map_cons] at hnodup
  exact (List.nodup_cons.1 hnodup).1

theorem Wf.bus_step (hs : s.Wf) {a : BusAction μ} {bus : LocalBus μ}
    (h : (localBus μ).step s.bus a = some bus) {waiting : List (LockRequest μ)}
    (hwaiting : waiting.Sublist s.waiting)
    (hcalls : ∀ q ∈ waiting, s.bus.calls.lookup q.task = none →
      bus.calls.lookup q.task = none) : Wf { bus := bus, waiting := waiting } where
  bus := hs.bus.step h
  bounded := hs.bounded.step h
  nodup := (hwaiting.map _).nodup hs.nodup
  free q hq := hcalls q hq (hs.free q (hwaiting.subset hq))

/-- **Every step keeps the bus with its lock well formed.** -/
theorem Wf.step (hs : s.Wf) {a : LockedAction μ} (h : (lockedBus μ).step s a = some t) :
    t.Wf := by
  cases a with
  | ask q =>
    obtain ⟨hbusy, rfl⟩ := ask_spec h
    rw [Busy, not_or] at hbusy
    refine ⟨hs.bus, hs.bounded, ?_, ?_⟩
    · dsimp only
      rw [List.map_append, List.map_singleton, List.nodup_append_comm]
      exact List.nodup_cons.2 ⟨hbusy.1, hs.nodup⟩
    · intro q' hq'
      rcases List.mem_append.1 hq' with hq' | hq'
      · exact hs.free q' hq'
      · rw [List.mem_singleton.1 hq']
        exact Finmap.lookup_eq_none.2 hbusy.2
  | grant =>
    obtain ⟨q, waiting, bus', hwaiting, hbus', rfl⟩ := grant_spec h
    rw [LocalBus.carryOut_eq] at hbus'
    refine hs.bus_step hbus' (hwaiting ▸ List.sublist_cons_self _ _) ?_
    intro q' hq' hnone
    cases q with
    | publish task subject msg =>
      obtain ⟨-, rfl⟩ := LocalBus.publish_spec hbus'
      have hne : q'.task ≠ task := by
        rintro rfl
        have hmem := List.mem_map_of_mem (f := LockRequest.task) hq'
        exact hs.head_not_mem hwaiting hmem
      rwa [Finmap.lookup_insert_of_ne _ hne]
    | subscribe task subject =>
      obtain ⟨-, rfl⟩ := LocalBus.subscribe_spec hbus'
      exact hnone
  | send task =>
    obtain ⟨bus', hbus', rfl⟩ := Option.map_eq_some_iff.1 h
    refine hs.bus_step (a := .send task) hbus' (List.Sublist.refl _) ?_
    intro q hq hnone
    obtain ⟨call, r, rs, ch, hcall, -, -, hcases⟩ := LocalBus.send_spec hbus'
    have hne : q.task ≠ task := by
      rintro rfl
      rw [hcall] at hnone
      cases hnone
    rcases hcases with ⟨-, -, rfl⟩ | ⟨-, rfl⟩ <;> rwa [Finmap.lookup_insert_of_ne _ hne]
  | finish task =>
    obtain ⟨bus', hbus', rfl⟩ := Option.map_eq_some_iff.1 h
    refine hs.bus_step (a := .finish task) hbus' (List.Sublist.refl _) ?_
    intro q hq hnone
    obtain ⟨-, rfl⟩ := LocalBus.finish_spec hbus'
    by_cases heq : q.task = task
    · rw [heq, Finmap.lookup_erase]
    · rwa [Finmap.lookup_erase_ne heq]
  | abort task =>
    obtain ⟨-, rfl⟩ := abort_spec h
    have hsub : (s.waiting.filter fun q => q.task ≠ task).Sublist s.waiting :=
      List.filter_sublist
    refine ⟨hs.bus.erase_call task, hs.bounded, (hsub.map _).nodup hs.nodup, ?_⟩
    intro q hq
    have hnone := hs.free q (hsub.subset hq)
    have hne : q.task ≠ task := by simpa using (List.mem_filter.1 hq).2
    exact (Finmap.lookup_erase_ne hne).trans hnone
  | recv r =>
    obtain ⟨bus', hbus', rfl⟩ := Option.map_eq_some_iff.1 h
    refine hs.bus_step (a := .recv r) hbus' (List.Sublist.refl _) ?_
    obtain ⟨ch, m, queue, -, -, -, rfl⟩ := LocalBus.recv_spec hbus'
    exact fun q _ hnone => hnone
  | drop r =>
    obtain ⟨bus', hbus', rfl⟩ := Option.map_eq_some_iff.1 h
    refine hs.bus_step (a := .drop r) hbus' (List.Sublist.refl _) ?_
    obtain ⟨ch, -, -, rfl⟩ := LocalBus.drop_spec hbus'
    exact fun q _ hnone => hnone

end LockedBus

end W2uos
