import W2uos.Net.Shaper

/-!
# Targets and the lock of the map

A call waits for its permit with the lock of the map in its hands.  While it does, calls of other
targets wait for the lock, whether or not there are permits of their own.

* `ShaperState.CanObtain` : a call can get its permit while only calls of its target move;
* `ShaperState.Stuck` : a call is behind a lock that a call of another target has;
* `ShaperState.Stuck.step` : nothing but the other call changes that;
* `ShaperState.independent_iff` : exactly when a call that should get its permit can get it.
-/

namespace W2uos

/-- The call has not come as far as asking for a permit. -/
def CallPhase.early : CallPhase → Bool
  | jitter | lockQueue | locked | panicked => true
  | permitQueue | permitted | running | returned _ => false

/-- It is a call of the target that moves. -/
def ShaperAction.IsOf (tag : String) (u : ShaperState) : ShaperAction → Prop
  | call tag' _ => tag' = tag
  | poll i | finish i _ => ∃ call, u.calls[i]? = some call ∧ call.tag = tag

namespace ShaperState

variable [Reqwest] (shaper : TrafficShaper) {limit : ℕ} {u v : ShaperState} {i j : ℕ}
  {call : ExecuteCall} {tag : String}

/-- The call can get its permit without any call of another target making progress. -/
def CanObtain (u : ShaperState) (tag : String) (i : ℕ) : Prop :=
  ∃ as v call, (execute shaper).exec u as = some v ∧
    (execute shaper).Throughout u (ShaperAction.IsOf tag) as ∧
    v.calls[i]? = some call ∧ call.phase.obtained = true

/-! ### Limits that are too high -/

/-- Nobody has come as far as asking for a permit. -/
structure Unopened (u : ShaperState) : Prop where
  semaphores : u.semaphores = ∅
  phases : ∀ call ∈ u.calls, call.phase.early = true

omit [Reqwest] in
theorem Unopened.setPhase (h : Unopened u) (i : ℕ) {phase : CallPhase}
    (hphase : phase.early = true) :
    Unopened (u.setPhase i phase) := by
  refine ⟨by rw [setPhase_semaphores, h.semaphores], ?_⟩
  cases hcall : u.calls[i]? with
  | none =>
    rw [ShaperState.setPhase, hcall]
    exact h.phases
  | some call =>
    rw [setPhase_eq hcall]
    intro call' hmem
    rcases List.mem_or_eq_of_mem_set hmem with hmem | rfl
    · exact h.phases call' hmem
    · exact hphase

omit [Reqwest] in
theorem Unopened.unlock (h : Unopened u) : Unopened u.unlock := by
  cases hnext : u.lock.release.2 with
  | none =>
    rw [unlock_of_none hnext]
    exact ⟨h.semaphores, h.phases⟩
  | some j =>
    rw [unlock_of_some hnext]
    have hlock : Unopened { u with lock := u.lock.release.1 } := ⟨h.semaphores, h.phases⟩
    refine hlock.setPhase j ?_
    rfl

theorem Unopened.takePermit (h : Unopened u) (hlimit : maxPermits < limit) (i : ℕ)
    (call : ExecuteCall) : Unopened (u.takePermit shaper limit i call) := by
  have hnone : (u.semaphores.lookup call.tag).isNone := by
    rw [h.semaphores, Finmap.lookup_empty]
    rfl
  rw [ShaperState.takePermit, if_pos ⟨hnone, hlimit⟩]
  exact (h.setPhase i rfl).unlock

/-- A limit that no semaphore can have: all calls that look for theirs panic. -/
theorem Unopened.step (hprofile : shaper.profile.maxParallelRequestsPerTarget = some limit)
    (hlimit : maxPermits < limit) (h : Unopened u) {a : ShaperAction}
    (hstep : (execute shaper).step u a = some v) : Unopened v := by
  cases a with
  | call tag coin =>
    cases hstep
    refine ⟨h.semaphores, fun call hmem => ?_⟩
    rcases List.mem_append.1 hmem with hmem | hmem
    · exact h.phases call hmem
    · rw [List.mem_singleton.1 hmem]
      dsimp only
      split_ifs <;> rfl
  | poll i =>
    obtain ⟨call, hcall, hpoll⟩ := Option.bind_eq_some_iff.1 hstep
    have hearly := h.phases call (List.mem_of_getElem? hcall)
    rcases poll_cases shaper hprofile hpoll with ⟨-, rfl⟩ | ⟨-, rfl⟩ | ⟨hphase, -⟩
    · rw [takeLock]
      dsimp only
      have hlock : Unopened { u with lock := (u.lock.acquire i).1 } := ⟨h.semaphores, h.phases⟩
      split_ifs
      · refine Unopened.takePermit shaper (hlock.setPhase i ?_) hlimit i call
        rfl
      · refine hlock.setPhase i ?_
        rfl
    · exact h.takePermit shaper hlimit i call
    · rw [hphase] at hearly
      cases hearly
  | finish i ok =>
    obtain ⟨call, hcall, hfinish⟩ := Option.bind_eq_some_iff.1 hstep
    split_ifs at hfinish with hphase
    have hearly := h.phases call (List.mem_of_getElem? hcall)
    rw [hphase] at hearly
    cases hearly

theorem le_maxPermits_of_obtained
    (hprofile : shaper.profile.maxParallelRequestsPerTarget = some limit) {as : List ShaperAction}
    (h : (execute shaper).exec .start as = some u) (hcall : u.calls[i]? = some call)
    (hobtained : call.phase.obtained = true) : limit ≤ maxPermits := by
  by_contra hlimit
  have hunopened : Unopened u :=
    Interleaving.exec_invariant (P := Unopened) ⟨rfl, by simp [start]⟩
      (fun _ _ _ ht hstep => ht.step shaper hprofile (Nat.not_le.1 hlimit) hstep) h
  have hearly := hunopened.phases call (List.mem_of_getElem? hcall)
  cases hphase : call.phase <;> rw [hphase] at hearly hobtained <;> simp_all [CallPhase.early,
    CallPhase.obtained]

/-! ### Behind the lock -/

/-- The call has not got the lock of the map, which a call of another target has. -/
structure Stuck (limit : ℕ) (u : ShaperState) (tag : String) (i j : ℕ) : Prop where
  counted : Counted limit u
  holder : ∃ other, u.calls[j]? = some other ∧ other.tag ≠ tag ∧ other.hasLock = true
  behind : ∃ call, u.calls[i]? = some call ∧ (call.phase = .jitter ∨ call.phase = .lockQueue)

omit [Reqwest] in
theorem Counted.hasLock_unique (h : Counted limit u) {other : ExecuteCall}
    (hi : u.calls[i]? = some call) (hj : u.calls[j]? = some other) (hcall : call.hasLock = true)
    (hother : other.hasLock = true) : i = j :=
  Finset.card_le_one.1 h.lock.card_le i ((Tasks.mem_indices_of_getElem? hi).2 hcall) j
    ((Tasks.mem_indices_of_getElem? hj).2 hother)

omit [Reqwest] in
theorem Counted.lock_taken (h : Counted limit u) (hcall : u.calls[i]? = some call)
    (hlock : call.hasLock = true) : u.lock.available = 0 := by
  have hcount := h.lock.count
  have hcard := Finset.card_pos.2 ⟨i, (Tasks.mem_indices_of_getElem? hcall).2 hlock⟩
  omega

omit [Reqwest] in
/-- The two calls are where they were, or the first has queued for the lock. -/
theorem Stuck.of_calls (h : Stuck limit u tag i j) (hv : Counted limit v)
    (hj : v.calls[j]? = u.calls[j]?)
    (hi : v.calls[i]? = u.calls[i]? ∨ ∃ call, v.calls[i]? = some call ∧ call.phase = .lockQueue) :
    Stuck limit v tag i j := by
  refine ⟨hv, ?_, ?_⟩
  · rw [hj]
    exact h.holder
  · rcases hi with hi | ⟨call, hcall, hphase⟩
    · rw [hi]
      exact h.behind
    · exact ⟨call, hcall, Or.inr hphase⟩

theorem Counted.takeLock_of_taken (h : Counted limit u) {other : ExecuteCall}
    (hother : u.calls[j]? = some other) (hlock : other.hasLock = true) (k : ℕ)
    (call : ExecuteCall) :
    u.takeLock shaper limit k call =
      ({ u with lock := (u.lock.acquire k).1 } : ShaperState).setPhase k .lockQueue := by
  have hgot : (u.lock.acquire k).2 = false := by
    rw [Semaphore.acquire, h.lock_taken hother hlock]
    rfl
  simp only [ShaperState.takeLock, hgot]
  rfl

omit [Reqwest] in
/-- A call that returns while one of another target has the lock of the map gives its permit to
nobody: whoever waits for one has the lock. -/
theorem Counted.finish_calls (h : Counted limit u) {other : ExecuteCall}
    (hother : u.calls[j]? = some other) (hlock : other.hasLock = true)
    (hcall : u.calls[k]? = some call) (hphase : call.phase = .running)
    (htag : other.tag ≠ call.tag) (ok : Bool) :
    (u.finish k call ok).calls = (u.setPhase k (.returned ok)).calls := by
  obtain ⟨sem, hsem⟩ := h.exists_semaphore call.tag hcall (by
    simp [ExecuteCall.hasPermit, hphase, CallPhase.hasPermit])
  have hsem' : (u.setPhase k (.returned ok)).semaphores.lookup call.tag = some sem := by
    rw [setPhase_semaphores, hsem]
  have hright := h.permits call.tag
  rw [semaphore, hsem, Option.getD_some] at hright
  cases hnext : sem.release.2 with
  | none => rw [ShaperState.finish, dropPermit_of_none hsem' hnext]
  | some l =>
    obtain ⟨next, hget, hqueues⟩ := Tasks.mem_indices.1
      ((hright.mem_queue l).1 (Semaphore.mem_queue_of_release hnext))
    obtain ⟨hnexttag, hnextphase⟩ : next.tag = call.tag ∧ next.phase = .permitQueue := by
      simpa [ExecuteCall.queuesPermit] using hqueues
    have hlj := h.hasLock_unique hget hother (by rw [ExecuteCall.hasLock, hnextphase]; rfl) hlock
    rw [hlj, hother, Option.some.injEq] at hget
    exact absurd (hget ▸ hnexttag) htag

/-- **The step lemma of the lock**: as long as only calls of its target move, the call stays behind
the lock. -/
theorem Stuck.step (hprofile : shaper.profile.maxParallelRequestsPerTarget = some limit)
    (h : Stuck limit u tag i j) {a : ShaperAction} (ha : a.IsOf tag u)
    (hstep : (execute shaper).step u a = some v) : Stuck limit v tag i j := by
  have hv : Counted limit v := h.counted.step shaper hprofile hstep
  obtain ⟨other, hother, htag, hlock⟩ := h.holder
  obtain ⟨mine, hmine, hbehind⟩ := h.behind
  have hne : ∀ {k call}, u.calls[k]? = some call → call.tag = tag → j ≠ k := by
    rintro k call hcall hcalltag rfl
    rw [hcall, Option.some.injEq] at hother
    exact htag (hother ▸ hcalltag)
  cases a with
  | call tag' coin =>
    cases hstep
    refine h.of_calls hv ?_ (Or.inl ?_)
    · exact List.getElem?_append_left (List.getElem?_eq_some_iff.1 hother).1
    · exact List.getElem?_append_left (List.getElem?_eq_some_iff.1 hmine).1
  | poll k =>
    obtain ⟨call, hcall, hpoll⟩ := Option.bind_eq_some_iff.1 hstep
    obtain ⟨call', hcall', hcalltag⟩ := ha
    rw [hcall, Option.some.injEq] at hcall'
    rw [← hcall'] at hcalltag
    have hkj : j ≠ k := hne hcall hcalltag
    -- whoever has the lock of the map is the other call
    have hnolock : call.hasLock = false := by
      by_contra hlocked
      exact hkj (h.counted.hasLock_unique hother hcall hlock (by simpa using hlocked))
    rcases poll_cases shaper hprofile hpoll with ⟨-, rfl⟩ | ⟨hphase, -⟩ | ⟨hphase, -⟩
    · have hqueued := h.counted.takeLock_of_taken shaper hother hlock k call
      let w : ShaperState := { u with lock := (u.lock.acquire k).1 }
      have hw : w.calls[k]? = some call := hcall
      rw [hqueued] at hv ⊢
      refine h.of_calls hv (getElem?_setPhase_ne w hkj .lockQueue) ?_
      by_cases hik : i = k
      · subst hik
        exact Or.inr ⟨_, getElem?_setPhase_self hw .lockQueue, rfl⟩
      · exact Or.inl (getElem?_setPhase_ne w hik .lockQueue)
    · rw [ExecuteCall.hasLock, hphase] at hnolock
      cases hnolock
    · rw [ExecuteCall.hasLock, hphase] at hnolock
      cases hnolock
  | finish k ok =>
    obtain ⟨call, hcall, hfinish⟩ := Option.bind_eq_some_iff.1 hstep
    obtain ⟨call', hcall', hcalltag⟩ := ha
    rw [hcall, Option.some.injEq] at hcall'
    rw [← hcall'] at hcalltag
    split_ifs at hfinish with hphase
    cases hfinish
    have hik : i ≠ k := by
      rintro rfl
      rw [hcall, Option.some.injEq] at hmine
      rw [← hmine, hphase] at hbehind
      rcases hbehind with hbehind | hbehind <;> cases hbehind
    have hcalls := h.counted.finish_calls hother hlock hcall hphase
      (fun heq => htag (heq.trans hcalltag)) ok
    refine h.of_calls hv ?_ (Or.inl ?_)
    · rw [hcalls, getElem?_setPhase_ne u (hne hcall hcalltag)]
    · rw [hcalls, getElem?_setPhase_ne u hik]

theorem Stuck.not_canObtain (hprofile : shaper.profile.maxParallelRequestsPerTarget = some limit)
    (h : Stuck limit u tag i j) : ¬ CanObtain shaper u tag i := by
  rintro ⟨as, v, call, hexec, hthroughout, hcall, hobtained⟩
  have hstuck : Stuck limit v tag i j :=
    hthroughout.invariant (Q := fun u => Stuck limit u tag i j) h
      (fun _ _ _ hu ha hstep => hu.step shaper hprofile ha hstep) hexec
  obtain ⟨mine, hmine, hbehind⟩ := hstuck.behind
  rw [hcall, Option.some.injEq] at hmine
  rw [← hmine] at hbehind
  rcases hbehind with hphase | hphase <;>
    · rw [hphase] at hobtained
      cases hobtained

/-! ### Independence -/

omit [Reqwest] in
theorem waits_of_hasLock {other : ExecuteCall} (hlock : other.hasLock = true) :
    other.phase.waits = true := by
  cases hphase : other.phase <;> rw [ExecuteCall.hasLock, hphase] at hlock <;>
    first | rfl | cases hlock

omit [Reqwest] in
/-- If no other call of the target waits, those that have its permits are running, so that a slot to
spare is a permit to have. -/
theorem Counted.available_of_alone (h : Counted limit u) (hcall : u.calls[i]? = some call)
    (hspare : (Tasks.indices (ExecuteCall.runs call.tag) u.calls).card < limit)
    (halone : ∀ j other, j ≠ i → u.calls[j]? = some other → other.tag = call.tag →
      other.phase.waits = false)
    (hnopermit : call.phase.hasPermit = false) : 0 < (u.semaphore limit call.tag).available := by
  have hsubset : Tasks.indices (ExecuteCall.hasPermit call.tag) u.calls ⊆
      Tasks.indices (ExecuteCall.runs call.tag) u.calls := by
    intro j hj
    obtain ⟨other, hget, hpermit⟩ := Tasks.mem_indices.1 hj
    obtain ⟨htag, hpermit⟩ : other.tag = call.tag ∧ other.phase.hasPermit = true := by
      simpa [ExecuteCall.hasPermit] using hpermit
    have hne : j ≠ i := by
      rintro rfl
      rw [hcall, Option.some.injEq] at hget
      exact Bool.false_ne_true (hnopermit.symm.trans (hget ▸ hpermit))
    have hnotwaits := halone j other hne hget htag
    refine Tasks.mem_indices.2 ⟨other, hget, ?_⟩
    cases hphase : other.phase <;> rw [hphase] at hpermit hnotwaits <;>
      simp_all [CallPhase.hasPermit, CallPhase.waits, ExecuteCall.runs]
  have hcount := (h.permits call.tag).count
  have hcard := Finset.card_le_card hsubset
  omega

theorem canObtain_of_poll (hcall : u.calls[i]? = some call)
    (hpoll : u.poll shaper i call = some v)
    (hobtained : ∃ phase, phase.obtained = true ∧
      v.calls[i]? = some { call with phase := phase }) : CanObtain shaper u call.tag i := by
  obtain ⟨phase, hobtained, hget⟩ := hobtained
  have hstep : (execute shaper).step u (.poll i) = some v := by
    show (u.calls[i]?).bind _ = some v
    rw [hcall]
    exact hpoll
  have hexec : (execute shaper).exec u [.poll i] = some v :=
    Interleaving.exec_cons_of_step hstep []
  have hnil : (execute shaper).exec u [] = some u := rfl
  refine ⟨[.poll i], v, _, hexec, ?_, hget, hobtained⟩
  exact (Interleaving.throughout_concat hnil).2 ⟨Interleaving.throughout_nil, call, hcall, rfl⟩

/-- A call that can get its permit without any call of another target is not behind one that has the
lock of the map. -/
theorem CanObtain.lock_free (hprofile : shaper.profile.maxParallelRequestsPerTarget = some limit)
    (h : Counted limit u) (hcall : u.calls[i]? = some call)
    (hstands : call.phase = .jitter ∨ call.phase.waits = true)
    (hcan : CanObtain shaper u call.tag i) {other : ExecuteCall} (hmem : other ∈ u.calls)
    (htag : other.tag ≠ call.tag) : other.hasLock = false := by
  by_contra hlock
  have hlock' : other.hasLock = true := by simpa using hlock
  obtain ⟨j, hj⟩ := List.getElem?_of_mem hmem
  -- it is not the call itself that has the lock
  have hne : call.hasLock = false := by
    by_contra hmine
    have hij := h.hasLock_unique hcall hj (by simpa using hmine) hlock'
    rw [hij, hj, Option.some.injEq] at hcall
    exact htag (congrArg ExecuteCall.tag hcall)
  refine Stuck.not_canObtain shaper hprofile ⟨h, ⟨other, hj, htag, hlock'⟩, call, hcall, ?_⟩ hcan
  rw [ExecuteCall.hasLock] at hne
  rcases hstands with hphase | hwaits
  · exact Or.inl hphase
  · cases hphase : call.phase <;> rw [hphase] at hne hwaits <;> simp_all [CallPhase.hasLock,
      CallPhase.waits]

/-- A call that nobody is in the way of gets its permit at its next poll, if it has not got it
yet. -/
theorem Counted.canObtain (hprofile : shaper.profile.maxParallelRequestsPerTarget = some limit)
    (h : Counted limit u) (hlimit : limit ≤ maxPermits) (hcall : u.calls[i]? = some call)
    (hstands : call.phase = .jitter ∨ call.phase.waits = true)
    (honly : ∀ j ∈ Tasks.indices ExecuteCall.hasLock u.calls, j = i)
    (hfree : call.phase.hasPermit = false → 0 < (u.semaphore limit call.tag).available) :
    CanObtain shaper u call.tag i := by
  have hself : ∀ phase, call.phase = phase → u.calls[i]? = some { call with phase := phase } := by
    rintro phase rfl
    exact hcall
  have hmine : call.hasLock = false → Tasks.indices ExecuteCall.hasLock u.calls = ∅ := by
    intro hnolock
    refine Finset.eq_empty_of_forall_notMem fun j hj => ?_
    rw [honly j hj, Tasks.mem_indices_of_getElem? hcall, hnolock] at hj
    cases hj
  have hcount := h.lock.count
  cases hphase : call.phase with
  | jitter =>
    rw [hmine (by rw [ExecuteCall.hasLock, hphase]; rfl), Finset.card_empty] at hcount
    have hpoll : u.poll shaper i call = some (u.takeLock shaper limit i call) := by
      rw [poll, hphase, hprofile]
    refine canObtain_of_poll shaper hcall hpoll ?_
    exact (h.takeLock shaper hcall hphase).2 hlimit (by omega) (hfree (by rw [hphase]; rfl))
  | lockQueue =>
    -- the lock would be available
    have hbusy := h.lock.busy i ((Tasks.mem_indices_of_getElem? hcall).2 (by
      simp [ExecuteCall.queuesLock, hphase]))
    rw [hmine (by rw [ExecuteCall.hasLock, hphase]; rfl), Finset.card_empty] at hcount
    omega
  | locked =>
    have hpoll : u.poll shaper i call = some (u.takePermit shaper limit i call) := by
      rw [poll, hphase, hprofile]
    refine canObtain_of_poll shaper hcall hpoll ?_
    exact (h.takePermit call shaper (hself .locked hphase)).2 hlimit (hfree (by rw [hphase]; rfl))
  | permitQueue =>
    -- a permit would be available
    have hbusy := (h.permits call.tag).busy i ((Tasks.mem_indices_of_getElem? hcall).2 (by
      simp [ExecuteCall.queuesPermit, hphase]))
    exact absurd hbusy (Nat.ne_of_gt (hfree (by rw [hphase]; rfl)))
  | permitted =>
    exact ⟨[], u, call, rfl, Interleaving.throughout_nil, hcall, by rw [hphase]; rfl⟩
  | running => rw [hphase] at hstands; rcases hstands with hstands | hstands <;> cases hstands
  | returned ok => rw [hphase] at hstands; rcases hstands with hstands | hstands <;> cases hstands
  | panicked => rw [hphase] at hstands; rcases hstands with hstands | hstands <;> cases hstands

/-- **When targets do not block each other**: a call whose target has a slot to spare, and for which
no other call waits, can get it without any call of another target making progress exactly if none
of them has the lock of the map (and the limit is one a semaphore can have). -/
theorem independent_iff (hprofile : shaper.profile.maxParallelRequestsPerTarget = some limit)
    {as : List ShaperAction} (h : (execute shaper).exec .start as = some u)
    (hcall : u.calls[i]? = some call) (hstands : call.phase = .jitter ∨ call.phase.waits = true)
    (hspare : (Tasks.indices (ExecuteCall.runs call.tag) u.calls).card < limit)
    (halone : ∀ j other, j ≠ i → u.calls[j]? = some other → other.tag = call.tag →
      other.phase.waits = false) :
    CanObtain shaper u call.tag i ↔
      limit ≤ maxPermits ∧ ∀ other ∈ u.calls, other.tag ≠ call.tag → other.hasLock = false := by
  have hcounted := counted_run shaper hprofile h
  constructor
  · intro hcan
    refine ⟨?_, fun other hmem htag => ?_⟩
    · obtain ⟨bs, v, call', hexec, -, hcall', hobtained⟩ := hcan
      exact le_maxPermits_of_obtained shaper hprofile (Interleaving.exec_trans h hexec) hcall'
        hobtained
    · exact hcan.lock_free shaper hprofile hcounted hcall hstands hmem htag
  · rintro ⟨hlimit, hothers⟩
    refine hcounted.canObtain shaper hprofile hlimit hcall hstands ?_
      (hcounted.available_of_alone hcall hspare halone)
    -- nobody else has the lock of the map
    intro j hj
    obtain ⟨other, hget, hlock⟩ := Tasks.mem_indices.1 hj
    by_contra hne
    by_cases htag : other.tag = call.tag
    · exact Bool.false_ne_true
        ((halone j other hne hget htag).symm.trans (waits_of_hasLock hlock))
    · exact Bool.false_ne_true
        ((hothers other (List.mem_of_getElem? hget) htag).symm.trans hlock)

end ShaperState

/-! ### A target behind another -/

/-- A call of one target runs, and one of another is made. -/
def twoTargets : List ShaperAction := [.call "okx" false, .poll 0, .call "binance" false]

theorem independent_iff_two :
    ∃ u, (@execute acceptAll oneSlot).exec .start twoTargets = some u ∧
      (@ShaperState.CanObtain acceptAll oneSlot u "binance" 1 ↔
        1 ≤ maxPermits ∧ ∀ other ∈ u.calls, other.tag ≠ "binance" → other.hasLock = false) := by
  refine ⟨_, rfl, ?_⟩
  refine @ShaperState.independent_iff acceptAll oneSlot 1 _ 1 ⟨"binance", false, .jitter⟩ rfl
    twoTargets rfl rfl (Or.inl rfl) (by decide) ?_
  intro j other hne hget htag
  match j with
  | 0 => cases hget; exact absurd htag (by decide)
  | 1 => exact absurd rfl hne
  | j + 2 => cases hget

/-- The second call of one target waits for its permit when one of another is made. -/
def busyTarget : List ShaperAction :=
  [.call "okx" false, .poll 0, .call "okx" false, .poll 1, .call "binance" false]

/-- **A busy target keeps another waiting**: the second call of OKX waits for its permit with the
lock of the map, so that a call of Binance, which nobody else calls, cannot get one. -/
theorem not_independent :
    ∃ u, (@execute acceptAll oneSlot).exec .start busyTarget = some u ∧
      u.calls[2]? = some ⟨"binance", false, .jitter⟩ ∧
      (Tasks.indices (ExecuteCall.runs "binance") u.calls).card = 0 ∧
      (∀ j other, j ≠ 2 → u.calls[j]? = some other → other.tag ≠ "binance") ∧
      ¬ @ShaperState.CanObtain acceptAll oneSlot u "binance" 2 := by
  refine ⟨_, rfl, rfl, by decide, ?_, ?_⟩
  · intro j other hne hget
    match j with
    | 0 => cases hget; decide
    | 1 => cases hget; decide
    | 2 => exact absurd rfl hne
    | j + 3 => cases hget
  · refine @ShaperState.Stuck.not_canObtain acceptAll oneSlot 1 _ 2 1 "binance" rfl ⟨?_, ?_, ?_⟩
    · exact @ShaperState.counted_run 1 _ acceptAll oneSlot rfl busyTarget rfl
    · exact ⟨⟨"okx", false, .permitQueue⟩, rfl, by decide, rfl⟩
    · exact ⟨⟨"binance", false, .jitter⟩, rfl, Or.inl rfl⟩

end W2uos
