import W2uos.Net.Targets
import W2uos.System.Rest

/-!
# The shaper goes on

A call behind the lock of the map waits for a call that may itself wait for a permit.  Still nobody
waits for ever: with every step some call gets nearer to its end, and a call that cannot go on
waits, directly or through the lock, for a closure that runs.  The exception is a limit of zero,
which the configuration allows: the first call waits for a permit there is none of, and all later
ones, of whatever target, wait behind it.

* `CallPhase.left`, `ShaperState.left` : how far a call, and all calls, are from their ends;
* `ShaperState.Over`, `ShaperState.Starved` : all calls are over, or wait for ever;
* `Regular.step` : every step brings the calls nearer to their ends;
* `over_or_starved` : where no call can go on;
* `execute_settles` : the shaper comes to rest, and where.
-/

namespace W2uos

/-- How far a call is from its end. -/
def CallPhase.left : CallPhase → ℕ
  | .jitter => 6
  | .lockQueue => 5
  | .locked => 4
  | .permitQueue => 3
  | .permitted => 2
  | .running => 1
  | .returned _ | .panicked => 0

/-- A call is polled, or its closure ends. -/
def ShaperAction.IsInner : ShaperAction → Prop
  | .call _ _ => False
  | .poll _ => True
  | .finish _ _ => True

namespace ShaperState

/-- How far all calls are from their ends. -/
def left (u : ShaperState) : ℕ := (u.calls.map fun call => call.phase.left).sum

/-- All calls are over. -/
def Over (u : ShaperState) : Prop := ∀ call ∈ u.calls, call.phase.left = 0

/-- A call waits for a permit, and all others are over or wait for the lock of the map. -/
def Starved (u : ShaperState) : Prop :=
  ∃ (i : ℕ) (call : ExecuteCall), u.calls[i]? = some call ∧ call.phase = .permitQueue ∧
    ∀ (j : ℕ) (other : ExecuteCall), j ≠ i → u.calls[j]? = some other →
      other.phase = .lockQueue ∨ other.phase.left = 0

variable {limit i : ℕ} {u v : ShaperState} {call : ExecuteCall} {phase : CallPhase}

/-! ### The calls get nearer to their ends -/

theorem left_setPhase (hcall : u.calls[i]? = some call) (phase : CallPhase) :
    (u.setPhase i phase).left + call.phase.left = u.left + phase.left := by
  rw [setPhase_eq hcall]
  exact Tasks.sum_map_set hcall (fun call => call.phase.left) _

theorem left_unlock (h : ∀ j ∈ u.lock.queue, ∃ next, u.calls[j]? = some next ∧
    next.phase = .lockQueue) : u.unlock.left ≤ u.left := by
  cases hnext : u.lock.release.2 with
  | none => rw [unlock_of_none hnext]; exact le_refl _
  | some j =>
    obtain ⟨next, hget, hphase⟩ := h j (Semaphore.mem_queue_of_release hnext)
    rw [unlock_of_some hnext]
    have hleft := left_setPhase (u := { u with lock := u.lock.release.1 }) hget .locked
    rw [hphase] at hleft
    change _ + 5 = u.left + 4 at hleft
    omega

theorem left_dropPermit {tag : String} (h : ∀ sem, u.semaphores.lookup tag = some sem →
    ∀ j ∈ sem.queue, ∃ next, u.calls[j]? = some next ∧ next.phase = .permitQueue) :
    (u.dropPermit tag).left ≤ u.left := by
  cases hsem : u.semaphores.lookup tag with
  | none => simp only [dropPermit, hsem]; exact le_refl _
  | some sem =>
    cases hnext : sem.release.2 with
    | none => rw [dropPermit_of_none hsem hnext]; exact le_refl _
    | some j =>
      obtain ⟨next, hget, hphase⟩ := h sem hsem j (Semaphore.mem_queue_of_release hnext)
      rw [dropPermit_of_some hsem hnext]
      have hleft := left_setPhase
        (u := { u with semaphores := u.semaphores.insert tag sem.release.1 }) hget .permitted
      rw [hphase] at hleft
      change _ + 3 = u.left + 2 at hleft
      omega

theorem Counted.left_leave (h : Counted limit u) (hcall : u.calls[i]? = some call)
    (hqueue : call.phase ≠ .lockQueue) (phase : CallPhase) :
    (u.setPhase i phase).unlock.left + call.phase.left ≤ u.left + phase.left := by
  have hset := left_setPhase hcall phase
  have hunlock : (u.setPhase i phase).unlock.left ≤ (u.setPhase i phase).left := by
    refine left_unlock fun j hj => ?_
    rw [setPhase_lock, h.lock.mem_queue] at hj
    obtain ⟨next, hget, hnext⟩ := Tasks.mem_indices.1 hj
    have hphase : next.phase = .lockQueue := of_decide_eq_true hnext
    have hne : j ≠ i := by
      rintro rfl
      rw [hcall, Option.some.injEq] at hget
      exact hqueue (hget ▸ hphase)
    exact ⟨next, by rw [getElem?_setPhase_ne _ hne, hget], hphase⟩
  omega

theorem Counted.left_finish (h : Counted limit u) (hcall : u.calls[i]? = some call)
    (hphase : call.phase = .running) (ok : Bool) : (u.finish i call ok).left < u.left := by
  have hset := left_setPhase hcall (.returned ok)
  rw [hphase] at hset
  change _ + 1 = u.left + 0 at hset
  have hdrop : (u.finish i call ok).left ≤ (u.setPhase i (.returned ok)).left := by
    refine left_dropPermit fun sem hsem j hj => ?_
    rw [setPhase_semaphores] at hsem
    have hright := h.permits call.tag
    rw [semaphore, hsem, Option.getD_some] at hright
    obtain ⟨next, hget, hnext⟩ := Tasks.mem_indices.1 ((hright.mem_queue j).1 hj)
    obtain ⟨-, hnextphase⟩ : next.tag = call.tag ∧ next.phase = .permitQueue := by
      simpa [ExecuteCall.queuesPermit] using hnext
    have hne : j ≠ i := by
      rintro rfl
      rw [hcall, Option.some.injEq] at hget
      rw [hget, hnextphase] at hphase
      cases hphase
    exact ⟨next, by rw [getElem?_setPhase_ne _ hne, hget], hnextphase⟩
  omega

section Steps

variable [Reqwest] (shaper : TrafficShaper)

theorem Counted.left_startClosure (h : Counted limit u)
    (hcall : u.calls[i]? = some { call with phase := .running }) :
    (u.startClosure shaper i call).left ≤ u.left := by
  unfold ShaperState.startClosure
  cases shaper.clientOf call with
  | ok client => exact le_refl _
  | error err =>
    have hfinish := h.left_finish hcall rfl false
    exact hfinish.le

variable (call) in
theorem Counted.left_proceed (h : Counted limit u)
    (hcall : u.calls[i]? = some { call with phase := .permitted }) :
    (u.proceed shaper i call).left < u.left := by
  have hleft : Counted limit (u.setPhase i .running).unlock :=
    h.leave hcall rfl rfl (by simp) rfl (by simp)
  have hleave := h.left_leave hcall (by simp) .running
  change _ + 2 ≤ u.left + 1 at hleave
  have hstart := hleft.left_startClosure shaper (h.getElem?_leave hcall (by simp) .running)
  change (u.proceed shaper i call).left ≤ _ at hstart
  omega

variable (call) in
theorem Counted.left_takePermit (h : Counted limit u)
    (hcall : u.calls[i]? = some { call with phase := .locked }) :
    (u.takePermit shaper limit i call).left < u.left := by
  unfold ShaperState.takePermit
  split_ifs with hpanics
  · have hleave := h.left_leave hcall (by simp) .panicked
    change _ + 4 ≤ u.left + 0 at hleave
    omega
  have hholds : i ∉ Tasks.indices (ExecuteCall.hasPermit call.tag) u.calls := by
    rw [Tasks.mem_indices_of_getElem? hcall]
    simp [ExecuteCall.hasPermit, CallPhase.hasPermit]
  have hwaits : i ∉ Tasks.indices (ExecuteCall.queuesPermit call.tag) u.calls := by
    rw [Tasks.mem_indices_of_getElem? hcall]
    simp [ExecuteCall.queuesPermit]
  dsimp only
  let sem := (u.semaphore limit call.tag).acquire i
  let v : ShaperState := { u with semaphores := u.semaphores.insert call.tag sem.1 }
  have hcallv : v.calls[i]? = some { call with phase := .locked } := hcall
  rcases (h.permits call.tag).acquire hholds hwaits with ⟨-, hgot, hright⟩ | ⟨-, hgot, -⟩
  · rw [hgot, if_pos rfl]
    have hcalls : (v.setPhase i .permitted).calls = (u.setPhase i .permitted).calls := by
      rw [setPhase_eq hcallv, setPhase_eq hcall]
    have hcounted : Counted limit (v.setPhase i .permitted) := by
      refine h.exchange hcall (setPhase_lock v i .permitted)
        (setPhase_semaphores v i .permitted) hcalls rfl (by simp) ?_
      rw [hcalls, indices_setPhase_of_pos hcall (by simp [ExecuteCall.hasPermit,
        CallPhase.hasPermit]), indices_setPhase_of_eq hcall (by simp [ExecuteCall.queuesPermit])]
      exact hright
    have hset := left_setPhase hcallv .permitted
    change _ + 4 = u.left + 2 at hset
    have hproceed :=
      hcounted.left_proceed call shaper (getElem?_setPhase_self hcallv .permitted)
    change (ShaperState.proceed shaper (v.setPhase i .permitted) i call).left < u.left
    omega
  · rw [hgot, if_neg Bool.false_ne_true]
    have hset := left_setPhase hcallv .permitQueue
    change _ + 4 = u.left + 3 at hset
    change (v.setPhase i .permitQueue).left < u.left
    omega

theorem Counted.left_takeLock (h : Counted limit u) (hcall : u.calls[i]? = some call)
    (hphase : call.phase = .jitter) : (u.takeLock shaper limit i call).left < u.left := by
  have hholds : i ∉ Tasks.indices ExecuteCall.hasLock u.calls := by
    rw [Tasks.mem_indices_of_getElem? hcall, ExecuteCall.hasLock, hphase]
    simp [CallPhase.hasLock]
  have hwaits : i ∉ Tasks.indices ExecuteCall.queuesLock u.calls := by
    rw [Tasks.mem_indices_of_getElem? hcall, ExecuteCall.queuesLock, hphase]
    simp
  unfold ShaperState.takeLock
  dsimp only
  let v : ShaperState := { u with lock := (u.lock.acquire i).1 }
  have hcallv : v.calls[i]? = some call := hcall
  have hset := fun phase => left_setPhase hcallv phase
  rw [hphase] at hset
  rcases h.lock.acquire hholds hwaits with ⟨-, hgot, hright⟩ | ⟨-, hgot, -⟩
  · rw [hgot, if_pos rfl]
    have hcounted : Counted limit (v.setPhase i .locked) := by
      have hcalls : (v.setPhase i .locked).calls = (u.setPhase i .locked).calls := by
        rw [setPhase_eq hcallv, setPhase_eq hcall]
      refine ⟨?_, fun tag => permits_setPhase hcall (setPhase_semaphore v i .locked limit tag)
        hcalls (Or.inr ⟨by rw [hphase]; rfl, iff_of_false (by simp) (by simp [hphase])⟩)
        (h.permits tag)⟩
      rw [setPhase_lock, hcalls, indices_setPhase_of_pos hcall rfl,
        indices_setPhase_of_eq hcall (by simp [ExecuteCall.queuesLock, hphase])]
      exact hright
    have hlocked := hset .locked
    change _ + 6 = u.left + 4 at hlocked
    have htake := hcounted.left_takePermit call shaper (getElem?_setPhase_self hcallv .locked)
    change (ShaperState.takePermit shaper (v.setPhase i .locked) limit i call).left < u.left
    omega
  · rw [hgot, if_neg Bool.false_ne_true]
    have hqueue := hset .lockQueue
    change _ + 6 = u.left + 5 at hqueue
    change (v.setPhase i .lockQueue).left < u.left
    omega

/-! ### With and without a cap -/

/-- What the steps keep: under a cap the semaphores count right, and without one there are none. -/
def Regular (u : ShaperState) : Prop :=
  match shaper.profile.maxParallelRequestsPerTarget with
  | some limit => Counted limit u
  | none => u.semaphores = ∅ ∧ ∀ call ∈ u.calls, call.phase.waits = false

variable {shaper}

omit [Reqwest] in
theorem regular_start : Regular shaper start := by
  unfold Regular
  split
  · exact counted_start
  · exact ⟨rfl, fun call hcall => absurd hcall List.not_mem_nil⟩

omit [Reqwest] in
theorem uncapped_set (hsemaphores : u.semaphores = ∅)
    (hwaits : ∀ call ∈ u.calls, call.phase.waits = false) (hphase : phase.waits = false)
    (i : ℕ) :
    (u.setPhase i phase).semaphores = ∅ ∧
      ∀ call ∈ (u.setPhase i phase).calls, call.phase.waits = false := by
  refine ⟨by rw [setPhase_semaphores, hsemaphores], ?_⟩
  cases hcall : u.calls[i]? with
  | none =>
    rw [setPhase, hcall]
    exact hwaits
  | some call =>
    rw [setPhase_eq hcall]
    intro other hother
    rcases List.mem_or_eq_of_mem_set hother with hother | rfl
    · exact hwaits other hother
    · exact hphase

omit [Reqwest] in
theorem uncapped_finish (hsemaphores : u.semaphores = ∅) (i : ℕ) (call : ExecuteCall) (ok : Bool) :
    u.finish i call ok = u.setPhase i (.returned ok) := by
  rw [ShaperState.finish, dropPermit, setPhase_semaphores, hsemaphores, Finmap.lookup_empty]

theorem uncapped_step (hprofile : shaper.profile.maxParallelRequestsPerTarget = none)
    (hsemaphores : u.semaphores = ∅) (hwaits : ∀ call ∈ u.calls, call.phase.waits = false)
    {a : ShaperAction} (h : (execute shaper).step u a = some v) :
    (v.semaphores = ∅ ∧ ∀ call ∈ v.calls, call.phase.waits = false) ∧
      (a.IsInner → v.left < u.left) := by
  cases a with
  | call tag coin =>
    cases h
    refine ⟨⟨hsemaphores, fun call hcall => ?_⟩, fun hinner => absurd hinner id⟩
    rcases List.mem_append.1 hcall with hcall | hcall
    · exact hwaits call hcall
    · rw [List.mem_singleton.1 hcall]
      dsimp only
      split_ifs <;> rfl
  | poll i =>
    obtain ⟨call, hcall, hpoll⟩ := Option.bind_eq_some_iff.1 h
    rw [poll, hprofile] at hpoll
    cases hphase : call.phase <;> rw [hphase] at hpoll <;> cases hpoll
    have hrunning := uncapped_set hsemaphores hwaits (rfl : CallPhase.running.waits = false) i
    have hset := left_setPhase hcall .running
    rw [hphase] at hset
    change _ + 6 = u.left + 1 at hset
    unfold ShaperState.startClosure
    cases shaper.clientOf call with
    | ok client => exact ⟨hrunning, fun _ => by dsimp only; omega⟩
    | error err =>
      dsimp only
      rw [uncapped_finish hrunning.1]
      refine ⟨uncapped_set hrunning.1 hrunning.2 rfl i, fun _ => ?_⟩
      have hreturn := left_setPhase (getElem?_setPhase_self hcall .running) (.returned false)
      change _ + 1 = _ + 0 at hreturn
      omega
  | finish i ok =>
    obtain ⟨call, hcall, hfinish⟩ := Option.bind_eq_some_iff.1 h
    split_ifs at hfinish with hphase
    cases hfinish
    rw [uncapped_finish hsemaphores]
    refine ⟨uncapped_set hsemaphores hwaits rfl i, fun _ => ?_⟩
    have hreturn := left_setPhase hcall (.returned ok)
    rw [hphase] at hreturn
    change _ + 1 = _ + 0 at hreturn
    omega

/-- **The step lemma**: every step of a call brings the calls nearer to their ends. -/
theorem Regular.step (h : Regular shaper u) {a : ShaperAction}
    (hstep : (execute shaper).step u a = some v) :
    Regular shaper v ∧ (a.IsInner → v.left < u.left) := by
  unfold Regular at h ⊢
  cases hprofile : shaper.profile.maxParallelRequestsPerTarget with
  | none =>
    rw [hprofile] at h
    exact uncapped_step hprofile h.1 h.2 hstep
  | some limit =>
    rw [hprofile] at h
    have hcounted : Counted limit u := h
    refine ⟨hcounted.step shaper hprofile hstep, fun hinner => ?_⟩
    cases a with
    | call tag coin => exact absurd hinner id
    | poll i =>
      obtain ⟨call, hcall, hpoll⟩ := Option.bind_eq_some_iff.1 hstep
      have hself : ∀ phase, call.phase = phase →
          u.calls[i]? = some { call with phase := phase } := by
        rintro phase rfl
        exact hcall
      rcases poll_cases shaper hprofile hpoll with ⟨hphase, rfl⟩ | ⟨hphase, rfl⟩ | ⟨hphase, rfl⟩
      · exact hcounted.left_takeLock shaper hcall hphase
      · exact hcounted.left_takePermit call shaper (hself .locked hphase)
      · exact hcounted.left_proceed call shaper (hself .permitted hphase)
    | finish i ok =>
      obtain ⟨call, hcall, hfinish⟩ := Option.bind_eq_some_iff.1 hstep
      split_ifs at hfinish with hphase
      cases hfinish
      exact hcounted.left_finish hcall hphase ok

/-! ### Where no call can go on -/

theorem phase_of_stuck (h : Regular shaper u)
    (hstuck : ¬ (execute shaper).Enabled (fun _ a => a.IsInner) u)
    (hcall : u.calls[i]? = some call) :
    call.phase.left = 0 ∨ call.phase = .lockQueue ∨ call.phase = .permitQueue := by
  have hpoll : u.poll shaper i call = none := by
    by_contra hne
    obtain ⟨v, hv⟩ := Option.ne_none_iff_exists'.1 hne
    exact hstuck ⟨.poll i, v, trivial, Option.bind_eq_some_iff.2 ⟨call, hcall, hv⟩⟩
  -- a call waits only where there is a cap
  have hcap : call.phase.waits = true →
      ∃ limit, shaper.profile.maxParallelRequestsPerTarget = some limit := by
    intro hwaits
    cases hprofile : shaper.profile.maxParallelRequestsPerTarget with
    | none =>
      unfold Regular at h
      rw [hprofile] at h
      rw [h.2 call (List.mem_of_getElem? hcall)] at hwaits
      cases hwaits
    | some limit => exact ⟨limit, rfl⟩
  cases hphase : call.phase with
  | jitter =>
    rw [poll, hphase] at hpoll
    cases hprofile : shaper.profile.maxParallelRequestsPerTarget <;> rw [hprofile] at hpoll <;>
      cases hpoll
  | lockQueue => exact Or.inr (Or.inl rfl)
  | locked =>
    obtain ⟨limit, hprofile⟩ := hcap (by rw [hphase]; rfl)
    rw [poll, hphase, hprofile] at hpoll
    cases hpoll
  | permitQueue => exact Or.inr (Or.inr rfl)
  | permitted =>
    obtain ⟨limit, hprofile⟩ := hcap (by rw [hphase]; rfl)
    rw [poll, hphase, hprofile] at hpoll
    cases hpoll
  | running =>
    refine absurd ⟨.finish i true, u.finish i call true, trivial, ?_⟩ hstuck
    exact Option.bind_eq_some_iff.2 ⟨call, hcall, if_pos hphase⟩
  | returned ok => exact Or.inl rfl
  | panicked => exact Or.inl rfl

/-- **Where no call can go on**, all calls are over, or the limit is zero and nobody gets
through. -/
theorem over_or_starved (h : Regular shaper u)
    (hstuck : ¬ (execute shaper).Enabled (fun _ a => a.IsInner) u) :
    u.Over ∨ (shaper.profile.maxParallelRequestsPerTarget = some 0 ∧ u.Starved) := by
  by_cases hover : u.Over
  · exact Or.inl hover
  refine Or.inr ?_
  have hphases := fun {i : ℕ} {call : ExecuteCall} (hcall : u.calls[i]? = some call) =>
    phase_of_stuck h hstuck hcall
  cases hprofile : shaper.profile.maxParallelRequestsPerTarget with
  | none =>
    -- without a cap no call waits
    refine absurd (fun call hmem => ?_) hover
    unfold Regular at h
    rw [hprofile] at h
    have hwaits := h.2 call hmem
    obtain ⟨i, hcall⟩ := List.mem_iff_getElem?.1 hmem
    rcases hphases hcall with hleft | hphase | hphase
    · exact hleft
    · rw [hphase] at hwaits
      cases hwaits
    · rw [hphase] at hwaits
      cases hwaits
  | some limit =>
    unfold Regular at h
    rw [hprofile] at h
    have hcounted : Counted limit u := h
    -- some call waits for a permit: it has the lock that the others wait for
    obtain ⟨i, call, hcall, hphase⟩ : ∃ (i : ℕ) (call : ExecuteCall),
        u.calls[i]? = some call ∧ call.phase = .permitQueue := by
      unfold Over at hover
      push Not at hover
      obtain ⟨call, hmem, hleft⟩ := hover
      obtain ⟨i, hcall⟩ := List.mem_iff_getElem?.1 hmem
      rcases hphases hcall with hzero | hphase | hphase
      · exact absurd hzero hleft
      · have hbusy := hcounted.lock.busy i ((Tasks.mem_indices_of_getElem? hcall).2
          (by simp [ExecuteCall.queuesLock, hphase]))
        have hcount := hcounted.lock.count
        obtain ⟨j, hj⟩ := Finset.card_pos.1 (show 0 < (Tasks.indices ExecuteCall.hasLock
          u.calls).card by omega)
        obtain ⟨other, hother, hlock⟩ := Tasks.mem_indices.1 hj
        refine ⟨j, other, hother, ?_⟩
        rcases hphases hother with hzero | hphase' | hphase'
        · cases hp : other.phase <;> rw [ExecuteCall.hasLock, hp] at hlock <;>
            rw [hp] at hzero <;> cases hlock <;> cases hzero
        · rw [ExecuteCall.hasLock, hphase'] at hlock
          cases hlock
        · exact hphase'
      · exact ⟨i, call, hcall, hphase⟩
    have hlimit : limit = 0 := by
      -- nobody has a permit of its target
      have hbusy := (hcounted.permits call.tag).busy i ((Tasks.mem_indices_of_getElem? hcall).2
        (by simp [ExecuteCall.queuesPermit, hphase]))
      have hcount := (hcounted.permits call.tag).count
      have hnone : Tasks.indices (ExecuteCall.hasPermit call.tag) u.calls = ∅ := by
        refine Finset.eq_empty_of_forall_notMem fun j hj => ?_
        obtain ⟨other, hother, hpermit⟩ := Tasks.mem_indices.1 hj
        obtain ⟨-, hpermit⟩ : other.tag = call.tag ∧ other.phase.hasPermit = true := by
          simpa [ExecuteCall.hasPermit] using hpermit
        rcases hphases hother with hzero | hphase' | hphase'
        · cases hp : other.phase <;> rw [hp] at hpermit hzero <;> cases hpermit <;> cases hzero
        · rw [hphase'] at hpermit
          cases hpermit
        · rw [hphase'] at hpermit
          cases hpermit
      rw [hnone, Finset.card_empty] at hcount
      omega
    refine ⟨by rw [hlimit], i, call, hcall, hphase, fun j other hne hother => ?_⟩
    rcases hphases hother with hzero | hphase' | hphase'
    · exact Or.inr hzero
    · exact Or.inl hphase'
    · refine absurd (hcounted.hasLock_unique hother hcall ?_ ?_) hne
      · rw [ExecuteCall.hasLock, hphase']
        rfl
      · rw [ExecuteCall.hasLock, hphase]
        rfl

/-- **The shaper comes to rest.**  From every reachable state every run of polls and ends of
closures, in any order, is finite; and where no call can go on, all calls are over, unless the limit
is zero: then a call waits for a permit for ever, and all others that are not over wait behind it
for the lock, those of other targets too. -/
theorem execute_settles {as : List ShaperAction} (h : (execute shaper).exec .start as = some u) :
    (execute shaper).Settles (fun _ a => a.IsInner) (fun _ a => a.IsInner)
      (fun v => v.Over ∨ (shaper.profile.maxParallelRequestsPerTarget = some 0 ∧ v.Starved)) u := by
  have hu : Regular shaper u :=
    Interleaving.exec_invariant regular_start (fun _ _ _ hv hstep => (hv.step hstep).1) h
  refine Interleaving.settles_of_measure (P := Regular shaper) Nat.lt_wfRel.wf left ?_ ?_ hu
  · intro v a w hv ha hstep
    obtain ⟨hw, hlt⟩ := hv.step hstep
    exact ⟨hw, hlt ha⟩
  · exact fun v hv hstuck => over_or_starved hv hstuck

end Steps

end ShaperState

/-- The calls of two targets, the second behind a call of the first that waits. -/
theorem execute_settles_busy :
    ∃ u, (@execute acceptAll oneSlot).exec .start busyTarget = some u ∧
      (@execute acceptAll oneSlot).Settles (fun _ a => a.IsInner) (fun _ a => a.IsInner)
        (fun v => v.Over ∨
          (oneSlot.profile.maxParallelRequestsPerTarget = some 0 ∧ v.Starved)) u :=
  ⟨_, rfl, @ShaperState.execute_settles _ acceptAll oneSlot busyTarget rfl⟩

end W2uos
