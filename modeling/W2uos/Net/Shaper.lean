import Mathlib.Data.Finmap
import W2uos.Net.Client
import W2uos.System.Interleaving
import W2uos.System.Semaphore
import W2uos.System.Tasks

/-!
# The traffic shaper

`TrafficShaper::execute` runs a closure when it has a permit of its target.  The semaphores of the
targets are in a map that all clones of a shaper share; they are made when a target is called for
the first time.  The lock of the map is held until the permit is there.

Clones have the profile and the client of the shaper they are made from, so a call does not say on
which clone it is made.  A poll takes a call from one await to the next.  The queue of the lock and
the queues of the semaphores are those of `tokio`, which hands a lock or a permit over to the next
in the queue when it is given back.

* `ShaperState.Counted.step` : the semaphores count right;
* `parallel_cap` : the closures of one target are never more than the limit.
-/

namespace W2uos

/-! ### Calls -/

/-- The most permits a semaphore can have; it is a panic to ask for more. -/
def maxPermits : ℕ := 2 ^ 61 - 1

/-- Where a call of `execute` stands. -/
inductive CallPhase
  /-- In the jitter, or not polled yet. -/
  | jitter
  /-- It waits for the lock of the map. -/
  | lockQueue
  /-- It has the lock of the map. -/
  | locked
  /-- It has the lock of the map, and waits for a permit. -/
  | permitQueue
  /-- It has the lock of the map and a permit. -/
  | permitted
  /-- Its closure runs. -/
  | running
  | returned (ok : Bool)
  | panicked
  deriving DecidableEq

namespace CallPhase

/-- The call has the lock of the map. -/
def hasLock : CallPhase → Bool
  | locked | permitQueue | permitted => true
  | jitter | lockQueue | running | returned _ | panicked => false

/-- The call has a permit. -/
def hasPermit : CallPhase → Bool
  | permitted | running => true
  | jitter | lockQueue | locked | permitQueue | returned _ | panicked => false

/-- The call waits, for the lock or for a permit. -/
def waits : CallPhase → Bool
  | lockQueue | locked | permitQueue | permitted => true
  | jitter | running | returned _ | panicked => false

/-- The call has got its permit. -/
def obtained : CallPhase → Bool
  | permitted | running | returned _ => true
  | jitter | lockQueue | locked | permitQueue | panicked => false

end CallPhase

/-- A call of `execute`: its target, the coin that decides about random reuse, and where it
stands. -/
structure ExecuteCall where
  tag : String
  coin : Bool
  phase : CallPhase
  deriving DecidableEq

namespace ExecuteCall

/-- The call has the lock of the map. -/
def hasLock (call : ExecuteCall) : Bool := call.phase.hasLock

/-- The call waits for the lock of the map. -/
def queuesLock (call : ExecuteCall) : Bool := call.phase = .lockQueue

/-- The call has a permit of the target. -/
def hasPermit (tag : String) (call : ExecuteCall) : Bool := call.tag = tag && call.phase.hasPermit

/-- The call waits for a permit of the target. -/
def queuesPermit (tag : String) (call : ExecuteCall) : Bool :=
  call.tag = tag && call.phase = .permitQueue

/-- The closure of the call runs, and it is one of the target. -/
def runs (tag : String) (call : ExecuteCall) : Bool := call.tag = tag && call.phase = .running

end ExecuteCall

namespace TrafficShaper

variable (shaper : TrafficShaper)

/-- The policy in use. -/
def reusePolicy : ConnectionReusePolicy :=
  shaper.profile.connectionReusePolicy.getD .alwaysReuse

/-- `jitter_delay_ms` panics, since the range is empty. -/
def jitterPanics : Bool :=
  match shaper.profile.requestJitterMs with
  | some (low, high) => high < low
  | none => false

/-- `select_client`; the coin is tossed if it has not been before. -/
def selectClient [Reqwest] (reuseRandomly : Option Bool) (coin : Bool) : Except String Client :=
  match shaper.reusePolicy with
  | .alwaysReuse => .ok shaper.client
  | .noReuse => buildHttpClient shaper.profile
  | .randomReuse =>
    if reuseRandomly.getD coin then .ok shaper.client else buildHttpClient shaper.profile

/-- The client of a call. -/
def clientOf [Reqwest] (call : ExecuteCall) : Except String Client :=
  shaper.selectClient (if shaper.reusePolicy = .randomReuse then some call.coin else none) call.coin

end TrafficShaper

/-! ### The shared map -/

/-- The lock of the map, the semaphores in it, and all calls that have been made. -/
structure ShaperState where
  lock : Semaphore
  semaphores : Finmap fun _ : String => Semaphore
  calls : List ExecuteCall

namespace ShaperState

/-- A new shaper. -/
def start : ShaperState where
  lock := .new 1
  semaphores := ∅
  calls := []

/-- Where a call stands next. -/
def setPhase (u : ShaperState) (i : ℕ) (phase : CallPhase) : ShaperState :=
  match u.calls[i]? with
  | none => u
  | some call => { u with calls := u.calls.set i { call with phase := phase } }

/-- The guard of the map is dropped. -/
def unlock (u : ShaperState) : ShaperState :=
  let (lock, next) := u.lock.release
  let u := { u with lock := lock }
  match next with
  | none => u
  | some j => u.setPhase j .locked

/-- A permit of the target is dropped. -/
def dropPermit (u : ShaperState) (tag : String) : ShaperState :=
  match u.semaphores.lookup tag with
  | none => u
  | some sem =>
    let (sem, next) := sem.release
    let u := { u with semaphores := u.semaphores.insert tag sem }
    match next with
    | none => u
    | some j => u.setPhase j .permitted

/-- The closure, or the choice of the client, is over: the call drops its permit and returns. -/
def finish (u : ShaperState) (i : ℕ) (call : ExecuteCall) (ok : Bool) : ShaperState :=
  (u.setPhase i (.returned ok)).dropPermit call.tag

/-- The semaphore of a target, which is made if there is none yet. -/
def semaphore (u : ShaperState) (limit : ℕ) (tag : String) : Semaphore :=
  (u.semaphores.lookup tag).getD (.new limit)

variable [Reqwest] (shaper : TrafficShaper)

/-- Select a client and begin the closure; without a client, return. -/
def startClosure (u : ShaperState) (i : ℕ) (call : ExecuteCall) : ShaperState :=
  match shaper.clientOf call with
  | .ok _ => u
  | .error _ => u.finish i call false

/-- With a permit, drop the guard of the map and go on. -/
def proceed (u : ShaperState) (i : ℕ) (call : ExecuteCall) : ShaperState :=
  (u.setPhase i .running).unlock.startClosure shaper i call

/-- With the lock of the map, look the semaphore up and ask for a permit. -/
def takePermit (u : ShaperState) (limit : ℕ) (i : ℕ) (call : ExecuteCall) : ShaperState :=
  if (u.semaphores.lookup call.tag).isNone ∧ maxPermits < limit then
    (u.setPhase i .panicked).unlock
  else
    let (sem, got) := (u.semaphore limit call.tag).acquire i
    let u := { u with semaphores := u.semaphores.insert call.tag sem }
    if got then (u.setPhase i .permitted).proceed shaper i call
    else u.setPhase i .permitQueue

/-- Ask for the lock of the map. -/
def takeLock (u : ShaperState) (limit : ℕ) (i : ℕ) (call : ExecuteCall) : ShaperState :=
  let (lock, got) := u.lock.acquire i
  let u := { u with lock := lock }
  if got then (u.setPhase i .locked).takePermit shaper limit i call
  else u.setPhase i .lockQueue

/-- A call goes on to its next await; `none` if it waits. -/
def poll (u : ShaperState) (i : ℕ) (call : ExecuteCall) : Option ShaperState :=
  match call.phase, shaper.profile.maxParallelRequestsPerTarget with
  | .jitter, none => some ((u.setPhase i .running).startClosure shaper i call)
  | .jitter, some limit => some (u.takeLock shaper limit i call)
  | .locked, some limit => some (u.takePermit shaper limit i call)
  | .permitted, some _ => some (u.proceed shaper i call)
  | _, _ => none

end ShaperState

/-- What happens: a call is made, a call is polled, and the closure of a call ends. -/
inductive ShaperAction
  | call (tag : String) (coin : Bool)
  | poll (i : ℕ)
  | finish (i : ℕ) (ok : Bool)

/-- The calls of `execute` on the clones of a shaper. -/
def execute [Reqwest] (shaper : TrafficShaper) : Interleaving ShaperState ShaperAction where
  step u
    | .call tag coin =>
      let phase := if shaper.jitterPanics then .panicked else .jitter
      some { u with calls := u.calls ++ [{ tag := tag, coin := coin, phase := phase }] }
    | .poll i => (u.calls[i]?).bind fun call => u.poll shaper i call
    | .finish i ok =>
      (u.calls[i]?).bind fun call =>
        if call.phase = .running then some (u.finish i call ok) else none

namespace ShaperState

/-! ### The semaphores count right -/

/-- The lock of the map and the semaphores count right. -/
structure Counted (limit : ℕ) (u : ShaperState) : Prop where
  lock : u.lock.Right 1 (Tasks.indices ExecuteCall.hasLock u.calls)
    (Tasks.indices ExecuteCall.queuesLock u.calls)
  permits : ∀ tag, (u.semaphore limit tag).Right limit
    (Tasks.indices (ExecuteCall.hasPermit tag) u.calls)
    (Tasks.indices (ExecuteCall.queuesPermit tag) u.calls)

variable {limit : ℕ} {u : ShaperState} {i : ℕ} {call : ExecuteCall} {phase : CallPhase}

theorem setPhase_eq (h : u.calls[i]? = some call) (phase : CallPhase) :
    u.setPhase i phase = { u with calls := u.calls.set i { call with phase := phase } } := by
  rw [setPhase, h]

theorem counted_start : Counted limit start where
  lock := Semaphore.right_new 1
  permits _ := Semaphore.right_new limit

/-! ### What the steps leave alone -/

@[simp] theorem setPhase_lock (u : ShaperState) (i : ℕ) (phase : CallPhase) :
    (u.setPhase i phase).lock = u.lock := by
  unfold setPhase
  cases u.calls[i]? <;> rfl

@[simp] theorem setPhase_semaphores (u : ShaperState) (i : ℕ) (phase : CallPhase) :
    (u.setPhase i phase).semaphores = u.semaphores := by
  unfold setPhase
  cases u.calls[i]? <;> rfl

@[simp] theorem setPhase_semaphore (u : ShaperState) (i : ℕ) (phase : CallPhase) (limit : ℕ)
    (tag : String) : (u.setPhase i phase).semaphore limit tag = u.semaphore limit tag := by
  rw [semaphore, semaphore, setPhase_semaphores]

theorem semaphore_insert (u : ShaperState) (tag : String) (sem : Semaphore) (limit : ℕ)
    (tag' : String) :
    ({ u with semaphores := u.semaphores.insert tag sem } : ShaperState).semaphore limit tag' =
      if tag' = tag then sem else u.semaphore limit tag' := by
  unfold semaphore
  split_ifs with htag
  · rw [htag, Finmap.lookup_insert, Option.getD_some]
  · rw [Finmap.lookup_insert_of_ne _ htag]

theorem getElem?_setPhase_self (h : u.calls[i]? = some call) (phase : CallPhase) :
    (u.setPhase i phase).calls[i]? = some { call with phase := phase } := by
  rw [setPhase_eq h]
  exact List.getElem?_set_self (List.getElem?_eq_some_iff.1 h).1

theorem getElem?_setPhase_ne (u : ShaperState) {j : ℕ} (hne : j ≠ i) (phase : CallPhase) :
    (u.setPhase i phase).calls[j]? = u.calls[j]? := by
  unfold setPhase
  cases u.calls[i]? with
  | none => rfl
  | some call => exact List.getElem?_set_ne (Ne.symm hne)

section Indices

variable {P : ExecuteCall → Bool}

theorem indices_setPhase_of_pos (h : u.calls[i]? = some call)
    (hP : P { call with phase := phase } = true) :
    Tasks.indices P (u.setPhase i phase).calls = insert i (Tasks.indices P u.calls) := by
  rw [setPhase_eq h]
  exact (Tasks.indices_set h _).trans (if_pos hP)

theorem indices_setPhase_of_neg (h : u.calls[i]? = some call)
    (hP : P { call with phase := phase } = false) :
    Tasks.indices P (u.setPhase i phase).calls = (Tasks.indices P u.calls).erase i := by
  rw [setPhase_eq h]
  exact (Tasks.indices_set h _).trans (if_neg (by rw [hP]; exact Bool.false_ne_true))

theorem indices_setPhase_of_eq (h : u.calls[i]? = some call)
    (hP : P { call with phase := phase } = P call) :
    Tasks.indices P (u.setPhase i phase).calls = Tasks.indices P u.calls := by
  rw [setPhase_eq h]
  exact Tasks.indices_set_of_eq h hP

end Indices

/-- A call of another target, or one that goes on without getting a permit or queueing for one. -/
theorem permits_setPhase {w : ShaperState} {tag : String} (hcall : u.calls[i]? = some call)
    (hw : w.semaphore limit tag = u.semaphore limit tag)
    (hcalls : w.calls = (u.setPhase i phase).calls)
    (hsame : call.tag ≠ tag ∨ phase.hasPermit = call.phase.hasPermit ∧
      (phase = .permitQueue ↔ call.phase = .permitQueue))
    (h : (u.semaphore limit tag).Right limit (Tasks.indices (ExecuteCall.hasPermit tag) u.calls)
      (Tasks.indices (ExecuteCall.queuesPermit tag) u.calls)) :
    (w.semaphore limit tag).Right limit (Tasks.indices (ExecuteCall.hasPermit tag) w.calls)
      (Tasks.indices (ExecuteCall.queuesPermit tag) w.calls) := by
  have hpermit : ExecuteCall.hasPermit tag { call with phase := phase } =
      ExecuteCall.hasPermit tag call := by
    rcases hsame with hne | ⟨hpermit, -⟩
    · simp [ExecuteCall.hasPermit, hne]
    · simp [ExecuteCall.hasPermit, hpermit]
  have hqueue : ExecuteCall.queuesPermit tag { call with phase := phase } =
      ExecuteCall.queuesPermit tag call := by
    rcases hsame with hne | ⟨-, hqueue⟩
    · simp [ExecuteCall.queuesPermit, hne]
    · simp [ExecuteCall.queuesPermit, hqueue]
  rw [hw, hcalls, indices_setPhase_of_eq hcall hpermit, indices_setPhase_of_eq hcall hqueue]
  exact h

theorem lock_setPhase {w : ShaperState} (hcall : u.calls[i]? = some call)
    (hw : w.lock = u.lock) (hcalls : w.calls = (u.setPhase i phase).calls)
    (hlock : phase.hasLock = call.phase.hasLock)
    (hqueue : phase = .lockQueue ↔ call.phase = .lockQueue)
    (h : u.lock.Right 1 (Tasks.indices ExecuteCall.hasLock u.calls)
      (Tasks.indices ExecuteCall.queuesLock u.calls)) :
    w.lock.Right 1 (Tasks.indices ExecuteCall.hasLock w.calls)
      (Tasks.indices ExecuteCall.queuesLock w.calls) := by
  rw [hw, hcalls, indices_setPhase_of_eq hcall (by simp [ExecuteCall.hasLock, hlock]),
    indices_setPhase_of_eq hcall (by simp [ExecuteCall.queuesLock, hqueue])]
  exact h

theorem Counted.exchange (h : Counted limit u) {w : ShaperState} {sem : Semaphore}
    (hcall : u.calls[i]? = some call) (hlock : w.lock = u.lock)
    (hsemaphores : w.semaphores = u.semaphores.insert call.tag sem)
    (hcalls : w.calls = (u.setPhase i phase).calls)
    (hphase : phase.hasLock = call.phase.hasLock)
    (hqueue : phase = .lockQueue ↔ call.phase = .lockQueue)
    (hright : sem.Right limit (Tasks.indices (ExecuteCall.hasPermit call.tag) w.calls)
      (Tasks.indices (ExecuteCall.queuesPermit call.tag) w.calls)) : Counted limit w := by
  refine ⟨lock_setPhase hcall hlock hcalls hphase hqueue h.lock, fun tag => ?_⟩
  by_cases htag : tag = call.tag
  · subst htag
    rw [semaphore, hsemaphores, Finmap.lookup_insert, Option.getD_some]
    exact hright
  · refine permits_setPhase hcall ?_ hcalls (Or.inl (Ne.symm htag)) (h.permits tag)
    rw [semaphore, semaphore, hsemaphores, Finmap.lookup_insert_of_ne _ htag]

/-! ### Handing over -/

theorem unlock_of_none (h : u.lock.release.2 = none) :
    u.unlock = { u with lock := u.lock.release.1 } := by
  simp only [unlock, h]

theorem unlock_of_some {j : ℕ} (h : u.lock.release.2 = some j) :
    u.unlock = ({ u with lock := u.lock.release.1 } : ShaperState).setPhase j .locked := by
  simp only [unlock, h]

theorem dropPermit_of_none {tag : String} {sem : Semaphore}
    (hsem : u.semaphores.lookup tag = some sem) (h : sem.release.2 = none) :
    u.dropPermit tag = { u with semaphores := u.semaphores.insert tag sem.release.1 } := by
  simp only [dropPermit, hsem, h]

theorem dropPermit_of_some {tag : String} {sem : Semaphore} {j : ℕ}
    (hsem : u.semaphores.lookup tag = some sem) (h : sem.release.2 = some j) :
    u.dropPermit tag =
      ({ u with semaphores := u.semaphores.insert tag sem.release.1 } : ShaperState).setPhase j
        .permitted := by
  simp only [dropPermit, hsem, h]

/-- **Dropping the guard**: a call that has the lock goes on without it, and the next in the queue
has it. -/
theorem Counted.leave (h : Counted limit u) (hcall : u.calls[i]? = some call)
    (hlock : call.hasLock = true) (hphase : phase.hasLock = false) (hqueue : phase ≠ .lockQueue)
    (hpermit : phase.hasPermit = call.phase.hasPermit) (hwaits : call.phase ≠ .permitQueue) :
    Counted limit (u.setPhase i phase).unlock := by
  have hlockQueue : call.phase ≠ .lockQueue := by
    intro heq
    rw [ExecuteCall.hasLock, heq] at hlock
    cases hlock
  have hpermitQueue : phase ≠ .permitQueue := by
    rintro rfl
    cases hphase
  -- what the phase of the call changes
  have hholds : Tasks.indices ExecuteCall.hasLock (u.setPhase i phase).calls =
      (Tasks.indices ExecuteCall.hasLock u.calls).erase i :=
    indices_setPhase_of_neg hcall hphase
  have hwaiting : Tasks.indices ExecuteCall.queuesLock (u.setPhase i phase).calls =
      Tasks.indices ExecuteCall.queuesLock u.calls :=
    indices_setPhase_of_eq hcall (by simp [ExecuteCall.queuesLock, hqueue, hlockQueue])
  have hpermits := fun tag => permits_setPhase hcall (setPhase_semaphore u i phase limit tag) rfl
    (Or.inr ⟨hpermit, iff_of_false hpermitQueue hwaits⟩) (h.permits tag)
  have hlockeq := setPhase_lock u i phase
  rcases h.lock.release ((Tasks.mem_indices_of_getElem? hcall).2 hlock) with ⟨hnext, hright⟩ |
    ⟨j, hj, hnext, hright⟩
  · rw [unlock_of_none (by rw [hlockeq, hnext])]
    refine ⟨?_, hpermits⟩
    rw [hholds, hwaiting, hlockeq]
    exact hright
  · rw [← hwaiting] at hj
    obtain ⟨next, hget, hnextphase⟩ := Tasks.mem_indices.1 hj
    have hjphase : next.phase = .lockQueue := of_decide_eq_true hnextphase
    rw [unlock_of_some (by rw [hlockeq, hnext])]
    let v : ShaperState := { u.setPhase i phase with lock := (u.setPhase i phase).lock.release.1 }
    have hgetv : v.calls[j]? = some next := hget
    refine ⟨?_, fun tag => permits_setPhase hgetv (setPhase_semaphore v j .locked limit tag) rfl
      (Or.inr ⟨by rw [hjphase]; rfl, iff_of_false (by simp) (by simp [hjphase])⟩) (hpermits tag)⟩
    show (v.setPhase j .locked).lock.Right 1 (Tasks.indices _ (v.setPhase j .locked).calls)
      (Tasks.indices _ (v.setPhase j .locked).calls)
    rw [setPhase_lock, indices_setPhase_of_pos hgetv rfl, indices_setPhase_of_neg hgetv rfl]
    show (u.setPhase i phase).lock.release.1.Right 1
      (insert j (Tasks.indices _ (u.setPhase i phase).calls))
      ((Tasks.indices _ (u.setPhase i phase).calls).erase j)
    rw [hholds, hwaiting, hlockeq]
    exact hright

theorem Counted.exists_semaphore (h : Counted limit u) (tag : String)
    (hcall : u.calls[i]? = some call) (hpermit : call.hasPermit tag = true) :
    ∃ sem, u.semaphores.lookup tag = some sem := by
  cases hlookup : u.semaphores.lookup tag with
  | some sem => exact ⟨sem, rfl⟩
  | none =>
    have hcount := (h.permits tag).count
    have hcard := Finset.card_pos.2 ⟨i, (Tasks.mem_indices_of_getElem? hcall).2 hpermit⟩
    rw [semaphore, hlookup, Option.getD_none] at hcount
    simp only [Semaphore.new] at hcount
    omega

/-- **Dropping a permit**: a call that has one returns, and the next in the queue of the target has
it. -/
theorem Counted.finish (h : Counted limit u) (hcall : u.calls[i]? = some call)
    (hphase : call.phase = .running) (ok : Bool) : Counted limit (u.finish i call ok) := by
  have hpermit : call.hasPermit call.tag = true := by
    simp [ExecuteCall.hasPermit, hphase, CallPhase.hasPermit]
  obtain ⟨sem, hsem⟩ := h.exists_semaphore call.tag hcall hpermit
  have hsemaphore : u.semaphore limit call.tag = sem := by rw [semaphore, hsem, Option.getD_some]
  let u₁ := u.setPhase i (.returned ok)
  have hsem₁ : u₁.semaphores.lookup call.tag = some sem := by rw [setPhase_semaphores, hsem]
  let u₂ : ShaperState := { u₁ with semaphores := u₁.semaphores.insert call.tag sem.release.1 }
  have hother : ∀ tag ≠ call.tag, u₂.semaphore limit tag = u.semaphore limit tag := by
    intro tag hne
    rw [semaphore_insert, if_neg hne, setPhase_semaphore]
  have hown : u₂.semaphore limit call.tag = sem.release.1 := by
    rw [semaphore_insert, if_pos rfl]
  -- the call returns
  have hlock₂ := lock_setPhase (w := u₂) hcall (setPhase_lock u i (.returned ok)) rfl
    (by rw [hphase]; rfl) (iff_of_false (by simp) (by simp [hphase])) h.lock
  have hpermits₂ := fun tag (hne : tag ≠ call.tag) => permits_setPhase (w := u₂) hcall
    (hother tag hne) rfl (Or.inl hne.symm) (h.permits tag)
  have hholds : Tasks.indices (ExecuteCall.hasPermit call.tag) u₂.calls =
      (Tasks.indices (ExecuteCall.hasPermit call.tag) u.calls).erase i :=
    indices_setPhase_of_neg hcall (by simp [ExecuteCall.hasPermit, CallPhase.hasPermit])
  have hwaiting : Tasks.indices (ExecuteCall.queuesPermit call.tag) u₂.calls =
      Tasks.indices (ExecuteCall.queuesPermit call.tag) u.calls :=
    indices_setPhase_of_eq hcall (by simp [ExecuteCall.queuesPermit, hphase])
  have hright := h.permits call.tag
  rw [hsemaphore] at hright
  rcases hright.release ((Tasks.mem_indices_of_getElem? hcall).2 hpermit) with ⟨hnext, hright⟩ |
    ⟨j, hj, hnext, hright⟩
  · rw [ShaperState.finish, dropPermit_of_none hsem₁ hnext]
    refine h.exchange (w := u₂) hcall (setPhase_lock u i (.returned ok)) ?_ rfl
      (by rw [hphase]; rfl) (iff_of_false (by simp) (by simp [hphase]))
      (by rw [hholds, hwaiting]; exact hright)
    show u₁.semaphores.insert call.tag sem.release.1 = _
    rw [setPhase_semaphores]
  · rw [← hwaiting] at hj
    obtain ⟨next, hget, hnextphase⟩ := Tasks.mem_indices.1 hj
    obtain ⟨hnexttag, hjphase⟩ : next.tag = call.tag ∧ next.phase = .permitQueue := by
      simpa [ExecuteCall.queuesPermit] using hnextphase
    rw [ShaperState.finish, dropPermit_of_some hsem₁ hnext]
    refine ⟨lock_setPhase (w := u₂.setPhase j .permitted) hget (setPhase_lock u₂ j .permitted) rfl
      (by rw [hjphase]; rfl) (iff_of_false (by simp) (by simp [hjphase])) hlock₂, fun tag => ?_⟩
    by_cases htag : tag = call.tag
    · subst htag
      show ((u₂.setPhase j .permitted).semaphore limit call.tag).Right limit
        (Tasks.indices _ (u₂.setPhase j .permitted).calls)
        (Tasks.indices _ (u₂.setPhase j .permitted).calls)
      rw [setPhase_semaphore, hown,
        indices_setPhase_of_pos hget (by simp [ExecuteCall.hasPermit, CallPhase.hasPermit,
          hnexttag]),
        indices_setPhase_of_neg hget (by simp [ExecuteCall.queuesPermit]), hholds, hwaiting]
      exact hright
    · exact permits_setPhase (w := u₂.setPhase j .permitted) hget
        (setPhase_semaphore u₂ j .permitted limit tag) rfl
        (Or.inl (by rw [hnexttag]; exact Ne.symm htag)) (hpermits₂ tag htag)

/-! ### The steps of a call -/

/-- The call that goes on without the lock is not the one that gets it. -/
theorem Counted.getElem?_leave (h : Counted limit u) (hcall : u.calls[i]? = some call)
    (hqueue : call.phase ≠ .lockQueue) (phase : CallPhase) :
    (u.setPhase i phase).unlock.calls[i]? = some { call with phase := phase } := by
  have hself := getElem?_setPhase_self hcall phase
  cases hnext : (u.setPhase i phase).lock.release.2 with
  | none => rw [unlock_of_none hnext, hself]
  | some j =>
    have hj : j ∈ Tasks.indices ExecuteCall.queuesLock u.calls := by
      rw [setPhase_lock] at hnext
      exact (h.lock.mem_queue j).1 (Semaphore.mem_queue_of_release hnext)
    have hne : i ≠ j := by
      rintro rfl
      rw [Tasks.mem_indices_of_getElem? hcall, ExecuteCall.queuesLock, decide_eq_true_eq] at hj
      exact hqueue hj
    rw [unlock_of_some hnext, getElem?_setPhase_ne _ hne]
    exact hself

theorem Counted.getElem?_finish (h : Counted limit u) (hcall : u.calls[i]? = some call)
    (hphase : call.phase = .running) (ok : Bool) :
    (u.finish i call ok).calls[i]? = some { call with phase := .returned ok } := by
  have hself := getElem?_setPhase_self hcall (.returned ok)
  obtain ⟨sem, hsem⟩ := h.exists_semaphore call.tag hcall (by
    simp [ExecuteCall.hasPermit, hphase, CallPhase.hasPermit])
  have hsem₁ : (u.setPhase i (.returned ok)).semaphores.lookup call.tag = some sem := by
    rw [setPhase_semaphores, hsem]
  rw [ShaperState.finish]
  cases hnext : sem.release.2 with
  | none => rw [dropPermit_of_none hsem₁ hnext, hself]
  | some j =>
    have hj : j ∈ Tasks.indices (ExecuteCall.queuesPermit call.tag) u.calls := by
      have hright := h.permits call.tag
      rw [semaphore, hsem, Option.getD_some] at hright
      exact (hright.mem_queue j).1 (Semaphore.mem_queue_of_release hnext)
    have hne : i ≠ j := by
      rintro rfl
      rw [Tasks.mem_indices_of_getElem? hcall] at hj
      simp [ExecuteCall.queuesPermit, hphase] at hj
    rw [dropPermit_of_some hsem₁ hnext, getElem?_setPhase_ne _ hne]
    exact hself

section Steps

variable [Reqwest] (shaper : TrafficShaper)

/-- **A closure begins**, or there is no client and the call returns. -/
theorem Counted.startClosure (h : Counted limit u)
    (hcall : u.calls[i]? = some { call with phase := .running }) :
    Counted limit (u.startClosure shaper i call) ∧
      ∃ phase, phase.obtained = true ∧
        (u.startClosure shaper i call).calls[i]? = some { call with phase := phase } := by
  unfold ShaperState.startClosure
  cases shaper.clientOf call with
  | ok client => exact ⟨h, .running, rfl, hcall⟩
  | error err =>
    exact ⟨h.finish hcall rfl false, .returned false, rfl, h.getElem?_finish hcall rfl false⟩

variable (call) in
/-- **A call that has its permit** drops the guard and goes on. -/
theorem Counted.proceed (h : Counted limit u)
    (hcall : u.calls[i]? = some { call with phase := .permitted }) :
    Counted limit (u.proceed shaper i call) ∧
      ∃ phase, phase.obtained = true ∧
        (u.proceed shaper i call).calls[i]? = some { call with phase := phase } := by
  have hleft : Counted limit (u.setPhase i .running).unlock :=
    h.leave hcall rfl rfl (by simp) rfl (by simp)
  exact hleft.startClosure shaper (h.getElem?_leave hcall (by simp) .running)

variable (call) in
/-- **A call that has the lock** gets its permit if one is available. -/
theorem Counted.takePermit (h : Counted limit u)
    (hcall : u.calls[i]? = some { call with phase := .locked }) :
    Counted limit (u.takePermit shaper limit i call) ∧
      (limit ≤ maxPermits → 0 < (u.semaphore limit call.tag).available →
        ∃ phase, phase.obtained = true ∧
          (u.takePermit shaper limit i call).calls[i]? = some { call with phase := phase }) := by
  unfold ShaperState.takePermit
  split_ifs with hpanics
  · exact ⟨h.leave hcall rfl rfl (by simp) rfl (by simp),
      fun hlimit => absurd hpanics.2 (Nat.not_lt.2 hlimit)⟩
  have hholds : i ∉ Tasks.indices (ExecuteCall.hasPermit call.tag) u.calls := by
    rw [Tasks.mem_indices_of_getElem? hcall]
    simp [ExecuteCall.hasPermit, CallPhase.hasPermit]
  have hwaits : i ∉ Tasks.indices (ExecuteCall.queuesPermit call.tag) u.calls := by
    rw [Tasks.mem_indices_of_getElem? hcall]
    simp [ExecuteCall.queuesPermit]
  dsimp only
  let sem := (u.semaphore limit call.tag).acquire i
  let v : ShaperState := { u with semaphores := u.semaphores.insert call.tag sem.1 }
  have hcallv : v.calls[i]? = some { call with phase := .locked } := hcall
  have hcalls : ∀ phase, (v.setPhase i phase).calls = (u.setPhase i phase).calls := by
    intro phase
    rw [setPhase_eq hcallv, setPhase_eq hcall]
  rcases (h.permits call.tag).acquire hholds hwaits with ⟨hfree, hgot, hright⟩ |
    ⟨hzero, hgot, hright⟩
  · rw [hgot, if_pos rfl]
    have hcounted : Counted limit (v.setPhase i .permitted) := by
      refine h.exchange hcall (setPhase_lock v i .permitted)
        (setPhase_semaphores v i .permitted) (hcalls .permitted) rfl (by simp) ?_
      rw [hcalls, indices_setPhase_of_pos hcall (by simp [ExecuteCall.hasPermit,
        CallPhase.hasPermit]), indices_setPhase_of_eq hcall (by simp [ExecuteCall.queuesPermit])]
      exact hright
    obtain ⟨hproceed, hobtained⟩ :=
      hcounted.proceed call shaper (getElem?_setPhase_self hcallv .permitted)
    exact ⟨hproceed, fun _ _ => hobtained⟩
  · rw [hgot, if_neg Bool.false_ne_true]
    refine ⟨?_, fun _ hfree => absurd hzero (Nat.ne_of_gt hfree)⟩
    refine h.exchange hcall (setPhase_lock v i .permitQueue)
      (setPhase_semaphores v i .permitQueue) (hcalls .permitQueue) rfl (by simp) ?_
    show sem.1.Right limit (Tasks.indices _ (v.setPhase i .permitQueue).calls)
      (Tasks.indices _ (v.setPhase i .permitQueue).calls)
    rw [hcalls, indices_setPhase_of_eq hcall (by simp [ExecuteCall.hasPermit,
      CallPhase.hasPermit]), indices_setPhase_of_pos hcall (by simp [ExecuteCall.queuesPermit])]
    exact hright

/-- **A call behind the jitter** gets the lock if it is available. -/
theorem Counted.takeLock (h : Counted limit u) (hcall : u.calls[i]? = some call)
    (hphase : call.phase = .jitter) :
    Counted limit (u.takeLock shaper limit i call) ∧
      (limit ≤ maxPermits → 0 < u.lock.available →
        0 < (u.semaphore limit call.tag).available →
        ∃ phase, phase.obtained = true ∧
          (u.takeLock shaper limit i call).calls[i]? = some { call with phase := phase }) := by
  have hholds : i ∉ Tasks.indices ExecuteCall.hasLock u.calls := by
    rw [Tasks.mem_indices_of_getElem? hcall, ExecuteCall.hasLock, hphase]
    simp [CallPhase.hasLock]
  have hwaits : i ∉ Tasks.indices ExecuteCall.queuesLock u.calls := by
    rw [Tasks.mem_indices_of_getElem? hcall, ExecuteCall.queuesLock, hphase]
    simp
  unfold ShaperState.takeLock
  dsimp only
  let v : ShaperState := { u with lock := (u.lock.acquire i).1 }
  have hcallv : v.calls[i]? = some call := hcall
  have hcalls : ∀ phase, (v.setPhase i phase).calls = (u.setPhase i phase).calls := by
    intro phase
    rw [setPhase_eq hcallv, setPhase_eq hcall]
  have hpermits : ∀ phase : CallPhase, phase.hasPermit = false → phase ≠ .permitQueue → ∀ tag,
      ((v.setPhase i phase).semaphore limit tag).Right limit
        (Tasks.indices (ExecuteCall.hasPermit tag) (v.setPhase i phase).calls)
        (Tasks.indices (ExecuteCall.queuesPermit tag) (v.setPhase i phase).calls) := by
    intro phase hpermit hqueue tag
    exact permits_setPhase hcall (setPhase_semaphore v i phase limit tag) (hcalls phase)
      (Or.inr ⟨by rw [hpermit, hphase]; rfl, iff_of_false hqueue (by simp [hphase])⟩)
      (h.permits tag)
  rcases h.lock.acquire hholds hwaits with ⟨hfree, hgot, hright⟩ | ⟨hzero, hgot, hright⟩
  · rw [hgot, if_pos rfl]
    have hcounted : Counted limit (v.setPhase i .locked) := by
      refine ⟨?_, hpermits .locked rfl (by simp)⟩
      rw [setPhase_lock, hcalls, indices_setPhase_of_pos hcall rfl,
        indices_setPhase_of_eq hcall (by simp [ExecuteCall.queuesLock, hphase])]
      exact hright
    obtain ⟨htake, hobtained⟩ :=
      hcounted.takePermit call shaper (getElem?_setPhase_self hcallv .locked)
    refine ⟨htake, fun hlimit _ hpermit => hobtained hlimit ?_⟩
    rw [setPhase_semaphore]
    exact hpermit
  · rw [hgot, if_neg Bool.false_ne_true]
    refine ⟨⟨?_, hpermits .lockQueue rfl (by simp)⟩,
      fun _ hfree => absurd hzero (Nat.ne_of_gt hfree)⟩
    show (v.setPhase i .lockQueue).lock.Right 1
      (Tasks.indices _ (v.setPhase i .lockQueue).calls)
      (Tasks.indices _ (v.setPhase i .lockQueue).calls)
    rw [setPhase_lock, hcalls,
      indices_setPhase_of_eq hcall (by simp [ExecuteCall.hasLock, CallPhase.hasLock, hphase]),
      indices_setPhase_of_pos hcall rfl]
    exact hright

omit [Reqwest] in
/-- **A new call** asks for nothing yet. -/
theorem Counted.newCall (h : Counted limit u) (tag : String) (coin : Bool)
    (hlock : phase.hasLock = false) (hpermit : phase.hasPermit = false)
    (hlockQueue : phase ≠ .lockQueue) (hpermitQueue : phase ≠ .permitQueue) :
    Counted limit
      { u with calls := u.calls ++ [{ tag := tag, coin := coin, phase := phase }] } := by
  refine ⟨?_, fun tag' => ?_⟩
  · rw [Tasks.indices_concat_of_neg (by simpa [ExecuteCall.hasLock] using hlock),
      Tasks.indices_concat_of_neg (by simp [ExecuteCall.queuesLock, hlockQueue])]
    exact h.lock
  · rw [Tasks.indices_concat_of_neg (by simp [ExecuteCall.hasPermit, hpermit]),
      Tasks.indices_concat_of_neg (by simp [ExecuteCall.queuesPermit, hpermitQueue])]
    exact h.permits tag'

/-- **What a poll does** under a cap: the call takes the lock of the map, or looks for its permit,
or goes on with it. -/
theorem poll_cases (hlimit : shaper.profile.maxParallelRequestsPerTarget = some limit)
    {v : ShaperState} (h : u.poll shaper i call = some v) :
    (call.phase = .jitter ∧ v = u.takeLock shaper limit i call) ∨
      (call.phase = .locked ∧ v = u.takePermit shaper limit i call) ∨
      (call.phase = .permitted ∧ v = u.proceed shaper i call) := by
  rw [poll, hlimit] at h
  cases hphase : call.phase <;> rw [hphase] at h <;> cases h
  · exact Or.inl ⟨rfl, rfl⟩
  · exact Or.inr (Or.inl ⟨rfl, rfl⟩)
  · exact Or.inr (Or.inr ⟨rfl, rfl⟩)

/-- **The step lemma of the semaphores.** -/
theorem Counted.step (hlimit : shaper.profile.maxParallelRequestsPerTarget = some limit)
    (h : Counted limit u) {a : ShaperAction} {v : ShaperState}
    (hstep : (execute shaper).step u a = some v) : Counted limit v := by
  cases a with
  | call tag coin =>
    cases hstep
    split_ifs
    · exact h.newCall tag coin rfl rfl (by simp) (by simp)
    · exact h.newCall tag coin rfl rfl (by simp) (by simp)
  | poll i =>
    obtain ⟨call, hcall, hpoll⟩ := Option.bind_eq_some_iff.1 hstep
    have hself : ∀ phase, call.phase = phase → u.calls[i]? = some { call with phase := phase } := by
      rintro phase rfl
      exact hcall
    rcases poll_cases shaper hlimit hpoll with ⟨hphase, rfl⟩ | ⟨hphase, rfl⟩ | ⟨hphase, rfl⟩
    · exact (h.takeLock shaper hcall hphase).1
    · exact (h.takePermit call shaper (hself .locked hphase)).1
    · exact (h.proceed call shaper (hself .permitted hphase)).1
  | finish i ok =>
    obtain ⟨call, hcall, hfinish⟩ := Option.bind_eq_some_iff.1 hstep
    split_ifs at hfinish with hphase
    cases hfinish
    exact h.finish hcall hphase ok

theorem counted_run (hlimit : shaper.profile.maxParallelRequestsPerTarget = some limit)
    {as : List ShaperAction} (h : (execute shaper).exec .start as = some u) : Counted limit u :=
  Interleaving.exec_invariant (P := Counted limit) counted_start
    (fun _ _ _ ht hstep => ht.step shaper hlimit hstep) h

/-- **The cap on parallel closures**: of one target, no more run than the limit allows.  The slots
of its semaphore that are not free are those of calls that have a permit and have not returned. -/
theorem parallel_cap (hlimit : shaper.profile.maxParallelRequestsPerTarget = some limit)
    {as : List ShaperAction} (h : (execute shaper).exec .start as = some u) (tag : String) :
    (Tasks.indices (ExecuteCall.runs tag) u.calls).card ≤ limit ∧
      (∀ sem, u.semaphores.lookup tag = some sem →
        sem.available + (Tasks.indices (ExecuteCall.hasPermit tag) u.calls).card = limit) ∧
      ∀ i call ok, u.calls[i]? = some call → call.phase = .returned ok →
        i ∉ Tasks.indices (ExecuteCall.hasPermit tag) u.calls ∧
          i ∉ Tasks.indices ExecuteCall.hasLock u.calls := by
  have hcounted := counted_run shaper hlimit h
  refine ⟨?_, ?_, ?_⟩
  · have hsubset : Tasks.indices (ExecuteCall.runs tag) u.calls ⊆
        Tasks.indices (ExecuteCall.hasPermit tag) u.calls := by
      refine Tasks.indices_subset fun call _ hruns => ?_
      simp only [ExecuteCall.runs, Bool.and_eq_true, decide_eq_true_eq] at hruns
      simp [ExecuteCall.hasPermit, hruns.1, hruns.2, CallPhase.hasPermit]
    exact (Finset.card_le_card hsubset).trans (hcounted.permits tag).card_le
  · intro sem hsem
    have hcount := (hcounted.permits tag).count
    rwa [semaphore, hsem, Option.getD_some] at hcount
  · intro i call ok hcall hphase
    rw [Tasks.mem_indices_of_getElem? hcall, Tasks.mem_indices_of_getElem? hcall]
    simp [ExecuteCall.hasPermit, ExecuteCall.hasLock, hphase, CallPhase.hasPermit,
      CallPhase.hasLock]

end Steps

end ShaperState

/-! ### One slot -/

/-- A shaper with one slot for each target. -/
def oneSlot : TrafficShaper where
  client :=
    { userAgent := "w2uos-net/0.1"
      tcpKeepalive := 30000000000
      timeout := some 30000000000
      connectTimeout := some 10000000000
      poolMaxIdlePerHost := some 8
      proxy := none }
  profile := { NetProfile.default with maxParallelRequestsPerTarget := some 1 }

/-- Two calls of one target: the second gets the permit of the first when its closure has failed. -/
def twoCalls : List ShaperAction :=
  [.call "okx" false, .call "okx" false, .poll 0, .poll 1, .finish 0 false, .poll 1]

theorem parallel_cap_two :
    ∃ u, (@execute acceptAll oneSlot).exec .start twoCalls = some u ∧
      (Tasks.indices (ExecuteCall.runs "okx") u.calls).card ≤ 1 ∧
      (∀ sem, u.semaphores.lookup "okx" = some sem →
        sem.available + (Tasks.indices (ExecuteCall.hasPermit "okx") u.calls).card = 1) ∧
      ∀ i call ok, u.calls[i]? = some call → call.phase = .returned ok →
        i ∉ Tasks.indices (ExecuteCall.hasPermit "okx") u.calls ∧
          i ∉ Tasks.indices ExecuteCall.hasLock u.calls := by
  refine ⟨_, rfl, ?_⟩
  exact @ShaperState.parallel_cap 1 _ acceptAll oneSlot rfl twoCalls rfl "okx"

end W2uos
