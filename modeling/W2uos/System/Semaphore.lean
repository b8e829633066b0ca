import Mathlib.Data.Finset.Card
import Mathlib.Data.List.Nodup

/-!
# Fair semaphores

A semaphore has a number of permits.  Who asks for one gets it at once if there is one, and waits
behind those that have asked before otherwise.  A permit that is given back goes to whoever has
waited longest; that task holds it from then on, before it has been run again.  A lock is a
semaphore with one permit.

The semaphore does not know who holds its permits.  `Semaphore.Right` says that it counts right for
a set of holders and a set of waiting tasks.

* `Semaphore.acquire`, `Semaphore.release` : ask for a permit, and give one back;
* `Semaphore.Right` : the permits that are not available are those of the holders, and nobody waits
  while there is one;
* `Semaphore.Right.acquire`, `Semaphore.Right.release` : what the operations do to the holders and
  to those who wait.
-/

/-- A semaphore: the permits that are available, and the tasks that wait, in the order in which they
have asked. -/
structure Semaphore where
  available : ℕ
  queue : List ℕ
  deriving DecidableEq

namespace Semaphore

/-- A semaphore that has given no permits yet. -/
def new (permits : ℕ) : Semaphore where
  available := permits
  queue := []

/-- The task asks for a permit: whether it gets one at once. -/
def acquire (s : Semaphore) (task : ℕ) : Semaphore × Bool :=
  if 0 < s.available then ({ s with available := s.available - 1 }, true)
  else ({ s with queue := s.queue ++ [task] }, false)

/-- A permit is given back: who gets it, if somebody waits. -/
def release (s : Semaphore) : Semaphore × Option ℕ :=
  match s.queue with
  | [] => ({ s with available := s.available + 1 }, none)
  | task :: queue => ({ s with queue := queue }, some task)

/-- The semaphore counts right, for `permits` permits of which the tasks in `holders` hold one each,
while those in `waiting` wait for one. -/
structure Right (permits : ℕ) (holders waiting : Finset ℕ) (s : Semaphore) : Prop where
  count : s.available + holders.card = permits
  nodup : s.queue.Nodup
  mem_queue : ∀ task, task ∈ s.queue ↔ task ∈ waiting
  disjoint : ∀ task ∈ waiting, task ∉ holders
  busy : ∀ task ∈ waiting, s.available = 0

variable {permits task : ℕ} {holders waiting : Finset ℕ} {s : Semaphore}

theorem right_new (permits : ℕ) : (new permits).Right permits ∅ ∅ where
  count := by simp [new]
  nodup := List.nodup_nil
  mem_queue := by simp [new]
  disjoint := by simp
  busy := by simp

theorem Right.card_le (h : s.Right permits holders waiting) : holders.card ≤ permits := by
  have := h.count
  omega

theorem mem_queue_of_release (h : s.release.2 = some task) : task ∈ s.queue := by
  unfold release at h
  cases hqueue : s.queue with
  | nil =>
    rw [hqueue] at h
    cases h
  | cons next queue =>
    rw [hqueue] at h
    cases h
    exact List.mem_cons_self

/-- **Asking for a permit**: the task gets one if one is available, and waits otherwise. -/
theorem Right.acquire (h : s.Right permits holders waiting) (hholds : task ∉ holders)
    (hwaits : task ∉ waiting) :
    (0 < s.available ∧ (s.acquire task).2 = true ∧
        (s.acquire task).1.Right permits (insert task holders) waiting) ∨
      (s.available = 0 ∧ (s.acquire task).2 = false ∧
        (s.acquire task).1.Right permits holders (insert task waiting)) := by
  have hcount := h.count
  unfold Semaphore.acquire
  split_ifs with hfree
  · refine Or.inl ⟨hfree, rfl, ⟨?_, h.nodup, h.mem_queue, ?_, ?_⟩⟩
    · rw [Finset.card_insert_of_notMem hholds]
      show s.available - 1 + _ = _
      omega
    · intro other hother hmem
      rcases Finset.mem_insert.1 hmem with rfl | hmem
      · exact hwaits hother
      · exact h.disjoint other hother hmem
    · intro other hother
      exact absurd (h.busy other hother) (Nat.ne_of_gt hfree)
  · have hzero : s.available = 0 := by omega
    refine Or.inr ⟨hzero, rfl, ⟨hcount, ?_, ?_, ?_, fun _ _ => hzero⟩⟩
    · refine List.nodup_append.2 ⟨h.nodup, List.nodup_singleton task, ?_⟩
      rintro other hother _ hmem rfl
      rw [List.mem_singleton.1 hmem] at hother
      exact hwaits ((h.mem_queue task).1 hother)
    · intro other
      rw [List.mem_append, h.mem_queue, List.mem_singleton, Finset.mem_insert, or_comm]
    · intro other hother
      rcases Finset.mem_insert.1 hother with rfl | hother
      · exact hholds
      · exact h.disjoint other hother

/-- **Giving a permit back**: it becomes available, or goes to the first who waits. -/
theorem Right.release (h : s.Right permits holders waiting) (hholds : task ∈ holders) :
    (s.release.2 = none ∧ s.release.1.Right permits (holders.erase task) waiting) ∨
      ∃ next ∈ waiting, s.release.2 = some next ∧
        s.release.1.Right permits (insert next (holders.erase task)) (waiting.erase next) := by
  have hcount := h.count
  have hcard := Finset.card_erase_add_one hholds
  have hmem := h.mem_queue
  have hnodup := h.nodup
  unfold Semaphore.release
  cases hqueue : s.queue with
  | nil =>
    rw [hqueue] at hmem
    refine Or.inl ⟨rfl, ⟨?_, List.nodup_nil, hmem, ?_, ?_⟩⟩
    · show s.available + 1 + _ = _
      omega
    · exact fun other hother => absurd ((hmem other).2 hother) List.not_mem_nil
    · exact fun other hother => absurd ((hmem other).2 hother) List.not_mem_nil
  | cons next queue =>
    rw [hqueue] at hmem hnodup
    obtain ⟨hfresh, hnodup⟩ := List.nodup_cons.1 hnodup
    have hnext : next ∈ waiting := (hmem next).1 List.mem_cons_self
    have hother : ∀ other ∈ waiting.erase next, other ∉ holders.erase task := fun other hother =>
      fun hin => h.disjoint other (Finset.mem_of_mem_erase hother) (Finset.mem_of_mem_erase hin)
    refine Or.inr ⟨next, hnext, rfl, ⟨?_, hnodup, ?_, ?_, ?_⟩⟩
    · rw [Finset.card_insert_of_notMem fun hin =>
        h.disjoint next hnext (Finset.mem_of_mem_erase hin)]
      show s.available + _ = _
      omega
    · intro other
      rw [Finset.mem_erase, ← hmem, List.mem_cons]
      constructor
      · intro hin
        exact ⟨fun heq => hfresh (heq ▸ hin), Or.inr hin⟩
      · exact fun hin => hin.2.resolve_left hin.1
    · intro other hin
      rw [Finset.mem_insert, not_or]
      exact ⟨(Finset.mem_erase.1 hin).1, hother other hin⟩
    · exact fun other hin => h.busy other (Finset.mem_of_mem_erase hin)

end Semaphore
