import Mathlib.Data.List.TakeWhile
import Mathlib.Order.Lattice

/-!
# Sliding windows

A log of events in the order of their times is often kept as a *window*: new events are added at
its end, and events before a cutoff are dropped from its front when somebody looks.  Cutoffs only
move forward, so what such a window holds after the cutoff of today is what the whole log holds
after it, however rarely it was pruned.

* `prune c w` : the window `w` without the events before `c` at its front;
* `Retains c log w` : `w` is the log without some first events, all of them before `c`;
* `Retains.prune_eq` : pruning at `c` leaves the events of the log from `c` on.
-/

namespace Window

variable {α : Type*} [LinearOrder α] {c c' t : α} {log w : List α}

/-- Drop the events before the cutoff from the front. -/
def prune (c : α) (w : List α) : List α := w.dropWhile fun t => t < c

/-- The window is the log without some first events, all of them before the cutoff. -/
def Retains (c : α) (log w : List α) : Prop := ∃ dropped, log = dropped ++ w ∧ ∀ t ∈ dropped, t < c

theorem Retains.refl (c : α) (log : List α) : Retains c log log :=
  ⟨[], rfl, by simp⟩

theorem Retains.record (h : Retains c log w) (t : α) : Retains c (log ++ [t]) (w ++ [t]) := by
  obtain ⟨dropped, rfl, hlt⟩ := h
  exact ⟨dropped, by rw [List.append_assoc], hlt⟩

theorem Retains.prune (h : Retains c log w) (hc : c' ≤ c) : Retains c log (prune c' w) := by
  obtain ⟨dropped, rfl, hlt⟩ := h
  refine ⟨dropped ++ w.takeWhile fun t => t < c', ?_, fun t ht => ?_⟩
  · rw [List.append_assoc, Window.prune, List.takeWhile_append_dropWhile]
  · rcases List.mem_append.1 ht with ht | ht
    · exact hlt t ht
    · have hlt' : t < c' := by simpa using List.mem_takeWhile_imp ht
      exact hlt'.trans_le hc

theorem prune_eq_filter (hsorted : w.Pairwise (· ≤ ·)) :
    prune c w = w.filter fun t => c ≤ t := by
  induction w with
  | nil => rfl
  | cons t w ih =>
    obtain ⟨hle, hrest⟩ := List.pairwise_cons.1 hsorted
    -- if the first event stays, so does the rest: the window is sorted
    by_cases ht : t < c
    · simpa [prune, List.dropWhile_cons, ht, not_le.2 ht] using ih hrest
    · have hall : ∀ u ∈ w, c ≤ u := fun u hu => (not_lt.1 ht).trans (hle u hu)
      have hkeep : w.filter (fun u => c ≤ u) = w :=
        List.filter_eq_self.2 fun u hu => decide_eq_true (hall u hu)
      simp [prune, ht, not_lt.1 ht, hkeep]

/-- **A window knows the recent past**: pruned at the cutoff, it holds the events of the whole log
from the cutoff on. -/
theorem Retains.prune_eq (h : Retains c log w) (hsorted : log.Pairwise (· ≤ ·)) :
    Window.prune c w = log.filter fun t => c ≤ t := by
  obtain ⟨dropped, rfl, hlt⟩ := h
  have hnone : dropped.filter (fun t => c ≤ t) = [] :=
    List.filter_eq_nil_iff.2 fun t ht => by simpa using hlt t ht
  rw [prune_eq_filter (List.pairwise_append.1 hsorted).2.1, List.filter_append, hnone,
    List.nil_append]

end Window
