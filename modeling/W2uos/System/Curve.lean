import Mathlib.Algebra.Order.Field.Basic
import Mathlib.Data.List.Induction
import Mathlib.Data.List.Infix
import Mathlib.Order.Bounds.Basic
import Mathlib.Tactic.Linarith
import W2uos.System.Machine

/-!
# Curves that rise and fall

A *curve* is a list of values; it starts at zero, and the sums of some changes are one.  Its peak is
the largest value it has reached, and its fall is how far it has come down from there, relative to
the peak.  The largest fall along the way is not that at the end.

* `isGreatest_maxFall` : the largest fall is one, and is the largest;
* `maxFall_sums_eq_zero_iff` : the sums never fall exactly if the changes are steady;
* `Steady.fall_sums_sums` : then the sums of the sums are not below their peak either.
-/

namespace Curve

variable {K : Type*} [Field K] [LinearOrder K] {c xs : List K} {x : K}

/-- The last value, zero at the start. -/
def last (c : List K) : K := c.getLastD 0

/-- The largest of zero and the values. -/
def peak (c : List K) : K := c.foldl max 0

/-- How far the curve is below its peak at its end, relative to the peak. -/
def fall (c : List K) : K := if 0 < peak c then (peak c - last c) / peak c else 0

/-- The largest fall along the way. -/
def maxFall (c : List K) : K := peak (c.inits.map fall)

/-- The sums of the changes so far. -/
def sums (xs : List K) : List K := xs.inits.tail.map List.sum

/-- No negative change comes after the sum has been positive. -/
def Steady (xs : List K) : Prop :=
  Always (fun before x => x < 0 → ∀ s ∈ sums before, s ≤ 0) xs

/-! ### Peaks -/

omit [LinearOrder K] in
@[simp] theorem last_concat (c : List K) (x : K) : last (c ++ [x]) = x := by
  rw [last, List.getLastD_concat]

@[simp] theorem peak_concat (c : List K) (x : K) : peak (c ++ [x]) = max (peak c) x := by
  rw [peak, List.foldl_append]
  rfl

theorem peak_le_iff {y : K} : peak c ≤ y ↔ 0 ≤ y ∧ ∀ x ∈ c, x ≤ y := by
  induction c using List.reverseRecOn with
  | nil => simp [peak]
  | append_singleton c x ih => simp [ih, or_imp, forall_and, and_assoc]

theorem peak_nonneg (c : List K) : 0 ≤ peak c := (peak_le_iff.1 le_rfl).1

theorem le_peak (hx : x ∈ c) : x ≤ peak c := (peak_le_iff.1 le_rfl).2 x hx

theorem peak_eq_zero_iff : peak c = 0 ↔ ∀ x ∈ c, x ≤ 0 := by
  rw [le_antisymm_iff, peak_le_iff]
  simp [peak_nonneg]

theorem last_le_peak (c : List K) : last c ≤ peak c := by
  rcases List.eq_nil_or_concat c with rfl | ⟨c, x, rfl⟩
  · exact le_rfl
  · rw [List.concat_eq_append, last_concat, peak_concat]
    exact le_max_right _ _

theorem peak_mem (c : List K) : peak c = 0 ∨ peak c ∈ c := by
  induction c using List.reverseRecOn with
  | nil => exact Or.inl rfl
  | append_singleton c x ih =>
    rw [peak_concat]
    rcases max_choice (peak c) x with hmax | hmax
    · rw [hmax, List.mem_append]
      exact ih.imp_right Or.inl
    · rw [hmax]
      exact Or.inr (by simp)

/-! ### Falls -/

@[simp] theorem fall_nil : fall ([] : List K) = 0 := by simp [fall, peak]

/-- A curve has not fallen exactly if it has not been positive, or ends at its peak. -/
theorem fall_eq_zero_iff : fall c = 0 ↔ peak c = 0 ∨ last c = peak c := by
  unfold fall
  split_ifs with h
  · rw [div_eq_zero_iff, sub_eq_zero, eq_comm]
    exact or_comm
  · exact iff_of_true rfl (Or.inl (le_antisymm (not_lt.1 h) (peak_nonneg c)))

/-- **The largest fall** is one along the way, and the largest of them. -/
theorem isGreatest_maxFall (c : List K) :
    IsGreatest {y | ∃ before, before <+: c ∧ fall before = y} (maxFall c) := by
  constructor
  · rcases peak_mem (c.inits.map fall) with hzero | hmem
    · exact ⟨[], List.nil_prefix, fall_nil.trans hzero.symm⟩
    · obtain ⟨before, hbefore, heq⟩ := List.mem_map.1 hmem
      exact ⟨before, (List.mem_inits before c).1 hbefore, heq⟩
  · rintro y ⟨before, hbefore, rfl⟩
    exact le_peak (List.mem_map_of_mem ((List.mem_inits before c).2 hbefore))

section Falls

variable [IsStrictOrderedRing K]

theorem fall_nonneg (c : List K) : 0 ≤ fall c := by
  unfold fall
  split_ifs with h
  · exact div_nonneg (sub_nonneg.2 (last_le_peak c)) h.le
  · exact le_rfl

theorem maxFall_eq_zero_iff : maxFall c = 0 ↔ ∀ before, before <+: c → fall before = 0 := by
  rw [maxFall, peak_eq_zero_iff]
  simp only [List.forall_mem_map, List.mem_inits]
  exact forall₂_congr fun before _ => ⟨fun h => le_antisymm h (fall_nonneg before), le_of_eq⟩

end Falls

/-! ### Sums -/

omit [LinearOrder K] in
@[simp] theorem sums_concat (xs : List K) (x : K) :
    sums (xs ++ [x]) = sums xs ++ [xs.sum + x] := by
  have hinits : xs.inits ≠ [] := by
    intro h
    simpa [h] using List.length_inits xs
  simp [sums, List.inits_append, List.tail_append_of_ne_nil hinits]

omit [LinearOrder K] in
@[simp] theorem last_sums (xs : List K) : last (sums xs) = xs.sum := by
  induction xs using List.reverseRecOn with
  | nil => simp [sums, last]
  | append_singleton xs x ih => rw [sums_concat, List.sum_append, last, List.getLastD_concat,
      List.sum_singleton]

omit [LinearOrder K] in
theorem prefix_sums {before : List K} (h : before <+: sums xs) :
    ∃ ys, ys <+: xs ∧ before = sums ys := by
  induction xs using List.reverseRecOn with
  | nil => exact ⟨[], List.prefix_rfl, List.prefix_nil.1 h⟩
  | append_singleton xs x ih =>
    rw [sums_concat, List.prefix_concat_iff] at h
    rcases h with rfl | h
    · exact ⟨xs ++ [x], List.prefix_rfl, (sums_concat xs x).symm⟩
    · obtain ⟨ys, hys, rfl⟩ := ih h
      exact ⟨ys, hys.trans (List.prefix_append _ _), rfl⟩

omit [LinearOrder K] in
theorem sums_prefix_sums {before : List K} (h : before <+: xs) : sums before <+: sums xs := by
  obtain ⟨after, rfl⟩ := h
  induction after using List.reverseRecOn with
  | nil => rw [List.append_nil]
  | append_singleton after x ih =>
    rw [← List.append_assoc, sums_concat]
    exact ih.trans (List.prefix_append _ _)

/-! ### Steady changes -/

theorem steady_concat :
    Steady (xs ++ [x]) ↔ Steady xs ∧ (x < 0 → ∀ s ∈ sums xs, s ≤ 0) := always_concat

theorem Steady.initial {before : List K} (h : Steady xs) (hbefore : before <+: xs) :
    Steady before := by
  obtain ⟨after, rfl⟩ := hbefore
  exact Always.left h

theorem steady_of_nonneg (h : ∀ x ∈ xs, 0 ≤ x) : Steady xs := by
  intro before x after heq hneg
  exact absurd hneg (not_lt.2 (h x (by simp [heq])))

variable [IsStrictOrderedRing K]

/-- **Steady changes**: the sums have not been positive yet, or they are at their peak and have only
risen since they were; the sums of the sums likewise. -/
theorem Steady.cases (h : Steady xs) :
    (peak (sums xs) = 0 ∧ peak (sums (sums xs)) = 0) ∨
    (0 < xs.sum ∧ peak (sums xs) = xs.sum ∧
      (peak (sums (sums xs)) = 0 ∨ peak (sums (sums xs)) = (sums xs).sum)) := by
  induction xs using List.reverseRecOn with
  | nil => exact Or.inl ⟨rfl, rfl⟩
  | append_singleton xs x ih =>
    obtain ⟨hsteady, hx⟩ := steady_concat.1 h
    rw [sums_concat, sums_concat, peak_concat, peak_concat, List.sum_append, List.sum_append,
      List.sum_singleton, List.sum_singleton]
    rcases ih hsteady with ⟨hpeak, hpeak₂⟩ | ⟨hpos, hpeak, hpeak₂⟩
    · have hsum₂ : (sums xs).sum ≤ 0 := by
        rw [← last_sums, ← hpeak₂]
        exact last_le_peak _
      rw [hpeak, hpeak₂]
      rcases le_or_gt (xs.sum + x) 0 with hle | hgt
      · exact Or.inl ⟨max_eq_left hle, max_eq_left (add_nonpos hsum₂ hle)⟩
      · exact Or.inr ⟨hgt, max_eq_right hgt.le, max_choice _ _⟩
    · -- the sum is positive, so the change is not negative
      have hmem : xs.sum ∈ sums xs := by
        rw [← hpeak]
        exact (peak_mem _).resolve_left (by rw [hpeak]; exact hpos.ne')
      have hx₀ : 0 ≤ x := not_lt.1 fun hneg => not_le.2 hpos (hx hneg _ hmem)
      have hnext : 0 < xs.sum + x := by linarith
      refine Or.inr ⟨hnext, ?_, ?_⟩
      · rw [hpeak]
        exact max_eq_right (by linarith)
      · rcases hpeak₂ with hpeak₂ | hpeak₂
        · rw [hpeak₂]
          exact max_choice _ _
        · rw [hpeak₂]
          exact Or.inr (max_eq_right (by linarith))

theorem Steady.fall_sums (h : Steady xs) : fall (sums xs) = 0 := by
  rw [fall_eq_zero_iff, last_sums]
  rcases h.cases with ⟨hpeak, -⟩ | ⟨-, hpeak, -⟩
  · exact Or.inl hpeak
  · exact Or.inr hpeak.symm

/-- The sums of the sums of steady changes are at their peak, or have not been positive. -/
theorem Steady.fall_sums_sums (h : Steady xs) : fall (sums (sums xs)) = 0 := by
  rw [fall_eq_zero_iff, last_sums]
  rcases h.cases with ⟨-, hpeak⟩ | ⟨-, -, hpeak | hpeak⟩
  · exact Or.inl hpeak
  · exact Or.inl hpeak
  · exact Or.inr hpeak.symm

/-- **The sums never fall** exactly if the changes are steady. -/
theorem maxFall_sums_eq_zero_iff : maxFall (sums xs) = 0 ↔ Steady xs := by
  rw [maxFall_eq_zero_iff]
  constructor
  · intro h before x after heq hneg s hs
    by_contra hpos
    have hx : before ++ [x] <+: xs := ⟨after, by rw [heq, List.append_assoc, List.singleton_append]⟩
    -- the sum stands at its peak before the change, and below it after
    have hpeak : 0 < peak (sums before) := (not_le.1 hpos).trans_le (le_peak hs)
    have hbefore : last (sums before) = peak (sums before) := by
      have hfall := h _ (sums_prefix_sums ((List.prefix_append before [x]).trans hx))
      exact (fall_eq_zero_iff.1 hfall).resolve_left hpeak.ne'
    have hafter := fall_eq_zero_iff.1 (h _ (sums_prefix_sums hx))
    rw [sums_concat, peak_concat, last_concat] at hafter
    rw [last_sums] at hbefore
    have hmax : max (peak (sums before)) (before.sum + x) = peak (sums before) :=
      max_eq_left (by linarith)
    rw [hmax] at hafter
    rcases hafter with hzero | heq
    · exact hpeak.ne' hzero
    · linarith
  · intro h before hbefore
    obtain ⟨ys, hys, rfl⟩ := prefix_sums hbefore
    exact (h.initial hys).fall_sums

end Curve
