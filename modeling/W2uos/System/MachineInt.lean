import Mathlib.Algebra.Order.BigOperators.Group.List
import Mathlib.Algebra.Order.Ring.Int
import Mathlib.Data.List.Infix
import Mathlib.Data.List.Sort
import Mathlib.Tactic.Linarith

/-!
# Sums of 64-bit integers

An addition that does not fit 64 bits fails if overflow is checked, and else wraps around.  Wrapped
sums add up to the wrapped total, so only the total has to fit; with checks every sum on the way has
to.  If the terms come in order, the sums on the way fall while the terms are negative and rise
after, so it is enough that the least sum and the last one fit.

* `sum_eq_iff` : exactly when the sum of terms in order is right.
-/

namespace MachineInt

/-- The number fits 64 bits. -/
def Fits (z : ℤ) : Prop := -2 ^ 63 ≤ z ∧ z < 2 ^ 63

instance (z : ℤ) : Decidable (Fits z) := inferInstanceAs (Decidable (_ ∧ _))

/-- Addition, with or without overflow checks; `none` where a check fails. -/
def add (checks : Bool) (a b : ℤ) : Option ℤ :=
  if checks ∧ ¬ Fits (a + b) then none else some ((a + b).bmod (2 ^ 64))

/-- The sum of the terms, from the first to the last. -/
def sum (checks : Bool) (xs : List ℤ) : Option ℤ := xs.foldlM (add checks) 0

/-- The least sum on the way fits, and the total; without checks, only the total. -/
def SumFits (checks : Bool) (xs : List ℤ) : Prop :=
  Fits xs.sum ∧ (checks = true → -2 ^ 63 ≤ (xs.filter (· < 0)).sum)

instance (checks : Bool) (xs : List ℤ) : Decidable (SumFits checks xs) :=
  inferInstanceAs (Decidable (_ ∧ (_ → _)))

variable {xs : List ℤ} {z : ℤ}

theorem bmod_eq_self_iff : z.bmod (2 ^ 64) = z ↔ Fits z := by
  have hlow : -((2 ^ 64 : ℕ) : ℤ) / 2 ≤ z.bmod (2 ^ 64) := Int.le_bmod (by decide)
  have hhigh : z.bmod (2 ^ 64) < (((2 ^ 64 : ℕ) : ℤ) + 1) / 2 := Int.bmod_lt (by decide)
  constructor
  · intro h
    rw [h] at hlow hhigh
    unfold Fits
    omega
  · rintro ⟨hlow', hhigh'⟩
    exact Int.bmod_eq_of_le (by omega) (by omega)

theorem sum_concat (checks : Bool) (xs : List ℤ) (x : ℤ) :
    sum checks (xs ++ [x]) = (sum checks xs).bind fun s => add checks s x := by
  rw [sum, List.foldlM_append]
  simp [sum]

theorem sum_wrapping (xs : List ℤ) : sum false xs = some (xs.sum.bmod (2 ^ 64)) := by
  induction xs using List.reverseRecOn with
  | nil => rfl
  | append_singleton xs x ih =>
    rw [sum_concat, ih, Option.bind_some, add, if_neg (by simp), Int.bmod_add_bmod, List.sum_append,
      List.sum_singleton]

/-- A checked sum is the total if all sums on the way fit, and else there is none. -/
theorem sum_checked (xs : List ℤ) :
    ((∀ pre, pre <+: xs → Fits pre.sum) → sum true xs = some xs.sum) ∧
      (¬ (∀ pre, pre <+: xs → Fits pre.sum) → sum true xs = none) := by
  induction xs using List.reverseRecOn with
  | nil =>
    refine ⟨fun _ => rfl, fun h => absurd ?_ h⟩
    intro pre hpre
    rw [List.prefix_nil.1 hpre]
    decide
  | append_singleton xs x ih =>
    have hsplit : (∀ pre, pre <+: xs ++ [x] → Fits pre.sum) ↔
        (∀ pre, pre <+: xs → Fits pre.sum) ∧ Fits (xs.sum + x) := by
      simp only [List.prefix_concat_iff, forall_eq_or_imp, List.sum_append, List.sum_singleton]
      exact and_comm
    rw [hsplit, sum_concat, List.sum_append, List.sum_singleton]
    by_cases hbefore : ∀ pre, pre <+: xs → Fits pre.sum
    · rw [ih.1 hbefore, Option.bind_some, add]
      by_cases hfit : Fits (xs.sum + x)
      · rw [if_neg (by simp [hfit]), bmod_eq_self_iff.2 hfit]
        exact ⟨fun _ => rfl, fun h => absurd ⟨hbefore, hfit⟩ h⟩
      · rw [if_pos (by simp [hfit])]
        exact ⟨fun h => absurd h.2 hfit, fun _ => rfl⟩
    · rw [ih.2 hbefore]
      exact ⟨fun h => absurd h.1 hbefore, fun _ => rfl⟩

theorem sum_filter_neg_le {pre : List ℤ} (h : pre <+: xs) : (xs.filter (· < 0)).sum ≤ pre.sum := by
  obtain ⟨post, rfl⟩ := h
  have hle : ∀ l : List ℤ, (l.filter (· < 0)).sum ≤ min 0 l.sum := by
    intro l
    induction l with
    | nil => simp
    | cons x l ih =>
      by_cases hx : x < 0
      · simp only [List.filter_cons, hx, decide_true, if_true, List.sum_cons]
        omega
      · simp only [List.filter_cons, hx, decide_false, List.sum_cons, Bool.false_eq_true, if_false]
        omega
  rw [List.filter_append, List.sum_append]
  have hpre := hle pre
  have hpost := hle post
  omega

/-- If the terms come in order, no sum on the way is greater than zero and the total. -/
theorem prefix_sum_le (hsorted : xs.Pairwise (· ≤ ·)) {pre : List ℤ} (h : pre <+: xs) :
    pre.sum ≤ max 0 xs.sum := by
  obtain ⟨post, rfl⟩ := h
  obtain ⟨-, -, hle⟩ := List.pairwise_append.1 hsorted
  by_cases hpost : ∀ x ∈ post, 0 ≤ x
  · have hnonneg := List.sum_nonneg hpost
    rw [List.sum_append]
    omega
  · -- a negative term is yet to come, so all have been negative
    push Not at hpost
    obtain ⟨x, hx, hneg⟩ := hpost
    have hpre : pre.sum ≤ pre.length • (0 : ℤ) :=
      List.sum_le_card_nsmul pre 0 fun y hy => (hle y hy x hx).trans hneg.le
    rw [nsmul_zero] at hpre
    exact le_max_of_le_left hpre

theorem filter_neg_isInitial (hsorted : xs.Pairwise (· ≤ ·)) : xs.filter (· < 0) <+: xs := by
  induction xs with
  | nil => exact List.prefix_rfl
  | cons x xs ih =>
    obtain ⟨hle, hrest⟩ := List.pairwise_cons.1 hsorted
    by_cases hx : x < 0
    · simp only [List.filter_cons, hx, decide_true, if_true, List.cons_prefix_cons, true_and]
      exact ih hrest
    · have hnil : (x :: xs).filter (· < 0) = [] := by
        refine List.filter_eq_nil_iff.2 fun y hy => ?_
        have hxy : x ≤ y := by
          rcases List.mem_cons.1 hy with rfl | hy
          · exact le_rfl
          · exact hle y hy
        simpa using (not_lt.1 hx).trans hxy
      rw [hnil]
      exact List.nil_prefix

/-- **Exactly when the sum of terms in order is right.** -/
theorem sum_eq_iff (checks : Bool) (hsorted : xs.Pairwise (· ≤ ·)) :
    sum checks xs = some xs.sum ↔ SumFits checks xs := by
  cases checks with
  | false =>
    rw [sum_wrapping, Option.some.injEq, bmod_eq_self_iff, SumFits]
    simp
  | true =>
    have hway : (∀ pre, pre <+: xs → Fits pre.sum) ↔ SumFits true xs := by
      constructor
      · intro h
        exact ⟨h xs List.prefix_rfl, fun _ => (h _ (filter_neg_isInitial hsorted)).1⟩
      · rintro ⟨hfit, hneg⟩ pre hpre
        refine ⟨(hneg rfl).trans (sum_filter_neg_le hpre), ?_⟩
        exact (prefix_sum_le hsorted hpre).trans_lt (max_lt (by decide) hfit.2)
    rw [← hway]
    obtain ⟨hright, hnone⟩ := sum_checked xs
    refine ⟨fun h => ?_, hright⟩
    by_contra hno
    rw [hnone hno] at h
    cases h

theorem sumFits_perm (checks : Bool) {ys : List ℤ} (h : xs.Perm ys) :
    SumFits checks xs ↔ SumFits checks ys := by
  unfold SumFits
  rw [h.sum_eq, (h.filter _).sum_eq]

end MachineInt
