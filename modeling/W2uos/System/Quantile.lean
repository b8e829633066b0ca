import Mathlib.Algebra.Order.BigOperators.Group.List
import Mathlib.Algebra.Order.Floor.Semiring
import Mathlib.Order.Bounds.Basic
import Mathlib.Tactic.Linarith

/-!
# Quantiles by the nearest rank

The value at index `i` of a sorted list is the least one that more than `i` values do not exceed.
So the least value that a share of the values do not exceed stands at the *nearest rank*, the number
of values times the share, rounded up; indices begin at zero, so it stands one before.

* `lt_countLe_iff` : in a sorted list the values up to `x` stand at the indices below their number;
* `isLeast_rank` : the value at the nearest rank is the quantile.
-/

namespace Quantile

variable {α K : Type*} [LinearOrder α] {v : List α} {i j : ℕ}

/-- The number of values up to `x`. -/
def countLe (v : List α) (x : α) : ℕ := v.countP fun a => a ≤ x

/-! ### Sorted lists -/

/-- **In a sorted list the values up to `x`** stand at the indices below their number. -/
theorem lt_countLe_iff (hsorted : v.Pairwise (· ≤ ·)) (hi : i < v.length) (x : α) :
    i < countLe v x ↔ v[i] ≤ x := by
  unfold countLe
  induction v generalizing i with
  | nil => cases hi
  | cons a v ih =>
    obtain ⟨hle, hrest⟩ := List.pairwise_cons.1 hsorted
    by_cases ha : a ≤ x
    · rw [List.countP_cons_of_pos (by simpa using ha)]
      cases i with
      | zero => simpa using ha
      | succ i => simpa using ih hrest (Nat.lt_of_succ_lt_succ hi)
    · -- the first value is too large already, and so are the others
      have hnone : v.countP (fun b => b ≤ x) = 0 := by
        rw [List.countP_eq_zero]
        intro b hb
        simpa using (not_le.1 ha).trans_le (hle b hb)
      rw [List.countP_cons_of_neg (by simpa using ha), hnone]
      refine iff_of_false (Nat.not_lt_zero i) (not_le.2 ?_)
      cases i with
      | zero => exact not_le.1 ha
      | succ i => exact (not_le.1 ha).trans_le (hle _ (List.getElem_mem _))

/-- The value at an index is the least one that more values than the index do not exceed. -/
theorem isLeast_getElem (hsorted : v.Pairwise (· ≤ ·)) (hi : i < v.length) :
    IsLeast {x | i < countLe v x} v[i] :=
  ⟨(lt_countLe_iff hsorted hi _).2 le_rfl, fun x hx => (lt_countLe_iff hsorted hi x).1 hx⟩

theorem getElem_mono (hsorted : v.Pairwise (· ≤ ·)) (hj : j < v.length) (hij : i ≤ j) :
    v[i] ≤ v[j] :=
  (lt_countLe_iff hsorted (hij.trans_lt hj) _).1
    (hij.trans_lt ((lt_countLe_iff hsorted hj _).2 le_rfl))

theorem getElem_zero_le (hsorted : v.Pairwise (· ≤ ·)) (h : 0 < v.length) : ∀ a ∈ v, v[0] ≤ a := by
  intro a ha
  obtain ⟨i, hi, rfl⟩ := List.mem_iff_getElem.1 ha
  exact getElem_mono hsorted hi (Nat.zero_le i)

theorem le_getElem_last (hsorted : v.Pairwise (· ≤ ·)) (h : v.length - 1 < v.length) :
    ∀ a ∈ v, a ≤ v[v.length - 1] := by
  intro a ha
  obtain ⟨i, hi, rfl⟩ := List.mem_iff_getElem.1 ha
  exact getElem_mono hsorted h (by omega)

/-! ### The nearest rank -/

variable [Field K] [LinearOrder K] [IsStrictOrderedRing K] [FloorSemiring K] {share share' : K}
  {n : ℕ}

/-- The number of values times the share, rounded up. -/
def rank (share : K) (n : ℕ) : ℕ := ⌈(n : K) * share⌉₊

/-- At least the share of the values are up to `x`. -/
def AtLeast (share : K) (v : List α) (x : α) : Prop := share * v.length ≤ countLe v x

omit [IsStrictOrderedRing K] in
theorem atLeast_iff (x : α) : AtLeast share v x ↔ rank share v.length ≤ countLe v x := by
  rw [AtLeast, rank, Nat.ceil_le, mul_comm]

theorem rank_pos (hshare : 0 < share) (hn : 0 < n) : 0 < rank share n :=
  Nat.ceil_pos.2 (mul_pos (Nat.cast_pos.2 hn) hshare)

theorem rank_le (hshare : share ≤ 1) (n : ℕ) : rank share n ≤ n :=
  Nat.ceil_le.2 (mul_le_of_le_one_right n.cast_nonneg hshare)

theorem rank_mono (h : share ≤ share') (n : ℕ) : rank share n ≤ rank share' n :=
  Nat.ceil_le_ceil (mul_le_mul_of_nonneg_left h n.cast_nonneg)

theorem rank_sub_one_lt (hshare : 0 < share) (hshare' : share ≤ 1) (hn : 0 < n) :
    rank share n - 1 < n := by
  have hpos := rank_pos hshare hn
  have hle := rank_le hshare' n
  omega

/-- **The value at the nearest rank** is the least one that the share of the values do not
exceed. -/
theorem isLeast_rank (hsorted : v.Pairwise (· ≤ ·)) (hshare : 0 < share)
    (hi : rank share v.length - 1 < v.length) :
    IsLeast {x | AtLeast share v x} v[rank share v.length - 1] := by
  have hpos : 0 < rank share v.length := rank_pos hshare (by omega)
  have hset : {x | AtLeast share v x} = {x | rank share v.length - 1 < countLe v x} := by
    ext x
    rw [Set.mem_ofPred_eq, Set.mem_ofPred_eq, atLeast_iff]
    omega
  rw [hset]
  exact isLeast_getElem hsorted hi

/-! ### The mean -/

variable {w : List K}

omit [FloorSemiring K] in
theorem mean_mem {a b : K} (hw : w ≠ []) (hmin : ∀ x ∈ w, a ≤ x) (hmax : ∀ x ∈ w, x ≤ b) :
    a ≤ w.sum / w.length ∧ w.sum / w.length ≤ b := by
  have hlength : (0 : K) < w.length := Nat.cast_pos.2 (List.length_pos_iff.2 hw)
  rw [le_div_iff₀ hlength, div_le_iff₀ hlength]
  have hlower := w.card_nsmul_le_sum a hmin
  have hupper := w.sum_le_card_nsmul b hmax
  rw [nsmul_eq_mul] at hlower hupper
  constructor
  · linarith
  · linarith

end Quantile
