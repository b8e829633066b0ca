import Mathlib.Algebra.BigOperators.Group.List.Basic
import Mathlib.Algebra.GroupWithZero.Nat
import Mathlib.Data.List.Induction
import Mathlib.Order.Bounds.Basic

/-!
# Buckets with upper bounds

A value belongs to the first bucket whose bound it does not exceed.  With growing bounds this is the
bucket with the least such bound, and a value above all bounds belongs to none.

* `Buckets.bucketOf bounds x` : the bound of the bucket of `x`;
* `Buckets.count bounds xs b` : how many values belong to the bucket with the bound `b`;
* `bucketOf_eq_some_iff` : the bucket of a value has the least bound that the value does not exceed;
* `sum_count` : all buckets together have the values that do not exceed all bounds.
-/

namespace Buckets

variable {K : Type*} [LinearOrder K] {bounds xs : List K} {x b : K}

/-- The bound of the bucket of `x`. -/
def bucketOf (bounds : List K) (x : K) : Option K := bounds.find? fun b => x ≤ b

/-- How many values belong to the bucket with the bound `b`. -/
def count (bounds xs : List K) (b : K) : ℕ := xs.countP fun x => bucketOf bounds x = some b

theorem count_concat (xs : List K) (x : K) :
    count bounds (xs ++ [x]) b =
      count bounds xs b + if bucketOf bounds x = some b then 1 else 0 := by
  simp [count, List.countP_append, List.countP_cons]

/-- **The bucket of a value** has the least of the bounds that the value does not exceed. -/
theorem bucketOf_eq_some_iff (hbounds : bounds.Pairwise (· < ·)) :
    bucketOf bounds x = some b ↔ IsLeast {c | c ∈ bounds ∧ x ≤ c} b := by
  induction bounds with
  | nil => exact iff_of_false (by simp [bucketOf]) fun h => by simpa using h.1.1
  | cons c bounds ih =>
    obtain ⟨hc, hrest⟩ := List.pairwise_cons.1 hbounds
    unfold bucketOf at ih ⊢
    by_cases hx : x ≤ c
    · -- the first bound is the least of all
      have hleast : IsLeast {d | d ∈ c :: bounds ∧ x ≤ d} c := by
        refine ⟨⟨List.mem_cons_self, hx⟩, ?_⟩
        rintro d ⟨hd, -⟩
        rcases List.mem_cons.1 hd with rfl | hd
        · exact le_rfl
        · exact (hc d hd).le
      rw [List.find?_cons_of_pos (by simpa using hx), Option.some.injEq]
      exact ⟨fun h => h ▸ hleast, fun h => hleast.unique h⟩
    · have hset : {d | d ∈ c :: bounds ∧ x ≤ d} = {d | d ∈ bounds ∧ x ≤ d} := by
        ext d
        simp only [Set.mem_ofPred_eq, List.mem_cons, or_and_right, or_iff_right_iff_imp]
        rintro ⟨rfl, hd⟩
        exact absurd hd hx
      rw [List.find?_cons_of_neg (by simpa using hx), hset]
      exact ih hrest

theorem bucketOf_isSome_iff : (bucketOf bounds x).isSome ↔ ∃ b ∈ bounds, x ≤ b := by
  simp [bucketOf, List.find?_isSome]

theorem mem_of_bucketOf (h : bucketOf bounds x = some b) : b ∈ bounds :=
  List.mem_of_find?_eq_some h

/-- One value is counted in the bucket it belongs to, if there is one. -/
theorem sum_indicator (hbounds : bounds.Nodup) {o : Option K} (ho : ∀ b, o = some b → b ∈ bounds) :
    (bounds.map fun b => if o = some b then 1 else 0).sum = if o.isSome then 1 else 0 := by
  cases o with
  | none => simp
  | some c =>
    have hc := ho c rfl
    clear ho
    induction bounds with
    | nil => cases hc
    | cons d bounds ih =>
      obtain ⟨hd, hrest⟩ := List.nodup_cons.1 hbounds
      rw [List.map_cons, List.sum_cons]
      rcases List.mem_cons.1 hc with rfl | hc
      · -- no other bucket has this bound
        have hzero : (bounds.map fun b => if some c = some b then 1 else 0).sum = 0 := by
          refine List.sum_eq_zero ?_
          rw [List.forall_mem_map]
          intro b hb
          refine if_neg fun h => hd ?_
          rwa [Option.some.inj h]
        rw [hzero, if_pos rfl]
        rfl
      · have hne : some c ≠ some d := fun h => hd (Option.some.inj h ▸ hc)
        rw [if_neg hne, zero_add]
        exact ih hrest hc

/-- **All buckets together** have the values that do not exceed all bounds. -/
theorem sum_count (hbounds : bounds.Nodup) (xs : List K) :
    (bounds.map (count bounds xs)).sum = xs.countP fun x => (bucketOf bounds x).isSome := by
  induction xs using List.reverseRecOn with
  | nil =>
    have hnil : count bounds [] = fun _ => 0 := by
      funext b
      rfl
    rw [hnil]
    simp
  | append_singleton xs x ih =>
    have hone := sum_indicator hbounds (o := bucketOf bounds x) fun b h => mem_of_bucketOf h
    have hconcat : count bounds (xs ++ [x]) =
        fun b => count bounds xs b + if bucketOf bounds x = some b then 1 else 0 := by
      funext b
      exact count_concat xs x
    rw [hconcat, List.sum_map_add, ih, hone, List.countP_append, List.countP_singleton]

theorem sum_count_eq_length_iff (hbounds : bounds.Nodup) :
    (bounds.map (count bounds xs)).sum = xs.length ↔ ∀ x ∈ xs, ∃ b ∈ bounds, x ≤ b := by
  rw [sum_count hbounds, List.countP_eq_length]
  exact forall₂_congr fun x _ => bucketOf_isSome_iff

end Buckets
