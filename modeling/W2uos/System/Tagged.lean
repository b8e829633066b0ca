import Mathlib.Data.List.Basic

/-!
# Interleaved lists

What several sources put into one list, each item with a tag that names its source.  The items of
one source can be read off it in their order; so a list of tagged items is an interleaving of the
lists of its sources.

* `tagged k l` : the items of `l` with the tag `k`;
* `perm_of_tagged` : two interleavings of the same lists have the same items.
-/

section Tagged

variable {K α β : Type*} [DecidableEq K] {k j : K}

/-- The items with the tag `k`, in their order. -/
def tagged (k : K) (l : List (K × α)) : List α :=
  l.filterMap fun x => if x.1 = k then some x.2 else none

@[simp] theorem tagged_nil (k : K) : tagged k ([] : List (K × α)) = [] := rfl

theorem tagged_append (k : K) (l l' : List (K × α)) :
    tagged k (l ++ l') = tagged k l ++ tagged k l' := List.filterMap_append

theorem tagged_singleton_self (k : K) (a : α) : tagged k [(k, a)] = [a] := by
  simp [tagged]

theorem tagged_singleton_ne (h : j ≠ k) (a : α) : tagged k [(j, a)] = [] := by
  simp [tagged, h]

theorem tagged_concat_self (k : K) (l : List (K × α)) (a : α) :
    tagged k (l ++ [(k, a)]) = tagged k l ++ [a] := by
  rw [tagged_append, tagged_singleton_self]

theorem tagged_concat_ne (h : j ≠ k) (l : List (K × α)) (a : α) :
    tagged k (l ++ [(j, a)]) = tagged k l := by
  rw [tagged_append, tagged_singleton_ne h, List.append_nil]

theorem tagged_map_self (k : K) (l : List α) : tagged k (l.map (k, ·)) = l := by
  rw [tagged, List.filterMap_map]
  simp

theorem tagged_map_ne (h : j ≠ k) (l : List α) : tagged k (l.map (j, ·)) = [] := by
  rw [tagged, List.filterMap_map]
  simp [h]

theorem count_tagged [DecidableEq α] (k : K) (a : α) (l : List (K × α)) :
    (tagged k l).count a = l.count (k, a) := by
  induction l with
  | nil => rfl
  | cons x l ih =>
    obtain ⟨j, b⟩ := x
    rw [← List.singleton_append, tagged_append, List.count_append, List.count_append, ih]
    by_cases hj : j = k
    · subst hj
      rw [tagged_singleton_self]
      by_cases hb : b = a <;> simp [hb]
    · rw [tagged_singleton_ne hj]
      simp [hj]

/-- **Two interleavings of the same lists** have the same items. -/
theorem perm_of_tagged [DecidableEq α] {l l' : List (K × α)}
    (h : ∀ k, tagged k l = tagged k l') : l.Perm l' := by
  rw [List.perm_iff_count]
  rintro ⟨k, a⟩
  rw [← count_tagged, ← count_tagged, h]

end Tagged
