import Mathlib.Data.Finmap
import Mathlib.Algebra.BigOperators.Group.Multiset.Basic
import Mathlib.Algebra.Order.Group.Defs
import Mathlib.Algebra.Order.Group.Unbundled.Basic
import Mathlib.Algebra.BigOperators.Group.List.Basic
import Mathlib.Algebra.Order.BigOperators.Group.Multiset

/-!
# Keyed amounts

A ledger keeps one amount for each key, in a finite map; a key that is not in the map holds
nothing.  `Amounts κ α` is such a map, without an order on its entries, so that two maps with the
same entries are equal.

The second half is about *reflected sums*: an amount that is moved up and down by a list of
changes and is reset to zero whenever it would become negative.

* `Amounts.Pos.total_pos_iff` : positive amounts have a positive total exactly if there are any;
* `reflected_concat` : a reflected sum, change by change.
-/

/-- Finite maps from keys to amounts. -/
abbrev Amounts (κ α : Type*) := Finmap fun _ : κ => α

namespace Amounts

variable {κ α : Type*} [DecidableEq κ]

section Amount

variable [Zero α]

/-- The amount under `k`, zero when there is no entry. -/
def amount (m : Amounts κ α) (k : κ) : α := (m.lookup k).getD 0

@[simp] theorem amount_empty (k : κ) : amount (∅ : Amounts κ α) k = 0 := rfl

@[simp] theorem amount_insert_self (m : Amounts κ α) (k : κ) (a : α) :
    amount (m.insert k a) k = a := by
  simp [amount]

theorem amount_insert_ne (m : Amounts κ α) {k k' : κ} (a : α) (h : k' ≠ k) :
    amount (m.insert k a) k' = amount m k' := by
  simp [amount, Finmap.lookup_insert_of_ne _ h]

@[simp] theorem amount_erase_self (m : Amounts κ α) (k : κ) : amount (m.erase k) k = 0 := by
  simp [amount]

theorem amount_erase_ne (m : Amounts κ α) {k k' : κ} (h : k' ≠ k) :
    amount (m.erase k) k' = amount m k' := by
  simp [amount, Finmap.lookup_erase_ne h]

theorem amount_of_lookup {m : Amounts κ α} {k : κ} {a : α} (h : m.lookup k = some a) :
    amount m k = a := by
  simp [amount, h]

theorem amount_of_notMem {m : Amounts κ α} {k : κ} (h : k ∉ m) : amount m k = 0 := by
  rw [amount, Finmap.lookup_eq_none.2 h, Option.getD_none]

theorem insert_amount_of_mem {m : Amounts κ α} {k : κ} (h : k ∈ m) :
    m.insert k (amount m k) = m := by
  obtain ⟨a, ha⟩ := Finmap.mem_iff.1 h
  rw [amount_of_lookup ha]
  refine Finmap.ext_lookup ?_
  intro k'
  by_cases hk : k' = k
  · rw [hk, Finmap.lookup_insert, ha]
  · rw [Finmap.lookup_insert_of_ne _ hk]

end Amount

/-! ### Totals -/

section Total

variable [AddCommMonoid α]

/-- The sum of all amounts. -/
def total (m : Amounts κ α) : α := (m.entries.map fun e => e.2).sum

omit [DecidableEq κ] in
@[simp] theorem total_empty : total (∅ : Amounts κ α) = 0 := rfl

theorem total_insert_of_notMem {m : Amounts κ α} {k : κ} (h : k ∉ m) (a : α) :
    total (m.insert k a) = a + total m := by
  rw [total, Finmap.entries_insert_of_notMem h, Multiset.map_cons, Multiset.sum_cons, total]

theorem total_eq_add_erase (m : Amounts κ α) (k : κ) :
    total m = amount m k + total (m.erase k) := by
  by_cases h : k ∈ m
  · obtain ⟨a, ha⟩ := Finmap.mem_iff.1 h
    have hm : (m.erase k).insert k a = m := by
      refine Finmap.ext_lookup fun k' => ?_
      by_cases hk : k' = k
      · rw [hk, Finmap.lookup_insert, ha]
      · rw [Finmap.lookup_insert_of_ne _ hk, Finmap.lookup_erase_ne hk]
    have hnot : k ∉ m.erase k := by simp
    rw [amount_of_lookup ha, ← total_insert_of_notMem hnot, hm]
  · have hm : m.erase k = m := by
      refine Finmap.ext_lookup fun k' => ?_
      by_cases hk : k' = k
      · rw [hk, Finmap.lookup_erase, Finmap.lookup_eq_none.2 h]
      · rw [Finmap.lookup_erase_ne hk]
    rw [amount_of_notMem h, zero_add, hm]

omit [AddCommMonoid α] in
theorem erase_insert_self (m : Amounts κ α) (k : κ) (a : α) :
    (m.insert k a).erase k = m.erase k := by
  refine Finmap.ext_lookup fun k' => ?_
  by_cases hk : k' = k
  · rw [hk, Finmap.lookup_erase, Finmap.lookup_erase]
  · rw [Finmap.lookup_erase_ne hk, Finmap.lookup_erase_ne hk, Finmap.lookup_insert_of_ne _ hk]

theorem total_insert (m : Amounts κ α) (k : κ) (a : α) :
    total (m.insert k a) = a + total (m.erase k) := by
  rw [total_eq_add_erase _ k, amount_insert_self, erase_insert_self]

end Total

/-! ### The entries -/

section Entries

/-- Every entry has a property. -/
def All (P : α → Prop) (m : Amounts κ α) : Prop := ∀ k a, m.lookup k = some a → P a

variable {P : α → Prop} {m : Amounts κ α}

theorem all_empty : All P (∅ : Amounts κ α) := by
  intro k a h
  simp at h

theorem All.amount [Zero α] (h : All P m) (hzero : P 0) (k : κ) : P (amount m k) := by
  cases hk : m.lookup k with
  | none => rwa [Amounts.amount, hk]
  | some a => rw [amount_of_lookup hk]; exact h k a hk

theorem All.insert (h : All P m) {k : κ} {a : α} (ha : P a) : All P (m.insert k a) := by
  intro k' b hb
  by_cases hk : k' = k
  · rw [hk, Finmap.lookup_insert] at hb
    cases hb
    exact ha
  · rw [Finmap.lookup_insert_of_ne _ hk] at hb
    exact h k' b hb

theorem All.erase (h : All P m) (k : κ) : All P (m.erase k) := by
  intro k' a ha
  by_cases hk : k' = k
  · rw [hk, Finmap.lookup_erase] at ha
    cases ha
  · rw [Finmap.lookup_erase_ne hk] at ha
    exact h k' a ha

end Entries

/-! ### Signs of the entries -/

section Order

variable [Zero α] [Preorder α]

/-- Every entry is non-negative. -/
def Nonneg (m : Amounts κ α) : Prop := ∀ k a, m.lookup k = some a → 0 ≤ a

/-- Every entry is positive. -/
def Pos (m : Amounts κ α) : Prop := ∀ k a, m.lookup k = some a → 0 < a

theorem nonneg_empty : Nonneg (∅ : Amounts κ α) := all_empty

theorem pos_empty : Pos (∅ : Amounts κ α) := all_empty

theorem Pos.nonneg {m : Amounts κ α} (h : Pos m) : Nonneg m := fun k a hk => (h k a hk).le

theorem Nonneg.amount {m : Amounts κ α} (h : Nonneg m) (k : κ) : 0 ≤ amount m k :=
  All.amount h le_rfl k

theorem Nonneg.insert {m : Amounts κ α} (h : Nonneg m) {k : κ} {a : α} (ha : 0 ≤ a) :
    Nonneg (m.insert k a) := All.insert h ha

theorem Pos.insert {m : Amounts κ α} (h : Pos m) {k : κ} {a : α} (ha : 0 < a) :
    Pos (m.insert k a) := All.insert h ha

theorem Pos.erase {m : Amounts κ α} (h : Pos m) (k : κ) : Pos (m.erase k) := All.erase h k

/-- In a map of positive entries the keys are those with a positive amount. -/
theorem Pos.mem_iff {m : Amounts κ α} (h : Pos m) (k : κ) : k ∈ m ↔ 0 < Amounts.amount m k := by
  constructor
  · intro hk
    obtain ⟨a, ha⟩ := Finmap.mem_iff.1 hk
    rw [amount_of_lookup ha]
    exact h k a ha
  · intro hpos
    by_contra hk
    rw [Amounts.amount, Finmap.lookup_eq_none.2 hk] at hpos
    exact lt_irrefl _ hpos

theorem Pos.ext {m m' : Amounts κ α} (h : Pos m) (h' : Pos m')
    (hamount : ∀ k, Amounts.amount m k = Amounts.amount m' k) : m = m' := by
  refine Finmap.ext_lookup fun k => ?_
  by_cases hk : k ∈ m
  · have hk' : k ∈ m' := by
      rw [h'.mem_iff, ← hamount, ← h.mem_iff]
      exact hk
    obtain ⟨a, ha⟩ := Finmap.mem_iff.1 hk
    obtain ⟨a', ha'⟩ := Finmap.mem_iff.1 hk'
    have heq := hamount k
    rw [amount_of_lookup ha, amount_of_lookup ha'] at heq
    rw [ha, ha', heq]
  · have hk' : k ∉ m' := by
      rw [h'.mem_iff, ← hamount, ← h.mem_iff]
      exact hk
    rw [Finmap.lookup_eq_none.2 hk, Finmap.lookup_eq_none.2 hk']

theorem Pos.eq_empty_iff {m : Amounts κ α} (h : Pos m) :
    m = ∅ ↔ ∀ k, ¬ 0 < Amounts.amount m k := by
  constructor
  · rintro rfl k
    simp
  · intro hk
    refine Finmap.ext_lookup ?_
    intro k
    rw [Finmap.lookup_empty, Finmap.lookup_eq_none, h.mem_iff]
    exact hk k

end Order

section OrderedTotal

variable [AddCommMonoid α] [Preorder α] [AddLeftMono α]

theorem Nonneg.total {m : Amounts κ α} (h : Nonneg m) : 0 ≤ total m := by
  refine Multiset.sum_nonneg ?_
  intro a ha
  obtain ⟨⟨k, b⟩, he, rfl⟩ := Multiset.mem_map.1 ha
  exact h k b (Finmap.lookup_eq_some_iff.2 he)

/-- **Positive amounts have a positive total exactly if there are any.** -/
theorem Pos.total_pos_iff {m : Amounts κ α} (h : Pos m) : 0 < total m ↔ 0 < m.keys.card := by
  rw [Finset.card_pos]
  constructor
  · intro htotal
    by_contra hnone
    have hempty : m = ∅ := by
      refine h.eq_empty_iff.2 ?_
      intro k hk
      exact hnone ⟨k, Finmap.mem_keys.2 ((h.mem_iff k).2 hk)⟩
    rw [hempty, total_empty] at htotal
    exact lt_irrefl _ htotal
  · -- one amount is positive, and the others are not negative
    rintro ⟨k, hk⟩
    rw [total_eq_add_erase m k]
    exact add_pos_of_pos_of_nonneg ((h.mem_iff k).1 (Finmap.mem_keys.1 hk)) (h.erase k).nonneg.total

end OrderedTotal

end Amounts

/-! ### Reflected sums -/

section Reflected

variable {α : Type*} [AddCommGroup α] [LinearOrder α]

/-- One change of an amount that is reset to zero rather than made negative. -/
def reflect (x d : α) : α := if x + d ≤ 0 then 0 else x + d

/-- The reflected sum of a list of changes, from zero. -/
def reflected (ds : List α) : α := ds.foldl reflect 0

@[simp] theorem reflected_nil : reflected ([] : List α) = 0 := rfl

theorem reflected_concat (ds : List α) (d : α) :
    reflected (ds ++ [d]) = reflect (reflected ds) d := by
  simp [reflected]

end Reflected
