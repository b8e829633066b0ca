import Mathlib.Algebra.BigOperators.Group.List.Basic
import Mathlib.Algebra.GroupWithZero.Nat
import Mathlib.Data.Finset.Card

/-!
# Lists of tasks

A component that runs several tasks keeps them in a list, and a step of one task replaces one
element of it.  The lemmas here say what that does to what is read off the whole list.

* `Tasks.holding f l k` : what the task with the number `k` holds, nothing if there is none;
* `Tasks.indices P l` : the places of the tasks with the property `P`.
-/

namespace Tasks

variable {α β : Type*} {l : List α} {k : ℕ} {a b : α}

/-- What the new element has in common with the old one does not change. -/
theorem map_set (h : l[k]? = some a) {f : α → β} (hf : f b = f a) :
    (l.set k b).map f = l.map f := by
  have hget : (l.map f)[k]? = some (f b) := by
    rw [List.getElem?_map, h, Option.map_some, hf]
  rw [List.map_set]
  refine List.ext_getElem? ?_
  intro j
  by_cases hj : k = j
  · rw [← hj, List.getElem?_set_self (List.getElem?_eq_some_iff.1 hget).1, hget]
  · rw [List.getElem?_set_ne hj]

theorem map_modify {f : α → β} {g : α → α} (hf : ∀ a, f (g a) = f a) (l : List α) (k : ℕ) :
    (l.modify k g).map f = l.map f := by
  refine List.ext_getElem? ?_
  intro j
  rw [List.getElem?_map, List.getElem?_map, List.getElem?_modify]
  cases l[j]? with
  | none => rfl
  | some a =>
    split_ifs
    · exact congrArg some (hf a)
    · rfl

theorem sum_map_set (h : l[k]? = some a) (f : α → ℕ) (b : α) :
    ((l.set k b).map f).sum + f a = (l.map f).sum + f b := by
  induction l generalizing k with
  | nil => simp at h
  | cons c l ih =>
    cases k with
    | zero =>
      simp only [List.getElem?_cons_zero, Option.some.injEq] at h
      subst h
      simp only [List.set_cons_zero, List.map_cons, List.sum_cons]
      omega
    | succ k =>
      have hl := ih (by simpa using h)
      simp only [List.set_cons_succ, List.map_cons, List.sum_cons]
      omega

theorem flatMap_set_perm (h : l[k]? = some a) (f : α → List β) (b : α) :
    ((l.set k b).flatMap f ++ f a).Perm (l.flatMap f ++ f b) := by
  induction l generalizing k with
  | nil => simp at h
  | cons c l ih =>
    cases k with
    | zero =>
      simp only [List.getElem?_cons_zero, Option.some.injEq] at h
      subst h
      rw [List.set_cons_zero, List.flatMap_cons, List.flatMap_cons, List.append_assoc (f c)]
      exact List.perm_append_comm.trans (List.perm_append_comm.append_left (f c))
    | succ k =>
      have hl := ih (by simpa using h)
      simp only [List.set_cons_succ, List.flatMap_cons, List.append_assoc]
      exact hl.append_left (f c)

theorem count_flatMap_set [BEq β] (h : l[k]? = some a) (f : α → List β) (b : α) (c : β) :
    ((l.set k b).flatMap f).count c + (f a).count c =
      (l.flatMap f).count c + (f b).count c := by
  rw [List.count_flatMap, List.count_flatMap]
  exact sum_map_set h (List.count c ∘ f) b

/-- A task after a step of one of them: it is the one, or it is as before. -/
theorem getElem?_set_cases {i : ℕ} {c : α} (h : (l.set k b)[i]? = some c) :
    (i = k ∧ c = b ∧ ∃ a, l[k]? = some a) ∨ (i ≠ k ∧ l[i]? = some c) := by
  by_cases hi : i = k
  · subst hi
    have hlt : i < l.length := by
      have hlt := (List.getElem?_eq_some_iff.1 h).1
      rwa [List.length_set] at hlt
    rw [List.getElem?_set_self hlt, Option.some.injEq] at h
    exact Or.inl ⟨rfl, h.symm, l[i], List.getElem?_eq_getElem hlt⟩
  · rw [List.getElem?_set_ne (Ne.symm hi)] at h
    exact Or.inr ⟨hi, h⟩

/-- A task after one was added: it is the new one, or it was there before. -/
theorem getElem?_concat_cases {i : ℕ} {c : α} (h : (l ++ [b])[i]? = some c) :
    (i = l.length ∧ c = b) ∨ (i < l.length ∧ l[i]? = some c) := by
  by_cases hi : i < l.length
  · rw [List.getElem?_append_left hi] at h
    exact Or.inr ⟨hi, h⟩
  · have hlt := (List.getElem?_eq_some_iff.1 h).1
    rw [List.length_append, List.length_singleton] at hlt
    have heq : i = l.length := by omega
    rw [heq, List.getElem?_concat_length, Option.some.injEq] at h
    exact Or.inl ⟨heq, h.symm⟩

/-! ### What one task holds -/

section Holding

variable {f : α → List β} {j : ℕ}

/-- What the task with a number holds. -/
def holding (f : α → List β) (l : List α) (k : ℕ) : List β := (l.map f)[k]?.getD []

theorem holding_of_getElem? (h : l[k]? = some a) : holding f l k = f a := by
  rw [holding, List.getElem?_map, h, Option.map_some, Option.getD_some]

theorem holding_set_self (h : l[k]? = some a) : holding f (l.set k b) k = f b :=
  holding_of_getElem? (List.getElem?_set_self (List.getElem?_eq_some_iff.1 h).1)

theorem holding_set_of_ne (h : k ≠ j) : holding f (l.set k b) j = holding f l j := by
  rw [holding, List.getElem?_map, List.getElem?_set_ne h, holding, List.getElem?_map]

theorem holding_set_of_eq (h : l[k]? = some a) (hf : f b = f a) (j : ℕ) :
    holding f (l.set k b) j = holding f l j := by
  rw [holding, holding, map_set h hf]

theorem holding_map {g : α → α} (hf : ∀ a, f (g a) = f a) (l : List α) (j : ℕ) :
    holding f (l.map g) j = holding f l j := by
  rw [holding, holding, List.map_map]
  exact congrArg (fun l : List (List β) => l[j]?.getD []) (List.map_congr_left fun a _ => hf a)

theorem holding_concat (hf : f b = []) (l : List α) (j : ℕ) :
    holding f (l ++ [b]) j = holding f l j := by
  rw [holding, holding, List.map_append, List.getElem?_append]
  split_ifs with hj
  · rfl
  · rw [List.getElem?_eq_none (not_lt.1 hj), List.map_singleton, hf]
    cases hi : j - (l.map f).length with
    | zero => rfl
    | succ i => rfl

end Holding

/-! ### Places -/

section Indices

variable {P Q : α → Bool}

/-- The places in the list with a task that has the property. -/
def indices (P : α → Bool) (l : List α) : Finset ℕ :=
  (Finset.range l.length).filter fun i => (l[i]?).any P

theorem mem_indices {i : ℕ} : i ∈ indices P l ↔ ∃ a, l[i]? = some a ∧ P a = true := by
  rw [indices, Finset.mem_filter, Finset.mem_range, Option.any_eq_true]
  constructor
  · exact fun hi => hi.2
  · rintro ⟨a, ha, hP⟩
    exact ⟨(List.getElem?_eq_some_iff.1 ha).1, a, ha, hP⟩

theorem mem_indices_of_getElem? (h : l[k]? = some a) : k ∈ indices P l ↔ P a = true := by
  rw [mem_indices, h]
  simp

theorem indices_subset (h : ∀ a ∈ l, P a = true → Q a = true) : indices P l ⊆ indices Q l := by
  intro i hi
  obtain ⟨a, ha, hP⟩ := mem_indices.1 hi
  exact mem_indices.2 ⟨a, ha, h a (List.mem_of_getElem? ha) hP⟩

theorem indices_set (h : l[k]? = some a) (b : α) :
    indices P (l.set k b) =
      if P b = true then insert k (indices P l) else (indices P l).erase k := by
  have hk := (List.getElem?_eq_some_iff.1 h).1
  have hset : ∀ {i}, i ∈ indices P (l.set k b) ↔ (i = k ∧ P b = true) ∨
      (i ≠ k ∧ i ∈ indices P l) := by
    intro i
    rw [mem_indices, mem_indices]
    by_cases hi : i = k
    · subst hi
      rw [List.getElem?_set_self hk]
      simp
    · rw [List.getElem?_set_ne (Ne.symm hi)]
      simp [hi]
  ext i
  rw [hset]
  split_ifs with hb
  · rw [Finset.mem_insert]
    by_cases hi : i = k <;> simp [hi, hb]
  · rw [Finset.mem_erase]
    simp [hb]

theorem indices_set_of_eq (h : l[k]? = some a) (hb : P b = P a) :
    indices P (l.set k b) = indices P l := by
  rw [indices_set h, hb]
  split_ifs with hP
  · exact Finset.insert_eq_of_mem ((mem_indices_of_getElem? h).2 hP)
  · exact Finset.erase_eq_of_notMem fun hmem => hP ((mem_indices_of_getElem? h).1 hmem)

theorem indices_concat_of_neg (hb : P b = false) : indices P (l ++ [b]) = indices P l := by
  ext i
  rw [mem_indices, mem_indices]
  refine exists_congr fun c => and_congr_left fun hP => ?_
  rw [List.getElem?_append]
  split_ifs with hi
  · rfl
  · -- the new task is not it, and the others stand before
    rw [List.getElem?_eq_none (not_lt.1 hi)]
    refine iff_of_false (fun hc => ?_) (by simp)
    rw [List.mem_singleton.1 (List.mem_of_getElem? hc), hb] at hP
    cases hP

end Indices

end Tasks
