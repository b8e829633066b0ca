import Mathlib.Data.List.Forall2

/-!
# Calling a list of components until one fails

A loop that calls one component after the other and returns at the first error does not reach the
components behind it.

* `Fanout.each call l` : the loop; the answer, and the components afterwards;
* `each_forall₂` : every component has been called once, or not at all;
* `each_of_forall_dropLast` : all of them have been called if none before the last one fails;
* `getLast?_each` : the last one has not been called if one before it fails;
* `succeeds_of_ok`, `exists_fails_of_error` : what the answer says.
-/

namespace Fanout

variable {α ε : Type*} {call : α → Except ε Unit × α} {l : List α} {a : α}

/-- Call one component after the other, up to the first error. -/
def each (call : α → Except ε Unit × α) : List α → Except ε Unit × List α
  | [] => (.ok (), [])
  | a :: l =>
    match call a with
    | (.ok (), a') => ((each call l).1, a' :: (each call l).2)
    | (.error err, a') => (.error err, a' :: l)

/-- The call succeeds. -/
def Succeeds (call : α → Except ε Unit × α) (a : α) : Prop := (call a).1 = .ok ()

@[simp] theorem each_nil : each call [] = (.ok (), []) := rfl

theorem each_cons_of_succeeds (h : Succeeds call a) (l : List α) :
    each call (a :: l) = ((each call l).1, (call a).2 :: (each call l).2) := by
  unfold Succeeds at h
  rw [each]
  cases hcall : call a with
  | mk answer a' =>
    rw [hcall] at h
    cases h
    rfl

theorem each_cons_of_fails (h : ¬ Succeeds call a) (l : List α) :
    each call (a :: l) = ((call a).1, (call a).2 :: l) := by
  unfold Succeeds at h
  rw [each]
  cases hcall : call a with
  | mk answer a' =>
    rw [hcall] at h
    cases answer with
    | ok u => exact absurd rfl h
    | error err => rfl

variable (call) in
theorem each_forall₂ (l : List α) :
    List.Forall₂ (fun a a' => a' = (call a).2 ∨ a' = a) l (each call l).2 := by
  induction l with
  | nil => exact List.Forall₂.nil
  | cons a l ih =>
    by_cases h : Succeeds call a
    · rw [each_cons_of_succeeds h]
      exact List.Forall₂.cons (Or.inl rfl) ih
    · rw [each_cons_of_fails h]
      exact List.Forall₂.cons (Or.inl rfl) (List.forall₂_same.2 fun a _ => Or.inr rfl)

/-- **All components have been called** if none before the last one fails. -/
theorem each_of_forall_dropLast (h : ∀ a ∈ l.dropLast, Succeeds call a) :
    (each call l).2 = l.map fun a => (call a).2 := by
  induction l with
  | nil => rfl
  | cons a l ih =>
    cases l with
    | nil =>
      by_cases ha : Succeeds call a
      · rw [each_cons_of_succeeds ha]
        rfl
      · rw [each_cons_of_fails ha]
        rfl
    | cons b l =>
      rw [List.dropLast_cons_cons, List.forall_mem_cons] at h
      rw [each_cons_of_succeeds h.1, ih h.2]
      rfl

/-- **The last component has not been called** if one before it fails. -/
theorem getLast?_each (ha : a ∈ l.dropLast) (h : ¬ Succeeds call a) :
    (each call l).2.getLast? = l.getLast? := by
  induction l with
  | nil => cases ha
  | cons b l ih =>
    cases l with
    | nil => cases ha
    | cons c l =>
      by_cases hb : Succeeds call b
      · rw [List.dropLast_cons_cons] at ha
        have hne : a ≠ b := fun heq => h (heq ▸ hb)
        have hrest := ih ((List.mem_cons.1 ha).resolve_left hne)
        rw [each_cons_of_succeeds hb, List.getLast?_cons, List.getLast?_cons, hrest,
          List.getLast?_cons]
        rfl
      · rw [each_cons_of_fails hb, List.getLast?_cons_cons, List.getLast?_cons_cons]

/-- Without an error, every component has been called and has not failed. -/
theorem succeeds_of_ok (h : (each call l).1 = .ok ()) : ∀ a ∈ l, Succeeds call a := by
  induction l with
  | nil => simp
  | cons b l ih =>
    by_cases hb : Succeeds call b
    · rw [each_cons_of_succeeds hb] at h
      exact List.forall_mem_cons.2 ⟨hb, ih h⟩
    · rw [each_cons_of_fails hb] at h
      exact absurd h hb

/-- **With an error**, some component has failed, those before it have been called, and those behind
it have not. -/
theorem exists_fails_of_error (h : (each call l).1 ≠ .ok ()) :
    ∃ pre a post, l = pre ++ a :: post ∧ ¬ Succeeds call a ∧
      (each call l).2 = pre.map (fun b => (call b).2) ++ (call a).2 :: post := by
  induction l with
  | nil => exact absurd rfl h
  | cons b l ih =>
    by_cases hb : Succeeds call b
    · rw [each_cons_of_succeeds hb] at h ⊢
      obtain ⟨pre, a, post, rfl, ha, heq⟩ := ih h
      exact ⟨b :: pre, a, post, rfl, ha, by rw [heq]; rfl⟩
    · rw [each_cons_of_fails hb]
      exact ⟨[], b, l, rfl, hb, rfl⟩

end Fanout
