import Mathlib.Data.Nat.Notation
import Mathlib.Data.Int.Notation
import Mathlib.Tactic.Cases

/-!
# Numbers as text

A number written in decimals can be read back, and so can two numbers written with a dash between
them, the first of which may be negative.

* `append_cons_inj` : a text is determined by what stands before and behind its last mark;
* `append_cons_eq_iff` : the ways in which marked texts can be equal;
* `dashed_inj` : two numbers written with a dash between them can be told apart.
-/

theorem append_cons_inj {α : Type*} {a : α} {xs ys ps qs : List α} (hp : a ∉ ps) (hq : a ∉ qs) :
    xs ++ a :: ps = ys ++ a :: qs ↔ xs = ys ∧ ps = qs := by
  constructor
  · intro h
    -- otherwise the mark of one side stands behind the mark of the other
    rcases List.append_eq_append_iff.1 h with ⟨zs, rfl, heq⟩ | ⟨zs, rfl, heq⟩
    · cases zs with
      | nil => exact ⟨(List.append_nil xs).symm, (List.cons.inj heq).2⟩
      | cons z zs =>
        rw [(List.cons.inj heq).2] at hp
        exact absurd (List.mem_append_right _ List.mem_cons_self) hp
    · cases zs with
      | nil => exact ⟨List.append_nil ys, (List.cons.inj heq).2.symm⟩
      | cons z zs =>
        rw [(List.cons.inj heq).2] at hq
        exact absurd (List.mem_append_right _ List.mem_cons_self) hq
  · rintro ⟨rfl, rfl⟩
    rfl

/-- Lists with a mark are equal if they are marked alike, or one mark stands behind the other. -/
theorem append_cons_eq_iff {α : Type*} {a : α} {xs ys ps qs : List α} :
    xs ++ a :: ps = ys ++ a :: qs ↔
      (xs = ys ∧ ps = qs) ∨ (∃ zs, ys = xs ++ a :: zs ∧ ps = zs ++ a :: qs) ∨
        ∃ zs, xs = ys ++ a :: zs ∧ qs = zs ++ a :: ps := by
  constructor
  · intro h
    rcases List.append_eq_append_iff.1 h with ⟨zs, rfl, heq⟩ | ⟨zs, rfl, heq⟩
    · cases zs with
      | nil => exact Or.inl ⟨(List.append_nil xs).symm, (List.cons.inj heq).2⟩
      | cons z zs =>
        obtain ⟨rfl, hps⟩ := List.cons.inj heq
        exact Or.inr (Or.inl ⟨zs, rfl, hps⟩)
    · cases zs with
      | nil => exact Or.inl ⟨List.append_nil ys, (List.cons.inj heq).2.symm⟩
      | cons z zs =>
        obtain ⟨rfl, hqs⟩ := List.cons.inj heq
        exact Or.inr (Or.inr ⟨zs, rfl, hqs⟩)
  · rintro (⟨rfl, rfl⟩ | ⟨zs, rfl, rfl⟩ | ⟨zs, rfl, rfl⟩) <;> simp

theorem natText_inj {m n : ℕ} : toString m = toString n ↔ m = n := by
  refine ⟨fun h => ?_, congrArg _⟩
  have hdigits : Nat.toDigits 10 m = Nat.toDigits 10 n := by
    simpa only [Nat.toString_eq_repr, Nat.toList_repr] using congrArg String.toList h
  have hread := congrArg (fun digits => Nat.ofDigitChars 10 digits 0) hdigits
  simpa using hread

theorem dash_notMem_natText (n : ℕ) : '-' ∉ (toString n).toList := by
  rw [Nat.toString_eq_repr, Nat.toList_repr]
  intro hdash
  have hdigit := Nat.isDigit_of_mem_toDigits (by decide) (by decide) hdash
  exact absurd hdigit (by decide)

theorem intText_inj {m n : ℤ} : toString m = toString n ↔ m = n := by
  refine ⟨fun h => ?_, congrArg _⟩
  -- a sign is no decimal
  have hsign : ∀ a b : ℕ, toString a ≠ "-" ++ toString b := by
    intro a b heq
    refine dash_notMem_natText a ?_
    rw [heq, String.toList_append]
    exact List.mem_append_left _ (by decide)
  cases m with
  | ofNat a =>
    cases n with
    | ofNat b => exact congrArg Int.ofNat (natText_inj.1 h)
    | negSucc b => exact absurd h (hsign a (b + 1))
  | negSucc a =>
    cases n with
    | ofNat b => exact absurd h.symm (hsign b (a + 1))
    | negSucc b =>
      have habs : ("-" ++ toString (a + 1)).toList = ("-" ++ toString (b + 1)).toList :=
        congrArg String.toList h
      rw [String.toList_append, String.toList_append] at habs
      have hnat := natText_inj.1 (String.toList_inj.1 (List.append_cancel_left habs))
      rw [Nat.succ.inj hnat]

/-- **Two numbers with a dash between them** can be told apart. -/
theorem dashed_inj {m n : ℤ} {a b : ℕ} :
    toString m ++ "-" ++ toString a = toString n ++ "-" ++ toString b ↔ m = n ∧ a = b := by
  have hlist : ∀ (z : ℤ) (k : ℕ), (toString z ++ "-" ++ toString k).toList =
      (toString z).toList ++ '-' :: (toString k).toList := by
    intro z k
    rw [String.toList_append, String.toList_append, List.append_assoc]
    rfl
  rw [← String.toList_inj, hlist, hlist,
    append_cons_inj (dash_notMem_natText a) (dash_notMem_natText b), String.toList_inj,
    String.toList_inj, intText_inj, natText_inj]
