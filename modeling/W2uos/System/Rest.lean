import Mathlib.Data.Finmap
import Mathlib.Logic.Hydra
import Mathlib.Data.Fintype.Card
import Mathlib.Data.Set.Finite.Basic
import Mathlib.Algebra.BigOperators.Group.Multiset.Basic
import W2uos.System.Interleaving

/-!
# Systems that come to rest

What a concurrent system still has to do is measured by a multiset: a step takes one thing off it
and puts any number of smaller ones in its place.  If the order of the things is well-founded, no
run goes on for ever, and what is left is to see in which states it can stop.  A state from which a
task cannot move because it waits for another, which waits for another, contains a cycle of waiting
tasks.

* `Interleaving.settles_of_measure` : the rule for a system with a measure;
* `exists_transGen_self` : where everybody in a finite set waits for somebody in it, somebody waits
  for himself.
-/

/-! ### Cycles -/

/-- **Where everything in a finite set has a successor in it, there is a cycle.** -/
theorem exists_transGen_self {α : Type*} {R : α → α → Prop} {s : Set α} (hfin : s.Finite)
    (hne : s.Nonempty) (hsucc : ∀ x ∈ s, ∃ y ∈ s, R x y) :
    ∃ x ∈ s, Relation.TransGen R x x := by
  by_contra hno
  push Not at hno
  -- then the paths in the set are a strict order on it, and a minimal element has no successor
  let Path : s → s → Prop := fun x y => Relation.TransGen R y.1 x.1
  have hfinite : Finite s := hfin
  have htrans : IsTrans s Path := ⟨fun _ _ _ hxy hyz => hyz.trans hxy⟩
  have hirrefl : Std.Irrefl Path := ⟨fun x => hno x.1 x.2⟩
  have hwf : WellFounded Path := Finite.wellFounded_of_trans_of_irrefl Path
  obtain ⟨x, hx⟩ := hne
  obtain ⟨m, -, hmin⟩ := hwf.has_min Set.univ ⟨⟨x, hx⟩, trivial⟩
  obtain ⟨y, hy, hmy⟩ := hsucc m.1 m.2
  exact hmin ⟨y, hy⟩ trivial (Relation.TransGen.single hmy)

/-! ### Multisets that shrink -/

section Shrinks

open Relation

variable {α : Type*} {r : α → α → Prop} {s t u : Multiset α} {a : α}

/-- Things are taken off, and for each of them any number of smaller ones are put in. -/
def Shrinks (r : α → α → Prop) : Multiset α → Multiset α → Prop := TransGen (CutExpand r)

theorem shrinks_wf (h : WellFounded r) : WellFounded (Shrinks r) := h.cutExpand.transGen

theorem Shrinks.trans (h : Shrinks r s t) (h' : Shrinks r t u) : Shrinks r s u :=
  TransGen.trans h h'

theorem Shrinks.add_right (h : Shrinks r s t) (u : Multiset α) : Shrinks r (s + u) (t + u) := by
  induction h with
  | single hcut => exact TransGen.single ((cutExpand_add_right u).2 hcut)
  | tail _ hcut ih => exact TransGen.tail ih ((cutExpand_add_right u).2 hcut)

theorem shrinks_of_add_eq (h : s + {a} = t + u) (hbelow : ∀ b ∈ u, r b a) : Shrinks r s t :=
  TransGen.single ⟨u, a, hbelow, h⟩

theorem shrinks_singleton (h : ∀ b ∈ s, r b a) : Shrinks r s {a} :=
  TransGen.single (cutExpand_singleton h)

theorem shrinks_zero (h : s ≠ 0) : Shrinks r 0 s := by
  induction s using Multiset.induction_on with
  | empty => exact absurd rfl h
  | cons a s ih =>
    have hone : Shrinks r s (a ::ₘ s) := by
      have hcut := (shrinks_singleton (r := r) (a := a) (s := 0) (by simp)).add_right s
      rwa [zero_add, Multiset.singleton_add] at hcut
    by_cases hs : s = 0
    · subst hs
      exact hone
    · exact (ih hs).trans hone

theorem shrinks_of_eq_add (h : t = u + s) (hu : u ≠ 0) : Shrinks r s t := by
  have hless := (shrinks_zero (r := r) hu).add_right s
  rwa [zero_add, ← h] at hless

end Shrinks

/-! ### What a finite map weighs -/

section Weight

variable {κ α M : Type*} [DecidableEq κ] [AddCommMonoid M]

/-- The sum of a function of the values of a finite map. -/
def weight (f : α → M) (m : Finmap fun _ : κ => α) : M := (m.entries.map fun e => f e.2).sum

theorem weight_erase {m : Finmap fun _ : κ => α} {k : κ} {a : α} (h : m.lookup k = some a)
    (f : α → M) : weight f m = f a + weight f (m.erase k) := by
  have hm : (m.erase k).insert k a = m := by
    refine Finmap.ext_lookup fun k' => ?_
    by_cases hk : k' = k
    · rw [hk, Finmap.lookup_insert, h]
    · rw [Finmap.lookup_insert_of_ne _ hk, Finmap.lookup_erase_ne hk]
  have hnot : k ∉ m.erase k := by simp
  conv_lhs => rw [← hm]
  rw [weight, Finmap.entries_insert_of_notMem hnot, Multiset.map_cons, Multiset.sum_cons, weight]

theorem weight_erase_of_none {m : Finmap fun _ : κ => α} {k : κ} (h : m.lookup k = none)
    (f : α → M) : weight f (m.erase k) = weight f m := by
  congr 1
  refine Finmap.ext_lookup fun k' => ?_
  by_cases hk : k' = k
  · rw [hk, Finmap.lookup_erase, h]
  · rw [Finmap.lookup_erase_ne hk]

theorem weight_insert (m : Finmap fun _ : κ => α) (k : κ) (f : α → M) (a : α) :
    weight f (m.insert k a) = f a + weight f (m.erase k) := by
  rw [weight_erase (Finmap.lookup_insert m) f]
  congr 2
  refine Finmap.ext_lookup fun k' => ?_
  by_cases hk : k' = k
  · rw [hk, Finmap.lookup_erase, Finmap.lookup_erase]
  · rw [Finmap.lookup_erase_ne hk, Finmap.lookup_erase_ne hk, Finmap.lookup_insert_of_ne _ hk]

end Weight

/-! ### Runs that stop -/

namespace Interleaving

variable {S A : Type*} (M : Interleaving S A)

/-- An action of the given kind can be taken in the state. -/
def Enabled (kind : S → A → Prop) (s : S) : Prop := ∃ a t, kind s a ∧ M.step s a = some t

/-- **Every run of inner actions is finite**, and when no prompt action is possible any more, the
state is as it should be. -/
inductive Settles (inner prompt : S → A → Prop) (Q : S → Prop) : S → Prop
  | intro (s : S) : (¬ M.Enabled prompt s → Q s) →
      (∀ a t, inner s a → M.step s a = some t → Settles inner prompt Q t) →
      Settles inner prompt Q s

variable {M} {inner prompt : S → A → Prop} {P Q : S → Prop}

/-- **The measure rule**: an invariant, a measure that every inner action makes smaller, and what
the invariant says of the states without a prompt action. -/
theorem settles_of_measure {β : Type*} {r : β → β → Prop} (hwf : WellFounded r) (measure : S → β)
    (hstep : ∀ s a t, P s → inner s a → M.step s a = some t → P t ∧ r (measure t) (measure s))
    (hrest : ∀ s, P s → ¬ M.Enabled prompt s → Q s) {s : S} (hs : P s) :
    M.Settles inner prompt Q s := by
  induction hm : measure s using hwf.induction generalizing s with
  | _ m ih =>
    refine .intro s (hrest s hs) fun a t ha ht => ?_
    obtain ⟨hpt, hr⟩ := hstep s a t hs ha ht
    exact ih (measure t) (hm ▸ hr) hpt rfl

theorem Settles.no_infinite {s : S} (h : M.Settles inner prompt Q s) {f : ℕ → S} {b : ℕ → A}
    (h0 : f 0 = s) : ¬ ∀ n, inner (f n) (b n) ∧ M.step (f n) (b n) = some (f (n + 1)) := by
  induction h generalizing f b with
  | intro s _ _ ih =>
    subst h0
    intro hrun
    exact ih (b 0) (f 1) (hrun 0).1 (hrun 0).2 (f := fun n => f (n + 1)) (b := fun n => b (n + 1))
      rfl fun n => hrun (n + 1)

/-- If prompt actions are inner ones, some run of prompt actions ends as it should. -/
theorem Settles.exists_run {s : S} (h : M.Settles inner prompt Q s)
    (hsub : ∀ s a, prompt s a → inner s a) : ∃ as t, M.exec s as = some t ∧ Q t := by
  induction h with
  | intro s hrest _ ih =>
    by_cases hen : M.Enabled prompt s
    · obtain ⟨a, t, ha, ht⟩ := hen
      obtain ⟨as, u, hu, hq⟩ := ih a t (hsub s a ha) ht
      exact ⟨a :: as, u, (exec_cons_of_step ht as).trans hu, hq⟩
    · exact ⟨[], s, rfl, hrest hen⟩

end Interleaving
