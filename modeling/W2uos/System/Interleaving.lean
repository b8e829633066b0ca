import Mathlib.Data.List.Induction

/-!
# Interleavings

Several tasks that share memory and queues are modelled as one *interleaving system*: an action
names the task that moves and what it does, and the step function gives the state after it, or
`none` when the action is not possible in that state (the task waits).  A schedule is a list of
actions.

* `Interleaving.exec_invariant` : the invariant rule;
* `Interleaving.exec_history` : the same for facts that look at the schedule so far.
-/

/-- A system of concurrent tasks: `step s a` is the state after the action `a`, or `none` when
`a` cannot be taken in `s`. -/
structure Interleaving (S A : Type*) where
  /-- One action of one task. -/
  step : S → A → Option S

namespace Interleaving

variable {S A : Type*} (M : Interleaving S A)

/-- The state after a schedule, if every action of it could be taken. -/
def exec : S → List A → Option S
  | s, [] => some s
  | s, a :: as => (M.step s a).bind fun t => exec t as

@[simp] theorem exec_nil (s : S) : M.exec s [] = some s := rfl

theorem exec_cons (s : S) (a : A) (as : List A) :
    M.exec s (a :: as) = (M.step s a).bind fun t => M.exec t as := rfl

variable {M} in
theorem exec_cons_of_step {s t : S} {a : A} (h : M.step s a = some t) (as : List A) :
    M.exec s (a :: as) = M.exec t as := by
  rw [exec_cons, h, Option.bind_some]

theorem exec_append (s : S) (as bs : List A) :
    M.exec s (as ++ bs) = (M.exec s as).bind fun t => M.exec t bs := by
  induction as generalizing s with
  | nil => rfl
  | cons a as ih => simp only [List.cons_append, exec_cons, ih, Option.bind_assoc]

variable {M} in
theorem exec_trans {s t u : S} {as bs : List A} (h : M.exec s as = some t)
    (h' : M.exec t bs = some u) : M.exec s (as ++ bs) = some u := by
  rw [exec_append, h]
  exact h'

theorem exec_concat_iff {s t : S} {as : List A} {a : A} :
    M.exec s (as ++ [a]) = some t ↔ ∃ u, M.exec s as = some u ∧ M.step u a = some t := by
  rw [exec_append]
  cases h : M.exec s as with
  | none => simp
  | some u => cases hu : M.step u a <;> simp [exec_cons, hu]

variable {M}

/-- **The invariant rule for schedules**: a fact about the schedule so far and the state reached
holds after every schedule if it holds at the start and every possible action preserves it. -/
theorem exec_history {P : List A → S → Prop} {s : S} (h₀ : P [] s)
    (hstep : ∀ as t a t', P as t → M.step t a = some t' → P (as ++ [a]) t') :
    ∀ {as : List A} {t : S}, M.exec s as = some t → P as t := by
  intro as
  induction as using List.reverseRecOn with
  | nil =>
    intro t h
    cases h
    exact h₀
  | append_singleton as a ih =>
    intro t h
    obtain ⟨u, hu, ha⟩ := M.exec_concat_iff.1 h
    exact hstep as u a t (ih hu) ha

/-- **The invariant rule.** -/
theorem exec_invariant {P : S → Prop} {s : S} (h₀ : P s)
    (hstep : ∀ t a t', P t → M.step t a = some t' → P t') {as : List A} {t : S}
    (h : M.exec s as = some t) : P t :=
  exec_history (P := fun _ t => P t) h₀ (fun _ t a t' ht ha => hstep t a t' ht ha) h

/-! ### Since the last marked action -/

/-- Since the last action with the mark (or the start), every action of the schedule had the
property `P` in the state it was taken in. -/
def SinceLast (M : Interleaving S A) (s : S) (mark : A → Prop) (P : S → A → Prop) (as : List A) :
    Prop :=
  ∀ pre a post u, as = pre ++ a :: post → M.exec s pre = some u → (∀ b ∈ a :: post, ¬ mark b) →
    P u a

theorem sinceLast_nil {s : S} {mark : A → Prop} {P : S → A → Prop} : M.SinceLast s mark P [] := by
  intro pre a post u h
  simp at h

/-- A marked action starts afresh; another one counts if it has the property. -/
theorem sinceLast_concat {s u : S} {mark : A → Prop} {P : S → A → Prop} {as : List A} {a : A}
    (h : M.exec s as = some u) :
    M.SinceLast s mark P (as ++ [a]) ↔ mark a ∨ (M.SinceLast s mark P as ∧ P u a) := by
  constructor
  · intro hsince
    by_cases ha : mark a
    · exact Or.inl ha
    · refine Or.inr ⟨fun pre b post v has hv hmark => ?_, ?_⟩
      · refine hsince pre b (post ++ [a]) v (by simp [has]) hv ?_
        intro c hc
        rcases List.mem_append.1 (List.cons_append ▸ hc) with hc | hc
        · exact hmark c hc
        · rwa [List.mem_singleton.1 hc]
      · exact hsince as a [] u rfl h (by simpa using ha)
  · rintro (ha | ⟨hsince, ha⟩) pre b post v has hv hmark
    · -- the marked action would be among the unmarked ones
      have hmem : a ∈ b :: post := by
        have hlast := congrArg List.getLast? has
        rw [List.getLast?_concat, List.getLast?_append, List.getLast?_eq_some_getLast
          (List.cons_ne_nil b post), Option.some_or, Option.some.injEq] at hlast
        rw [hlast]
        exact List.getLast_mem _
      exact absurd ha (hmark a hmem)
    · -- the split is at the last action, or before it
      rcases List.eq_nil_or_concat post with rfl | ⟨post, c, rfl⟩
      · obtain ⟨rfl, hb⟩ := List.append_inj' has rfl
        cases hb
        rw [h, Option.some.injEq] at hv
        exact hv ▸ ha
      · have has' : as ++ [a] = (pre ++ b :: post) ++ [c] := by simpa using has
        refine hsince pre b post v (List.append_inj' has' rfl).1 hv fun d hd => hmark d ?_
        rw [List.mem_cons] at hd ⊢
        exact hd.imp id fun hd => by simp [hd]

/-- Every action of the schedule had the property `P` in the state it was taken in. -/
def Throughout (M : Interleaving S A) (s : S) (P : S → A → Prop) (as : List A) : Prop :=
  ∀ pre a post u, as = pre ++ a :: post → M.exec s pre = some u → P u a

theorem throughout_iff_sinceLast {s : S} {P : S → A → Prop} {as : List A} :
    M.Throughout s P as ↔ M.SinceLast s (fun _ => False) P as := by
  simp [Throughout, SinceLast]

theorem throughout_nil {s : S} {P : S → A → Prop} : M.Throughout s P [] :=
  throughout_iff_sinceLast.2 sinceLast_nil

theorem throughout_concat {s u : S} {P : S → A → Prop} {as : List A} {a : A}
    (h : M.exec s as = some u) :
    M.Throughout s P (as ++ [a]) ↔ M.Throughout s P as ∧ P u a := by
  rw [throughout_iff_sinceLast, throughout_iff_sinceLast, sinceLast_concat h, false_or]

theorem throughout_of_forall {s : S} {P : S → A → Prop} {as : List A}
    (h : ∀ a ∈ as, ∀ u, P u a) : M.Throughout s P as := by
  rintro pre a post u rfl -
  exact h a (List.mem_append_right _ List.mem_cons_self) u

theorem Throughout.left {s : S} {P : S → A → Prop} {as bs : List A}
    (h : M.Throughout s P (as ++ bs)) : M.Throughout s P as := by
  intro pre a post u has hu
  exact h pre a (post ++ bs) u (by simp [has]) hu

theorem Throughout.right {s u : S} {P : S → A → Prop} {as bs : List A}
    (h : M.Throughout s P (as ++ bs)) (hu : M.exec s as = some u) : M.Throughout u P bs := by
  intro pre a post v hbs hv
  exact h (as ++ pre) a post v (by simp [hbs]) (exec_trans hu hv)

theorem throughout_cons {s t : S} {P : S → A → Prop} {as : List A} {a : A}
    (h : M.step s a = some t) : M.Throughout s P (a :: as) ↔ P s a ∧ M.Throughout t P as := by
  constructor
  · intro hall
    refine ⟨hall [] a as s rfl rfl, fun pre b post u has hu => ?_⟩
    exact hall (a :: pre) b post u (by rw [has]; rfl) (by rw [exec_cons_of_step h, hu])
  · rintro ⟨ha, hall⟩ pre b post u has hu
    cases pre with
    | nil =>
      rw [List.nil_append, List.cons.injEq] at has
      rw [exec_nil, Option.some.injEq] at hu
      rw [← has.1, ← hu]
      exact ha
    | cons c pre =>
      rw [List.cons_append, List.cons.injEq] at has
      obtain ⟨rfl, has⟩ := has
      rw [exec_cons_of_step h] at hu
      exact hall pre b post u has hu

/-- **The invariant rule for schedules whose steps have a property.** -/
theorem Throughout.invariant {Q : S → Prop} {s : S} {P : S → A → Prop} (h₀ : Q s)
    (hstep : ∀ t a t', Q t → P t a → M.step t a = some t' → Q t') {as : List A} {t : S}
    (hall : M.Throughout s P as) (h : M.exec s as = some t) : Q t := by
  induction as generalizing s with
  | nil =>
    cases h
    exact h₀
  | cons a as ih =>
    obtain ⟨u, hu, hrest⟩ := Option.bind_eq_some_iff.1 h
    obtain ⟨ha, hall⟩ := (throughout_cons hu).1 hall
    exact ih (hstep s a u h₀ ha hu) hall hrest

/-- **Hiding actions**: if every step is a step of the view of the states as well, or does not show
in it, then what is left of a schedule when some actions are taken out that do not show leads to the
view of the state reached. -/
theorem hide (view : S → S) {P : S → Prop} {Q : S → A → Prop} {keep : A → Prop}
    (hP : ∀ s a t, P s → Q s a → M.step s a = some t → P t)
    (hview : ∀ s a t, P s → Q s a → M.step s a = some t →
      view t = view s ∨ (keep a ∧ M.step (view s) a = some (view t)))
    {s t : S} {as : List A} (hs : P s) (hall : M.Throughout s Q as) (h : M.exec s as = some t) :
    ∃ bs : List A, bs.Sublist as ∧ (∀ b ∈ bs, keep b) ∧ M.exec (view s) bs = some (view t) := by
  induction as generalizing s with
  | nil =>
    cases h
    exact ⟨[], List.Sublist.refl _, List.forall_mem_nil _, rfl⟩
  | cons a as ih =>
    obtain ⟨u, hu, hrest⟩ := Option.bind_eq_some_iff.1 h
    obtain ⟨ha, hall⟩ := (throughout_cons hu).1 hall
    obtain ⟨bs, hsub, hkeep, hbs⟩ := ih (hP s a u hs ha hu) hall hrest
    rcases hview s a u hs ha hu with hsame | ⟨hkept, hstep⟩
    · exact ⟨bs, hsub.cons a, hkeep, hsame ▸ hbs⟩
    · exact ⟨a :: bs, hsub.cons_cons a, List.forall_mem_cons.2 ⟨hkept, hkeep⟩,
        (exec_cons_of_step hstep bs).trans hbs⟩

/-- The states that the schedules left of one lead to when actions are taken out of it. -/
def sublistStates (M : Interleaving S A) : S → List A → List S
  | s, [] => [s]
  | s, a :: as => sublistStates M s as ++
      match M.step s a with
      | some t => sublistStates M t as
      | none => []

theorem mem_sublistStates {s t : S} {as bs : List A} (hsub : bs.Sublist as)
    (h : M.exec s bs = some t) : t ∈ M.sublistStates s as := by
  induction hsub generalizing s with
  | slnil =>
    cases h
    exact List.mem_singleton_self _
  | cons a _ ih => exact List.mem_append_left _ (ih h)
  | cons_cons a _ ih =>
    obtain ⟨u, hu, hrest⟩ := Option.bind_eq_some_iff.1 h
    refine List.mem_append_right _ ?_
    rw [hu]
    exact ih hrest

theorem throughout_cons_of_none {s : S} {P : S → A → Prop} {as : List A} {a : A}
    (h : M.step s a = none) : M.Throughout s P (a :: as) ↔ P s a := by
  constructor
  · intro hall
    exact hall [] a as s rfl rfl
  · rintro ha pre b post u has hu
    cases pre with
    | nil =>
      rw [List.nil_append, List.cons.injEq] at has
      rw [exec_nil, Option.some.injEq] at hu
      rw [← has.1, ← hu]
      exact ha
    | cons c pre =>
      rw [List.cons_append, List.cons.injEq] at has
      rw [exec_cons, ← has.1, h] at hu
      cases hu

/-- Whether every action has a decidable property can be decided by running the schedule. -/
instance decidableThroughout {P : S → A → Prop} [∀ s a, Decidable (P s a)] (s : S) :
    (as : List A) → Decidable (M.Throughout s P as)
  | [] => isTrue throughout_nil
  | a :: as =>
    match h : M.step s a with
    | some t =>
      have := decidableThroughout (P := P) t as
      decidable_of_iff (P s a ∧ M.Throughout t P as) (throughout_cons h).symm
    | none => decidable_of_iff (P s a) (throughout_cons_of_none h).symm

end Interleaving
