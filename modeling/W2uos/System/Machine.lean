import Mathlib.Data.List.Induction

/-!
# Reactive machines

A component that takes its inputs one at a time, updates its state and emits outputs is a
*machine*.  What it does on a whole input history is a fold of its step function; the rules
below turn a fact about one step into a fact about every history.

* `Machine.run_invariant` : the invariant rule;
* `Machine.history_induction` : the rule for facts that tie the state to the inputs read and the
  outputs emitted so far;
* `Machine.hide` : inputs that a view of the state does not see can be left out;
* `Machine.project` : what a view of the state sees is the run of a smaller machine.
-/

/-- A deterministic component with states `S`, inputs `I` and outputs `O`. -/
structure Machine (S I O : Type*) where
  /-- The state after one input, and the outputs emitted on it, in order. -/
  step : S → I → S × List O

namespace Machine

variable {S I O : Type*} (M : Machine S I O)

/-- The state after one input. -/
def next (s : S) (i : I) : S := (M.step s i).1

/-- The outputs emitted on one input. -/
def emit (s : S) (i : I) : List O := (M.step s i).2

/-- The state after an input history. -/
def run (s : S) (is : List I) : S := is.foldl M.next s

/-- Everything emitted along an input history. -/
def output (s : S) : List I → List O
  | [] => []
  | i :: is => M.emit s i ++ output (M.next s i) is

@[simp] theorem run_nil (s : S) : M.run s [] = s := rfl

@[simp] theorem run_cons (s : S) (i : I) (is : List I) :
    M.run s (i :: is) = M.run (M.next s i) is := rfl

@[simp] theorem output_nil (s : S) : M.output s [] = [] := rfl

@[simp] theorem output_cons (s : S) (i : I) (is : List I) :
    M.output s (i :: is) = M.emit s i ++ M.output (M.next s i) is := rfl

theorem run_append (s : S) (is js : List I) : M.run s (is ++ js) = M.run (M.run s is) js :=
  List.foldl_append

theorem run_concat (s : S) (is : List I) (i : I) :
    M.run s (is ++ [i]) = M.next (M.run s is) i := by
  rw [run_append, run_cons, run_nil]

theorem output_append (s : S) (is js : List I) :
    M.output s (is ++ js) = M.output s is ++ M.output (M.run s is) js := by
  induction is generalizing s with
  | nil => rfl
  | cons i is ih => simp only [List.cons_append, output_cons, ih, run_cons, List.append_assoc]

theorem output_concat (s : S) (is : List I) (i : I) :
    M.output s (is ++ [i]) = M.output s is ++ M.emit (M.run s is) i := by
  rw [output_append, output_cons, output_nil, List.append_nil]

variable {M}

/-- **Induction over histories**: a fact about the inputs read, the state and the outputs emitted
holds of every history whose inputs satisfy `Q` if it holds at the start and every input
satisfying `Q` preserves it. -/
theorem history_induction {P : List I → S → List O → Prop} {Q : I → Prop} {s : S}
    (h₀ : P [] s [])
    (hstep : ∀ h t o i, P h t o → Q i → P (h ++ [i]) (M.next t i) (o ++ M.emit t i))
    {is : List I} (hQ : ∀ i ∈ is, Q i) : P is (M.run s is) (M.output s is) := by
  induction is using List.reverseRecOn with
  | nil => exact h₀
  | append_singleton is i ih =>
    rw [run_concat, output_concat]
    exact hstep _ _ _ _ (ih fun j hj => hQ j (List.mem_append_left _ hj)) (hQ i (by simp))

/-- **The invariant rule.** -/
theorem run_invariant {P : S → Prop} {Q : I → Prop} {s : S} (h₀ : P s)
    (hstep : ∀ t i, P t → Q i → P (M.next t i)) {is : List I} (hQ : ∀ i ∈ is, Q i) :
    P (M.run s is) :=
  history_induction (M := M) (P := fun _ t _ => P t) h₀ (fun _ t _ i ht hi => hstep t i ht hi) hQ

/-- Inputs that leave the state as it is and emit nothing, leave no trace. -/
theorem output_idle {s : S} {is : List I} (h : ∀ i ∈ is, M.step s i = (s, [])) :
    M.output s is = [] := by
  induction is with
  | nil => rfl
  | cons i is ih =>
    have hi := h i List.mem_cons_self
    have htail := ih fun j hj => h j (List.mem_cons_of_mem _ hj)
    rw [output_cons, emit, next, hi, htail, List.append_nil]

/-- **Hiding inputs**: if a view of the states steps by the inputs to keep as the states do, with
the same outputs, and does not see the other inputs, which emit nothing, then leaving those out
changes neither the view nor the outputs. -/
theorem hide (view : S → S) {keep : I → Bool} {P : S → Prop}
    (hP : ∀ s i, P s → P (M.next s i))
    (hkeep : ∀ s i, P s → keep i = true → M.step (view s) i = (view (M.next s i), M.emit s i))
    (hhide : ∀ s i, P s → keep i = false → view (M.next s i) = view s ∧ M.emit s i = [])
    {s : S} (hs : P s) (is : List I) :
    M.run (view s) (is.filter keep) = view (M.run s is) ∧
      M.output (view s) (is.filter keep) = M.output s is := by
  induction is generalizing s with
  | nil => exact ⟨rfl, rfl⟩
  | cons i is ih =>
    obtain ⟨hrun, hout⟩ := ih (hP s i hs)
    cases hi : keep i with
    | true =>
      have hstep := hkeep s i hs hi
      rw [List.filter_cons_of_pos hi, run_cons, output_cons, run_cons, output_cons, next, emit,
        hstep]
      exact ⟨hrun, congrArg (M.emit s i ++ ·) hout⟩
    | false =>
      obtain ⟨hview, hemit⟩ := hhide s i hs hi
      rw [List.filter_cons_of_neg (by simp [hi]), run_cons, output_cons, hemit, ← hview]
      exact ⟨hrun, hout⟩

/-- **The projection rule**: if a view of the states steps, on the inputs it selects, as another
machine does, with the outputs it selects, and neither moves nor shows an output on the others, then
the other machine, run on the selected inputs, ends in the view and emits the selected outputs. -/
theorem project {T J P : Type*} (N : Machine T J P) (view : S → T) (select : I → Option J)
    (visible : O → Option P)
    (hsome : ∀ s i j, select i = some j →
      N.next (view s) j = view (M.next s i) ∧ N.emit (view s) j = (M.emit s i).filterMap visible)
    (hnone : ∀ s i, select i = none →
      view (M.next s i) = view s ∧ (M.emit s i).filterMap visible = [])
    (s : S) (is : List I) :
    N.run (view s) (is.filterMap select) = view (M.run s is) ∧
      N.output (view s) (is.filterMap select) = (M.output s is).filterMap visible := by
  induction is generalizing s with
  | nil => exact ⟨rfl, rfl⟩
  | cons i is ih =>
    obtain ⟨hrun, hout⟩ := ih (M.next s i)
    rw [run_cons, output_cons, List.filterMap_append]
    cases hi : select i with
    | none =>
      obtain ⟨hview, hemit⟩ := hnone s i hi
      rw [List.filterMap_cons_none hi, hemit, ← hview]
      exact ⟨hrun, hout⟩
    | some j =>
      obtain ⟨hview, hemit⟩ := hsome s i j hi
      rw [List.filterMap_cons_some hi, run_cons, output_cons, hview, hemit]
      exact ⟨hrun, congrArg (_ ++ ·) hout⟩

end Machine

/-! ### Past events of a history -/

section Once

variable {I : Type*} {P Q : List I → I → Prop} {h k : List I} {i : I}

/-- At some point of the history `h` the input that came next satisfied `P`; the first argument of
`P` is the history up to that input. -/
def Once (P : List I → I → Prop) (h : List I) : Prop :=
  ∃ pre i post, h = pre ++ i :: post ∧ P pre i

@[simp] theorem once_nil : ¬ Once P [] := by
  rintro ⟨pre, i, post, h, -⟩
  simp at h

theorem once_concat : Once P (h ++ [i]) ↔ Once P h ∨ P h i := by
  constructor
  · rintro ⟨pre, j, post, heq, hj⟩
    rcases List.eq_nil_or_concat post with rfl | ⟨post, l, rfl⟩
    · obtain ⟨rfl, hi⟩ := List.append_inj' heq rfl
      cases hi
      exact Or.inr hj
    · have heq' : h ++ [i] = (pre ++ j :: post) ++ [l] := by simpa using heq
      exact Or.inl ⟨pre, j, post, (List.append_inj' heq' rfl).1, hj⟩
  · rintro (⟨pre, j, post, rfl, hj⟩ | hi)
    · exact ⟨pre, j, post ++ [i], by simp, hj⟩
    · exact ⟨h, i, [], rfl, hi⟩

theorem Once.append (hp : Once P h) (k : List I) : Once P (h ++ k) := by
  obtain ⟨pre, i, post, rfl, hi⟩ := hp
  exact ⟨pre, i, post ++ k, by simp, hi⟩

/-- What happened along `h ++ k` happened along `h` or while `k` was read. -/
theorem once_append : Once P (h ++ k) ↔ Once P h ∨ Once (fun pre i => P (h ++ pre) i) k := by
  induction k using List.reverseRecOn with
  | nil => simp
  | append_singleton k i ih => rw [← List.append_assoc, once_concat, ih, once_concat, or_assoc]

theorem Once.first (hp : Once P h) :
    ∃ pre i post, h = pre ++ i :: post ∧ P pre i ∧ ¬ Once P pre := by
  induction h using List.reverseRecOn with
  | nil => exact absurd hp once_nil
  | append_singleton h i ih =>
    by_cases hh : Once P h
    · obtain ⟨pre, j, post, rfl, hj, hfirst⟩ := ih hh
      exact ⟨pre, j, post ++ [i], by simp, hj, hfirst⟩
    · exact ⟨h, i, [], rfl, (once_concat.1 hp).resolve_left hh, hh⟩

/-- At every point of the history `h` the input that came next satisfied `P`. -/
def Always (P : List I → I → Prop) (h : List I) : Prop :=
  ∀ pre i post, h = pre ++ i :: post → P pre i

theorem always_iff_not_once : Always P h ↔ ¬ Once (fun pre i => ¬ P pre i) h := by
  constructor
  · rintro halways ⟨pre, i, post, rfl, hi⟩
    exact hi (halways pre i post rfl)
  · intro honce pre i post heq
    by_contra hi
    exact honce ⟨pre, i, post, heq, hi⟩

@[simp] theorem always_nil : Always P [] := by
  intro pre i post heq
  simp at heq

theorem always_concat : Always P (h ++ [i]) ↔ Always P h ∧ P h i := by
  rw [always_iff_not_once, always_iff_not_once, once_concat, not_or, not_not]

theorem Always.left (hp : Always P (h ++ k)) : Always P h := by
  rw [always_iff_not_once] at hp ⊢
  exact fun honce => hp (honce.append k)

end Once
