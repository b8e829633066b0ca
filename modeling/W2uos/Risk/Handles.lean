import W2uos.Risk.Bookings

/-!
# The two handles of a started supervisor

`start` spawns the run loop on a clone of the registered service.  The clone shares the
configuration with it, but gets a lock of its own around a copy of the state.  From then on the loop
works on its copy, while `status` and `reset_circuit`, called through the registered handle, work on
the other.  As the two never write the same state, a reset in the middle of a step of the loop
is a reset before or after it.

What the loop reports is computed in floating-point numbers.  Rounding can hide that two fills do
not cancel, or that they do, so the reports are compared at every point of a run: they part at the
first fill of an amount.

* `handles_run` : the two states along a run;
* `statusAgrees_iff`, `not_statusAgrees` : exactly when the two handles report the same;
* `rearms_iff`, `not_rearms` : exactly when the breaker is announced again after a reset.
-/

namespace W2uos

open RiskInput

/-- A started supervisor. -/
structure Started (α : Type := ℚ) where
  config : GlobalRiskConfig α
  /-- The state of the handle that is registered. -/
  registered : RiskState α
  /-- The state of the clone the loop runs on. -/
  running : RiskState α

section Handles

variable {α : Type}

/-- The registered handle. -/
def Started.handle (st : Started α) : RiskSupervisorService α := ⟨st.config, st.registered⟩

/-- The handle the loop runs on. -/
def Started.loop (st : Started α) : RiskSupervisorService α := ⟨st.config, st.running⟩

/-- Spawn the loop on a clone. -/
def RiskSupervisorService.start (s : RiskSupervisorService α) : Started α where
  config := s.config
  registered := s.state
  running := s.state

/-- An input of the loop, or a call of `reset_circuit` through the registered handle. -/
inductive HandleInput (α : Type := ℚ)
  | loop (i : RiskInput α)
  | resetCircuit

/-- The inputs of the loop. -/
def HandleInput.loops (as : List (HandleInput α)) : List (RiskInput α) :=
  as.filterMap fun
    | loop i => some i
    | resetCircuit => none

variable [Zero α] [Neg α] [LE α] [DecidableLE α] [LT α] [DecidableLT α] [Add α] [Sub α]
  [ValuesSum α] [NatCast α]

/-- The run loop and the calls of `reset_circuit`. -/
def supervisorHandles [CaseTable] : Machine (Started α) (HandleInput α) RiskOutput where
  step st
    | .loop i =>
      let (s, os) := riskSupervisor.step st.loop i
      ({ st with config := s.config, running := s.state }, os)
    | .resetCircuit =>
      let (s, os) := st.handle.resetCircuit
      ({ st with registered := s.state }, os)

open HandleInput

variable [CaseTable] {cfg : GlobalRiskConfig α} {as : List (HandleInput α)}

/-- The state of a run from a supervisor that has just been built and started. -/
abbrev startedRun (cfg : GlobalRiskConfig α) (as : List (HandleInput α)) : Started α :=
  supervisorHandles.run (RiskSupervisorService.new cfg).start as

omit [CaseTable] [Zero α] [Neg α] [LE α] [DecidableLE α] [LT α] [DecidableLT α] [Add α] [Sub α]
  [ValuesSum α] [NatCast α] in
theorem loops_append (as bs : List (HandleInput α)) : loops (as ++ bs) = loops as ++ loops bs :=
  List.filterMap_append

/-- **The two states along a run**: the loop runs as it would alone, and the registered state
never changes. -/
theorem handles_run (cfg : GlobalRiskConfig α) (as : List (HandleInput α)) :
    (startedRun cfg as).loop = riskSupervisor.run (.new cfg) (loops as) ∧
      (startedRun cfg as).registered = RiskState.initial := by
  refine Machine.history_induction (M := supervisorHandles) (Q := fun _ => True)
    (P := fun h st _ => st.loop = riskSupervisor.run (.new cfg) (loops h) ∧
      st.registered = RiskState.initial) ⟨rfl, rfl⟩ ?_ fun _ _ => trivial
  rintro h st o a ⟨hloop, hreg⟩ -
  cases a with
  | loop i =>
    refine ⟨?_, hreg⟩
    have hone : loops (h ++ [.loop i]) = loops h ++ [i] := loops_append h [.loop i]
    rw [hone, Machine.run_concat, ← hloop]
    rfl
  | resetCircuit =>
    have hnone : loops (h ++ [.resetCircuit]) = loops h := by
      rw [loops_append]
      exact List.append_nil _
    refine ⟨by rw [hnone]; exact hloop, ?_⟩
    -- the flag of the registered state is not set, so clearing it changes nothing
    show (st.handle.setCircuitBreaker false).state = _
    unfold Started.handle
    rw [hreg]
    rfl

end Handles

open HandleInput

/-! ### The reported status -/

section Status

variable [CaseTable] [HashOrder] {cfg : GlobalRiskConfig Float} {as : List (HandleInput Float)}
  {s : RiskSupervisorService Float} {i : RiskInput Float}

/-- Two reports are the same, number by number. -/
structure RiskStatus.Same (s t : RiskStatus Float) : Prop where
  dailyPnlQuote : (s.dailyPnlQuote == t.dailyPnlQuote) = true
  totalNotional : (s.totalNotional == t.totalNotional) = true
  openPositions : s.openPositions = t.openPositions
  circuitBreakerActive : s.circuitBreakerActive = t.circuitBreakerActive

/-- The registered handle reports what the running loop holds, at every point of the run. -/
def StatusAgrees (cfg : GlobalRiskConfig Float) (as : List (HandleInput Float)) : Prop :=
  ∀ pre, pre <+: as → (startedRun cfg pre).loop.status.Same (startedRun cfg pre).handle.status

/-- An input of no consequence: no fill of an amount, and no limit that is exceeded. -/
def RiskInput.Quiet (s : RiskSupervisorService Float) (i : RiskInput Float) : Prop :=
  (∀ r, i.order = some r → r.status = .filled → (r.filledSizeQuote == 0) = true) ∧
    ∀ clock, i.evaluated = some clock → ¬ (s.intake i).Exceeds clock.now

/-- Nothing is booked, and the breaker is not active. -/
structure RiskState.Blank (s : RiskState Float) : Prop where
  status : s.status.Same RiskStatus.default
  exposure : s.exposure = ∅

omit [CaseTable] [HashOrder] in
theorem blank_initial : RiskState.Blank RiskState.initial :=
  ⟨⟨by decide, by decide, rfl, rfl⟩, rfl⟩

omit [CaseTable] [HashOrder] in
theorem mark_same_iff {s : RiskState Float} (h : s.status.circuitBreakerActive = false)
    (active : Bool) (es : List Instant) :
    (s.mark active es).status.Same .default ↔ s.status.Same .default ∧ active = false := by
  constructor
  · rintro ⟨hpnl, hnotional, hopen, hactive⟩
    exact ⟨⟨hpnl, hnotional, hopen, h⟩, hactive⟩
  · rintro ⟨⟨hpnl, hnotional, hopen, -⟩, hactive⟩
    exact ⟨hpnl, hnotional, hopen, hactive⟩

omit [CaseTable] [HashOrder] in
theorem shift_nonpos {size : Float} (h : (size == 0) = true) (side : OrderSide) :
    side.shift 0 size ≤ 0 := by
  cases side with
  | buy => exact Binary64.zero_add_nonpos h
  | sell => exact Binary64.zero_sub_nonpos h

omit [CaseTable] [HashOrder] in
theorem earn_beq_zero_iff (side : OrderSide) (size : Float) :
    (side.earn size == 0) = true ↔ (size == 0) = true := by
  cases side with
  | buy => exact Binary64.neg_beq_zero_iff size
  | sell => exact Iff.rfl

/-- A result shows in a blank state exactly if it is a fill of an amount. -/
theorem RiskState.Blank.recordOrder_iff {s : RiskState Float} (hs : s.Blank)
    (r : OrderResult Float) :
    ((s.recordOrder r).status.Same .default ↔
        (r.status = .filled → (r.filledSizeQuote == 0) = true)) ∧
      ((r.status = .filled → (r.filledSizeQuote == 0) = true) → (s.recordOrder r).Blank) := by
  obtain ⟨⟨hpnl, hnotional, hopen, hactive⟩, hexposure⟩ := hs
  by_cases hr : r.status = .filled
  · have hearn : (s.status.dailyPnlQuote + r.side.earn r.filledSizeQuote == 0) = true ↔
        (r.filledSizeQuote == 0) = true := by
      rw [Binary64.add_beq_zero_iff hpnl, earn_beq_zero_iff]
    have hblank : (r.filledSizeQuote == 0) = true → (s.recordOrder r).Blank := by
      intro hzero
      have herase : Finmap.erase (symbolKey r.symbol) (∅ : Amounts String Float) = ∅ := rfl
      have hnone : (ValuesSum.valuesSum (∅ : Amounts String Float) == (0 : Float)) = true := by
        rw [valuesSum_empty]
        decide
      rw [recordOrder_of_filled hr, hexposure, Amounts.amount_empty,
        settle_of_nonpos (shift_nonpos hzero r.side), herase]
      exact ⟨⟨hearn.2 hzero, hnone, rfl, hactive⟩, rfl⟩
    refine ⟨⟨fun h _ => hearn.1 ?_, fun h => (hblank (h hr)).status⟩, fun h => hblank (h hr)⟩
    have hsum := h.dailyPnlQuote
    rw [recordOrder_of_filled hr] at hsum
    exact hsum
  · rw [recordOrder_of_ne hr]
    have hblank : s.Blank := ⟨⟨hpnl, hnotional, hopen, hactive⟩, hexposure⟩
    exact ⟨iff_of_true hblank.status fun h => absurd h hr, fun _ => hblank⟩

/-- Before it is evaluated, an input shows in a blank state exactly if it is a fill of an amount. -/
theorem blank_intake_iff (hs : s.state.Blank) (i : RiskInput Float) :
    ((s.intake i).status.Same .default ↔
        ∀ r, i.order = some r → r.status = .filled → (r.filledSizeQuote == 0) = true) ∧
      ((s.intake i).status.Same .default → (s.intake i).state.Blank) := by
  have hactive : s.state.status.circuitBreakerActive = false := hs.status.circuitBreakerActive
  have hflag := (intake_frame s i).2.trans hactive
  have hstate : (s.intake i).state =
      (i.order.toList.foldl RiskState.recordOrder s.state).mark false
        (s.intake i).state.lastErrors := by
    rw [← intake_state, ← hflag]
    rfl
  rw [RiskSupervisorService.status, hstate]
  cases i.order with
  | none =>
    have hsame := (mark_same_iff hactive false (s.intake i).state.lastErrors).2 ⟨hs.status, rfl⟩
    exact ⟨iff_of_true hsame fun r h => (by cases h), fun h => ⟨h, hs.exposure⟩⟩
  | some r =>
    obtain ⟨hiff, hblank⟩ := hs.recordOrder_iff r
    have hsame := mark_same_iff ((RiskState.recordOrder_frame s.state r).2.trans hactive) false
      (s.intake i).state.lastErrors
    constructor
    · rw [Option.toList_some, List.foldl_cons, List.foldl_nil, hsame, hiff]
      simp
    · exact fun h => ⟨h, (hblank (hiff.1 (hsame.1 h).1)).exposure⟩

/-- **The step lemma**: an input shows in a blank state exactly if it is of consequence. -/
theorem blank_step_iff (hs : s.state.Blank) (i : RiskInput Float) :
    ((riskSupervisor.next s i).status.Same .default ↔ i.Quiet s) ∧
      ((riskSupervisor.next s i).status.Same .default → (riskSupervisor.next s i).state.Blank) := by
  obtain ⟨hiff, hblank⟩ := blank_intake_iff hs i
  have hflag := (intake_frame s i).2.trans hs.status.circuitBreakerActive
  rw [RiskInput.Quiet, ← hiff, Machine.next, riskSupervisor_step]
  cases i.evaluated with
  | none => exact ⟨by simp, hblank⟩
  | some clock =>
    obtain ⟨active, es, -, heq⟩ := evaluate_frame (s.intake i) clock
    have hactive : (active = false ↔ ¬ (s.intake i).Exceeds clock.now) := by
      obtain ⟨htrip, hquiet⟩ := evaluate_inactive hflag clock
      rw [heq] at htrip hquiet
      constructor
      · rintro hinactive hex
        exact Bool.false_ne_true (hinactive.symm.trans (htrip hex).1)
      · exact fun hno => (hquiet hno).1
    have hsame := mark_same_iff hflag active es
    dsimp only
    rw [heq]
    refine ⟨?_, fun h => ⟨h, (hblank (hsame.1 h).1).exposure⟩⟩
    show ((s.intake i).state.mark active es).status.Same _ ↔ _
    rw [hsame, hactive]
    simp [RiskSupervisorService.status]

/-- An input of either handle that is of no consequence. -/
def HandleInput.Quiet (st : Started Float) : HandleInput Float → Prop
  | .loop i => i.Quiet st.loop
  | .resetCircuit => True

/-- **Exactly when the handles agree**: nothing of consequence has come. -/
theorem statusAgrees_iff (cfg : GlobalRiskConfig Float) (as : List (HandleInput Float)) :
    StatusAgrees cfg as ↔ Always (fun pre a => a.Quiet (startedRun cfg pre)) as := by
  have hreg : ∀ as, (startedRun cfg as).handle.status = RiskStatus.default :=
    fun as => congrArg RiskState.status (handles_run cfg as).2
  suffices hrun : (StatusAgrees cfg as ↔ Always (fun pre a => a.Quiet (startedRun cfg pre)) as) ∧
      (StatusAgrees cfg as → (startedRun cfg as).running.Blank) from hrun.1
  induction as using List.reverseRecOn with
  | nil =>
    refine ⟨iff_of_true ?_ always_nil, fun _ => blank_initial⟩
    intro pre hpre
    rw [List.prefix_nil.1 hpre]
    exact blank_initial.status
  | append_singleton as a ih =>
    obtain ⟨hiff, hblank⟩ := ih
    have hconcat : StatusAgrees cfg (as ++ [a]) ↔
        StatusAgrees cfg as ∧ (startedRun cfg (as ++ [a])).loop.status.Same .default := by
      unfold StatusAgrees
      simp only [List.prefix_concat_iff, hreg]
      constructor
      · exact fun h => ⟨fun pre hpre => h pre (Or.inr hpre), h _ (Or.inl rfl)⟩
      · rintro ⟨h, hlast⟩ pre (rfl | hpre)
        · exact hlast
        · exact h pre hpre
    have hstep : StatusAgrees cfg as →
        ((startedRun cfg (as ++ [a])).loop.status.Same .default ↔ a.Quiet (startedRun cfg as)) ∧
          ((startedRun cfg (as ++ [a])).loop.status.Same .default →
            (startedRun cfg (as ++ [a])).running.Blank) := by
      intro hagree
      rw [startedRun, Machine.run_concat]
      cases a with
      | loop i => exact blank_step_iff (hblank hagree) i
      | resetCircuit => exact ⟨iff_of_true (hblank hagree).status trivial, fun _ => hblank hagree⟩
    rw [hconcat, always_concat, ← hiff]
    exact ⟨and_congr_right fun hagree => (hstep hagree).1, fun h => (hstep h.1).2 h.2⟩

omit [CaseTable] [HashOrder] in
/-- **The registered handle reports a stale status**: a filled buy trips the breaker, and the
registered handle knows neither of the buy nor of the breaker. -/
theorem not_statusAgrees :
    letI := asciiCase
    letI := keyOrder
    ¬ StatusAgrees (lossLimits Float) [.loop (.orderResult (some (lossOrder Float)) ⟨1, 1⟩)] := by
  intro h
  have hpnl := (h _ (List.prefix_refl _)).dailyPnlQuote
  revert hpnl
  decide +kernel

end Status

section Runs

variable [CaseTable] {cfg : GlobalRiskConfig} {as : List HandleInput}

/-! ### Rearming -/

/-- The loop evaluates an input and finds a limit breached. -/
def LoopBreach (cfg : GlobalRiskConfig) (h : List HandleInput) (a : HandleInput) : Prop :=
  ∃ i, a = .loop i ∧ Breach cfg (loops h) i

theorem once_loopBreach_iff : Once (LoopBreach cfg) as ↔ Once (Breach cfg) (loops as) := by
  induction as using List.reverseRecOn with
  | nil => simp [loops]
  | append_singleton as a ih =>
    rw [once_concat, loops_append, ih]
    cases a with
    | loop i =>
      have hone : loops [.loop i] = [i] := rfl
      simp [hone, once_concat, LoopBreach]
    | resetCircuit =>
      have hnone : loops ([.resetCircuit] : List HandleInput) = [] := rfl
      simp [hnone, LoopBreach]

/-- After every completed reset, the first breach of a limit is announced. -/
def Rearms (cfg : GlobalRiskConfig) (as : List HandleInput) : Prop :=
  ∀ pre mid a post, as = pre ++ .resetCircuit :: (mid ++ a :: post) →
    LoopBreach cfg (pre ++ .resetCircuit :: mid) a →
    ¬ Once (fun h b => LoopBreach cfg (pre ++ .resetCircuit :: h) b) mid →
      RiskOutput.signals
          (supervisorHandles.emit (startedRun cfg (pre ++ .resetCircuit :: mid)) a) =
        ["control.strategy.pause_all", "control.exec.block_new_orders"]

/-- What the loop announces at a breach: the first of all breaches, and no other. -/
theorem announced_iff (hc : Chronological (loops (as ++ [a]))) (ha : LoopBreach cfg as a) :
    RiskOutput.signals (supervisorHandles.emit (startedRun cfg as) a) = announcement ↔
      ¬ Once (LoopBreach cfg) as := by
  obtain ⟨i, rfl, hi⟩ := ha
  have hone : loops (as ++ [.loop i]) = loops as ++ [i] := loops_append as [.loop i]
  rw [hone] at hc
  obtain ⟨hbooks, hflag, -⟩ := breaker_history cfg (loops as) hc.left
  obtain ⟨-, hflip, hsig⟩ := breaker_step hbooks hc
  have hemit : supervisorHandles.emit (startedRun cfg as) (.loop i) =
      riskSupervisor.emit (riskSupervisor.run (.new cfg) (loops as)) i := by
    rw [← (handles_run cfg as).1]
    rfl
  have hactive := hflip.2 (Or.inr hi)
  rw [hemit, hsig, once_loopBreach_iff, ← hflag, hactive]
  cases (riskSupervisor.run (.new cfg) (loops as)).status.circuitBreakerActive <;>
    simp [announcement]

/-- **Exactly when the breaker is rearmed**: no reset lies between two breaches. -/
theorem rearms_iff (cfg : GlobalRiskConfig) (hc : Chronological (loops as)) :
    Rearms cfg as ↔
      ∀ pre mid a post, as = pre ++ .resetCircuit :: (mid ++ a :: post) →
        LoopBreach cfg (pre ++ .resetCircuit :: mid) a → ¬ Once (LoopBreach cfg) pre := by
  have hbefore : ∀ pre mid a post, as = pre ++ .resetCircuit :: (mid ++ a :: post) →
      Chronological (loops ((pre ++ .resetCircuit :: mid) ++ [a])) := by
    rintro pre mid a post rfl
    have heq : pre ++ .resetCircuit :: (mid ++ a :: post) =
        ((pre ++ .resetCircuit :: mid) ++ [a]) ++ post := by simp
    rw [heq, loops_append] at hc
    exact hc.left
  have hsplit : ∀ pre mid, Once (LoopBreach cfg) (pre ++ .resetCircuit :: mid) ↔
      Once (LoopBreach cfg) pre ∨
        Once (fun h b => LoopBreach cfg (pre ++ .resetCircuit :: h) b) mid := by
    intro pre mid
    have heq : pre ++ .resetCircuit :: mid = (pre ++ [.resetCircuit]) ++ mid := by simp
    have hreset : ¬ LoopBreach cfg pre .resetCircuit := by
      rintro ⟨i, hi, -⟩
      cases hi
    rw [heq, once_append, once_concat, or_iff_left hreset]
    simp
  constructor
  · intro hrearms pre mid a post has ha hpre
    -- the first breach after the reset would have to be announced, but is not the first of all
    have honce : Once (fun h b => LoopBreach cfg (pre ++ .resetCircuit :: h) b) (mid ++ [a]) :=
      once_concat.2 (Or.inr ha)
    obtain ⟨mid', b, rest, heq, hb, hfirst⟩ := honce.first
    have has' : as = pre ++ .resetCircuit :: (mid' ++ b :: (rest ++ post)) := by
      have hmid : mid ++ a :: post = mid' ++ b :: (rest ++ post) := by
        rw [List.append_cons, heq, List.append_assoc, List.cons_append]
      rw [has, hmid]
    have hannounced := hrearms pre mid' b _ has' hb hfirst
    have hnone := (announced_iff (hbefore pre mid' b _ has') hb).1 hannounced
    exact hnone ((hsplit pre mid').2 (Or.inl hpre))
  · intro hcond pre mid a post has ha hmid
    refine (announced_iff (hbefore pre mid a post has) ha).2 ?_
    intro honce
    rcases (hsplit pre mid).1 honce with hpre | hlater
    · exact hcond pre mid a post has ha hpre
    · exact hmid hlater

/-- A loss trips the breaker, which is reset; the next tick still finds the loss. -/
def resetRun : List HandleInput :=
  [.loop (.orderResult (some lossOrder) ⟨1, 1⟩), .resetCircuit, .loop (.tick ⟨5, 5⟩)]

omit [CaseTable] in
theorem rearms_iff_sample :
    @Rearms asciiCase lossLimits resetRun ↔
      ∀ pre mid a post, resetRun = pre ++ .resetCircuit :: (mid ++ a :: post) →
        @LoopBreach asciiCase lossLimits (pre ++ .resetCircuit :: mid) a →
          ¬ Once (@LoopBreach asciiCase lossLimits) pre := by
  refine @rearms_iff asciiCase _ lossLimits ?_
  unfold Chronological
  decide

omit [CaseTable] in
/-- **A reset disarms the breaker**: the tick after the reset announces nothing. -/
theorem not_rearms : ¬ @Rearms asciiCase lossLimits resetRun := by
  intro h
  have hbreach : @LoopBreach asciiCase lossLimits
      [.loop (.orderResult (some lossOrder) ⟨1, 1⟩), .resetCircuit] (.loop (.tick ⟨5, 5⟩)) := by
    refine ⟨_, rfl, ⟨5, 5⟩, rfl, Or.inl ?_⟩
    decide +kernel
  have hannounced := h [.loop (.orderResult (some lossOrder) ⟨1, 1⟩)] [] _ [] rfl hbreach once_nil
  revert hannounced
  decide +kernel

end Runs

end W2uos
