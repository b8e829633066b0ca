import Mathlib.Data.Finset.Sort
import Mathlib.Data.String.Basic
import W2uos.Risk.Supervisor

/-!
# The circuit breaker over a run

What the loop has read so far determines what its state should say: the orders booked one after the
other, the configuration that came last, and the errors of the last minute.  A *breach* is an input
that is evaluated and finds one of these over its limit.  The running state keeps less than the
history (errors are dropped, but only when the error rate is looked at), and still knows enough: the
breaker is active exactly if there has been a breach, and it is announced once, at the first.

* `Books.exceeds_iff` : a state that agrees with the history sees a breach when there is one;
* `breaker_run` : the flag and the announcements of the breaker over a run.
-/

namespace W2uos

/-! ### What a history says -/

namespace RiskInput

variable {α : Type}

/-- The clocks an input is evaluated at, if it is. -/
def evaluated : RiskInput α → Option Clocks
  | orderResult (some _) clock => some clock
  | logEvent (some event) _ clock => if event.level = .error then some clock else none
  | tick clock => some clock
  | _ => none

/-- The time at which an input is noted as an error, if it is. -/
def errorAt : RiskInput α → Option Instant
  | logEvent (some event) recorded _ => if event.level = .error then some recorded else none
  | _ => none

/-- The readings of the monotonic clock on an input, in order. -/
def instants (i : RiskInput) : List Instant :=
  i.errorAt.toList ++ i.evaluated.toList.map (·.now)

/-- The order result an input carries, if it does. -/
def order : RiskInput α → Option (OrderResult α)
  | orderResult msg _ => msg
  | _ => none

/-- The configuration an input carries, if it does. -/
def update : RiskInput α → Option (GlobalRiskConfig α)
  | configUpdate msg => msg
  | _ => none

/-- The order results read. -/
def orders (h : List (RiskInput α)) : List (OrderResult α) := h.filterMap order

/-- The times of the errors read. -/
def errors (h : List (RiskInput α)) : List Instant := h.filterMap errorAt

/-- The configuration in force after a history. -/
def configAt (cfg : GlobalRiskConfig) (h : List RiskInput) : GlobalRiskConfig :=
  (h.filterMap update).getLast?.getD cfg

/-- The number of errors of the 60 seconds before `now`. -/
def errorRate (h : List RiskInput) (now : Instant) : ℕ :=
  ((errors h).filter fun t => now - fromSecs 60 ≤ t).length

/-- All orders of the history, booked. -/
def recorded [CaseTable] [Zero α] [Neg α] [LE α] [DecidableLE α] [Add α] [Sub α] [ValuesSum α]
    (h : List (RiskInput α)) : RiskState α :=
  (orders h).foldl RiskState.recordOrder RiskState.initial

end RiskInput

open RiskInput

/-- The clock does not go back. -/
def Chronological (h : List RiskInput) : Prop := (h.flatMap instants).Pairwise (· ≤ ·)

/-- After the history `h` the input `i` is evaluated, and a limit of the configuration in force is
breached. -/
def Breach [CaseTable] (cfg : GlobalRiskConfig) (h : List RiskInput) (i : RiskInput) : Prop :=
  ∃ clock, i.evaluated = some clock ∧
    ((recorded (h ++ [i])).status.Breaches (configAt cfg (h ++ [i])) ∨
      ∃ maxRate, (configAt cfg (h ++ [i])).maxErrorRatePerMinute = some maxRate ∧
        maxRate < errorRate (h ++ [i]) clock.now)

theorem filterMap_concat {ι α : Type} (f : ι → Option α) (h : List ι) (i : ι) :
    (h ++ [i]).filterMap f = h.filterMap f ++ (f i).toList := by
  rw [List.filterMap_append]
  cases hi : f i with
  | none => rw [List.filterMap_cons_none hi]; rfl
  | some a => rw [List.filterMap_cons_some hi]; rfl

theorem Chronological.left {h k : List RiskInput} (hc : Chronological (h ++ k)) :
    Chronological h := by
  unfold Chronological at hc ⊢
  rw [List.flatMap_append] at hc
  exact (List.pairwise_append.1 hc).1

theorem Chronological.le_now {h : List RiskInput} {i : RiskInput} {clock : Clocks}
    (hc : Chronological (h ++ [i])) (hi : i.evaluated = some clock) :
    ∀ t ∈ (h ++ [i]).flatMap instants, t ≤ clock.now := by
  have hsplit : (h ++ [i]).flatMap instants =
      (h.flatMap instants ++ i.errorAt.toList) ++ [clock.now] := by
    simp [instants, hi]
  unfold Chronological at hc
  rw [hsplit] at hc ⊢
  intro t ht
  rcases List.mem_append.1 ht with ht | ht
  · exact (List.pairwise_append.1 hc).2.2 t ht _ (List.mem_singleton_self _)
  · exact (List.mem_singleton.1 ht).le

theorem errors_sublist (h : List RiskInput) : (errors h).Sublist (h.flatMap instants) := by
  induction h using List.reverseRecOn with
  | nil => exact List.Sublist.refl _
  | append_singleton h i ih =>
    rw [errors, filterMap_concat, List.flatMap_append, List.flatMap_singleton]
    exact ih.append (List.sublist_append_left _ _)

/-! ### One input: recording, then evaluation -/

/-- A state with another flag and other errors. -/
def RiskState.mark {α : Type} (s : RiskState α) (active : Bool) (lastErrors : List Instant) :
    RiskState α :=
  { s with
    lastErrors := lastErrors
    status := { s.status with circuitBreakerActive := active } }

@[simp] theorem RiskState.mark_mark (s : RiskState) (a b : Bool) (es fs : List Instant) :
    (s.mark a es).mark b fs = s.mark b fs := rfl

@[simp] theorem RiskState.mark_breaches (s : RiskState) (a : Bool) (es : List Instant)
    (cfg : GlobalRiskConfig) : (s.mark a es).status.Breaches cfg ↔ s.status.Breaches cfg := Iff.rfl

section Recording

variable [CaseTable] {α : Type} [Zero α] [Neg α] [LE α] [DecidableLE α] [Add α] [Sub α]
  [ValuesSum α]

theorem RiskState.recordOrder_mark (s : RiskState α) (a : Bool) (es : List Instant)
    (result : OrderResult α) :
    (s.mark a es).recordOrder result = (s.recordOrder result).mark a es := by
  unfold recordOrder
  cases result.status <;> cases result.side <;> rfl

/-- What an input does before it is evaluated. -/
def RiskSupervisorService.intake (s : RiskSupervisorService α) :
    RiskInput α → RiskSupervisorService α
  | .orderResult (some result) _ => { s with state := s.state.recordOrder result }
  | .logEvent (some event) recorded _ =>
    if event.level = .error then { s with state := s.state.recordError recorded } else s
  | .configUpdate (some newCfg) => { s with config := newCfg }
  | _ => s

theorem intake_config (s : RiskSupervisorService α) (i : RiskInput α) :
    (s.intake i).config = i.update.getD s.config := by
  cases i with
  | orderResult msg clock => cases msg <;> rfl
  | logEvent msg recorded clock =>
    cases msg with
    | none => rfl
    | some event =>
      by_cases hlevel : event.level = .error
      · rw [RiskSupervisorService.intake, if_pos hlevel]
        rfl
      · rw [RiskSupervisorService.intake, if_neg hlevel]
        rfl
  | configUpdate msg => cases msg <;> rfl
  | tick clock => rfl

theorem RiskState.recordOrder_frame (s : RiskState α) (result : OrderResult α) :
    (s.recordOrder result).lastErrors = s.lastErrors ∧
      (s.recordOrder result).status.circuitBreakerActive = s.status.circuitBreakerActive := by
  unfold recordOrder
  cases result.status <;> exact ⟨rfl, rfl⟩

theorem intake_frame (s : RiskSupervisorService α) (i : RiskInput α) :
    (s.intake i).state.lastErrors = s.state.lastErrors ++ i.errorAt.toList ∧
      (s.intake i).state.status.circuitBreakerActive = s.state.status.circuitBreakerActive := by
  cases i with
  | orderResult msg clock =>
    cases msg with
    | none => simp [RiskSupervisorService.intake, errorAt]
    | some result => simp [RiskSupervisorService.intake, errorAt, RiskState.recordOrder_frame]
  | logEvent msg recorded clock =>
    cases msg with
    | none => simp [RiskSupervisorService.intake, errorAt]
    | some event =>
      by_cases hlevel : event.level = .error <;>
        simp [RiskSupervisorService.intake, errorAt, RiskState.recordError, hlevel]
  | configUpdate msg => cases msg <;> simp [RiskSupervisorService.intake, errorAt]
  | tick clock => simp [RiskSupervisorService.intake, errorAt]

theorem intake_state (s : RiskSupervisorService α) (i : RiskInput α) (a : Bool)
    (es : List Instant) :
    (s.intake i).state.mark a es =
      (i.order.toList.foldl RiskState.recordOrder s.state).mark a es := by
  cases i with
  | orderResult msg clock => cases msg <;> rfl
  | logEvent msg recorded clock =>
    cases msg with
    | none => rfl
    | some event =>
      by_cases hlevel : event.level = .error
      · rw [RiskSupervisorService.intake, if_pos hlevel]
        rfl
      · rw [RiskSupervisorService.intake, if_neg hlevel]
        rfl
  | configUpdate msg => cases msg <;> rfl
  | tick clock => rfl

/-- **What a step does**: it records its input, and evaluates if the input asks for it. -/
theorem riskSupervisor_step [LT α] [DecidableLT α] [NatCast α] (s : RiskSupervisorService α)
    (i : RiskInput α) :
    riskSupervisor.step s i =
      match i.evaluated with
      | some clock => (s.intake i).evaluate clock
      | none => (s.intake i, []) := by
  cases i with
  | orderResult msg clock => cases msg <;> rfl
  | logEvent msg recorded clock =>
    cases msg with
    | none => rfl
    | some event =>
      by_cases hlevel : event.level = .error <;>
        simp [riskSupervisor, evaluated, RiskSupervisorService.intake, hlevel]
  | configUpdate msg => cases msg <;> rfl
  | tick clock => rfl

end Recording

section Evaluation

variable {α : Type}

/-- The announcement of the breaker. -/
def announcement : List String := ["control.strategy.pause_all", "control.exec.block_new_orders"]

theorem triggerBreaker_inactive {s : RiskSupervisorService α}
    (h : s.status.circuitBreakerActive = false) (reason : String) (utc : DateTime) :
    (s.triggerBreaker reason utc).1.status.circuitBreakerActive = true ∧
      RiskOutput.signals (s.triggerBreaker reason utc).2 = announcement := by
  unfold RiskSupervisorService.triggerBreaker
  rw [if_neg (by simp [h])]
  exact ⟨rfl, rfl⟩

variable [Neg α] [LE α] [DecidableLE α] [LT α] [DecidableLT α] [NatCast α]

/-- A limit is exceeded as far as the state can tell. -/
def RiskSupervisorService.Exceeds (s : RiskSupervisorService α) (now : Instant) : Prop :=
  s.status.Breaches s.config ∨
    ∃ maxRate, s.config.maxErrorRatePerMinute = some maxRate ∧ maxRate < (s.pruneErrors now).1

theorem evaluate_active {s : RiskSupervisorService α} (h : s.status.circuitBreakerActive = true)
    (clock : Clocks) : s.evaluate clock = (s, []) := by
  simp [RiskSupervisorService.evaluate, h]

/-- An evaluation leaves the configuration and the bookings alone, and drops errors of more than a
minute ago if it drops any. -/
theorem evaluate_frame (s : RiskSupervisorService α) (clock : Clocks) :
    ∃ active es, (es = s.state.lastErrors ∨
        es = Window.prune (clock.now - fromSecs 60) s.state.lastErrors) ∧
      (s.evaluate clock).1 = { s with state := s.state.mark active es } := by
  unfold RiskSupervisorService.evaluate
  split_ifs with hactive hbreach
  · exact ⟨s.status.circuitBreakerActive, _, Or.inl rfl, rfl⟩
  · refine ⟨true, _, Or.inl rfl, ?_⟩
    rw [RiskSupervisorService.triggerBreaker, if_neg hactive]
    rfl
  · cases s.config.maxErrorRatePerMinute with
    | none => exact ⟨s.status.circuitBreakerActive, _, Or.inl rfl, rfl⟩
    | some maxRate =>
      dsimp only
      split_ifs with hrate
      · refine ⟨true, _, Or.inr rfl, ?_⟩
        rw [RiskSupervisorService.triggerBreaker, if_neg (by exact hactive)]
        rfl
      · exact ⟨s.status.circuitBreakerActive, _, Or.inr rfl, rfl⟩

theorem evaluate_eq {s : RiskSupervisorService α} (h : s.status.circuitBreakerActive = false)
    (clock : Clocks) :
    (s.Exceeds clock.now → ∃ s' : RiskSupervisorService α, ∃ reason,
        s'.status.circuitBreakerActive = false ∧
          s.evaluate clock = s'.triggerBreaker reason clock.utc) ∧
      (¬ s.Exceeds clock.now → ∃ s' : RiskSupervisorService α,
        s'.status.circuitBreakerActive = false ∧ s.evaluate clock = (s', [])) := by
  unfold RiskSupervisorService.evaluate RiskSupervisorService.Exceeds
  rw [if_neg (by simp [h])]
  by_cases hbreach : s.status.Breaches s.config
  · rw [if_pos hbreach]
    exact ⟨fun _ => ⟨s, _, h, rfl⟩, fun hno => absurd (Or.inl hbreach) hno⟩
  · rw [if_neg hbreach]
    cases hmax : s.config.maxErrorRatePerMinute with
    | none =>
      refine ⟨fun hex => ?_, fun _ => ⟨s, h, rfl⟩⟩
      rcases hex with hex | ⟨maxRate, hsome, -⟩
      · exact absurd hex hbreach
      · cases hsome
    | some maxRate =>
      dsimp only
      by_cases hrate : maxRate < (s.pruneErrors clock.now).1
      · rw [if_pos hrate]
        exact ⟨fun _ => ⟨(s.pruneErrors clock.now).2, _, h, rfl⟩,
          fun hno => absurd (Or.inr ⟨maxRate, rfl, hrate⟩) hno⟩
      · rw [if_neg hrate]
        refine ⟨fun hex => ?_, fun _ => ⟨(s.pruneErrors clock.now).2, h, rfl⟩⟩
        rcases hex with hex | ⟨_, hsome, hlt⟩
        · exact absurd hex hbreach
        · cases hsome
          exact absurd hlt hrate

/-- **An inactive breaker trips exactly if a limit is exceeded**, and announces that it does. -/
theorem evaluate_inactive {s : RiskSupervisorService α} (h : s.status.circuitBreakerActive = false)
    (clock : Clocks) :
    (s.Exceeds clock.now → (s.evaluate clock).1.status.circuitBreakerActive = true ∧
        RiskOutput.signals (s.evaluate clock).2 = announcement) ∧
      (¬ s.Exceeds clock.now → (s.evaluate clock).1.status.circuitBreakerActive = false ∧
        RiskOutput.signals (s.evaluate clock).2 = []) := by
  obtain ⟨htrips, hquiet⟩ := evaluate_eq h clock
  constructor
  · intro hex
    obtain ⟨s', reason, hs', heq⟩ := htrips hex
    rw [heq]
    exact triggerBreaker_inactive hs' _ _
  · intro hno
    obtain ⟨s', hs', heq⟩ := hquiet hno
    rw [heq]
    exact ⟨hs', rfl⟩

end Evaluation

/-! ### The state and the history -/

section Recorded

variable [CaseTable] {α : Type} [Zero α] [Neg α] [LE α] [DecidableLE α] [Add α] [Sub α]
  [ValuesSum α]

theorem recorded_concat (h : List (RiskInput α)) (i : RiskInput α) :
    recorded (h ++ [i]) = i.order.toList.foldl RiskState.recordOrder (recorded h) := by
  rw [recorded, orders, filterMap_concat, List.foldl_append]
  rfl

theorem foldl_recordOrder_mark (rs : List (OrderResult α)) (s : RiskState α) (a : Bool)
    (es : List Instant) :
    rs.foldl RiskState.recordOrder (s.mark a es) =
      (rs.foldl RiskState.recordOrder s).mark a es := by
  induction rs generalizing s with
  | nil => rfl
  | cons r rs ih => rw [List.foldl_cons, RiskState.recordOrder_mark, ih, List.foldl_cons]

/-- **The running state books the orders read**, whatever the clock and the breaker do. -/
theorem recorded_run [LT α] [DecidableLT α] [NatCast α] (cfg : GlobalRiskConfig α)
    (h : List (RiskInput α)) (a : Bool) (es : List Instant) :
    (riskSupervisor.run (.new cfg) h).state.mark a es = (recorded h).mark a es := by
  induction h using List.reverseRecOn with
  | nil => rfl
  | append_singleton h i ih =>
    rw [Machine.run_concat, recorded_concat, ← foldl_recordOrder_mark, ← ih,
      foldl_recordOrder_mark, ← intake_state, Machine.next, riskSupervisor_step]
    cases i.evaluated with
    | none => rfl
    | some clock =>
      obtain ⟨active, fs, -, heq⟩ :=
        evaluate_frame ((riskSupervisor.run (.new cfg) h).intake i) clock
      dsimp only
      rw [heq]
      rfl

end Recorded

section Runs

variable [CaseTable] {cfg : GlobalRiskConfig} {h : List RiskInput} {s : RiskSupervisorService}
  {i : RiskInput}

/-- The running state agrees with the history read so far. -/
structure Books (cfg : GlobalRiskConfig) (h : List RiskInput) (s : RiskSupervisorService) :
    Prop where
  /-- The configuration is the one that came last. -/
  config : s.config = configAt cfg h
  /-- The bookings are those of the orders read. -/
  state : s.state = (recorded h).mark s.state.status.circuitBreakerActive s.state.lastErrors
  /-- At any time to come, only errors of more than a minute ago are missing. -/
  retains : ∀ now, (∀ t ∈ h.flatMap instants, t ≤ now) →
    Window.Retains (now - fromSecs 60) (errors h) s.state.lastErrors

theorem books_new (cfg : GlobalRiskConfig) : Books cfg [] (RiskSupervisorService.new cfg) :=
  ⟨rfl, rfl, fun _ _ => Window.Retains.refl _ _⟩

omit [CaseTable] in
theorem configAt_concat (cfg : GlobalRiskConfig) (h : List RiskInput) (i : RiskInput) :
    configAt cfg (h ++ [i]) = i.update.getD (configAt cfg h) := by
  rw [configAt, filterMap_concat]
  cases i.update with
  | none => rw [Option.toList_none, List.append_nil]; rfl
  | some newCfg => rw [Option.toList_some, List.getLast?_concat]; rfl

/-- **The recording part of a step keeps the agreement.** -/
theorem Books.intake (hb : Books cfg h s) (i : RiskInput) : Books cfg (h ++ [i]) (s.intake i) := by
  refine ⟨?_, ?_, ?_⟩
  · rw [intake_config, configAt_concat, hb.config]
  · have hmark := intake_state s i (s.intake i).state.status.circuitBreakerActive
      (s.intake i).state.lastErrors
    rw [hb.state, foldl_recordOrder_mark, RiskState.mark_mark, ← recorded_concat] at hmark
    exact hmark
  · intro now hnow
    have hearlier := hb.retains now fun t ht =>
      hnow t (by rw [List.flatMap_append]; exact List.mem_append_left _ ht)
    rw [(intake_frame s i).1, errors, filterMap_concat]
    cases i.errorAt with
    | none => rwa [Option.toList_none, List.append_nil, List.append_nil]
    | some t => exact hearlier.record t

/-- **An evaluation keeps the agreement.** -/
theorem Books.evaluate (hb : Books cfg h s) {clock : Clocks}
    (hnow : clock.now ∈ h.flatMap instants) : Books cfg h (s.evaluate clock).1 := by
  obtain ⟨active, es, hes, heq⟩ := evaluate_frame s clock
  rw [heq]
  refine ⟨hb.config, ?_, ?_⟩
  · show s.state.mark active es = (recorded h).mark active es
    rw [hb.state, RiskState.mark_mark]
  · intro now hle
    have hkeep := hb.retains now hle
    rcases hes with rfl | rfl
    · exact hkeep
    · exact hkeep.prune (sub_le_sub_right (hle _ hnow) _)

/-- **A state that agrees with the history sees a breach when there is one.** -/
theorem Books.exceeds_iff (hb : Books cfg h s) (hc : Chronological h) {now : Instant}
    (hnow : ∀ t ∈ h.flatMap instants, t ≤ now) :
    s.Exceeds now ↔ (recorded h).status.Breaches (configAt cfg h) ∨
      ∃ maxRate, (configAt cfg h).maxErrorRatePerMinute = some maxRate ∧
        maxRate < errorRate h now := by
  have hsorted : (errors h).Pairwise (· ≤ ·) := hc.sublist (errors_sublist h)
  have hcount : (s.pruneErrors now).1 = errorRate h now :=
    congrArg List.length ((hb.retains now hnow).prune_eq hsorted)
  have hstatus : s.status.Breaches s.config ↔ (recorded h).status.Breaches (configAt cfg h) := by
    rw [hb.config, RiskSupervisorService.status, hb.state, RiskState.mark_breaches]
  rw [RiskSupervisorService.Exceeds, hstatus, hcount, hb.config]

/-- An evaluated input is a breach exactly if the state it leaves exceeds a limit. -/
theorem Books.breach_iff (hb : Books cfg h s) (hc : Chronological (h ++ [i])) {clock : Clocks}
    (hi : i.evaluated = some clock) : Breach cfg h i ↔ (s.intake i).Exceeds clock.now := by
  rw [(hb.intake i).exceeds_iff hc (hc.le_now hi), Breach]
  constructor
  · rintro ⟨clock', hi', hbreach⟩
    rw [hi, Option.some.injEq] at hi'
    rw [hi']
    exact hbreach
  · exact fun hbreach => ⟨clock, hi, hbreach⟩

/-- **The step lemma of the breaker**: a step keeps the agreement with the history, activates the
breaker exactly at a breach, and announces it exactly when it flips. -/
theorem breaker_step (hb : Books cfg h s) (hc : Chronological (h ++ [i])) :
    Books cfg (h ++ [i]) (riskSupervisor.next s i) ∧
      ((riskSupervisor.next s i).status.circuitBreakerActive = true ↔
        s.status.circuitBreakerActive = true ∨ Breach cfg h i) ∧
      RiskOutput.signals (riskSupervisor.emit s i) =
        if s.status.circuitBreakerActive = false ∧
          (riskSupervisor.next s i).status.circuitBreakerActive = true
        then announcement else [] := by
  have hsame : (s.intake i).status.circuitBreakerActive = s.status.circuitBreakerActive :=
    (intake_frame s i).2
  unfold Machine.next Machine.emit
  rw [riskSupervisor_step]
  cases hi : i.evaluated with
  | none =>
    -- an input that is not evaluated is no breach
    have hno : ¬ Breach cfg h i := by
      rintro ⟨clock, hclock, -⟩
      rw [hi] at hclock
      cases hclock
    refine ⟨hb.intake i, ?_, ?_⟩
    · dsimp only
      rw [hsame]
      simp [hno]
    · cases hactive : s.status.circuitBreakerActive <;> simp [hsame, hactive, RiskOutput.signals]
  | some clock =>
    -- the clock of the evaluation is a reading of the history, so pruning at it is harmless
    have hread : clock.now ∈ (h ++ [i]).flatMap instants := by simp [instants, hi]
    refine ⟨(hb.intake i).evaluate hread, ?_⟩
    rw [hb.breach_iff hc hi]
    dsimp only
    cases hactive : s.status.circuitBreakerActive with
    | true =>
      have hnone := evaluate_active (hsame.trans hactive) clock
      simp [hnone, hsame, hactive, RiskOutput.signals]
    | false =>
      obtain ⟨htrip, hquiet⟩ := evaluate_inactive (hsame.trans hactive) clock
      by_cases hex : (s.intake i).Exceeds clock.now
      · obtain ⟨hflag, hsig⟩ := htrip hex
        simp [hflag, hsig, hex]
      · obtain ⟨hflag, hsig⟩ := hquiet hex
        simp [hflag, hsig, hex]

/-- **The run lemma of the breaker.** -/
theorem breaker_history (cfg : GlobalRiskConfig) (h : List RiskInput) :
    Chronological h →
      Books cfg h (riskSupervisor.run (.new cfg) h) ∧
        ((riskSupervisor.run (.new cfg) h).status.circuitBreakerActive = true ↔
          Once (Breach cfg) h) ∧
        (Once (Breach cfg) h →
          RiskOutput.signals (riskSupervisor.output (.new cfg) h) = announcement) ∧
        (¬ Once (Breach cfg) h →
          RiskOutput.signals (riskSupervisor.output (.new cfg) h) = []) := by
  refine Machine.history_induction (M := riskSupervisor) (Q := fun _ => True)
    (P := fun h t o => Chronological h → Books cfg h t ∧
      (t.status.circuitBreakerActive = true ↔ Once (Breach cfg) h) ∧
      (Once (Breach cfg) h → RiskOutput.signals o = announcement) ∧
      (¬ Once (Breach cfg) h → RiskOutput.signals o = [])) ?_ ?_ fun _ _ => trivial
  · intro _
    refine ⟨books_new cfg, ?_, fun h => absurd h once_nil, fun _ => rfl⟩
    simp [RiskSupervisorService.new, RiskSupervisorService.status, RiskState.initial,
      RiskStatus.default]
  · intro h t o i ht _ hc
    obtain ⟨hb, hflag, hloud, hsilent⟩ := ht hc.left
    obtain ⟨hb', hflip, hsig⟩ := breaker_step hb hc
    have hsplit : RiskOutput.signals (o ++ riskSupervisor.emit t i) =
        RiskOutput.signals o ++ RiskOutput.signals (riskSupervisor.emit t i) :=
      List.filterMap_append
    rw [hsplit, hsig, once_concat]
    refine ⟨hb', by rw [hflip, hflag], ?_⟩
    -- either the breaker was announced before, or it is announced now, or there is nothing to say
    by_cases honce : Once (Breach cfg) h
    · have hactive := hflag.2 honce
      simp [hactive, hloud honce, honce]
    · have hinactive : t.status.circuitBreakerActive = false := by
        simpa using fun hactive => honce (hflag.1 hactive)
      by_cases hbreach : Breach cfg h i <;> simp [hsilent honce, hflip, hinactive, honce, hbreach]

/-- **The breaker is sound and complete.**  After every history with a clock that does not go back
the breaker is active iff some evaluated input of it found a limit of the configuration then in
force breached.  `control.strategy.pause_all` and `control.exec.block_new_orders` are published in
this order, once if there was a breach and never if not, and by a step exactly if the flag flips
at it. -/
theorem breaker_run (cfg : GlobalRiskConfig) {h : List RiskInput} (hc : Chronological h) :
    ((riskSupervisor.run (.new cfg) h).status.circuitBreakerActive = true ↔
        Once (Breach cfg) h) ∧
      (Once (Breach cfg) h → RiskOutput.signals (riskSupervisor.output (.new cfg) h) =
        ["control.strategy.pause_all", "control.exec.block_new_orders"]) ∧
      (¬ Once (Breach cfg) h →
        RiskOutput.signals (riskSupervisor.output (.new cfg) h) = []) ∧
      ∀ pre i post, h = pre ++ i :: post →
        RiskOutput.signals (riskSupervisor.emit (riskSupervisor.run (.new cfg) pre) i) =
          if (riskSupervisor.run (.new cfg) pre).status.circuitBreakerActive = false ∧
            (riskSupervisor.run (.new cfg) (pre ++ [i])).status.circuitBreakerActive = true then
              ["control.strategy.pause_all", "control.exec.block_new_orders"]
          else [] := by
  obtain ⟨-, hflag, hloud, hsilent⟩ := breaker_history cfg h hc
  refine ⟨hflag, hloud, hsilent, ?_⟩
  rintro pre i post rfl
  have hpre : Chronological (pre ++ [i]) := by
    rw [List.append_cons] at hc
    exact hc.left
  obtain ⟨hb, -⟩ := breaker_history cfg pre hpre.left
  rw [Machine.run_concat]
  exact (breaker_step hb hpre).2.2

end Runs

/-- A map that iterates in the order of its keys. -/
@[reducible] def keyOrder : HashOrder where
  values m := (m.keys.sort (· ≤ ·)).map m.amount
  perm m := by
    rw [← Multiset.map_coe, Finset.sort_eq]
    show (m.entries.map Sigma.fst).map m.amount = _
    rw [Multiset.map_map]
    refine Multiset.map_congr rfl fun e he => ?_
    exact Amounts.amount_of_lookup (Finmap.lookup_eq_some_iff.2 he)

/-- The supervisor on ASCII symbols. -/
abbrev sampleSupervisor : Machine RiskSupervisorService RiskInput RiskOutput :=
  letI := asciiCase
  riskSupervisor

/-- Limits that a loss of 100 breaches. -/
def lossLimits (α : Type := ℚ) [NatCast α] : GlobalRiskConfig α where
  maxDailyLossPct := 5
  maxDailyLossAbs := 100
  maxTotalNotional := 1000000
  maxOpenPositions := 10
  maxErrorRatePerMinute := none

/-- A filled buy of 200. -/
def lossOrder (α : Type := ℚ) [NatCast α] : OrderResult α where
  commandId := "1"
  exchange := .okx
  symbol := ⟨"BTC", "USDT"⟩
  side := .buy
  status := .filled
  filledSizeQuote := 200
  avgPrice := 20000
  ts := 0
  traceId := none

/-- A tick, the order, and a tick. -/
def lossRun : List RiskInput :=
  [.tick ⟨0, 0⟩, .orderResult (some lossOrder) ⟨1, 1⟩, .tick ⟨5, 5⟩]

theorem breaker_run_sample :
    Once (@Breach asciiCase lossLimits) lossRun ∧
      RiskOutput.signals (sampleSupervisor.output (.new lossLimits) lossRun) =
        ["control.strategy.pause_all", "control.exec.block_new_orders"] := by
  have hclock : Chronological lossRun := by
    unfold Chronological
    decide
  have hrun := @breaker_run asciiCase lossLimits lossRun hclock
  have hactive :
      (sampleSupervisor.run (.new lossLimits) lossRun).status.circuitBreakerActive = true := by
    decide +kernel
  exact ⟨hrun.1.1 hactive, hrun.2.1 (hrun.1.1 hactive)⟩

end W2uos
