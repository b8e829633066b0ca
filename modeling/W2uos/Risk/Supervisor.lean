import W2uos.Amounts.Basic
import W2uos.Exec.Types
import W2uos.System.Binary64
import W2uos.System.Machine
import W2uos.System.Window

/-!
# The risk supervisor

`RiskSupervisorService` books the results of orders and the times of errors, and trips a circuit
breaker when a limit of its configuration is breached.  The loop `run` takes one message at a time;
after an order result, an error event or a tick it evaluates the limits.

* `RiskState.recordOrder`, `RiskState.recordError` : what is booked;
* `RiskSupervisorService.evaluate`, `RiskSupervisorService.triggerBreaker` : the breaker;
* `RiskSupervisorService.resetCircuit` : the reset the API calls;
* `riskSupervisor` : the run loop, as a machine.
-/

namespace W2uos

/-- The limits of the supervisor. -/
structure GlobalRiskConfig (α : Type := ℚ) where
  maxDailyLossPct : α
  maxDailyLossAbs : α
  maxTotalNotional : α
  maxOpenPositions : ℕ
  maxErrorRatePerMinute : Option α
  deriving DecidableEq

/-- `GlobalRiskConfig::default`. -/
def GlobalRiskConfig.default : GlobalRiskConfig where
  maxDailyLossPct := 5
  maxDailyLossAbs := 10000
  maxTotalNotional := 250000
  maxOpenPositions := 25
  maxErrorRatePerMinute := some 10

/-- What the supervisor reports. -/
structure RiskStatus (α : Type := ℚ) where
  dailyPnlQuote : α
  totalNotional : α
  openPositions : ℕ
  circuitBreakerActive : Bool
  deriving DecidableEq

/-- `RiskStatus::default`. -/
def RiskStatus.default {α : Type} [Zero α] : RiskStatus α where
  dailyPnlQuote := 0
  totalNotional := 0
  openPositions := 0
  circuitBreakerActive := false

/-- The state behind the supervisor's lock. -/
structure RiskState (α : Type := ℚ) where
  status : RiskStatus α
  /-- The times of the errors not yet dropped, oldest first. -/
  lastErrors : List Instant
  /-- The quote amount held of every symbol. -/
  exposure : Amounts String α
  deriving DecidableEq

/-- The state a supervisor starts with. -/
def RiskState.initial {α : Type} [Zero α] : RiskState α where
  status := RiskStatus.default
  lastErrors := []
  exposure := ∅

/-- A handle of the supervisor: its configuration and its state. -/
structure RiskSupervisorService (α : Type := ℚ) where
  config : GlobalRiskConfig α
  state : RiskState α
  deriving DecidableEq

/-- What the supervisor puts on the bus: an empty message on a control subject, or an event on
`log.event`. -/
inductive RiskOutput
  | signal (subject : String)
  | log (evt : LogEvent)
  deriving DecidableEq

/-- The control subjects on which something was published, in order. -/
def RiskOutput.signals (os : List RiskOutput) : List String :=
  os.filterMap fun
    | .signal subject => some subject
    | .log _ => none

/-- The clocks an evaluation reads. -/
structure Clocks where
  now : Instant
  utc : DateTime
  deriving DecidableEq

/-- `Duration::from_secs`. -/
def fromSecs (n : ℤ) : ℤ := n * 1000000000

/-- `values().copied().sum()` on the map of exposures. -/
class ValuesSum (α : Type) where
  valuesSum : Amounts String α → α

/-- The order in which the map iterates is of no importance for rationals. -/
instance : ValuesSum ℚ := ⟨Amounts.total⟩

@[simp] theorem valuesSum_rat (m : Amounts String ℚ) : ValuesSum.valuesSum m = m.total := rfl

/-- The order in which a map iterates. -/
class HashOrder where
  values : Amounts String Float → List Float
  perm : ∀ m, (values m : Multiset Float) = m.entries.map fun e => e.2

instance [HashOrder] : ValuesSum Float := ⟨fun m => (HashOrder.values m).foldl (· + ·) 0⟩

theorem valuesSum_empty [HashOrder] : ValuesSum.valuesSum (∅ : Amounts String Float) = 0 := by
  have hnil : HashOrder.values (∅ : Amounts String Float) = [] :=
    (Multiset.coe_eq_zero _).1 ((HashOrder.perm ∅).trans (Multiset.map_zero _))
  show (HashOrder.values (∅ : Amounts String Float)).foldl (· + ·) 0 = 0
  rw [hnil]
  rfl

section Figures

variable {α : Type} [Zero α] [Neg α] [LE α] [DecidableLE α] [LT α] [DecidableLT α]

/-- Book the result of an order. -/
def RiskState.recordOrder [CaseTable] [Add α] [Sub α] [ValuesSum α] (s : RiskState α)
    (result : OrderResult α) : RiskState α :=
  match result.status with
  | .filled =>
    let key := symbolKey result.symbol
    let entry := s.exposure.amount key
    let (exposureValue, pnlDelta) := match result.side with
      | .buy => (entry + result.filledSizeQuote, -result.filledSizeQuote)
      | .sell => (entry - result.filledSizeQuote, result.filledSizeQuote)
    let exposure := s.exposure.insert key exposureValue
    let exposure := if exposureValue ≤ 0 then exposure.erase key else exposure
    { s with
      exposure := exposure
      status := { s.status with
        dailyPnlQuote := s.status.dailyPnlQuote + pnlDelta
        totalNotional := ValuesSum.valuesSum exposure
        openPositions := exposure.keys.card } }
  | .new | .rejected _ => s

omit [Zero α] [Neg α] [LE α] [DecidableLE α] [LT α] [DecidableLT α] in
/-- Note the time of an error. -/
def RiskState.recordError (s : RiskState α) (now : Instant) : RiskState α :=
  { s with lastErrors := s.lastErrors ++ [now] }

/-- One of the limits on loss, notional and positions is breached. -/
def RiskStatus.Breaches (status : RiskStatus α) (config : GlobalRiskConfig α) : Prop :=
  status.dailyPnlQuote ≤ -config.maxDailyLossAbs ∨ config.maxTotalNotional < status.totalNotional ∨
    config.maxOpenPositions < status.openPositions

instance (status : RiskStatus α) (config : GlobalRiskConfig α) :
    Decidable (status.Breaches config) :=
  inferInstanceAs (Decidable (_ ∨ _ ∨ _))

namespace RiskSupervisorService

/-- A supervisor with a configuration. -/
def new (config : GlobalRiskConfig α) : RiskSupervisorService α where
  config := config
  state := RiskState.initial

/-- The reported status. -/
def status (s : RiskSupervisorService α) : RiskStatus α := s.state.status

/-- Set the flag of the breaker. -/
def setCircuitBreaker (s : RiskSupervisorService α) (active : Bool) : RiskSupervisorService α :=
  { s with state := { s.state with status := { s.state.status with
      circuitBreakerActive := active } } }

/-- Drop the errors of more than a minute ago, and count the others. -/
def pruneErrors (s : RiskSupervisorService α) (now : Instant) : ℕ × RiskSupervisorService α :=
  let lastErrors := Window.prune (now - fromSecs 60) s.state.lastErrors
  (lastErrors.length, { s with state := { s.state with lastErrors := lastErrors } })

/-- Trip the breaker. -/
def triggerBreaker (s : RiskSupervisorService α) (reason : String) (utc : DateTime) :
    RiskSupervisorService α × List RiskOutput :=
  if s.status.circuitBreakerActive then (s, [])
  else
    (s.setCircuitBreaker true,
      [.signal "control.strategy.pause_all",
        .signal "control.exec.block_new_orders",
        .log
          { ts := utc
            level := .error
            source := .kernel
            message := "circuit breaker triggered"
            fields := [("reason", .text reason)]
            correlationId := none
            traceId := none }])

/-- Compare the state with the limits. -/
def evaluate [NatCast α] (s : RiskSupervisorService α) (clock : Clocks) :
    RiskSupervisorService α × List RiskOutput :=
  if s.status.circuitBreakerActive then (s, [])
  else if s.status.Breaches s.config then s.triggerBreaker "risk limits breached" clock.utc
  else
    match s.config.maxErrorRatePerMinute with
    | none => (s, [])
    | some maxRate =>
      let (errorRate, s) := s.pruneErrors clock.now
      if maxRate < errorRate then s.triggerBreaker "error rate exceeded" clock.utc else (s, [])

/-- Reset the breaker. -/
def resetCircuit (s : RiskSupervisorService α) :
    RiskSupervisorService α × List RiskOutput :=
  (s.setCircuitBreaker false,
    [.signal "control.exec.reset_circuit", .signal "control.strategy.resume_all"])

end RiskSupervisorService

/-! ### The run loop -/

/-- What the loop reacts to: a message on `orders.result`, on `log.event` or on
`control.config.update.risk` (`none` when it does not decode), and its ticker.  With each come the
clocks it is handled at. -/
inductive RiskInput (α : Type := ℚ)
  | orderResult (msg : Option (OrderResult α)) (clock : Clocks)
  | logEvent (msg : Option LogEvent) (recorded : Instant) (clock : Clocks)
  | configUpdate (msg : Option (GlobalRiskConfig α))
  | tick (clock : Clocks)

/-- The run loop of the supervisor. -/
def riskSupervisor [CaseTable] [Add α] [Sub α] [ValuesSum α] [NatCast α] :
    Machine (RiskSupervisorService α) (RiskInput α) RiskOutput where
  step s
    | .orderResult (some result) clock =>
      ({ s with state := s.state.recordOrder result } : RiskSupervisorService α).evaluate clock
    | .orderResult none _ => (s, [])
    | .logEvent (some event) recorded clock =>
      if event.level = .error then
        ({ s with state := s.state.recordError recorded } : RiskSupervisorService α).evaluate clock
      else (s, [])
    | .logEvent none _ _ => (s, [])
    | .configUpdate (some newCfg) => ({ s with config := newCfg }, [])
    | .configUpdate none => (s, [])
    | .tick clock => s.evaluate clock

end Figures

end W2uos
