import W2uos.Amounts.Basic
import W2uos.Exec.Okx
import W2uos.System.Machine

/-!
# The execution service

`ExecutionService` executes order commands, on the exchange or on a simulated ledger, and follows
configuration updates.  Its run loop takes one message at a time; `block_new_orders` is set and
cleared by two other tasks, and `handle_command` reads it once, first thing, so an interleaving of
the loop with these tasks is an order of whole messages and flag changes.

* `ExecutionService.new` : the service built from a configuration;
* `ExecutionService.handleCommand` : one order command;
* `ExecutionService.updateConfig` : one message on `control.config.update.execution`;
* `executionService` : the run loop with the block and reset tasks, as a machine.
-/

namespace W2uos

/-- Where orders are executed. -/
inductive ExecutionMode
  | simulated
  | liveOkx
  deriving DecidableEq

/-- Configuration of the execution service. -/
structure ExecutionConfig (α : Type := ℚ) where
  initialBalanceUsdt : α
  netProfile : NetProfile
  liveTradingEnabled : Bool
  mode : ExecutionMode
  okx : Option OkxExecutionConfig
  deriving DecidableEq

/-- `ExecutionConfig::default`. -/
def ExecutionConfig.default : ExecutionConfig where
  initialBalanceUsdt := 100000
  netProfile := NetProfile.default
  liveTradingEnabled := false
  mode := .simulated
  okx := none

/-- The simulated ledger: the balance and the units held of every symbol. -/
@[ext] structure ExecutionState (α : Type := ℚ) where
  balanceUsdt : α
  positions : Amounts String α
  deriving DecidableEq

/-- The execution service. -/
structure ExecutionService (α : Type := ℚ) where
  config : ExecutionConfig α
  state : ExecutionState α
  fillCounter : α
  httpClient : Client
  trafficShaper : TrafficShaper
  blockNewOrders : Bool
  okxClient : Option OkxClient
  deriving DecidableEq

/-- The OKX client of a configuration section. -/
def OkxExecutionConfig.client (okxCfg : OkxExecutionConfig) (httpClient : Client)
    (trafficShaper : TrafficShaper) : OkxClient where
  restBaseUrl := okxCfg.restBaseUrl
  credentials := okxCfg.credentials
  httpClient := httpClient
  trafficShaper := trafficShaper

section Ledger

variable {α : Type} [Zero α] [Div α] [LT α] [DecidableLT α]

/-- The part of the ledger a fill at `fillPrice` turns a quote amount into. -/
def baseUnits (sizeQuote fillPrice : α) : α := if 0 < fillPrice then sizeQuote / fillPrice else 0

/-- Execute an order on the simulated ledger at the given price. -/
def ExecutionState.fill [CaseTable] [Add α] [Sub α] [LE α] [DecidableLE α]
    (state : ExecutionState α) (cmd : OrderCommand α) (fillPrice : α) :
    ExecutionState α × OrderStatus :=
  let key := symbolKey cmd.symbol
  let units := baseUnits cmd.sizeQuote fillPrice
  let entry := state.positions.amount key
  match cmd.side with
  | .buy =>
    if cmd.sizeQuote ≤ state.balanceUsdt then
      ({ balanceUsdt := state.balanceUsdt - cmd.sizeQuote
         positions := state.positions.insert key (entry + units) }, .filled)
    else (state, .rejected "insufficient balance")
  | .sell =>
    if units ≤ entry then
      ({ balanceUsdt := state.balanceUsdt + cmd.sizeQuote
         positions := state.positions.insert key (entry - units) }, .filled)
    else
      -- the entry has been created by `or_default` and stays
      ({ state with positions := state.positions.insert key entry },
        .rejected "insufficient position")

end Ledger

/-- What handling one command leaves behind. -/
structure Handled (α : Type := ℚ) where
  /-- The service afterwards. -/
  service : ExecutionService α
  /-- The requests that reached the exchange. -/
  submitted : List (OkxOrderRequest α)
  /-- The result, or the error of the exchange client. -/
  result : Except String (OrderResult α)

/-- The result of a command, apart from how it was executed. -/
def OrderCommand.result {α : Type} (cmd : OrderCommand α) (status : OrderStatus)
    (filledSizeQuote avgPrice : α) (ts : DateTime) : OrderResult α where
  commandId := cmd.id
  exchange := cmd.exchange
  symbol := cmd.symbol
  side := cmd.side
  status := status
  filledSizeQuote := filledSizeQuote
  avgPrice := avgPrice
  ts := ts
  traceId := cmd.traceId

/-- The status an answer of the exchange stands for. -/
def OkxOrderResponse.status (resp : OkxOrderResponse) : OrderStatus :=
  match resp.data.head?.bind (·.sCode) with
  | none => .new
  | some code =>
    if code = "0" then .new else .rejected ((resp.data.head?.bind (·.sMsg)).getD code)

namespace ExecutionService

variable {α : Type}

section Construction

variable [Reqwest]

/-- The service built from a configuration. -/
def new [NatCast α] (config : ExecutionConfig α) : Except String (ExecutionService α) := do
  let (httpClient, trafficShaper) ← buildClientAndShaper config.netProfile
  return {
    config := config
    state := { balanceUsdt := config.initialBalanceUsdt, positions := ∅ }
    fillCounter := 30000
    httpClient := httpClient
    trafficShaper := trafficShaper
    blockNewOrders := false
    okxClient :=
      if config.liveTradingEnabled then
        config.okx.map fun okxCfg => okxCfg.client httpClient trafficShaper
      else none }

/-- Follow a configuration received on `control.config.update.execution`. -/
def updateConfig (s : ExecutionService α) (newCfg : ExecutionConfig α) : ExecutionService α :=
  let s := match buildClientAndShaper newCfg.netProfile with
    | .ok (newClient, newShaper) => { s with httpClient := newClient, trafficShaper := newShaper }
    | .error _ => s
  let okxClient :=
    if newCfg.liveTradingEnabled then
      match newCfg.okx with
      | some okxCfg => some (okxCfg.client s.httpClient s.trafficShaper)
      | none => s.okxClient
    else none
  { s with okxClient := okxClient, config := newCfg }

end Construction

/-- The price of the next fill: the limit price, or the next value of the fill counter. -/
def nextFillPrice [Add α] [NatCast α] (s : ExecutionService α) (limit : Option α) :
    α × ExecutionService α :=
  match limit with
  | some price => (price, s)
  | none => (s.fillCounter + 10, { s with fillCounter := s.fillCounter + 10 })

section Commands

variable [CaseTable] [Zero α] [Add α] [Sub α] [Div α] [LT α] [DecidableLT α] [LE α] [DecidableLE α]
  [NatCast α]

/-- Execute a command on the simulated ledger. -/
def simulate (s : ExecutionService α) (cmd : OrderCommand α) (now : DateTime) : Handled α :=
  let (fillPrice, s) := s.nextFillPrice cmd.limitPrice
  let (state, status) := s.state.fill cmd fillPrice
  let filled := status = .filled
  { service := { s with state := state }
    submitted := []
    result := .ok (cmd.result status (if filled then cmd.sizeQuote else 0)
      (if filled then fillPrice else 0) now) }

/-- Execute a command on the exchange. -/
def submit (s : ExecutionService α) (client : OkxClient) (cmd : OrderCommand α) (now : DateTime)
    (exchange : OkxOrderRequest α → Transmission) : Handled α :=
  let (submitted, answer) := client.placeOrder cmd exchange
  { service := s
    submitted := submitted
    result := answer.map fun resp => cmd.result resp.status 0 0 now }

/-- Handle one order command. -/
def handleCommand (s : ExecutionService α) (cmd : OrderCommand α) (now : DateTime)
    (exchange : OkxOrderRequest α → Transmission) : Handled α :=
  if s.blockNewOrders then
    { service := s
      submitted := []
      result := .ok (cmd.result (.rejected "circuit breaker active") 0 0 now) }
  else
    match s.config.mode, s.okxClient with
    | .liveOkx, some client => s.submit client cmd now exchange
    -- live mode without a client falls through to the simulator
    | .liveOkx, none => s.simulate cmd now
    | .simulated, _ => s.simulate cmd now

end Commands

/-- The balance and the positions, as the API reads them. -/
def positions (s : ExecutionService α) : α × Amounts String α :=
  (s.state.balanceUsdt, s.state.positions)

end ExecutionService

/-! ### The run loop -/

/-- What the service reacts to: a message on `orders.command` (or the error of decoding it) with
the time it is handled at and what the exchange does with a request, a message on
`control.config.update.execution` (`none` when it does not decode), and a message on
`control.exec.block_new_orders` or `control.exec.reset_circuit`. -/
inductive ExecInput (α : Type := ℚ)
  | command (msg : Except String (OrderCommand α)) (now : DateTime)
      (exchange : OkxOrderRequest α → Transmission)
  | configUpdate (msg : Option (ExecutionConfig α))
  | blockNewOrders
  | resetCircuit

/-- What the service sends out: requests to the exchange, and messages on `orders.result`,
`log.event` and `log.trade`. -/
inductive ExecOutput (α : Type := ℚ)
  | submit (request : OkxOrderRequest α)
  | result (result : OrderResult α)
  | log (evt : LogEvent)
  | trade (trade : TradeRecord α)
  deriving DecidableEq

section Messages

variable {α : Type}

/-- The log event of a published result. -/
def OrderResult.logEvent (result : OrderResult α) (cmd : OrderCommand α) : LogEvent where
  ts := result.ts
  level := .info
  source := .execution
  message := "order result"
  fields := [("stage", .text "order_result"), ("status", .text result.status.debug)]
  correlationId := some cmd.id
  traceId := result.traceId

/-- The trade record of a published result. -/
def OrderResult.tradeRecord (result : OrderResult α) (cmd : OrderCommand α) : TradeRecord α where
  id := result.commandId
  ts := result.ts
  exchange := cmd.exchange.toText
  symbol := cmd.symbol
  side := match cmd.side with
    | .buy => .buy
    | .sell => .sell
  sizeQuote := result.filledSizeQuote
  price := result.avgPrice
  status := match result.status with
    | .filled => .filled
    | .rejected reason => .rejected reason
    | .new => .rejected "not filled"
  strategyId := none
  correlationId := some cmd.id

/-- The messages that follow a handled command. -/
def Handled.messages (h : Handled α) (cmd : OrderCommand α) (now : DateTime) :
    List (ExecOutput α) :=
  match h.result with
  | .ok result =>
    [.result result, .log (result.logEvent cmd), .trade (result.tradeRecord cmd)]
  | .error err =>
    [.log
      { ts := now
        level := .error
        source := .execution
        message := "failed to handle order command"
        fields := [("error", .text err)]
        correlationId := some cmd.id
        traceId := cmd.traceId }]

/-- The log event of a command that does not decode. -/
def parseFailure (err : String) (now : DateTime) : LogEvent where
  ts := now
  level := .warn
  source := .execution
  message := "failed to parse order command"
  fields := [("error", .text err)]
  correlationId := none
  traceId := none

/-- The run loop of the execution service with its block and reset tasks. -/
def executionService [CaseTable] [Reqwest] [Zero α] [Add α] [Sub α] [Div α] [LT α] [DecidableLT α]
    [LE α] [DecidableLE α] [NatCast α] :
    Machine (ExecutionService α) (ExecInput α) (ExecOutput α) where
  step s
    | .command (.ok cmd) now exchange =>
      let h := s.handleCommand cmd now exchange
      (h.service, h.submitted.map .submit ++ h.messages cmd now)
    | .command (.error err) now _ => (s, [.log (parseFailure err now)])
    | .configUpdate (some newCfg) => (s.updateConfig newCfg, [])
    | .configUpdate none => (s, [])
    | .blockNewOrders => ({ s with blockNewOrders := true }, [])
    | .resetCircuit => ({ s with blockNewOrders := false }, [])

end Messages

end W2uos
