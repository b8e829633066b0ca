import W2uos.Backtest.Engine
import W2uos.Node.Whole
import W2uos.System.Broker

/-!
# A live node and its backtests

The strategy host, the execution service and the backtests of a live node on their bus, as `main`
wires them.  The host subscribes to the markets the node has a feed of, one after the other, and
each subscription has a task that hands snapshots to the engine and publishes on `orders.command`.
The execution service publishes that it has started, subscribes to its commands and configurations,
and handles one message after the other.  A backtest loads its snapshots, subscribes to
`orders.result` with a task for its metrics, and publishes the snapshots on the subjects of their
markets.

All of this goes through the bus with its fair lock and its bounded channels.  Everybody else on it
(the feeds, the other services, requests and streams of the API) may publish whatever and whenever
they like, subscribe to any subject, be slow, and leave.

* `LiveNode` : the node.
* `liveNode` : its steps, for an engine.
* `LiveNode.live` : the node without its backtests.
-/

namespace W2uos

/-- The tasks on the bus of a node. -/
inductive NodeParty
  /-- The task that subscribes for the host. -/
  | host
  /-- The task of a subscription of the host. -/
  | strategy (k : ℕ)
  | exec
  | backtest
  | other (n : ℕ)
  deriving DecidableEq

/-- The channels on the bus of a node. -/
inductive NodeChannel
  /-- The channel of a subscription of the host. -/
  | market (k : ℕ)
  | commands
  | config
  /-- The channel of the metrics of a backtest. -/
  | metrics (n : ℕ)
  | other (n : ℕ)
  deriving DecidableEq

/-- The bus of a node. -/
abbrev NodeBus := Broker NodeParty NodeChannel String BusPayload

/-- What a task of a node asks the bus for. -/
abbrev NodeRequest := Broker.Request NodeParty NodeChannel String BusPayload

/-- A payload where a configuration is expected. -/
def BusPayload.asExecution : BusPayload → Option ExecutionConfig
  | config (.execution cfg) => some cfg
  | _ => none

/-- The task of a subscription of the host, and what it has still to publish. -/
structure MarketTask where
  pair : PairId
  outbox : List HostOutput
  deriving DecidableEq

/-- A backtest that runs: the number of its metrics, whether these are subscribed, and what it has
still to publish. -/
structure RunningBacktest where
  number : ℕ
  subscribed : Bool
  snaps : List MarketSnapshot
  deriving DecidableEq

/-- A live node. -/
structure LiveNode (σ : Type) where
  bus : NodeBus
  engine : σ
  paused : Bool
  /-- The markets the host has still to subscribe to. -/
  pairs : List PairId
  /-- The tasks of the subscriptions of the host. -/
  tasks : List MarketTask
  exec : ExecutionService
  /-- What the execution service asks for before its loop. -/
  startup : List NodeRequest
  /-- What it has still to publish. -/
  outbox : List ExecOutput
  /-- The commands it has handled, and the orders it has submitted. -/
  handled : List OrderCommand
  submitted : List OkxOrderRequest
  backtest : Option RunningBacktest
  /-- How many backtests have been started. -/
  backtests : ℕ

/-- What the execution service asks for before its loop. -/
def execStartup (event : LogEvent) : List NodeRequest :=
  [.publish .exec "log.event" (.event event),
    .subscribe .exec .commands ordersCommand,
    .subscribe .exec .config "control.config.update.execution"]

/-- A node whose services have just been started. -/
def LiveNode.start {σ : Type} (cfg : NodeConfig) (init : σ) (exec : ExecutionService)
    (event : LogEvent) : LiveNode σ where
  bus := .new
  engine := init
  paused := false
  pairs := cfg.startBot.pairs
  tasks := []
  exec := exec
  startup := execStartup event
  outbox := []
  handled := []
  submitted := []
  backtest := none
  backtests := 0

/-- What happens in a node. -/
inductive NodeAction
  /-- A task or a channel takes its next step on the bus. -/
  | bus (a : Broker.Action NodeParty NodeChannel String BusPayload)
  /-- A task of the host takes a message. -/
  | take (k : ℕ) (fresh : TraceId) (utc : DateTime)
  | pause (paused : Bool)
  /-- The execution service handles its next command. -/
  | execute (now : DateTime) (exchange : OkxOrderRequest → Transmission)
  /-- It takes its next configuration. -/
  | configure
  /-- It blocks new orders, or is reset. -/
  | block (value : Bool)
  /-- `BacktestCoordinator::start`, with what is in the store. -/
  | startBacktest (config : BacktestConfig) (store : HistoricalStore)
  /-- The engine of the backtest returns. -/
  | endBacktest

/-- What the backtest asks the bus for next. -/
def RunningBacktest.wants [CaseTable] (task : RunningBacktest) : Option NodeRequest :=
  if task.subscribed then
    task.snaps.head?.map fun snap => .publish .backtest snap.subject (.snapshot snap)
  else some (.subscribe .backtest (.metrics task.number) "orders.result")

/-- One more of its requests has been done. -/
def RunningBacktest.done (task : RunningBacktest) : RunningBacktest :=
  if task.subscribed then { task with snaps := task.snaps.tail }
  else { task with subscribed := true }

namespace LiveNode

variable {σ : Type}

/-- What a task asks the bus for next. -/
def wants [CaseTable] (node : LiveNode σ) : NodeParty → Option NodeRequest
  | .host => node.pairs.head?.map fun pair =>
      .subscribe .host (.market node.tasks.length) (marketSubject pair.exchange pair.symbol)
  | .strategy k => do
      let task ← node.tasks[k]?
      let out ← task.outbox.head?
      return .publish (.strategy k) out.publication.subject out.publication.payload
  | .exec =>
      match node.startup with
      | request :: _ => some request
      | [] => (node.outbox.head?.bind ExecOutput.publication).map fun pub =>
          .publish .exec pub.subject pub.payload
  | .backtest => node.backtest.bind RunningBacktest.wants
  | .other _ => none

/-- A request of somebody else, for a channel of their own. -/
def isOthers : NodeRequest → Bool
  | .publish (.other _) _ _ => true
  | .subscribe (.other _) (.other _) _ => true
  | _ => false

/-- A step on the bus that may be taken: a task of the node asks for what it wants next, and takes
its messages with `NodeAction`; the others have channels of their own. -/
def allows [CaseTable] (node : LiveNode σ) :
    Broker.Action NodeParty NodeChannel String BusPayload → Bool
  | .ask request => isOthers request || decide (node.wants request.task = some request)
  | .abort (.other _) => true
  | .abort _ => false
  | .recv (.other _) => true
  | .recv (.metrics _) => true
  | .recv _ => false
  | .close (.other _) => true
  | .close _ => false
  | _ => true

/-- What a task wanted has been done. -/
def done (node : LiveNode σ) : NodeParty → LiveNode σ
  | .host => { node with
      pairs := node.pairs.tail
      tasks := node.tasks ++ node.pairs.head?.toList.map fun pair => ⟨pair, []⟩ }
  | .strategy k => { node with
      tasks := node.tasks.modify k fun task => { task with outbox := task.outbox.tail } }
  | .exec =>
      match node.startup with
      | _ :: startup => { node with startup := startup }
      | [] => { node with outbox := node.outbox.tail }
  | .backtest => { node with backtest := node.backtest.map RunningBacktest.done }
  | .other _ => node

/-- A subscription is done when it gets the lock, and a publish when it returns. -/
def after (node : LiveNode σ) :
    Broker.Action NodeParty NodeChannel String BusPayload → LiveNode σ
  | .grant task =>
      match node.bus.waiting with
      | .subscribe _ _ _ :: _ => node.done task
      | _ => node
  | .finish task => node.done task
  | _ => node

/-- Give the execution service an input. -/
def execInput [CaseTable] [Reqwest] (node : LiveNode σ) (i : ExecInput) : LiveNode σ :=
  let (exec, outs) := executionService.step node.exec i
  { node with
    exec := exec
    outbox := node.outbox ++ outs.filter fun out => out.publication.isSome
    handled := node.handled ++ ExecInput.commands [i]
    submitted := node.submitted ++ ExecOutput.requests outs }

/-- A task of the host handles a message; one that is no snapshot is skipped. -/
def handleMessage (engine : StrategyEngine σ) (node : LiveNode σ) (k : ℕ) (task : MarketTask)
    (payload : BusPayload) (fresh : TraceId) (utc : DateTime) : LiveNode σ :=
  match payload with
  | .snapshot snap =>
      let (state, outs) :=
        handleSnapshot engine node.engine node.paused task.pair snap fresh utc
      { node with engine := state, tasks := node.tasks.set k { task with outbox := outs } }
  | _ => node

/-- Take the oldest message out of a channel. -/
def receive (node : LiveNode σ) (channel : NodeChannel) : Option (BusPayload × LiveNode σ) := do
  let queue ← node.bus.queue channel
  let (_, payload) ← queue.head?
  let bus ← node.bus.recv channel
  return (payload, { node with bus := bus })

/-- The execution service is in its loop, and has nothing to publish. -/
def Idle (node : LiveNode σ) : Prop := node.startup = [] ∧ node.outbox = []

instance (node : LiveNode σ) : Decidable node.Idle := inferInstanceAs (Decidable (_ ∧ _))

/-- A step on the bus. -/
def busStep [CaseTable] (node : LiveNode σ)
    (a : Broker.Action NodeParty NodeChannel String BusPayload) : Option (LiveNode σ) :=
  if node.allows a then
    (node.bus.step channelCapacity a).map fun bus => { node.after a with bus := bus }
  else none

/-- A task of the host takes a message, when it has published all that came of the last one. -/
def take (engine : StrategyEngine σ) (node : LiveNode σ) (k : ℕ) (fresh : TraceId)
    (utc : DateTime) : Option (LiveNode σ) := do
  let task ← node.tasks[k]?
  if task.outbox = [] then
    let (payload, node) ← node.receive (.market k)
    return node.handleMessage engine k task payload fresh utc
  else none

/-- A backtest is started, if none is running; its engine returns at once if a query fails. -/
def startBacktest (node : LiveNode σ) (config : BacktestConfig) (store : HistoricalStore) :
    Option (LiveNode σ) :=
  match node.backtest with
  | some _ => none
  | none => some { node with
      backtest := (config.load store).map fun snaps => ⟨node.backtests, false, snaps⟩
      backtests := node.backtests + 1 }

/-- The engine of a backtest returns when it has published everything. -/
def endBacktest (node : LiveNode σ) : Option (LiveNode σ) :=
  match node.backtest with
  | some ⟨_, true, []⟩ => some { node with backtest := none }
  | _ => none

end LiveNode

/-- The node, for an engine. -/
def liveNode [CaseTable] [Reqwest] {σ : Type} (engine : StrategyEngine σ) :
    Interleaving (LiveNode σ) NodeAction where
  step node
    | .bus a => node.busStep a
    | .take k fresh utc => node.take engine k fresh utc
    | .pause paused => some { node with paused := paused }
    | .execute now exchange =>
      if node.Idle then
        (node.receive .commands).map fun (payload, node) =>
          node.execInput (.command payload.asCommand now exchange)
      else none
    | .configure =>
      if node.Idle then
        (node.receive .config).map fun (payload, node) =>
          node.execInput (.configUpdate payload.asExecution)
      else none
    | .block value => some (node.execInput (if value then .blockNewOrders else .resetCircuit))
    | .startBacktest config store => node.startBacktest config store
    | .endBacktest => node.endBacktest

/-! ### The node without its backtests -/

/-- The task is not that of the backtest. -/
def NodeParty.isLive : NodeParty → Bool
  | backtest => false
  | _ => true

/-- The channel is not that of the metrics of a backtest. -/
def NodeChannel.isLive : NodeChannel → Bool
  | metrics _ => false
  | _ => true

/-- The action is not one of a backtest. -/
def NodeAction.isLive : NodeAction → Bool
  | bus a => a.visible NodeParty.isLive NodeChannel.isLive
  | startBacktest _ _ => false
  | endBacktest => false
  | _ => true

/-- The node without its backtests. -/
def LiveNode.live {σ : Type} (node : LiveNode σ) : LiveNode σ :=
  { node with
    bus := node.bus.hide NodeParty.isLive NodeChannel.isLive
    backtest := none
    backtests := 0 }

end W2uos
