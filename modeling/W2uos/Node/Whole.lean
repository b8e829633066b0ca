import W2uos.Exec.Blocking
import W2uos.Node.Reload
import W2uos.Node.Config
import W2uos.Data.Feeds
import W2uos.Exec.Ledger
import W2uos.Risk.Handles
import W2uos.Risk.OnBus
import W2uos.Strategy.Host

/-!
# The whole node

Everything that `main` gives the bus to, with the subjects on which each of them publishes: the
market data service with its two feeds, the engines of backtests, the strategy host, the execution
service with the private stream of the exchange, the risk supervisor, the configuration manager, the
cluster service, and the last task of `main`, which publishes one order when the services have
started.  The log service, the debugging task of `main` and the connections of the API do not
publish; a request to the API can reset the breaker, start a backtest, and be refused with an event.

They take turns in any order.  What the network, the store, the clients and the queues other than
that of `orders.command` hold comes with the turns.

* `turn_idle` : the turns that publish no command and leave those on their way alone;
* `OneOrder` : what the turns keep when the strategy plans nothing;
* `orders_of_startup` : then the only order is that of `main`.
-/

namespace W2uos

/-! ### What is published -/

/-- What is published, before it is encoded. -/
inductive BusPayload
  | snapshot (snap : MarketSnapshot)
  | command (cmd : OrderCommand)
  | result (result : OrderResult)
  | event (evt : LogEvent)
  | trade (trade : TradeRecord)
  | config (msg : ConfigMessage)
  | heartbeat
  | empty
  deriving DecidableEq

/-- A message with its subject. -/
structure Publication where
  subject : String
  payload : BusPayload
  deriving DecidableEq

/-- The subject from which the execution service takes its commands. -/
def ordersCommand : String := "orders.command"

/-- A payload on `orders.command`, as it is decoded. -/
def BusPayload.asCommand : BusPayload → Except String OrderCommand
  | command cmd => .ok cmd
  | _ => .error "not a command"

def eventPublication (evt : LogEvent) : Publication := ⟨"log.event", .event evt⟩

def FeedOutput.publication : FeedOutput → Publication
  | market subject snap => ⟨subject, .snapshot snap⟩
  | log evt => eventPublication evt

def HostOutput.publication : HostOutput → Publication
  | order cmd => ⟨ordersCommand, .command cmd⟩
  | log evt => eventPublication evt

/-- A request goes to the exchange, and not to the bus. -/
def ExecOutput.publication : ExecOutput → Option Publication
  | submit _ => none
  | result r => some ⟨"orders.result", .result r⟩
  | log evt => some (eventPublication evt)
  | trade record => some ⟨"log.trade", .trade record⟩

def RiskOutput.publication : RiskOutput → Publication
  | signal subject => ⟨subject, .empty⟩
  | log evt => eventPublication evt

def ConfigMessage.subject : ConfigMessage → String
  | risk _ => "control.config.update.risk"
  | execution _ => "control.config.update.execution"
  | strategy _ => "control.config.update.strategy"
  | market _ => "control.config.update.market"
  | logging _ => "control.config.update.logging"

def ConfigMessage.publication (msg : ConfigMessage) : Publication := ⟨msg.subject, .config msg⟩

/-! ### The node -/

/-- Where the last task of `main` is: spawned, subscribed to `orders.result` and asleep, waiting for
a result, or at its end. -/
inductive StartupState
  | spawned
  | asleep
  | published
  | ended
  deriving DecidableEq

/-- The order of the last task of `main`. -/
def testOrder (fresh : TraceId) : OrderCommand where
  id := "test-order-1"
  exchange := .okx
  symbol := ⟨"BTC", "USDT"⟩
  side := .buy
  orderType := .market
  sizeQuote := 1000
  limitPrice := none
  traceId := some fresh

/-- The parts of a node. -/
structure WholeNode (σ : Type) where
  /-- The prices of the simulated feed. -/
  priceState : PriceState
  /-- What each of the engines of backtests has still to publish. -/
  backtests : List (List MarketSnapshot)
  host : StrategyHost σ
  /-- The markets the host has still to subscribe to. -/
  pairs : List PairId
  exec : ExecutionService
  /-- The queue of `orders.command`, when the execution service has subscribed to it. -/
  commands : Option (List BusPayload)
  /-- The two handles of the supervisor. -/
  risk : Started
  startup : StartupState

/-- The node when its services have been started: nobody has subscribed yet. -/
def WholeNode.start {σ : Type} (cfg : NodeConfig) (engine : σ) (exec : ExecutionService) :
    WholeNode σ where
  priceState := ∅
  backtests := []
  host := StrategyHost.start engine []
  pairs := cfg.startBot.pairs
  exec := exec
  commands := none
  risk := (RiskSupervisorService.new cfg.globalRisk).start
  startup := .spawned

/-- The turns of the parts. -/
inductive NodeTurn
  /-- A round of the simulated feed. -/
  | simulatedFeed (subs : List MarketDataSubscription) (stamp : ℕ → Stamp)
  /-- The OKX feed receives a text. -/
  | okxFeed (txt : String) (stamp : ℕ → Stamp)
  /-- The engine of a backtest has loaded its snapshots. -/
  | startBacktest (snaps : List MarketSnapshot)
  /-- It publishes the next one. -/
  | backtest (k : ℕ)
  /-- The host subscribes to its next market. -/
  | subscribe
  /-- A task of the host. -/
  | strategy (task : ℕ) (fresh : TraceId) (utc : DateTime)
  /-- The host is paused or resumed. -/
  | pause (paused : Bool)
  /-- The execution service subscribes to `orders.command`. -/
  | listen
  /-- It handles the next command. -/
  | execute (now : DateTime) (exchange : OkxOrderRequest → Transmission)
  /-- It receives a configuration. -/
  | execUpdate (msg : Option ExecutionConfig)
  /-- It blocks new orders, or is reset. -/
  | block (value : Bool)
  /-- The private stream of the exchange receives a text. -/
  | okxOrders (txt : String) (ts : List DateTime)
  /-- An input of the loop of the risk supervisor. -/
  | risk (i : RiskInput)
  /-- A request resets the breaker, through the handle that is registered. -/
  | riskReset
  /-- The configuration manager has loaded the files. -/
  | reload (cfg : NodeConfig)
  /-- The cluster service ticks. -/
  | heartbeat
  /-- A service, or the API for a request it refuses, writes an event. -/
  | event (evt : LogEvent)
  /-- The next step of the last task of `main`. -/
  | startup (fresh : TraceId)

/-- What is seen of a node. -/
inductive WholeOutput
  | published (pub : Publication)
  | handled (cmd : OrderCommand)
  | submitted (request : OkxOrderRequest)

section Turns

variable [CaseTable] [Reqwest] [TickerChannel] [OrderChannel] {σ : Type}

/-- Give the execution service an input. -/
def WholeNode.execInput (node : WholeNode σ) (i : ExecInput) :
    WholeNode σ × List Publication × List WholeOutput :=
  let (exec, outs) := executionService.step node.exec i
  ({ node with exec := exec }, outs.filterMap ExecOutput.publication,
    (ExecInput.commands [i]).map .handled ++ (ExecOutput.requests outs).map .submitted)

/-- A turn: the node after it, what is published, and which commands are handled and submitted. -/
def WholeNode.turn (cfg : NodeConfig) (engine : StrategyEngine σ) (node : WholeNode σ) :
    NodeTurn → WholeNode σ × List Publication × List WholeOutput
  | .simulatedFeed subs stamp =>
    if cfg.kernelMode = .live ∧ cfg.dataConfig.mode = .simulated then
      let (priceState, outs) := runSimulated node.priceState subs stamp
      ({ node with priceState := priceState }, outs.map FeedOutput.publication, [])
    else (node, [], [])
  | .okxFeed txt stamp =>
    if cfg.kernelMode = .live ∧ cfg.dataConfig.mode = .liveOkx then
      (node, (OkxMarketStream.handleText txt stamp).1.map FeedOutput.publication, [])
    else (node, [], [])
  | .startBacktest snaps => ({ node with backtests := node.backtests ++ [snaps] }, [], [])
  | .backtest k =>
    match node.backtests[k]? with
    | some (snap :: snaps) =>
      ({ node with backtests := node.backtests.set k snaps }, [⟨snap.subject, .snapshot snap⟩], [])
    | _ => (node, [], [])
  | .subscribe =>
    match node.pairs with
    | [] => (node, [], [])
    | pair :: pairs => ({ node with host := node.host.subscribe pair, pairs := pairs }, [], [])
  | .strategy task fresh utc =>
    let (host, out) := node.host.step engine task fresh utc
    ({ node with host := host }, (out.map HostOutput.publication).toList, [])
  | .pause paused => ({ node with host := { node.host with paused := paused } }, [], [])
  | .listen => ({ node with commands := some (node.commands.getD []) }, [], [])
  | .execute now exchange =>
    match node.commands with
    | some (msg :: commands) =>
      ({ node with commands := some commands } : WholeNode σ).execInput
        (.command msg.asCommand now exchange)
    | _ => (node, [], [])
  | .execUpdate msg => node.execInput (.configUpdate msg)
  | .block true => node.execInput .blockNewOrders
  | .block false => node.execInput .resetCircuit
  | .okxOrders txt ts =>
    (node, (handleText txt ts).1.map fun result => ⟨"orders.result", .result result⟩, [])
  | .risk i =>
    let (risk, outs) := supervisorHandles.step node.risk (.loop i)
    ({ node with risk := risk }, outs.map RiskOutput.publication, [])
  | .riskReset =>
    let (risk, outs) := supervisorHandles.step node.risk .resetCircuit
    ({ node with risk := risk }, outs.map RiskOutput.publication, [])
  | .reload cfg => (node, cfg.publishUpdates.map ConfigMessage.publication, [])
  | .heartbeat => (node, [⟨"cluster.heartbeat", .heartbeat⟩], [])
  | .event evt => (node, [eventPublication evt], [])
  | .startup fresh =>
    match node.startup with
    | .spawned => ({ node with startup := .asleep }, [], [])
    | .asleep =>
      ({ node with startup := .published }, [⟨ordersCommand, .command (testOrder fresh)⟩], [])
    | .published => ({ node with startup := .ended }, [], [])
    | .ended => (node, [], [])

omit [Reqwest] [TickerChannel] [OrderChannel] in
/-- Bring a message to the execution service and to the host, if they listen to its subject.  A
snapshot is published on the subject of its market. -/
def WholeNode.route (node : WholeNode σ) (pub : Publication) : WholeNode σ :=
  { node with
    commands :=
      if pub.subject = ordersCommand then node.commands.map (· ++ [pub.payload]) else node.commands
    host := match pub.payload with
      | .snapshot snap => node.host.deliver snap
      | _ => node.host }

/-- The node with its bus. -/
def wholeNode (cfg : NodeConfig) (engine : StrategyEngine σ) :
    Machine (WholeNode σ) NodeTurn WholeOutput where
  step node t :=
    let (node, pubs, outs) := node.turn cfg engine t
    (pubs.foldl WholeNode.route node, pubs.map .published ++ outs)

end Turns

/-- The commands the execution service handled. -/
def WholeOutput.commands (outs : List WholeOutput) : List OrderCommand :=
  outs.filterMap fun
    | .handled cmd => some cmd
    | _ => none

/-- The orders that were submitted to the exchange. -/
def WholeOutput.requests (outs : List WholeOutput) : List OkxOrderRequest :=
  outs.filterMap fun
    | .submitted request => some request
    | _ => none

/-- The engine does not plan an order for any snapshot. -/
def StrategyEngine.PlansNothing {σ : Type} (engine : StrategyEngine σ) : Prop :=
  ∀ state pair snap, (engine.onMarketSnapshot state pair snap).1.plannedOrders = []

/-! ### Who publishes on `orders.command` -/

section Subjects

variable [CaseTable]

theorem marketSubject_ne (exchange : ExchangeId) (symbol : Symbol) :
    marketSubject exchange symbol ≠ ordersCommand := by
  intro h
  have hhead := congrArg (fun text => text.toList.head?) h
  simp [marketSubject, ordersCommand] at hhead

theorem feed_subject {tick : MarketSnapshot → LogEvent} {outs : List FeedOutput}
    (h : Announces tick outs) :
    ∀ pub ∈ outs.map FeedOutput.publication, pub.subject ≠ ordersCommand := by
  intro pub hpub
  obtain ⟨out, hout, rfl⟩ := List.mem_map.1 hpub
  cases out with
  | market subject snap =>
    rw [FeedOutput.publication, h.subject_eq hout]
    exact marketSubject_ne snap.exchange snap.symbol
  | log evt => simp [FeedOutput.publication, eventPublication, ordersCommand]

omit [CaseTable] in
theorem exec_subject (outs : List ExecOutput) :
    ∀ pub ∈ outs.filterMap ExecOutput.publication, pub.subject ≠ ordersCommand := by
  intro pub hpub
  obtain ⟨out, -, hout⟩ := List.mem_filterMap.1 hpub
  cases out <;> cases hout <;> simp [eventPublication, ordersCommand]

theorem risk_subject (risk : RiskSupervisorService) (i : RiskInput) :
    ∀ pub ∈ (riskSupervisor.emit risk i).map RiskOutput.publication,
      pub.subject ≠ ordersCommand := by
  intro pub hpub
  obtain ⟨out, hout, rfl⟩ := List.mem_map.1 hpub
  have hsubject : out.publication.subject = out.subject := by cases out <;> rfl
  rw [hsubject]
  intro heq
  -- it publishes what a trip publishes
  have halarm := (mem_emit_subject.1 (List.mem_map_of_mem hout)).2
  rw [heq] at halarm
  simp [alarm, announcement, ordersCommand] at halarm

end Subjects

section Turns

variable [CaseTable] [Reqwest] [TickerChannel] [OrderChannel] {σ : Type} {cfg : NodeConfig}
  {engine : StrategyEngine σ} {node : WholeNode σ}

/-- A turn that has nothing to do with commands: not one of the host, of the run loop of the
execution service or of the last task of `main`. -/
def NodeTurn.Bystander : NodeTurn → Prop
  | .subscribe => False
  | .strategy _ _ _ => False
  | .listen => False
  | .execute _ _ => False
  | .startup _ => False
  | _ => True

/-- The commands, the ledger, the host and the last task of `main` are as they were. -/
structure WholeNode.Same (node node' : WholeNode σ) : Prop where
  commands : node'.commands = node.commands
  startup : node'.startup = node.startup
  outboxes : node'.host.tasks.map HostTask.outbox = node.host.tasks.map HostTask.outbox
  ledger : node'.exec.state = node.exec.state

omit [CaseTable] [Reqwest] [TickerChannel] [OrderChannel] in
theorem WholeNode.Same.refl (node : WholeNode σ) : node.Same node := ⟨rfl, rfl, rfl, rfl⟩

omit [CaseTable] [Reqwest] [TickerChannel] [OrderChannel] in
theorem WholeNode.Same.trans {u v w : WholeNode σ} (huv : u.Same v) (hvw : v.Same w) : u.Same w :=
  ⟨hvw.commands.trans huv.commands, hvw.startup.trans huv.startup,
    hvw.outboxes.trans huv.outboxes, hvw.ledger.trans huv.ledger⟩

/-- A turn does nothing with commands: it leaves them and the ledger alone, publishes none, and
neither handles nor submits one. -/
structure Idle (node : WholeNode σ) (turned : WholeNode σ × List Publication × List WholeOutput) :
    Prop where
  same : node.Same turned.1
  subjects : ∀ pub ∈ turned.2.1, pub.subject ≠ ordersCommand
  outputs : turned.2.2 = []

omit [TickerChannel] [OrderChannel] in
theorem idle_execInput (node : WholeNode σ) {i : ExecInput}
    (h : ∀ msg now exchange, i ≠ .command msg now exchange) : Idle node (node.execInput i) := by
  have hledger : (executionService.step node.exec i).1.state = node.exec.state := by
    cases i with
    | command msg now exchange => exact absurd rfl (h msg now exchange)
    | configUpdate msg =>
      cases msg with
      | none => rfl
      | some newCfg => exact node.exec.updateConfig_state newCfg
    | blockNewOrders => rfl
    | resetCircuit => rfl
  refine ⟨⟨rfl, rfl, rfl, hledger⟩, exec_subject _, ?_⟩
  cases i with
  | command msg now exchange => exact absurd rfl (h msg now exchange)
  | configUpdate msg => cases msg <;> rfl
  | blockNewOrders => rfl
  | resetCircuit => rfl

/-- **Only the host and the last task of `main` publish commands**, and only the run loop handles
them. -/
theorem turn_idle (cfg : NodeConfig) (engine : StrategyEngine σ) (node : WholeNode σ)
    {t : NodeTurn} (h : t.Bystander) :
    Idle node (node.turn cfg engine t) := by
  have hnothing : Idle node (node, [], []) := ⟨.refl node, List.forall_mem_nil _, rfl⟩
  cases t with
  | simulatedFeed subs stamp =>
    rw [WholeNode.turn]
    split_ifs
    · exact ⟨⟨rfl, rfl, rfl, rfl⟩, feed_subject (runSimulated_announces _ subs stamp), rfl⟩
    · exact hnothing
  | okxFeed txt stamp =>
    rw [WholeNode.turn]
    split_ifs
    · exact ⟨.refl node, feed_subject (OkxMarketStream.handleText_announces txt stamp), rfl⟩
    · exact hnothing
  | startBacktest snaps => exact ⟨⟨rfl, rfl, rfl, rfl⟩, List.forall_mem_nil _, rfl⟩
  | backtest k =>
    rw [WholeNode.turn]
    split
    · refine ⟨⟨rfl, rfl, rfl, rfl⟩, fun pub hpub => ?_, rfl⟩
      rw [List.mem_singleton.1 hpub]
      exact marketSubject_ne _ _
    · exact hnothing
  | subscribe => exact absurd h id
  | strategy task fresh utc => exact absurd h id
  | pause paused => exact ⟨⟨rfl, rfl, rfl, rfl⟩, List.forall_mem_nil _, rfl⟩
  | listen => exact absurd h id
  | execute now exchange => exact absurd h id
  | execUpdate msg => exact idle_execInput node fun _ _ _ => by simp
  | block value =>
    cases value with
    | true =>
      have hblock := idle_execInput node (i := .blockNewOrders) fun _ _ _ => by simp
      exact hblock
    | false =>
      have hreset := idle_execInput node (i := .resetCircuit) fun _ _ _ => by simp
      exact hreset
  | okxOrders txt ts =>
    refine ⟨.refl node, fun pub hpub => ?_, rfl⟩
    obtain ⟨result, -, rfl⟩ := List.mem_map.1 hpub
    simp [ordersCommand]
  | risk i => exact ⟨⟨rfl, rfl, rfl, rfl⟩, risk_subject node.risk.loop i, rfl⟩
  | riskReset =>
    refine ⟨⟨rfl, rfl, rfl, rfl⟩, fun pub hpub => ?_, rfl⟩
    obtain ⟨out, hout, rfl⟩ := List.mem_map.1 hpub
    rcases List.mem_cons.1 hout with rfl | hout
    · simp [RiskOutput.publication, ordersCommand]
    · rw [List.mem_singleton.1 hout]
      simp [RiskOutput.publication, ordersCommand]
  | reload cfg =>
    refine ⟨.refl node, fun pub hpub => ?_, rfl⟩
    obtain ⟨msg, -, rfl⟩ := List.mem_map.1 hpub
    cases msg <;> simp [ConfigMessage.publication, ConfigMessage.subject, ordersCommand]
  | heartbeat =>
    refine ⟨.refl node, fun pub hpub => ?_, rfl⟩
    rw [List.mem_singleton.1 hpub]
    simp [ordersCommand]
  | event evt =>
    refine ⟨.refl node, fun pub hpub => ?_, rfl⟩
    rw [List.mem_singleton.1 hpub]
    simp [eventPublication, ordersCommand]
  | startup fresh => exact absurd h id

/-! ### Messages on their way -/

omit [Reqwest] [TickerChannel] [OrderChannel] in
theorem route_commands (node : WholeNode σ) (pub : Publication) :
    (node.route pub).startup = node.startup ∧
      (node.route pub).host.tasks.map HostTask.outbox = node.host.tasks.map HostTask.outbox ∧
      (node.route pub).exec = node.exec ∧
      (pub.subject ≠ ordersCommand → (node.route pub).commands = node.commands) := by
  refine ⟨rfl, ?_, rfl, fun hne => if_neg hne⟩
  rw [WholeNode.route]
  cases pub.payload with
  | snapshot snap =>
    simp only [StrategyHost.deliver, List.map_map]
    refine List.map_congr_left fun task _ => ?_
    rw [Function.comp_apply]
    split_ifs <;> rfl
  | _ => rfl

omit [Reqwest] [TickerChannel] [OrderChannel] in
theorem same_route {node : WholeNode σ} {pub : Publication} (h : pub.subject ≠ ordersCommand) :
    node.Same (node.route pub) := by
  obtain ⟨hstartup, houtboxes, hexec, hcommands⟩ := route_commands node pub
  exact ⟨hcommands h, hstartup, houtboxes, by rw [hexec]⟩

omit [Reqwest] [TickerChannel] [OrderChannel] in
theorem same_foldl_route {pubs : List Publication} (h : ∀ pub ∈ pubs, pub.subject ≠ ordersCommand)
    (node : WholeNode σ) : node.Same (pubs.foldl WholeNode.route node) := by
  induction pubs generalizing node with
  | nil => exact .refl node
  | cons pub pubs ih =>
    rw [List.forall_mem_cons] at h
    exact (same_route h.1).trans (ih h.2 (node.route pub))

/-! ### A node whose strategy plans nothing -/

omit [CaseTable] [Reqwest] [TickerChannel] [OrderChannel] in
/-- An engine that plans nothing leaves no order in the outboxes of the host. -/
theorem step_outboxes (hquiet : engine.PlansNothing) {host : StrategyHost σ}
    (h : ∀ outbox ∈ host.tasks.map HostTask.outbox, ∀ out ∈ outbox, ∃ evt, out = .log evt) (k : ℕ)
    (fresh : TraceId) (utc : DateTime) :
    (∀ outbox ∈ (host.step engine k fresh utc).1.tasks.map HostTask.outbox, ∀ out ∈ outbox,
        ∃ evt, out = .log evt) ∧
      ∀ out, (host.step engine k fresh utc).2 = some out → ∃ evt, out = .log evt := by
  rw [List.forall_mem_map] at h ⊢
  -- the other tasks keep their outboxes
  have hset : ∀ new : HostTask, (∀ out ∈ new.outbox, ∃ evt, out = .log evt) →
      ∀ task ∈ host.tasks.set k new, ∀ out ∈ task.outbox, ∃ evt, out = .log evt := by
    intro new hnew task hmem
    rcases List.mem_or_eq_of_mem_set hmem with hmem | rfl
    · exact h task hmem
    · exact hnew
  rcases host.step_cases engine fresh utc k with ⟨-, heq⟩ |
    ⟨task, out, outbox, htask, houtbox, heq⟩ | ⟨task, snap, queue, -, -, -, heq⟩
  · rw [heq]
    exact ⟨h, fun out hout => by cases hout⟩
  · have hlogs := h task (List.mem_of_getElem? htask)
    rw [houtbox, List.forall_mem_cons] at hlogs
    rw [heq]
    refine ⟨hset _ hlogs.2, fun out' hout => ?_⟩
    rw [← Option.some.inj hout]
    exact hlogs.1
  · rw [heq]
    refine ⟨hset _ ?_, fun out hout => by cases hout⟩
    -- without planned orders there is the decision only
    simp only [handleSnapshot, StrategyOutcome.commands, hquiet host.engine task.pair snap]
    split_ifs
    · exact List.forall_mem_nil _
    · simp

/-- The commands handled, and those on their way to the execution service. -/
def pendingCommands (node : WholeNode σ) (outs : List WholeOutput) : List BusPayload :=
  (WholeOutput.commands outs).map .command ++ node.commands.getD []

/-- What the turns keep.  There is no order in the outboxes; the last task of `main` publishes one,
and so at most that one is under way, handled and submitted; and the ledger does not change before
that. -/
structure OneOrder (state : ExecutionState) (node : WholeNode σ) (outs : List WholeOutput) :
    Prop where
  outboxes : ∀ outbox ∈ node.host.tasks.map HostTask.outbox, ∀ out ∈ outbox, ∃ evt, out = .log evt
  before : node.startup = .spawned ∨ node.startup = .asleep → pendingCommands node outs = []
  after : pendingCommands node outs = [] ∨
    ∃ fresh, pendingCommands node outs = [.command (testOrder fresh)]
  requests : (WholeOutput.requests outs).length ≤ (WholeOutput.commands outs).length
  submitted : ∀ request ∈ WholeOutput.requests outs, ∃ client : OkxClient, ∀ fresh,
    client.orderRequest (testOrder fresh) = .ok request
  ledger : WholeOutput.commands outs = [] → node.exec.state = state

omit [CaseTable] [Reqwest] [TickerChannel] [OrderChannel] in
theorem WholeOutput.commands_append (os ps : List WholeOutput) :
    commands (os ++ ps) = commands os ++ commands ps := List.filterMap_append

omit [CaseTable] [Reqwest] [TickerChannel] [OrderChannel] in
theorem WholeOutput.requests_append (os ps : List WholeOutput) :
    requests (os ++ ps) = requests os ++ requests ps := List.filterMap_append

omit [CaseTable] [Reqwest] [TickerChannel] [OrderChannel] in
theorem WholeOutput.published_nil (pubs : List Publication) :
    commands (pubs.map .published) = [] ∧ requests (pubs.map .published) = [] := by
  constructor
  · exact List.filterMap_eq_nil_iff.2 fun out hout => by
      obtain ⟨pub, -, rfl⟩ := List.mem_map.1 hout
      rfl
  · exact List.filterMap_eq_nil_iff.2 fun out hout => by
      obtain ⟨pub, -, rfl⟩ := List.mem_map.1 hout
      rfl

omit [CaseTable] [Reqwest] [TickerChannel] [OrderChannel] in
theorem WholeOutput.seen_published (outs : List WholeOutput) (pubs : List Publication)
    (seen : List WholeOutput) :
    commands (outs ++ (pubs.map .published ++ seen)) = commands outs ++ commands seen ∧
      requests (outs ++ (pubs.map .published ++ seen)) = requests outs ++ requests seen := by
  obtain ⟨hcommands, hrequests⟩ := published_nil pubs
  rw [commands_append, commands_append, hcommands, requests_append, requests_append, hrequests]
  exact ⟨rfl, rfl⟩

omit [CaseTable] [Reqwest] [TickerChannel] [OrderChannel] in
theorem WholeOutput.handled_submitted (cmd : OrderCommand) (rs : List OkxOrderRequest) :
    commands (.handled cmd :: rs.map .submitted) = [cmd] ∧
      requests (.handled cmd :: rs.map .submitted) = rs := by
  constructor
  · have hnone : commands (rs.map .submitted) = [] := by
      refine List.filterMap_eq_nil_iff.2 fun out hout => ?_
      obtain ⟨request, -, rfl⟩ := List.mem_map.1 hout
      rfl
    exact congrArg (cmd :: ·) hnone
  · show List.filterMap _ (rs.map WholeOutput.submitted) = rs
    rw [List.filterMap_map]
    exact List.filterMap_some

variable {state : ExecutionState} {outs : List WholeOutput}

omit [Reqwest] [TickerChannel] [OrderChannel] in
theorem OneOrder.idle (h : OneOrder state node outs) (node' : WholeNode σ)
    {pubs : List Publication}
    (hcommands : pendingCommands node' outs = pendingCommands node outs)
    (hstartup : node'.startup = .spawned ∨ node'.startup = .asleep →
      node.startup = .spawned ∨ node.startup = .asleep)
    (hledger : node'.exec.state = node.exec.state)
    (houtboxes : ∀ outbox ∈ node'.host.tasks.map HostTask.outbox, ∀ out ∈ outbox,
      ∃ evt, out = .log evt)
    (hsubjects : ∀ pub ∈ pubs, pub.subject ≠ ordersCommand) :
    OneOrder state (pubs.foldl WholeNode.route node') (outs ++ (pubs.map .published ++ [])) := by
  have hsame := same_foldl_route hsubjects node'
  have hout : WholeOutput.commands (outs ++ (pubs.map .published ++ [])) =
      WholeOutput.commands outs :=
    (WholeOutput.seen_published outs pubs []).1.trans (List.append_nil _)
  have hreq : WholeOutput.requests (outs ++ (pubs.map .published ++ [])) =
      WholeOutput.requests outs :=
    (WholeOutput.seen_published outs pubs []).2.trans (List.append_nil _)
  have hpending : pendingCommands (pubs.foldl WholeNode.route node')
      (outs ++ (pubs.map .published ++ [])) = pendingCommands node outs := by
    rw [pendingCommands, hout, hsame.commands, ← hcommands, pendingCommands]
  refine ⟨?_, ?_, ?_, ?_, ?_, ?_⟩
  · rw [hsame.outboxes]
    exact houtboxes
  · rw [hsame.startup, hpending]
    exact fun hs => h.before (hstartup hs)
  · rw [hpending]
    exact h.after
  · rw [hout, hreq]
    exact h.requests
  · rw [hreq]
    exact h.submitted
  · rw [hout, hsame.ledger, hledger]
    exact h.ledger

omit [Reqwest] [TickerChannel] [OrderChannel] in
theorem handleCommand_submitted (exec : ExecutionService) (cmd : OrderCommand) (now : DateTime)
    (exchange : OkxOrderRequest → Transmission) :
    (exec.handleCommand cmd now exchange).submitted.length ≤ 1 ∧
      ∀ request ∈ (exec.handleCommand cmd now exchange).submitted,
        ∃ client : OkxClient, client.orderRequest cmd = .ok request := by
  rcases exec.handleCommand_cases cmd now exchange with ⟨-, heq⟩ | ⟨client, -, -, -, heq⟩ |
    ⟨-, -, heq⟩
  · rw [heq]
    exact ⟨Nat.zero_le 1, List.forall_mem_nil _⟩
  · rw [heq]
    unfold ExecutionService.submit OkxClient.placeOrder
    cases hrequest : client.orderRequest cmd with
    | error err => exact ⟨Nat.zero_le 1, List.forall_mem_nil _⟩
    | ok request =>
      dsimp only
      cases exchange request with
      | unsent err => exact ⟨Nat.zero_le 1, List.forall_mem_nil _⟩
      | sent answer =>
        refine ⟨le_rfl, fun request' hmem => ⟨client, ?_⟩⟩
        rw [List.mem_singleton.1 hmem, hrequest]
  · rw [heq]
    exact ⟨Nat.zero_le 1, List.forall_mem_nil _⟩

omit [TickerChannel] [OrderChannel] in
theorem OneOrder.execute (h : OneOrder state node outs) {msg : BusPayload} {rest : List BusPayload}
    (hcommands : node.commands = some (msg :: rest)) (now : DateTime)
    (exchange : OkxOrderRequest → Transmission) :
    let turned := ({ node with commands := some rest } : WholeNode σ).execInput
      (.command msg.asCommand now exchange)
    OneOrder state (turned.2.1.foldl WholeNode.route turned.1)
      (outs ++ (turned.2.1.map .published ++ turned.2.2)) := by
  -- what is under way is the one order, and nothing has been handled
  obtain ⟨fresh, hpending⟩ : ∃ fresh, pendingCommands node outs = [.command (testOrder fresh)] := by
    refine h.after.resolve_left fun hnil => ?_
    rw [pendingCommands, hcommands] at hnil
    simp at hnil
  obtain ⟨hnone, rfl, rfl⟩ : WholeOutput.commands outs = [] ∧ msg = .command (testOrder fresh) ∧
      rest = [] := by
    rw [pendingCommands, hcommands, Option.getD_some] at hpending
    rcases List.append_eq_singleton_iff.1 hpending with ⟨hnil, hcons⟩ | ⟨-, hcons⟩
    · exact ⟨List.map_eq_nil_iff.1 hnil, (List.cons.inj hcons).1, (List.cons.inj hcons).2⟩
    · cases hcons
  have hnorequest : WholeOutput.requests outs = [] := by
    have hle := h.requests
    rw [hnone, List.length_nil, Nat.le_zero, List.length_eq_zero_iff] at hle
    exact hle
  obtain ⟨hlength, hmade⟩ := handleCommand_submitted node.exec (testOrder fresh) now exchange
  intro turned
  have hsame : turned.1.Same (turned.2.1.foldl WholeNode.route turned.1) :=
    same_foldl_route (exec_subject _) turned.1
  have hseen : turned.2.2 = .handled (testOrder fresh) ::
      (node.exec.handleCommand (testOrder fresh) now exchange).submitted.map .submitted := by
    rw [← requests_emit_command]
    rfl
  obtain ⟨hcommand, hrequests⟩ := WholeOutput.handled_submitted (testOrder fresh)
    (node.exec.handleCommand (testOrder fresh) now exchange).submitted
  have hout : WholeOutput.commands (outs ++ (turned.2.1.map .published ++ turned.2.2)) =
      [testOrder fresh] := by
    rw [(WholeOutput.seen_published outs turned.2.1 turned.2.2).1, hnone, hseen, hcommand]
    rfl
  have hreq : WholeOutput.requests (outs ++ (turned.2.1.map .published ++ turned.2.2)) =
      (node.exec.handleCommand (testOrder fresh) now exchange).submitted := by
    rw [(WholeOutput.seen_published outs turned.2.1 turned.2.2).2, hnorequest, hseen, hrequests]
    rfl
  have hwhole : pendingCommands (turned.2.1.foldl WholeNode.route turned.1)
      (outs ++ (turned.2.1.map .published ++ turned.2.2)) = [.command (testOrder fresh)] := by
    rw [pendingCommands, hout, hsame.commands]
    rfl
  refine ⟨?_, ?_, ?_, ?_, ?_, ?_⟩
  · rw [hsame.outboxes]
    exact h.outboxes
  · rw [hsame.startup]
    intro hs
    have hempty := h.before hs
    rw [hpending] at hempty
    cases hempty
  · exact Or.inr ⟨fresh, hwhole⟩
  · rw [hout, hreq]
    exact hlength
  · rw [hreq]
    intro request hrequest
    obtain ⟨client, hclient⟩ := hmade request hrequest
    -- the trace of an order is not sent
    exact ⟨client, fun _ => hclient⟩
  · rw [hout]
    exact fun hempty => by cases hempty

omit [Reqwest] [TickerChannel] [OrderChannel] in
theorem OneOrder.publish (h : OneOrder state node outs) (hasleep : node.startup = .asleep)
    (fresh : TraceId) :
    OneOrder state
      (WholeNode.route { node with startup := .published }
        ⟨ordersCommand, .command (testOrder fresh)⟩)
      (outs ++ ([.published ⟨ordersCommand, .command (testOrder fresh)⟩] ++ [])) := by
  have hnil := h.before (Or.inr hasleep)
  have hcommands : WholeOutput.commands
      (outs ++ ([.published ⟨ordersCommand, .command (testOrder fresh)⟩] ++ [])) =
      WholeOutput.commands outs :=
    (WholeOutput.seen_published outs [_] []).1.trans (List.append_nil _)
  have hrequests : WholeOutput.requests
      (outs ++ ([.published ⟨ordersCommand, .command (testOrder fresh)⟩] ++ [])) =
      WholeOutput.requests outs :=
    (WholeOutput.seen_published outs [_] []).2.trans (List.append_nil _)
  refine ⟨h.outboxes, fun hs => ?_, ?_, ?_, ?_, ?_⟩
  · rcases hs with hs | hs <;> cases hs
  · rw [pendingCommands, hcommands]
    rw [pendingCommands, List.append_eq_nil_iff] at hnil
    rw [hnil.1, WholeNode.route]
    cases hqueue : node.commands with
    | none => exact Or.inl rfl
    | some queue =>
      rw [hqueue, Option.getD_some] at hnil
      rw [hnil.2]
      exact Or.inr ⟨fresh, rfl⟩
  · rw [hcommands, hrequests]
    exact h.requests
  · rw [hrequests]
    exact h.submitted
  · rw [hcommands]
    exact h.ledger

theorem OneOrder.of_turn {t : NodeTurn} {r : WholeNode σ × List Publication × List WholeOutput}
    (hturn : node.turn cfg engine t = r)
    (h : OneOrder state (r.2.1.foldl WholeNode.route r.1)
      (outs ++ (r.2.1.map .published ++ r.2.2))) :
    OneOrder state ((wholeNode cfg engine).next node t)
      (outs ++ (wholeNode cfg engine).emit node t) := by
  subst hturn
  exact h

/-- A turn that publishes no command keeps it. -/
theorem OneOrder.quiet (h : OneOrder state node outs) {t : NodeTurn} {node' : WholeNode σ}
    {pubs : List Publication} (hturn : node.turn cfg engine t = (node', pubs, []))
    (hcommands : node'.commands = node.commands)
    (hstartup : node'.startup = .spawned ∨ node'.startup = .asleep →
      node.startup = .spawned ∨ node.startup = .asleep)
    (hledger : node'.exec.state = node.exec.state)
    (houtboxes : ∀ outbox ∈ node'.host.tasks.map HostTask.outbox, ∀ out ∈ outbox,
      ∃ evt, out = .log evt)
    (hsubjects : ∀ pub ∈ pubs, pub.subject ≠ ordersCommand) :
    OneOrder state ((wholeNode cfg engine).next node t)
      (outs ++ (wholeNode cfg engine).emit node t) := by
  have hpending : pendingCommands node' outs = pendingCommands node outs := by
    rw [pendingCommands, hcommands, pendingCommands]
  exact .of_turn hturn (h.idle node' hpending hstartup hledger houtboxes hsubjects)

/-- A turn with nothing to do keeps it. -/
theorem OneOrder.nothing (h : OneOrder state node outs) {t : NodeTurn}
    (hturn : node.turn cfg engine t = (node, [], [])) :
    OneOrder state ((wholeNode cfg engine).next node t)
      (outs ++ (wholeNode cfg engine).emit node t) :=
  h.quiet hturn rfl id rfl h.outboxes (List.forall_mem_nil _)

theorem OneOrder.subscribe (h : OneOrder state node outs) :
    OneOrder state ((wholeNode cfg engine).next node .subscribe)
      (outs ++ (wholeNode cfg engine).emit node .subscribe) := by
  cases hpairs : node.pairs with
  | nil => exact h.nothing (by simp only [WholeNode.turn, hpairs])
  | cons pair pairs =>
    have hturn : node.turn cfg engine .subscribe =
        ({ node with host := node.host.subscribe pair, pairs := pairs }, [], []) := by
      simp only [WholeNode.turn, hpairs]
    refine h.quiet hturn rfl id rfl (fun outbox hmem => ?_) (List.forall_mem_nil _)
    rw [StrategyHost.subscribe, List.map_append, List.mem_append] at hmem
    rcases hmem with hmem | hmem
    · exact h.outboxes outbox hmem
    · rw [List.mem_singleton.1 hmem]
      exact List.forall_mem_nil _

theorem OneOrder.strategy (hquiet : engine.PlansNothing) (h : OneOrder state node outs) (task : ℕ)
    (fresh : TraceId) (utc : DateTime) :
    OneOrder state ((wholeNode cfg engine).next node (.strategy task fresh utc))
      (outs ++ (wholeNode cfg engine).emit node (.strategy task fresh utc)) := by
  obtain ⟨houtboxes, hlog⟩ := step_outboxes hquiet h.outboxes task fresh utc
  have hturn : node.turn cfg engine (.strategy task fresh utc) =
      ({ node with host := (node.host.step engine task fresh utc).1 },
        ((node.host.step engine task fresh utc).2.map HostOutput.publication).toList, []) := rfl
  refine h.quiet hturn rfl id rfl houtboxes fun pub hpub => ?_
  -- what the host publishes is an event
  rw [Option.mem_toList, Option.map_eq_some_iff] at hpub
  obtain ⟨out, hout, rfl⟩ := hpub
  obtain ⟨evt, rfl⟩ := hlog out hout
  simp [HostOutput.publication, eventPublication, ordersCommand]

theorem OneOrder.handle (h : OneOrder state node outs) (now : DateTime)
    (exchange : OkxOrderRequest → Transmission) :
    OneOrder state ((wholeNode cfg engine).next node (.execute now exchange))
      (outs ++ (wholeNode cfg engine).emit node (.execute now exchange)) := by
  cases hcommands : node.commands with
  | none => exact h.nothing (by simp only [WholeNode.turn, hcommands])
  | some queue =>
    cases queue with
    | nil => exact h.nothing (by simp only [WholeNode.turn, hcommands])
    | cons msg rest =>
      have hturn : node.turn cfg engine (.execute now exchange) =
          ({ node with commands := some rest } : WholeNode σ).execInput
            (.command msg.asCommand now exchange) := by
        simp only [WholeNode.turn, hcommands]
      exact .of_turn hturn (h.execute hcommands now exchange)

/-- The task that `main` spawns last publishes its order once. -/
theorem OneOrder.startup (h : OneOrder state node outs) (fresh : TraceId) :
    OneOrder state ((wholeNode cfg engine).next node (.startup fresh))
      (outs ++ (wholeNode cfg engine).emit node (.startup fresh)) := by
  cases hstartup : node.startup with
  | spawned =>
    have hturn : node.turn cfg engine (.startup fresh) =
        ({ node with startup := .asleep }, [], []) := by
      simp only [WholeNode.turn, hstartup]
    exact h.quiet hturn rfl (fun _ => Or.inl hstartup) rfl h.outboxes (List.forall_mem_nil _)
  | asleep =>
    have hturn : node.turn cfg engine (.startup fresh) =
        ({ node with startup := .published },
          [⟨ordersCommand, .command (testOrder fresh)⟩], []) := by
      simp only [WholeNode.turn, hstartup]
    exact .of_turn hturn (h.publish hstartup fresh)
  | published =>
    have hturn : node.turn cfg engine (.startup fresh) =
        ({ node with startup := .ended }, [], []) := by
      simp only [WholeNode.turn, hstartup]
    refine h.quiet hturn rfl (fun hs => ?_) rfl h.outboxes (List.forall_mem_nil _)
    rcases hs with hs | hs <;> cases hs
  | ended => exact h.nothing (by simp only [WholeNode.turn, hstartup])

/-- **Every turn keeps it**, if the strategy plans nothing. -/
theorem OneOrder.next (hquiet : engine.PlansNothing) (h : OneOrder state node outs) (t : NodeTurn) :
    OneOrder state ((wholeNode cfg engine).next node t)
      (outs ++ (wholeNode cfg engine).emit node t) := by
  by_cases hby : t.Bystander
  · obtain ⟨hsame, hsubjects, hseen⟩ := turn_idle cfg engine node hby
    have hturn : node.turn cfg engine t =
        ((node.turn cfg engine t).1, (node.turn cfg engine t).2.1, []) := by
      rw [← hseen]
    refine h.quiet hturn hsame.commands ?_ hsame.ledger ?_ hsubjects
    · rw [hsame.startup]
      exact id
    · rw [hsame.outboxes]
      exact h.outboxes
  · cases t with
    | subscribe => exact h.subscribe
    | strategy task fresh utc => exact OneOrder.strategy hquiet h task fresh utc
    | listen =>
      exact h.idle { node with commands := some (node.commands.getD []) } rfl id rfl
        h.outboxes (List.forall_mem_nil _)
    | execute now exchange => exact h.handle now exchange
    | startup fresh => exact h.startup fresh
    | _ => exact absurd trivial hby

omit [Reqwest] [TickerChannel] [OrderChannel] in
theorem OneOrder.start (cfg : NodeConfig) (init : σ) (exec : ExecutionService) :
    OneOrder exec.state (WholeNode.start cfg init exec) [] where
  outboxes := by
    intro outbox hmem
    cases hmem
  before := fun _ => rfl
  after := Or.inl rfl
  requests := le_rfl
  submitted := List.forall_mem_nil _
  ledger := fun _ => rfl

/-- **The order of the last task of `main`.**  In every run of a node whose strategy plans nothing
the execution service handles at most one command, which is that order; it submits an order at most
once, and that one only; and the ledger does not change before it handles it. -/
theorem orders_of_startup (hquiet : engine.PlansNothing) (cfg : NodeConfig) (init : σ)
    (exec : ExecutionService) (ts : List NodeTurn) :
    let outs := (wholeNode cfg engine).output (WholeNode.start cfg init exec) ts
    (∃ fresh, WholeOutput.commands outs <+: [testOrder fresh]) ∧
      (WholeOutput.requests outs).length ≤ (WholeOutput.commands outs).length ∧
      (∀ request ∈ WholeOutput.requests outs, ∃ client : OkxClient, ∀ fresh,
        client.orderRequest (testOrder fresh) = .ok request) ∧
      (WholeOutput.commands outs = [] →
        ((wholeNode cfg engine).run (WholeNode.start cfg init exec) ts).exec.state =
          exec.state) := by
  have hone : OneOrder exec.state
      ((wholeNode cfg engine).run (WholeNode.start cfg init exec) ts)
      ((wholeNode cfg engine).output (WholeNode.start cfg init exec) ts) :=
    Machine.history_induction (M := wholeNode cfg engine) (P := fun _ => OneOrder exec.state)
      (Q := fun _ => True) (OneOrder.start cfg init exec)
      (fun _ _ _ t h _ => h.next hquiet t) fun _ _ => trivial
  refine ⟨?_, hone.requests, hone.submitted, hone.ledger⟩
  -- what has been handled is the first part of what has been under way
  rcases hone.after with hnil | ⟨fresh, hsingle⟩
  · rw [pendingCommands, List.append_eq_nil_iff, List.map_eq_nil_iff] at hnil
    exact ⟨"", by rw [hnil.1]; exact List.nil_prefix⟩
  · refine ⟨fresh, ?_⟩
    rw [pendingCommands] at hsingle
    rcases List.append_eq_singleton_iff.1 hsingle with ⟨hnil, -⟩ | ⟨hmap, -⟩
    · rw [List.map_eq_nil_iff.1 hnil]
      exact List.nil_prefix
    · obtain ⟨cmd, hcommands, hcmd⟩ := List.map_eq_singleton_iff.1 hmap
      rw [hcommands, BusPayload.command.inj hcmd]

end Turns

/-- An engine that plans nothing. -/
def onlooker : StrategyEngine Unit where
  onMarketSnapshot _ _ _ := ({ plannedOrders := [], notes := none, traceId := none }, ())

theorem onlooker_plansNothing : onlooker.PlansNothing := fun _ _ _ => rfl

/-- Parsers that find nothing. -/
@[reducible] def silentTickers : TickerChannel := ⟨fun _ => .ok []⟩

@[reducible] def silentUpdates : OrderChannel := ⟨fun _ => .ok []⟩

/-- A node whose strategy plans nothing. -/
abbrev onlookingNode (cfg : NodeConfig) : Machine (WholeNode Unit) NodeTurn WholeOutput :=
  @wholeNode asciiCase acceptAll silentTickers silentUpdates Unit cfg onlooker

/-- The execution service listens, the last task of `main` publishes its order, and the order is
handled. -/
def startupTurns (exchange : OkxOrderRequest → Transmission) : List NodeTurn :=
  [.listen, .startup "t", .startup "t", .execute 0 exchange]

/-- A live node with an OKX account. -/
def tradingConfig : NodeConfig :=
  { NodeConfig.default with
    exchanges := [{ ExchangeConfig.okxDefaults .mainnet with
      credentials := some { apiKey := "key", apiSecret := "secret", passphrase := some "pass" } }]
    execution := { ExecutionConfig.default with liveTradingEnabled := true } }

theorem orders_of_startup_default :
    ∃ exec, @ExecutionService.new ℚ acceptAll _ NodeConfig.default.execConfig = .ok exec ∧
      ∃ fresh, WholeOutput.commands ((onlookingNode NodeConfig.default).output
        (WholeNode.start NodeConfig.default () exec)
        (startupTurns fun _ => .unsent "")) <+: [testOrder fresh] := by
  refine ⟨_, rfl, ?_⟩
  exact (@orders_of_startup asciiCase acceptAll silentTickers silentUpdates Unit onlooker
    onlooker_plansNothing NodeConfig.default () _ (startupTurns fun _ => .unsent "")).1

/-- **An order without a strategy**: the node with the default configuration fills the order of
`main`, and a live node sends it to the exchange. -/
theorem not_only_strategies :
    (∃ exec, @ExecutionService.new ℚ acceptAll _ NodeConfig.default.execConfig = .ok exec ∧
      WholeOutput.commands ((onlookingNode NodeConfig.default).output
        (WholeNode.start NodeConfig.default () exec) (startupTurns fun _ => .unsent "")) =
          [testOrder "t"] ∧
      ((onlookingNode NodeConfig.default).run
        (WholeNode.start NodeConfig.default () exec)
        (startupTurns fun _ => .unsent "")).exec.state.balanceUsdt =
          exec.state.balanceUsdt - 1000) ∧
    ∃ exec, @ExecutionService.new ℚ acceptAll _ tradingConfig.execConfig = .ok exec ∧
      (WholeOutput.requests ((onlookingNode tradingConfig).output
        (WholeNode.start tradingConfig () exec)
        (startupTurns fun _ => .sent (.error "timed out")))).map OkxOrderRequest.clOrdId =
          ["test-order-1"] := by
  refine ⟨⟨_, rfl, ?_, ?_⟩, _, rfl, ?_⟩
  · rfl
  · decide +kernel
  · rfl

end W2uos
