import W2uos.Strategy.Types

/-!
# The strategy host

`StrategyHostService` subscribes to one market subject for every subscription it starts with; the
task of a subscription hands each snapshot to the strategy engine and publishes the orders the
engine plans.  While the host is paused, snapshots are dropped.

The engine is shared by all tasks and called under a lock.  A task publishes its orders one at a
time, so messages of others may come in between: what is still to be published stays in the task.

* `StrategyEngine` : what the host asks of an engine;
* `handleSnapshot` : one snapshot;
* `HostTask`, `StrategyHost` : the tasks of the subscriptions, and the host.
-/

namespace W2uos

/-- A market the host listens to. -/
structure StrategySubscription where
  exchange : ExchangeId
  symbol : Symbol
  deriving DecidableEq

/-- `StrategySubscription::from`. -/
def StrategySubscription.ofPair (pair : PairId) : StrategySubscription where
  exchange := pair.exchange
  symbol := pair.symbol

/-- A strategy engine with states `σ`. -/
structure StrategyEngine (σ : Type) where
  /-- React to a snapshot. -/
  onMarketSnapshot : σ → PairId → MarketSnapshot → StrategyOutcome × σ

/-- The milliseconds of a timestamp, rounded down. -/
def timestampMillis (ts : DateTime) : ℤ := ts / 1000000

/-- What the host publishes: on `orders.command`, and on `log.event`. -/
inductive HostOutput
  | order (cmd : OrderCommand)
  | log (evt : LogEvent)
  deriving DecidableEq

/-- The command of the planned order with index `idx`. -/
def PlannedOrder.command (planned : PlannedOrder) (idx : ℕ) (pair : PairId)
    (snapshot : MarketSnapshot) (traceId : TraceId) : OrderCommand where
  id := toString (timestampMillis snapshot.ts) ++ "-" ++ toString idx
  exchange := pair.exchange
  symbol := pair.symbol
  side := planned.side
  orderType := planned.orderType
  sizeQuote := planned.sizeQuote
  limitPrice := planned.limitPrice
  traceId := some traceId

/-- The commands of an outcome. -/
def StrategyOutcome.commands (outcome : StrategyOutcome) (pair : PairId)
    (snapshot : MarketSnapshot) (traceId : TraceId) : List OrderCommand :=
  outcome.plannedOrders.zipIdx.map fun (planned, idx) => planned.command idx pair snapshot traceId

/-- The log event of an outcome. -/
def StrategyOutcome.decision (outcome : StrategyOutcome) (pair : PairId) (traceId : TraceId)
    (utc : DateTime) : LogEvent where
  ts := utc
  level := .info
  source := .strategy
  message := "strategy decision"
  fields :=
    [("pair", .text (pair.exchange.toText ++ "." ++ pair.symbol.base ++ pair.symbol.quote)),
      ("planned_orders", .number outcome.plannedOrders.length),
      ("notes", match outcome.notes with
        | some notes => .text notes
        | none => .null),
      ("stage", .text "strategy_decision")]
  correlationId := none
  traceId := some traceId

/-- Handle a snapshot: the state of the engine afterwards, and what is published.  `fresh` is the
trace identifier made up for a snapshot without one. -/
def handleSnapshot {σ : Type} (engine : StrategyEngine σ) (state : σ) (paused : Bool)
    (pair : PairId) (snapshot : MarketSnapshot) (fresh : TraceId) (utc : DateTime) :
    σ × List HostOutput :=
  if paused then (state, [])
  else
    let (outcome, state) := engine.onMarketSnapshot state pair snapshot
    let traceId := snapshot.traceId.getD fresh
    (state, (outcome.commands pair snapshot traceId).map .order ++
      [.log (outcome.decision pair traceId utc)])

/-- The task of a subscription. -/
structure HostTask where
  pair : PairId
  /-- The snapshots in the channel, oldest first. -/
  queue : List MarketSnapshot
  /-- What the task has still to publish of the snapshot it has handled last. -/
  outbox : List HostOutput
  deriving DecidableEq

/-- The strategy host. -/
structure StrategyHost (σ : Type) where
  engine : σ
  paused : Bool
  tasks : List HostTask

/-- A started host, with one task for each subscription. -/
def StrategyHost.start {σ : Type} (engine : σ) (subscriptions : List StrategySubscription) :
    StrategyHost σ where
  engine := engine
  paused := false
  tasks := subscriptions.map fun sub =>
    { pair := { exchange := sub.exchange, symbol := sub.symbol }, queue := [], outbox := [] }

/-- The host subscribes to a market, and starts a task for it. -/
def StrategyHost.subscribe {σ : Type} (host : StrategyHost σ) (pair : PairId) : StrategyHost σ :=
  { host with tasks := host.tasks ++ [{ pair := pair, queue := [], outbox := [] }] }

/-- The subject a task is subscribed to. -/
def HostTask.subject [CaseTable] (task : HostTask) : String :=
  marketSubject task.pair.exchange task.pair.symbol

/-- A snapshot published on its subject reaches the tasks subscribed to it. -/
def StrategyHost.deliver [CaseTable] {σ : Type} (host : StrategyHost σ) (snap : MarketSnapshot) :
    StrategyHost σ :=
  { host with
    tasks := host.tasks.map fun task =>
      if task.subject = snap.subject then { task with queue := task.queue ++ [snap] } else task }

/-- One step of the task with index `k`: publish the next message of its outbox, or take the next
snapshot. -/
def StrategyHost.step {σ : Type} (engine : StrategyEngine σ) (host : StrategyHost σ) (k : ℕ)
    (fresh : TraceId) (utc : DateTime) : StrategyHost σ × Option HostOutput :=
  match host.tasks[k]? with
  | none => (host, none)
  | some task =>
    match task.outbox, task.queue with
    | out :: outbox, _ =>
      ({ host with tasks := host.tasks.set k { task with outbox := outbox } }, some out)
    | [], snap :: queue =>
      let (state, outs) :=
        handleSnapshot engine host.engine host.paused task.pair snap fresh utc
      ({ host with
          engine := state
          tasks := host.tasks.set k { task with queue := queue, outbox := outs } }, none)
    | [], [] => (host, none)

namespace StrategyHost

variable {σ : Type} (engine : StrategyEngine σ) (host : StrategyHost σ) {k : ℕ} (fresh : TraceId)
  (utc : DateTime) {task : HostTask}

theorem step_publish {out : HostOutput} {outbox : List HostOutput}
    (htask : host.tasks[k]? = some task) (houtbox : task.outbox = out :: outbox) :
    host.step engine k fresh utc =
      ({ host with tasks := host.tasks.set k { task with outbox := outbox } }, some out) := by
  simp only [step, htask, houtbox]

theorem step_take {snap : MarketSnapshot} {queue : List MarketSnapshot}
    (htask : host.tasks[k]? = some task) (houtbox : task.outbox = [])
    (hqueue : task.queue = snap :: queue) :
    host.step engine k fresh utc =
      let handled := handleSnapshot engine host.engine host.paused task.pair snap fresh utc
      ({ host with
          engine := handled.1
          tasks := host.tasks.set k { task with queue := queue, outbox := handled.2 } }, none) := by
  simp only [step, htask, houtbox, hqueue]

theorem step_idle (h : ∀ task, host.tasks[k]? = some task → task.outbox = [] ∧ task.queue = []) :
    host.step engine k fresh utc = (host, none) := by
  cases htask : host.tasks[k]? with
  | none => simp only [step, htask]
  | some task =>
    obtain ⟨houtbox, hqueue⟩ := h task htask
    simp only [step, htask, houtbox, hqueue]

/-- **What the turn of a task does**: it publishes the next message, takes the next snapshot, or
there is nothing to do. -/
theorem step_cases (k : ℕ) :
    ((∀ task, host.tasks[k]? = some task → task.outbox = [] ∧ task.queue = []) ∧
      host.step engine k fresh utc = (host, none)) ∨
    (∃ task out outbox, host.tasks[k]? = some task ∧ task.outbox = out :: outbox ∧
      host.step engine k fresh utc =
        ({ host with tasks := host.tasks.set k { task with outbox := outbox } }, some out)) ∨
    ∃ task snap queue, host.tasks[k]? = some task ∧ task.outbox = [] ∧
      task.queue = snap :: queue ∧
      host.step engine k fresh utc =
        let handled := handleSnapshot engine host.engine host.paused task.pair snap fresh utc
        ({ host with
            engine := handled.1
            tasks := host.tasks.set k { task with queue := queue, outbox := handled.2 } },
          none) := by
  cases htask : host.tasks[k]? with
  | none =>
    have hnone : ∀ task : HostTask, none = some task → task.outbox = [] ∧ task.queue = [] := by
      rintro task ⟨⟩
    exact Or.inl ⟨hnone, host.step_idle engine fresh utc (htask ▸ hnone)⟩
  | some task =>
    cases houtbox : task.outbox with
    | cons out outbox =>
      exact Or.inr (Or.inl ⟨task, out, outbox, rfl, houtbox,
        host.step_publish engine fresh utc htask houtbox⟩)
    | nil =>
      cases hqueue : task.queue with
      | cons snap queue =>
        exact Or.inr (Or.inr ⟨task, snap, queue, rfl, houtbox, hqueue,
          host.step_take engine fresh utc htask houtbox hqueue⟩)
      | nil =>
        have hnone : ∀ other, some task = some other → other.outbox = [] ∧ other.queue = [] := by
          rintro other ⟨⟩
          exact ⟨houtbox, hqueue⟩
        exact Or.inl ⟨hnone, host.step_idle engine fresh utc (htask ▸ hnone)⟩

end StrategyHost

/-- An engine that buys whenever it sees a snapshot. -/
def buyer : StrategyEngine Unit where
  onMarketSnapshot _ _ _ :=
    ({ plannedOrders :=
        [{ side := .buy, orderType := .market, sizeQuote := 10, limitPrice := none,
           traceId := none }]
       notes := none
       traceId := none }, ())

end W2uos
