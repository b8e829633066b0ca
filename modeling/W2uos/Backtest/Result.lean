import W2uos.Backtest.Engine
import W2uos.Bus.Local
import W2uos.Exec.Service
import W2uos.Strategy.Lifecycle

/-!
# The result of a backtest

`BacktestEngine::run` subscribes a metrics task to `orders.result`, publishes the stored snapshots
and then reads the metrics.  In between are the channels and tasks of the strategy host, of the
execution service and of the metrics task, which run concurrently with the engine.

The pauses of the engine between two snapshots are left out: they are no bound on how far the other
tasks get.  The log and trade messages of the tasks go to others and are left out, too.

* `BacktestRun.Conserves` : every command caused is at one place on its way;
* `exists_lagging` : from every start there is a run in which one command is left behind;
* `backtestSound_iff` : when the result is complete and reproducible.
-/

namespace W2uos

/-! ### Metrics -/

/-- The result of a backtest. -/
structure BacktestResult where
  pnl : ℚ
  maxDrawdown : ℚ
  tradeCount : ℕ
  winRate : ℚ
  deriving DecidableEq

/-- What the metrics task has added up. -/
structure BacktestMetrics where
  pnl : ℚ
  tradeCount : ℕ
  wins : ℕ
  equityPeak : ℚ
  equity : ℚ
  deriving DecidableEq

namespace BacktestMetrics

/-- `BacktestMetrics::default`. -/
def default : BacktestMetrics where
  pnl := 0
  tradeCount := 0
  wins := 0
  equityPeak := 0
  equity := 0

/-- Record the result of an order. -/
def record (metrics : BacktestMetrics) (result : OrderResult) : BacktestMetrics :=
  match result.status with
  | .filled =>
    let pnl := metrics.pnl + result.filledSizeQuote * (1 / 1000)
    let equity := metrics.equity + pnl
    { pnl := pnl
      tradeCount := metrics.tradeCount + 1
      wins := if 0 ≤ pnl then metrics.wins + 1 else metrics.wins
      equityPeak := max metrics.equityPeak equity
      equity := equity }
  | _ => metrics

/-- The result the metrics amount to. -/
def toResult (metrics : BacktestMetrics) : BacktestResult where
  pnl := metrics.pnl
  maxDrawdown :=
    if 0 < metrics.equityPeak then
      max (metrics.equityPeak - metrics.equity) 0 / metrics.equityPeak
    else 0
  tradeCount := metrics.tradeCount
  winRate := if 0 < metrics.tradeCount then metrics.wins / metrics.tradeCount else 0

end BacktestMetrics

/-! ### The tasks of a backtest -/

/-- A backtest with everything its snapshots pass through. -/
structure BacktestRun (σ : Type) where
  /-- The snapshots the engine has still to publish. -/
  snaps : List MarketSnapshot
  /-- The snapshot it is publishing, and the tasks that have still to be sent it. -/
  publishing : Option (MarketSnapshot × List ℕ)
  host : StrategyHost σ
  /-- The channel of `orders.command`, oldest first. -/
  commands : List OrderCommand
  exec : ExecutionService
  /-- The result the execution service has to publish before it takes another command. -/
  outbox : Option OrderResult
  /-- The channel of `orders.result` to the metrics task. -/
  results : List OrderResult
  metrics : BacktestMetrics
  /-- What the engine has returned. -/
  result : Option BacktestResult
  /-- The commands handled so far; nobody reads this. -/
  handled : List OrderCommand
  /-- The results of the commands handled so far; nobody reads this. -/
  answers : List OrderResult
  /-- The results recorded so far; nobody reads this. -/
  recorded : List OrderResult

/-- The turns of the tasks. -/
inductive BacktestEvent
  /-- The engine: its next publish, send or return. -/
  | replay
  /-- A task of the host. -/
  | strategy (task : ℕ) (fresh : TraceId) (utc : DateTime)
  /-- The execution service handles its next command. -/
  | execute (now : DateTime) (exchange : OkxOrderRequest → Transmission)
  /-- The execution service publishes a result. -/
  | answer
  /-- The metrics task records its next result. -/
  | record

section

variable [CaseTable] {σ : Type}

/-- The tasks that a snapshot is sent to, in the order of their subscriptions. -/
def StrategyHost.receivers (host : StrategyHost σ) (snap : MarketSnapshot) : List ℕ :=
  (host.tasks.zipIdx.filter fun entry => entry.1.subject = snap.subject).map Prod.snd

namespace BacktestRun

/-- A backtest of the given snapshots that is about to start. -/
def start (snaps : List MarketSnapshot) (engine : σ) (subscriptions : List StrategySubscription)
    (exec : ExecutionService) : BacktestRun σ where
  snaps := snaps
  publishing := none
  host := StrategyHost.start engine subscriptions
  commands := []
  exec := exec
  outbox := none
  results := []
  metrics := BacktestMetrics.default
  result := none
  handled := []
  answers := []
  recorded := []

/-- A turn of the engine. -/
def replay (t : BacktestRun σ) : Option (BacktestRun σ) :=
  match t.publishing with
  | some (snap, k :: ks) =>
    match t.host.tasks[k]? with
    | some task =>
      -- the send waits while the channel is full
      if task.queue.length < channelCapacity then
        some { t with
          publishing := some (snap, ks)
          host := { t.host with
            tasks := t.host.tasks.set k { task with queue := task.queue ++ [snap] } } }
      else none
    | none => some { t with publishing := some (snap, ks) }
  | some (_, []) => some { t with publishing := none }
  | none =>
    match t.snaps with
    | snap :: snaps =>
      some { t with publishing := some (snap, t.host.receivers snap), snaps := snaps }
    | [] =>
      match t.result with
      | none => some { t with result := some t.metrics.toResult }
      | some _ => none

/-- A turn of a task of the host. -/
def strategy (engine : StrategyEngine σ) (t : BacktestRun σ) (k : ℕ) (fresh : TraceId)
    (utc : DateTime) : Option (BacktestRun σ) :=
  match t.host.step engine k fresh utc with
  | (host, some (.order cmd)) =>
    if t.commands.length < channelCapacity then
      some { t with host := host, commands := t.commands ++ [cmd] }
    else none
  | (host, _) => some { t with host := host }

/-- The execution service handles a command. -/
def execute (t : BacktestRun σ) (now : DateTime) (exchange : OkxOrderRequest → Transmission) :
    Option (BacktestRun σ) :=
  match t.outbox, t.commands with
  | none, cmd :: commands =>
    let h := t.exec.handleCommand cmd now exchange
    some { t with
      commands := commands
      exec := h.service
      outbox := h.result.toOption
      handled := t.handled ++ [cmd]
      answers := t.answers ++ h.result.toOption.toList }
  | _, _ => none

omit [CaseTable] in
/-- The execution service publishes a result. -/
def answer (t : BacktestRun σ) : Option (BacktestRun σ) :=
  match t.outbox with
  | some result =>
    if t.results.length < channelCapacity then
      some { t with outbox := none, results := t.results ++ [result] }
    else none
  | none => none

omit [CaseTable] in
/-- The metrics task records a result. -/
def recordNext (t : BacktestRun σ) : Option (BacktestRun σ) :=
  match t.results with
  | result :: results =>
    some { t with
      results := results
      metrics := t.metrics.record result
      recorded := t.recorded ++ [result] }
  | [] => none

end BacktestRun

/-- The tasks of a backtest, interleaved. -/
def backtestRun (engine : StrategyEngine σ) : Interleaving (BacktestRun σ) BacktestEvent where
  step t
    | .replay => t.replay
    | .strategy k fresh utc => t.strategy engine k fresh utc
    | .execute now exchange => t.execute now exchange
    | .answer => t.answer
    | .record => t.recordNext

end

/-! ### The commands that the snapshots cause -/

/-- A command without its trace identifier, which is made up when a snapshot is handled. -/
def OrderCommand.untraced (cmd : OrderCommand) : OrderCommand := { cmd with traceId := none }

section

variable {σ : Type} (engine : StrategyEngine σ) (init : σ)

/-- The outcome of the engine does not depend on the snapshots it has seen before. -/
def StrategyEngine.Stateless : Prop :=
  ∀ s s' pair snap,
    (engine.onMarketSnapshot s pair snap).1 = (engine.onMarketSnapshot s' pair snap).1

/-- The commands of a snapshot for a pair. -/
def plan (pair : PairId) (snap : MarketSnapshot) : List OrderCommand :=
  ((engine.onMarketSnapshot init pair snap).1.commands pair snap "").map OrderCommand.untraced

/-- The commands that a snapshot causes when it is published. -/
def causedBy [CaseTable] (pairs : List PairId) (snap : MarketSnapshot) : List OrderCommand :=
  (pairs.filter fun pair => marketSubject pair.exchange pair.symbol = snap.subject).flatMap
    fun pair => plan engine init pair snap

/-- The commands that the replayed snapshots cause. -/
def causedCommands [CaseTable] (subscriptions : List StrategySubscription)
    (snaps : List MarketSnapshot) : List OrderCommand :=
  snaps.flatMap (causedBy engine init (subscriptions.map StrategySubscription.toPair))

/-- The commands that a task has still to publish. -/
def HostTask.load (task : HostTask) : List OrderCommand :=
  (HostOutput.orders task.outbox).map OrderCommand.untraced ++
    task.queue.flatMap (plan engine init task.pair)

/-- The commands that the tasks still to be sent a snapshot will publish. -/
def sendLoad (pairs : List PairId) (snap : MarketSnapshot) (ks : List ℕ) : List OrderCommand :=
  ks.flatMap fun k => (pairs[k]?).elim [] fun pair => plan engine init pair snap

namespace BacktestRun

/-- The pairs of the tasks. -/
def pairs (t : BacktestRun σ) : List PairId := t.host.tasks.map HostTask.pair

/-- The commands on their way to the execution service. -/
def inFlight (t : BacktestRun σ) : List OrderCommand :=
  t.commands.map OrderCommand.untraced ++ t.host.tasks.flatMap (HostTask.load engine init)

/-- The commands of what is still to be published. -/
def upcoming [CaseTable] (t : BacktestRun σ) : List OrderCommand :=
  (t.publishing.elim [] fun (snap, ks) => sendLoad engine init t.pairs snap ks) ++
    t.snaps.flatMap (causedBy engine init t.pairs)

/-- The engine returns at its next turn. -/
def Returning (t : BacktestRun σ) : Prop := t.publishing = none ∧ t.snaps = [] ∧ t.result = none

/-- The metrics account for the given commands: these are the commands that have been handled, and
all their results have been recorded. -/
def Accounts (t : BacktestRun σ) (commands : List OrderCommand) : Prop :=
  (t.handled.map OrderCommand.untraced).Perm commands ∧ t.recorded = t.answers

/-- Nothing is on its way from the strategy host to the metrics. -/
def Drained (t : BacktestRun σ) : Prop :=
  t.inFlight engine init = [] ∧ t.outbox = none ∧ t.results = []

end BacktestRun

end

/-! ### Every command is at one place -/

section

variable {σ : Type} {engine : StrategyEngine σ} (init : σ)

theorem untraced_commands (outcome : StrategyOutcome) (pair : PairId) (snap : MarketSnapshot)
    (traceId traceId' : TraceId) :
    (outcome.commands pair snap traceId).map OrderCommand.untraced =
      (outcome.commands pair snap traceId').map OrderCommand.untraced := by
  simp only [StrategyOutcome.commands, List.map_map]
  rfl

/-- What a task has to publish after it has taken a snapshot are the planned commands. -/
theorem orders_handleSnapshot (hengine : engine.Stateless) (state : σ) (pair : PairId)
    (snap : MarketSnapshot) (fresh : TraceId) (utc : DateTime) :
    (HostOutput.orders (handleSnapshot engine state false pair snap fresh utc).2).map
      OrderCommand.untraced = plan engine init pair snap := by
  have hout : HostOutput.orders (handleSnapshot engine state false pair snap fresh utc).2 =
      (engine.onMarketSnapshot state pair snap).1.commands pair snap
        (snap.traceId.getD fresh) := by
    simp [handleSnapshot, HostOutput.orders, List.filterMap_append, List.filterMap_map]
  rw [hout, untraced_commands _ _ _ _ "", plan, hengine state init]

theorem load_take (hengine : engine.Stateless) (state : σ) {task : HostTask}
    {snap : MarketSnapshot} {queue : List MarketSnapshot} (houtbox : task.outbox = [])
    (hqueue : task.queue = snap :: queue) (fresh : TraceId) (utc : DateTime) :
    HostTask.load engine init
        { task with
          queue := queue
          outbox := (handleSnapshot engine state false task.pair snap fresh utc).2 } =
      task.load engine init := by
  simp only [HostTask.load, houtbox, hqueue, List.flatMap_cons]
  rw [orders_handleSnapshot init hengine]
  rfl

@[simp] theorem sendLoad_nil (pairs : List PairId) (snap : MarketSnapshot) :
    sendLoad engine init pairs snap [] = [] := rfl

@[simp] theorem sendLoad_cons (pairs : List PairId) (snap : MarketSnapshot) (k : ℕ)
    (ks : List ℕ) :
    sendLoad engine init pairs snap (k :: ks) =
      ((pairs[k]?).elim [] fun pair => plan engine init pair snap) ++
        sendLoad engine init pairs snap ks := rfl

theorem sendLoad_receivers [CaseTable] (host : StrategyHost σ) (snap : MarketSnapshot) :
    sendLoad engine init (host.tasks.map HostTask.pair) snap (host.receivers snap) =
      causedBy engine init (host.tasks.map HostTask.pair) snap := by
  have hfilter : (host.tasks.map HostTask.pair).filter
        (fun pair => marketSubject pair.exchange pair.symbol = snap.subject) =
      ((host.tasks.zipIdx.filter fun entry => entry.1.subject = snap.subject).map
        fun entry => entry.1.pair) := by
    conv_lhs => rw [← List.zipIdx_map_fst 0 host.tasks]
    rw [List.map_map, List.filter_map]
    rfl
  rw [sendLoad, StrategyHost.receivers, causedBy, hfilter, List.flatMap_map, List.flatMap_map]
  refine List.flatMap_congr fun entry hentry => ?_
  have hget : host.tasks[entry.2]? = some entry.1 :=
    List.mem_zipIdx_iff_getElem?.1 (List.mem_filter.1 hentry).1
  rw [List.getElem?_map, hget]
  rfl

variable [CaseTable] (engine) (subscriptions : List StrategySubscription)
  (snaps : List MarketSnapshot)

/-- **Every command caused is at one place**: it has been handled, is on its way to the execution
service, or is still to be published; and what has been answered has been recorded or is on its way
to the metrics. -/
structure BacktestRun.Conserves (t : BacktestRun σ) : Prop where
  pairs : t.pairs = subscriptions.map StrategySubscription.toPair
  running : t.host.paused = false
  commands : ∀ c, (t.handled.map OrderCommand.untraced).count c +
    (t.inFlight engine init).count c + (t.upcoming engine init).count c =
      (causedCommands engine init subscriptions snaps).count c
  answers : t.answers = t.recorded ++ t.results ++ t.outbox.toList
  answered : t.answers.length ≤ t.handled.length
  metrics : t.metrics = t.recorded.foldl BacktestMetrics.record BacktestMetrics.default

variable {engine init subscriptions snaps}

namespace BacktestRun

variable {t t' : BacktestRun σ}

theorem conserves_start (state : σ) (exec : ExecutionService) :
    Conserves engine init subscriptions snaps (start snaps state subscriptions exec) := by
  have hpairs : (start snaps state subscriptions exec).pairs =
      subscriptions.map StrategySubscription.toPair := by
    simp [BacktestRun.pairs, start, StrategyHost.start, Function.comp_def,
      StrategySubscription.toPair]
  have hload : (start snaps state subscriptions exec).inFlight engine init = [] := by
    simp [inFlight, start, StrategyHost.start, HostTask.load, HostOutput.orders]
  refine ⟨hpairs, rfl, ?_, rfl, Nat.le_refl _, rfl⟩
  intro c
  rw [hload, upcoming, hpairs]
  simp only [start, causedCommands, List.map_nil, List.count_nil, Option.elim_none,
    List.nil_append, Nat.zero_add]

theorem Conserves.replay (hc : t.Conserves engine init subscriptions snaps)
    (h : t.replay = some t') : t'.Conserves engine init subscriptions snaps := by
  obtain ⟨hpairs, hrunning, hcommands, hanswers, hanswered, hmetrics⟩ := hc
  unfold BacktestRun.replay at h
  split at h
  · next snap k ks hpub =>
    split at h
    · next task htask =>
      split_ifs at h with hroom
      cases h
      -- the commands of the snapshot move on to the task it is sent to
      have hset : (t.host.tasks.set k { task with queue := task.queue ++ [snap] }).map
          HostTask.pair = t.host.tasks.map HostTask.pair := Tasks.map_set htask rfl
      have hget : (t.host.tasks.map HostTask.pair)[k]? = some task.pair := by
        rw [List.getElem?_map, htask, Option.map_some]
      refine ⟨hset.trans hpairs, hrunning, ?_, hanswers, hanswered, hmetrics⟩
      intro c
      have htasks := Tasks.count_flatMap_set htask (HostTask.load engine init)
        { task with queue := task.queue ++ [snap] } c
      have hload : (HostTask.load engine init { task with queue := task.queue ++ [snap] }).count c =
          (task.load engine init).count c + (plan engine init task.pair snap).count c := by
        simp only [HostTask.load, List.flatMap_append, List.flatMap_singleton, List.count_append,
          Nat.add_assoc]
      have hc := hcommands c
      simp only [inFlight, upcoming, BacktestRun.pairs, hset, hpub, Option.elim_some,
        sendLoad_cons, hget, List.count_append] at hc ⊢
      omega
    · next htask =>
      cases h
      have hget : (t.host.tasks.map HostTask.pair)[k]? = none := by
        rw [List.getElem?_map, htask, Option.map_none]
      refine ⟨hpairs, hrunning, ?_, hanswers, hanswered, hmetrics⟩
      intro c
      have hc := hcommands c
      simpa only [inFlight, upcoming, BacktestRun.pairs, hpub, Option.elim_some, sendLoad_cons,
        hget, Option.elim_none, List.nil_append] using hc
  · next snap hpub =>
    cases h
    refine ⟨hpairs, hrunning, ?_, hanswers, hanswered, hmetrics⟩
    intro c
    have hc := hcommands c
    simpa only [inFlight, upcoming, BacktestRun.pairs, hpub, Option.elim_some, sendLoad_nil,
      Option.elim_none] using hc
  · next hpub =>
    split at h
    · next snap rest hsnaps =>
      cases h
      refine ⟨hpairs, hrunning, ?_, hanswers, hanswered, hmetrics⟩
      intro c
      have hc := hcommands c
      simpa only [inFlight, upcoming, BacktestRun.pairs, hpub, hsnaps, Option.elim_none,
        Option.elim_some, List.flatMap_cons, List.nil_append, sendLoad_receivers] using hc
    · next hsnaps =>
      split at h
      · cases h
        exact ⟨hpairs, hrunning, hcommands, hanswers, hanswered, hmetrics⟩
      · cases h

omit [CaseTable] in
theorem strategy_cases {k : ℕ} {fresh : TraceId} {utc : DateTime}
    (h : t.strategy engine k fresh utc = some t') :
    t' = t ∨ ∃ task, t.host.tasks[k]? = some task ∧
      ((∃ cmd outbox, task.outbox = .order cmd :: outbox ∧
          t' = { t with
            host := { t.host with tasks := t.host.tasks.set k { task with outbox := outbox } }
            commands := t.commands ++ [cmd] }) ∨
        (∃ evt outbox, task.outbox = .log evt :: outbox ∧
          t' = { t with
            host := { t.host with tasks := t.host.tasks.set k { task with outbox := outbox } } }) ∨
        ∃ snap queue, task.outbox = [] ∧ task.queue = snap :: queue ∧
          t' = { t with host :=
            { t.host with
              engine :=
                (handleSnapshot engine t.host.engine t.host.paused task.pair snap fresh utc).1
              tasks := t.host.tasks.set k
                { task with
                  queue := queue
                  outbox := (handleSnapshot engine t.host.engine t.host.paused task.pair snap
                    fresh utc).2 } } }) := by
  unfold strategy at h
  rcases t.host.step_cases engine fresh utc k with ⟨-, hstep⟩ |
    ⟨task, out, outbox, htask, houtbox, hstep⟩ |
    ⟨task, snap, queue, htask, houtbox, hqueue, hstep⟩
  · rw [hstep] at h
    cases h
    exact Or.inl rfl
  · rw [hstep] at h
    refine Or.inr ⟨task, htask, ?_⟩
    cases out with
    | order cmd =>
      dsimp only at h
      split_ifs at h
      cases h
      exact Or.inl ⟨cmd, outbox, houtbox, rfl⟩
    | log evt =>
      cases h
      exact Or.inr (Or.inl ⟨evt, outbox, houtbox, rfl⟩)
  · rw [hstep] at h
    cases h
    exact Or.inr ⟨task, htask, Or.inr (Or.inr ⟨snap, queue, houtbox, hqueue, rfl⟩)⟩

theorem Conserves.strategy (hengine : engine.Stateless)
    (hc : t.Conserves engine init subscriptions snaps) {k : ℕ} {fresh : TraceId} {utc : DateTime}
    (h : t.strategy engine k fresh utc = some t') :
    t'.Conserves engine init subscriptions snaps := by
  rcases strategy_cases h with rfl | ⟨task, htask, hturn⟩
  · exact hc
  obtain ⟨hpairs, hrunning, hcommands, hanswers, hanswered, hmetrics⟩ := hc
  have hset : ∀ task₁ : HostTask, task₁.pair = task.pair →
      (t.host.tasks.set k task₁).map HostTask.pair = t.host.tasks.map HostTask.pair :=
    fun task₁ hpair => Tasks.map_set htask hpair
  have htasks := fun task₁ : HostTask =>
    Tasks.count_flatMap_set htask (HostTask.load engine init) task₁
  rcases hturn with ⟨cmd, outbox, houtbox, rfl⟩ | ⟨evt, outbox, houtbox, rfl⟩ |
    ⟨snap, queue, houtbox, hqueue, rfl⟩
  · -- an order moves from the outbox to the channel
    have hout := hset { task with outbox := outbox } rfl
    refine ⟨hout.trans hpairs, hrunning, ?_, hanswers, hanswered, hmetrics⟩
    intro c
    have htasks := htasks { task with outbox := outbox } c
    have hload : task.load engine init =
        cmd.untraced :: HostTask.load engine init { task with outbox := outbox } := by
      simp only [HostTask.load, houtbox]
      rfl
    have hc := hcommands c
    rw [hload] at htasks
    simp only [inFlight, upcoming, BacktestRun.pairs, hout, List.map_append, List.map_cons,
      List.map_nil, List.count_append, List.count_cons, List.count_nil] at hc htasks ⊢
    omega
  · -- a log event leaves the outbox
    have hout := hset { task with outbox := outbox } rfl
    refine ⟨hout.trans hpairs, hrunning, ?_, hanswers, hanswered, hmetrics⟩
    intro c
    have htasks := htasks { task with outbox := outbox } c
    have hload : task.load engine init =
        HostTask.load engine init { task with outbox := outbox } := by
      simp only [HostTask.load, houtbox]
      rfl
    have hc := hcommands c
    rw [hload] at htasks
    simp only [inFlight, upcoming, BacktestRun.pairs, hout, List.count_append] at hc htasks ⊢
    omega
  · -- the engine plans the commands of the next snapshot
    have hout := hset { task with
      queue := queue
      outbox := (handleSnapshot engine t.host.engine t.host.paused task.pair snap fresh utc).2 } rfl
    refine ⟨hout.trans hpairs, hrunning, ?_, hanswers, hanswered, hmetrics⟩
    intro c
    have htasks := htasks { task with
      queue := queue
      outbox := (handleSnapshot engine t.host.engine t.host.paused task.pair snap fresh utc).2 } c
    have hload := load_take init hengine t.host.engine houtbox hqueue fresh utc
    have hc := hcommands c
    simp only [hrunning] at hout htasks ⊢
    rw [hload] at htasks
    simp only [inFlight, upcoming, BacktestRun.pairs, hout, List.count_append] at hc htasks ⊢
    omega

theorem Conserves.execute (hc : t.Conserves engine init subscriptions snaps) {now : DateTime}
    {exchange : OkxOrderRequest → Transmission} (h : t.execute now exchange = some t') :
    t'.Conserves engine init subscriptions snaps := by
  obtain ⟨hpairs, hrunning, hcommands, hanswers, hanswered, hmetrics⟩ := hc
  unfold BacktestRun.execute at h
  split at h
  · next cmd commands houtbox hcmds =>
    cases h
    refine ⟨hpairs, hrunning, ?_, ?_, ?_, hmetrics⟩
    · intro c
      have hc := hcommands c
      simp only [inFlight, upcoming, BacktestRun.pairs, hcmds, List.map_append, List.map_cons,
        List.map_nil, List.count_append, List.count_cons, List.count_nil] at hc ⊢
      omega
    · rw [hanswers, houtbox]
      simp only [Option.toList_none, List.append_nil]
    · have hone : ∀ o : Option OrderResult, o.toList.length ≤ 1 := by
        rintro (_ | result) <;> simp
      have hone := hone (t.exec.handleCommand cmd now exchange).result.toOption
      simp only [List.length_append, List.length_singleton]
      omega
  · cases h

theorem Conserves.answer (hc : t.Conserves engine init subscriptions snaps)
    (h : t.answer = some t') : t'.Conserves engine init subscriptions snaps := by
  obtain ⟨hpairs, hrunning, hcommands, hanswers, hanswered, hmetrics⟩ := hc
  unfold BacktestRun.answer at h
  split at h
  · next result houtbox =>
    split_ifs at h
    cases h
    refine ⟨hpairs, hrunning, hcommands, ?_, hanswered, hmetrics⟩
    rw [hanswers, houtbox]
    simp
  · cases h

theorem Conserves.recordNext (hc : t.Conserves engine init subscriptions snaps)
    (h : t.recordNext = some t') : t'.Conserves engine init subscriptions snaps := by
  obtain ⟨hpairs, hrunning, hcommands, hanswers, hanswered, hmetrics⟩ := hc
  unfold BacktestRun.recordNext at h
  split at h
  · next result results hresults =>
    cases h
    refine ⟨hpairs, hrunning, hcommands, ?_, hanswered, ?_⟩
    · rw [hanswers, hresults]
      simp
    · rw [List.foldl_concat, ← hmetrics]
  · cases h

end BacktestRun

/-- **The step lemma of conservation.** -/
theorem conserves_step (hengine : engine.Stateless) {t t' : BacktestRun σ} {e : BacktestEvent}
    (ht : t.Conserves engine init subscriptions snaps)
    (h : (backtestRun engine).step t e = some t') :
    t'.Conserves engine init subscriptions snaps := by
  cases e with
  | replay => exact ht.replay h
  | strategy k fresh utc => exact ht.strategy hengine h
  | execute now exchange => exact ht.execute h
  | answer => exact ht.answer h
  | record => exact ht.recordNext h

theorem conserves_exec (hengine : engine.Stateless) (state : σ) (exec : ExecutionService)
    {es : List BacktestEvent} {t : BacktestRun σ}
    (h : (backtestRun engine).exec (.start snaps state subscriptions exec) es = some t) :
    t.Conserves engine init subscriptions snaps :=
  Interleaving.exec_invariant (BacktestRun.conserves_start state exec)
    (fun _ _ _ ht hstep => conserves_step hengine ht hstep) h

theorem BacktestRun.result_step {t t' : BacktestRun σ} {e : BacktestEvent}
    (h : (backtestRun engine).step t e = some t') :
    t'.result = t.result ∨ t'.result = some t.metrics.toResult := by
  cases e with
  | replay =>
    have h : t.replay = some t' := h
    unfold BacktestRun.replay at h
    split at h
    · split at h
      · split_ifs at h
        cases h
        exact Or.inl rfl
      · cases h
        exact Or.inl rfl
    · cases h
      exact Or.inl rfl
    · split at h
      · cases h
        exact Or.inl rfl
      · split at h
        · cases h
          exact Or.inr rfl
        · cases h
  | strategy k fresh utc =>
    rcases BacktestRun.strategy_cases h with rfl | ⟨task, -, ⟨cmd, outbox, -, rfl⟩ |
      ⟨evt, outbox, -, rfl⟩ | ⟨snap, queue, -, -, rfl⟩⟩
    all_goals exact Or.inl rfl
  | execute now exchange =>
    have h : t.execute now exchange = some t' := h
    unfold BacktestRun.execute at h
    split at h
    · cases h
      exact Or.inl rfl
    · cases h
  | answer =>
    have h : t.answer = some t' := h
    unfold BacktestRun.answer at h
    split at h
    · split_ifs at h
      cases h
      exact Or.inl rfl
    · cases h
  | record =>
    have h : t.recordNext = some t' := h
    unfold BacktestRun.recordNext at h
    split at h
    · cases h
      exact Or.inl rfl
    · cases h

/-- **When the metrics are complete**: the engine returns the result of all commands exactly if
nothing is on its way when it reads the metrics. -/
theorem BacktestRun.Conserves.accounts_iff {t : BacktestRun σ}
    (hc : t.Conserves engine init subscriptions snaps) (hret : t.Returning) :
    t.Accounts (causedCommands engine init subscriptions snaps) ↔ t.Drained engine init := by
  obtain ⟨hpublishing, hsnaps, -⟩ := hret
  have hupcoming : t.upcoming engine init = [] := by
    rw [BacktestRun.upcoming, hpublishing, hsnaps]
    rfl
  have hperm : (t.handled.map OrderCommand.untraced ++ t.inFlight engine init).Perm
      (causedCommands engine init subscriptions snaps) := by
    rw [List.perm_iff_count]
    intro c
    have hcount := hc.commands c
    rwa [hupcoming, List.count_nil, Nat.add_zero, ← List.count_append] at hcount
  constructor
  · rintro ⟨hhandled, hrecorded⟩
    have hlength := hperm.length_eq.trans hhandled.length_eq.symm
    have hanswers := hc.answers
    rw [hrecorded, List.append_assoc, List.self_eq_append_right, List.append_eq_nil_iff] at hanswers
    rw [List.length_append, Nat.add_eq_left, List.length_eq_zero_iff] at hlength
    exact ⟨hlength, by simpa using hanswers.2, hanswers.1⟩
  · rintro ⟨hflight, houtbox, hresults⟩
    refine ⟨?_, ?_⟩
    · rwa [hflight, List.append_nil] at hperm
    · rw [hc.answers, houtbox, hresults]
      simp

/-! ### A run that leaves a command behind -/

/-- How many turns a task of the host has still to take. -/
def HostTask.toDo (engine : StrategyEngine σ) (init : σ) (task : HostTask) : ℕ :=
  task.outbox.length +
    (task.queue.map fun snap => (plan engine init task.pair snap).length + 2).sum

omit [CaseTable] in
theorem length_handleSnapshot (init : σ) (hengine : engine.Stateless) (state : σ) (pair : PairId)
    (snap : MarketSnapshot) (fresh : TraceId) (utc : DateTime) :
    (handleSnapshot engine state false pair snap fresh utc).2.length =
      (plan engine init pair snap).length + 1 := by
  simp [handleSnapshot, plan, hengine state init]

namespace BacktestRun

/-- All tasks of the host have nothing to do. -/
def Idle (t : BacktestRun σ) : Prop := ∀ task ∈ t.host.tasks, task.outbox = [] ∧ task.queue = []

/-- At most one command waits for the execution service, and it is the last one. -/
structure Lags (t : BacktestRun σ) : Prop where
  channel : t.commands.length ≤ 1
  outbox : t.outbox = none
  results : t.results = []
  behind : t.commands = [] → t.handled = []
  running : t.host.paused = false

/-- The engine has not moved. -/
structure SameEngine (t t' : BacktestRun σ) : Prop where
  snaps : t'.snaps = t.snaps
  publishing : t'.publishing = t.publishing
  result : t'.result = t.result

omit [CaseTable] in
theorem SameEngine.trans {t u v : BacktestRun σ} (h : SameEngine t u) (h' : SameEngine u v) :
    SameEngine t v :=
  ⟨h'.snaps.trans h.snaps, h'.publishing.trans h.publishing, h'.result.trans h.result⟩

/-- How many turns the tasks of the host have still to take. -/
def work (engine : StrategyEngine σ) (init : σ) (t : BacktestRun σ) : ℕ :=
  (t.host.tasks.map (HostTask.toDo engine init)).sum

variable {t : BacktestRun σ}

omit [CaseTable] in
theorem answer_of {result : OrderResult} (houtbox : t.outbox = some result)
    (hresults : t.results = []) :
    t.answer = some { t with outbox := none, results := [result] } := by
  simp only [answer, houtbox, hresults, List.length_nil, List.nil_append]
  exact if_pos (by decide)

omit [CaseTable] in
theorem recordNext_of {result : OrderResult} (hresults : t.results = [result]) :
    t.recordNext = some
      { t with
        results := []
        metrics := t.metrics.record result
        recorded := t.recorded ++ [result] } := by
  simp only [recordNext, hresults]

variable (engine) in
theorem exists_executed {cmd : OrderCommand} (houtbox : t.outbox = none)
    (hcommands : t.commands = [cmd]) :
    ∃ es t', (backtestRun engine).exec t es = some t' ∧ SameEngine t t' ∧ t'.host = t.host ∧
      t'.commands = [] ∧ t'.results = t.results := by
  let exchange : OkxOrderRequest → Transmission := fun _ => .unsent ""
  let h := t.exec.handleCommand cmd 0 exchange
  have hstep : (backtestRun engine).step t (.execute 0 exchange) = some
      { t with
        commands := []
        exec := h.service
        outbox := h.result.toOption
        handled := t.handled ++ [cmd]
        answers := t.answers ++ h.result.toOption.toList } := by
    show t.execute 0 exchange = _
    simp only [execute, houtbox, hcommands]
    rfl
  exact ⟨_, _, Interleaving.exec_cons_of_step hstep [], ⟨rfl, rfl, rfl⟩, rfl, rfl, rfl⟩

variable (engine) in
theorem exists_recorded (hcommands : t.commands = []) (hresults : t.results = []) :
    ∃ es t', (backtestRun engine).exec t es = some t' ∧ SameEngine t t' ∧ t'.host = t.host ∧
      t'.commands = [] ∧ t'.outbox = none ∧ t'.results = [] := by
  cases houtbox : t.outbox with
  | none => exact ⟨[], t, rfl, ⟨rfl, rfl, rfl⟩, rfl, hcommands, houtbox, hresults⟩
  | some result =>
    let u : BacktestRun σ := { t with outbox := none, results := [result] }
    have hpublish : (backtestRun engine).step t .answer = some u := answer_of houtbox hresults
    have hrecord : (backtestRun engine).step u .record = some _ := @recordNext_of σ u result rfl
    have hexec := (Interleaving.exec_cons_of_step hpublish [.record]).trans
      (Interleaving.exec_cons_of_step hrecord [])
    exact ⟨_, _, hexec, ⟨rfl, rfl, rfl⟩, rfl, hcommands, rfl, rfl⟩

variable (engine) in
theorem exists_flushed (ht : t.Lags) :
    ∃ es t', (backtestRun engine).exec t es = some t' ∧ SameEngine t t' ∧ t'.host = t.host ∧
      t'.commands = [] ∧ t'.outbox = none ∧ t'.results = [] := by
  obtain ⟨hchannel, houtbox, hresults, -, -⟩ := ht
  cases hcmds : t.commands with
  | nil => exact ⟨[], t, rfl, ⟨rfl, rfl, rfl⟩, rfl, hcmds, houtbox, hresults⟩
  | cons cmd commands =>
    obtain rfl : commands = [] := by
      rw [hcmds, List.length_cons] at hchannel
      exact List.length_eq_zero_iff.1 (by omega)
    obtain ⟨es, u, hexec, hsame, hhost, hcommands, hresults'⟩ :=
      exists_executed engine houtbox hcmds
    obtain ⟨es', v, hexec', hsame', hhost', hv⟩ :=
      exists_recorded engine hcommands (hresults'.trans hresults)
    exact ⟨es ++ es', v, Interleaving.exec_trans hexec hexec', hsame.trans hsame',
      hhost'.trans hhost, hv⟩

omit [CaseTable] in
theorem work_set {k : ℕ} {task task₁ : HostTask} (htask : t.host.tasks[k]? = some task)
    (hless : task₁.toDo engine init < task.toDo engine init) {t' : BacktestRun σ}
    (hhost : t'.host.tasks = t.host.tasks.set k task₁) :
    t'.work engine init < t.work engine init := by
  have hset := Tasks.sum_map_set htask (HostTask.toDo engine init) task₁
  unfold work
  rw [hhost]
  omega

omit [CaseTable] in
theorem strategy_order {k : ℕ} {task : HostTask} {cmd : OrderCommand} {outbox : List HostOutput}
    (htask : t.host.tasks[k]? = some task) (houtbox : task.outbox = .order cmd :: outbox)
    (hcommands : t.commands = []) (fresh : TraceId) (utc : DateTime) :
    t.strategy engine k fresh utc = some
      { t with
        host := { t.host with tasks := t.host.tasks.set k { task with outbox := outbox } }
        commands := [cmd] } := by
  simp only [strategy, t.host.step_publish engine fresh utc htask houtbox, hcommands,
    List.length_nil, List.nil_append]
  exact if_pos (by decide)

omit [CaseTable] in
theorem strategy_log {k : ℕ} {task : HostTask} {evt : LogEvent} {outbox : List HostOutput}
    (htask : t.host.tasks[k]? = some task) (houtbox : task.outbox = .log evt :: outbox)
    (fresh : TraceId) (utc : DateTime) :
    t.strategy engine k fresh utc = some
      { t with
        host := { t.host with tasks := t.host.tasks.set k { task with outbox := outbox } } } := by
  simp only [strategy, t.host.step_publish engine fresh utc htask houtbox]

omit [CaseTable] in
theorem strategy_take {k : ℕ} {task : HostTask} {snap : MarketSnapshot}
    {queue : List MarketSnapshot} (htask : t.host.tasks[k]? = some task)
    (houtbox : task.outbox = []) (hqueue : task.queue = snap :: queue) (fresh : TraceId)
    (utc : DateTime) :
    t.strategy engine k fresh utc = some
      { t with host :=
        { t.host with
          engine := (handleSnapshot engine t.host.engine t.host.paused task.pair snap fresh utc).1
          tasks := t.host.tasks.set k
            { task with
              queue := queue
              outbox := (handleSnapshot engine t.host.engine t.host.paused task.pair snap fresh
                utc).2 } } } := by
  simp only [strategy, t.host.step_take engine fresh utc htask houtbox hqueue]

/-- One more turn of a task of the host, without letting the commands run up. -/
theorem exists_lagging_turn (hengine : engine.Stateless) (ht : t.Lags) (hidle : ¬ t.Idle) :
    ∃ es t', (backtestRun engine).exec t es = some t' ∧ SameEngine t t' ∧ t'.Lags ∧
      t'.work engine init < t.work engine init := by
  unfold Idle at hidle
  push Not at hidle
  obtain ⟨task, hmem, hbusy⟩ := hidle
  obtain ⟨k, htask⟩ := List.getElem?_of_mem hmem
  cases houtbox : task.outbox with
  | nil =>
    obtain ⟨snap, queue, hqueue⟩ := List.exists_cons_of_ne_nil (hbusy houtbox)
    have hstep : (backtestRun engine).step t (.strategy k "" 0) = some _ :=
      strategy_take htask houtbox hqueue "" 0
    refine ⟨[.strategy k "" 0], _, Interleaving.exec_cons_of_step hstep [], ⟨rfl, rfl, rfl⟩,
      ⟨ht.channel, ht.outbox, ht.results, ht.behind, ht.running⟩, ?_⟩
    refine work_set htask ?_ rfl
    simp only [HostTask.toDo, houtbox, hqueue, ht.running, length_handleSnapshot init hengine,
      List.map_cons, List.sum_cons, List.length_nil]
    omega
  | cons out outbox =>
    have hless : HostTask.toDo engine init { task with outbox := outbox } <
        task.toDo engine init := by
      simp only [HostTask.toDo, houtbox, List.length_cons]
      omega
    cases out with
    | order cmd =>
      -- first make room for the command
      obtain ⟨es, u, hexec, hsame, hhost, hcommands, hout, hresults⟩ := exists_flushed engine ht
      rw [← hhost] at htask
      let v : BacktestRun σ :=
        { u with
          host := { u.host with tasks := u.host.tasks.set k { task with outbox := outbox } }
          commands := [cmd] }
      have hstep : (backtestRun engine).step u (.strategy k "" 0) = some v :=
        strategy_order htask houtbox hcommands "" 0
      refine ⟨es ++ [.strategy k "" 0], v,
        Interleaving.exec_trans hexec (Interleaving.exec_cons_of_step hstep []),
        hsame.trans ⟨rfl, rfl, rfl⟩, ⟨Nat.le_refl 1, hout, hresults, ?_, ?_⟩, ?_⟩
      · intro hnil
        cases hnil
      · show u.host.paused = false
        rw [hhost, ht.running]
      · have hwork : t.work engine init = u.work engine init := by
          rw [work, work, hhost]
        rw [hwork]
        exact work_set htask hless rfl
    | log evt =>
      have hstep : (backtestRun engine).step t (.strategy k "" 0) = some _ :=
        strategy_log htask houtbox "" 0
      exact ⟨[.strategy k "" 0], _, Interleaving.exec_cons_of_step hstep [], ⟨rfl, rfl, rfl⟩,
        ⟨ht.channel, ht.outbox, ht.results, ht.behind, ht.running⟩, work_set htask hless rfl⟩

theorem exists_lagging_idle (init : σ) (hengine : engine.Stateless) (ht : t.Lags) :
    ∃ es t', (backtestRun engine).exec t es = some t' ∧ SameEngine t t' ∧ t'.Lags ∧ t'.Idle := by
  induction hn : t.work engine init using Nat.strong_induction_on generalizing t with
  | _ n ih =>
    by_cases hidle : t.Idle
    · exact ⟨[], t, rfl, ⟨rfl, rfl, rfl⟩, ht, hidle⟩
    · obtain ⟨es, u, hexec, hsame, hu, hless⟩ : ∃ es u, (backtestRun engine).exec t es = some u ∧
          SameEngine t u ∧ u.Lags ∧ u.work engine init < t.work engine init :=
        exists_lagging_turn hengine ht hidle
      obtain ⟨es', v, hexec', hsame', hv, hidle'⟩ := ih _ (hn ▸ hless) hu rfl
      exact ⟨es ++ es', v, Interleaving.exec_trans hexec hexec', hsame.trans hsame', hv, hidle'⟩

theorem exists_lagging_publish (init : σ) (hengine : engine.Stateless) (ht : t.Lags)
    (hidle : t.Idle) {snap : MarketSnapshot} {ks : List ℕ} (hpub : t.publishing = some (snap, ks)) :
    ∃ es t', (backtestRun engine).exec t es = some t' ∧ t'.snaps = t.snaps ∧
      t'.publishing = none ∧ t'.result = t.result ∧ t'.Lags ∧ t'.Idle := by
  induction ks generalizing t with
  | nil =>
    have hstep : (backtestRun engine).step t .replay = some { t with publishing := none } := by
      show t.replay = _
      simp only [replay, hpub]
    exact ⟨[.replay], _, Interleaving.exec_cons_of_step hstep [], rfl, rfl, rfl,
      ⟨ht.channel, ht.outbox, ht.results, ht.behind, ht.running⟩, hidle⟩
  | cons k ks ih =>
    cases htask : t.host.tasks[k]? with
    | none =>
      have hstep : (backtestRun engine).step t .replay =
          some { t with publishing := some (snap, ks) } := by
        show t.replay = _
        simp only [replay, hpub, htask]
      obtain ⟨es, u, hexec, hu⟩ := @ih { t with publishing := some (snap, ks) }
        ⟨ht.channel, ht.outbox, ht.results, ht.behind, ht.running⟩ hidle rfl
      exact ⟨.replay :: es, u, (Interleaving.exec_cons_of_step hstep es).trans hexec, hu⟩
    | some task =>
      have hqueue := (hidle task (List.mem_of_getElem? htask)).2
      have hstep : (backtestRun engine).step t .replay = some
          { t with
            publishing := some (snap, ks)
            host := { t.host with
              tasks := t.host.tasks.set k { task with queue := [snap] } } } := by
        show t.replay = _
        simp only [replay, hpub, htask, hqueue, List.length_nil, List.nil_append]
        exact if_pos (by decide)
      -- the task works the snapshot off before the next send
      obtain ⟨es, u, hexec, hsame, hu, huidle⟩ := exists_lagging_idle init hengine
        (t := { t with
          publishing := some (snap, ks)
          host := { t.host with tasks := t.host.tasks.set k { task with queue := [snap] } } })
        ⟨ht.channel, ht.outbox, ht.results, ht.behind, ht.running⟩
      obtain ⟨es', v, hexec', hsnaps, hpublishing, hresult, hv⟩ := ih hu huidle hsame.publishing
      exact ⟨.replay :: (es ++ es'), v, (Interleaving.exec_cons_of_step hstep _).trans
        (Interleaving.exec_trans hexec hexec'), hsnaps.trans hsame.snaps, hpublishing,
        hresult.trans hsame.result, hv⟩

theorem exists_lagging_replay (init : σ) (hengine : engine.Stateless) (ht : t.Lags)
    (hidle : t.Idle) (hpub : t.publishing = none) (hresult : t.result = none) :
    ∃ es t', (backtestRun engine).exec t es = some t' ∧ t'.Returning ∧ t'.Lags := by
  induction hsnaps : t.snaps generalizing t with
  | nil => exact ⟨[], t, rfl, ⟨hpub, hsnaps, hresult⟩, ht⟩
  | cons snap snaps ih =>
    have hstep : (backtestRun engine).step t .replay = some
        { t with publishing := some (snap, t.host.receivers snap), snaps := snaps } := by
      show t.replay = _
      simp only [replay, hpub, hsnaps]
    obtain ⟨es, u, hexec, husnaps, hupub, huresult, hu, huidle⟩ :=
      exists_lagging_publish init hengine
        (t := { t with publishing := some (snap, t.host.receivers snap), snaps := snaps })
        ⟨ht.channel, ht.outbox, ht.results, ht.behind, ht.running⟩ hidle rfl
    obtain ⟨es', v, hexec', hv⟩ := ih hu huidle hupub (huresult.trans hresult) husnaps
    exact ⟨.replay :: (es ++ es'), v, (Interleaving.exec_cons_of_step hstep _).trans
      (Interleaving.exec_trans hexec hexec'), hv⟩

end BacktestRun

/-- **A run in which the last command is left behind**: the engine is about to return, and of all
commands at most one has not been handled, but one if there are any. -/
theorem exists_lagging (hengine : engine.Stateless) (state : σ)
    (subscriptions : List StrategySubscription) (snaps : List MarketSnapshot)
    (exec : ExecutionService) :
    ∃ es t, (backtestRun engine).exec (.start snaps state subscriptions exec) es = some t ∧
      t.Returning ∧ t.Lags := by
  refine BacktestRun.exists_lagging_replay state hengine
    ⟨Nat.zero_le 1, rfl, rfl, fun _ => rfl, rfl⟩ ?_ rfl rfl
  intro task htask
  obtain ⟨sub, -, rfl⟩ := List.mem_map.1 htask
  exact ⟨rfl, rfl⟩

/-- Metrics that lag behind do not account for the commands, if there are any. -/
theorem BacktestRun.Lags.not_accounts {t : BacktestRun σ} (ht : t.Lags)
    (hc : t.Conserves engine init subscriptions snaps) (hret : t.Returning)
    (hcaused : causedCommands engine init subscriptions snaps ≠ []) :
    ¬ t.Accounts (causedCommands engine init subscriptions snaps) := by
  intro haccounts
  have hflight := ((hc.accounts_iff hret).1 haccounts).1
  rw [BacktestRun.inFlight, List.append_eq_nil_iff, List.map_eq_nil_iff] at hflight
  have hhandled := ht.behind hflight.1
  have hperm := haccounts.1
  rw [hhandled, List.map_nil, List.nil_perm] at hperm
  exact hcaused hperm

/-! ### When the result is complete and reproducible -/

/-- The result is complete in every run, and the same in every run. -/
def BacktestSound (engine : StrategyEngine σ) (state : σ)
    (subscriptions : List StrategySubscription) (exec : ExecutionService)
    (snaps : List MarketSnapshot) : Prop :=
  (∀ es t, (backtestRun engine).exec (.start snaps state subscriptions exec) es = some t →
    t.Returning → t.Accounts (causedCommands engine state subscriptions snaps)) ∧
  ∀ es es' t t' r r',
    (backtestRun engine).exec (.start snaps state subscriptions exec) es = some t →
    (backtestRun engine).exec (.start snaps state subscriptions exec) es' = some t' →
    t.result = some r → t'.result = some r' → r = r'

theorem BacktestRun.Conserves.handled_eq_nil {t : BacktestRun σ}
    (hc : t.Conserves engine init subscriptions snaps)
    (hcaused : causedCommands engine init subscriptions snaps = []) : t.handled = [] := by
  rw [← List.map_eq_nil_iff (f := OrderCommand.untraced), List.eq_nil_iff_forall_not_mem]
  intro c hmem
  have hcount := hc.commands c
  rw [hcaused, List.count_nil] at hcount
  have hpos := List.count_pos_iff.2 hmem
  omega

theorem BacktestRun.Conserves.recorded_eq_nil {t : BacktestRun σ}
    (hc : t.Conserves engine init subscriptions snaps)
    (hcaused : causedCommands engine init subscriptions snaps = []) :
    t.answers = [] ∧ t.recorded = [] := by
  have hanswers : t.answers = [] := by
    have hle := hc.answered
    rw [hc.handled_eq_nil hcaused, List.length_nil] at hle
    exact List.length_eq_zero_iff.1 (Nat.le_zero.1 hle)
  have hsplit := hc.answers
  rw [hanswers, eq_comm, List.append_eq_nil_iff, List.append_eq_nil_iff] at hsplit
  exact ⟨hanswers, hsplit.1.1⟩

theorem result_of_idle (hengine : engine.Stateless) (state : σ) (exec : ExecutionService)
    (hcaused : causedCommands engine state subscriptions snaps = []) {es : List BacktestEvent}
    {t : BacktestRun σ}
    (h : (backtestRun engine).exec (.start snaps state subscriptions exec) es = some t) :
    ∀ r, t.result = some r → r = BacktestMetrics.default.toResult := by
  refine (Interleaving.exec_invariant (P := fun t : BacktestRun σ =>
    t.Conserves engine state subscriptions snaps ∧
      ∀ r, t.result = some r → r = BacktestMetrics.default.toResult) ⟨?_, ?_⟩ ?_ h).2
  · exact BacktestRun.conserves_start state exec
  · intro r hr
    cases hr
  · rintro t e t' ⟨ht, hresult⟩ hstep
    refine ⟨conserves_step hengine ht hstep, ?_⟩
    intro r hr
    rcases BacktestRun.result_step hstep with hsame | hread
    · exact hresult r (hsame ▸ hr)
    · rw [hread, ht.metrics, (ht.recorded_eq_nil hcaused).2, Option.some.injEq] at hr
      exact hr.symm

/-- **When a backtest is sound**: in a single run the result accounts for all commands exactly if
nothing is on its way when the engine reads the metrics; and this is so in every run, with the same
result, exactly if the replayed snapshots cause no command at all. -/
theorem backtestSound_iff (hengine : engine.Stateless) (state : σ)
    (subscriptions : List StrategySubscription) (exec : ExecutionService) (store : HistoricalStore)
    (config : BacktestConfig) :
    (∀ es t, (backtestRun engine).exec (.start (config.replay store) state subscriptions exec) es =
        some t → t.Returning →
      (t.Accounts (causedCommands engine state subscriptions (config.replay store)) ↔
        t.Drained engine state)) ∧
    (BacktestSound engine state subscriptions exec (config.replay store) ↔
      causedCommands engine state subscriptions (config.replay store) = []) := by
  have hconserves : ∀ es t, (backtestRun engine).exec
      (.start (config.replay store) state subscriptions exec) es = some t →
      t.Conserves engine state subscriptions (config.replay store) := fun es t h =>
    conserves_exec hengine state exec h
  refine ⟨fun es t h hret => (hconserves es t h).accounts_iff hret, ?_, ?_⟩
  · rintro ⟨hcomplete, -⟩
    by_contra hcaused
    obtain ⟨es, t, h, hret, hlags⟩ :=
      exists_lagging hengine state subscriptions (config.replay store) exec
    exact hlags.not_accounts (hconserves es t h) hret hcaused (hcomplete es t h hret)
  · intro hcaused
    refine ⟨?_, ?_⟩
    · intro es t h hret
      have hc := hconserves es t h
      obtain ⟨hanswers, hrecorded⟩ := hc.recorded_eq_nil hcaused
      rw [BacktestRun.Accounts, hc.handled_eq_nil hcaused, hcaused, hanswers, hrecorded]
      exact ⟨List.Perm.refl _, rfl⟩
    · intro es es' t t' r r' h h' hr hr'
      rw [result_of_idle hengine state exec hcaused h r hr,
        result_of_idle hengine state exec hcaused h' r' hr']

end

/-! ### A backtest of one snapshot -/

/-- The store of a single snapshot. -/
def singleStore : HistoricalStore := HistoricalStore.insertSnapshot [] (sampleSnapshot "BTC" 0)

/-- A backtest around it. -/
def singleBacktest : BacktestConfig where
  exchange := .okx
  symbols := [⟨"BTC", "USDT"⟩]
  start := -1000000000
  stop := 1000000000

theorem buyer_stateless : buyer.Stateless := fun _ _ _ _ => rfl

theorem backtestSound_iff_single :
    ∃ exec, @ExecutionService.new ℚ acceptAll _ .default = .ok exec ∧
      ((∀ es t, (@backtestRun asciiCase Unit buyer).exec
          (.start (singleBacktest.replay singleStore) () twoMarkets exec) es = some t →
          t.Returning →
        (t.Accounts (@causedCommands Unit buyer () asciiCase twoMarkets
            (singleBacktest.replay singleStore)) ↔ t.Drained buyer ())) ∧
      (@BacktestSound Unit asciiCase buyer () twoMarkets exec
          (singleBacktest.replay singleStore) ↔
        @causedCommands Unit buyer () asciiCase twoMarkets
          (singleBacktest.replay singleStore) = [])) :=
  ⟨_, rfl, @backtestSound_iff Unit buyer asciiCase buyer_stateless () twoMarkets _ singleStore
    singleBacktest⟩

/-- How many trades the backtest has reported after a run. -/
def reportedTrades (exec : ExecutionService) (es : List BacktestEvent) : Option ℕ :=
  ((@backtestRun asciiCase Unit buyer).exec
    (.start (singleBacktest.replay singleStore) () twoMarkets exec) es).bind fun t =>
      t.result.map (·.tradeCount)

/-- The engine runs to its end before anybody else has a turn. -/
def engineFirst : List BacktestEvent := [.replay, .replay, .replay, .replay]

/-- The order of the snapshot is placed, handled and recorded before the engine goes on. -/
def engineLast : List BacktestEvent :=
  [.replay, .replay, .strategy 0 "" 0, .strategy 0 "" 0, .execute 0 fun _ => .unsent "", .answer,
    .record, .replay, .replay]

theorem not_sound_of_trades {exec : ExecutionService} {m n : ℕ} (es es' : List BacktestEvent)
    (hm : reportedTrades exec es = some m) (hn : reportedTrades exec es' = some n) (hne : m ≠ n) :
    ¬ @BacktestSound Unit asciiCase buyer () twoMarkets exec
      (singleBacktest.replay singleStore) := by
  rintro ⟨-, hsame⟩
  obtain ⟨t, ht, htrades⟩ := Option.bind_eq_some_iff.1 hm
  obtain ⟨t', ht', htrades'⟩ := Option.bind_eq_some_iff.1 hn
  obtain ⟨r, hr, rfl⟩ := Option.map_eq_some_iff.1 htrades
  obtain ⟨r', hr', rfl⟩ := Option.map_eq_some_iff.1 htrades'
  exact hne (congrArg _ (hsame es es' t t' r r' ht ht' hr hr'))

/-- **A backtest returns before its trades are in**: if the engine runs ahead it reports no trade,
and if everybody else goes first it reports one. -/
theorem not_backtestSound :
    ∃ exec, @ExecutionService.new ℚ acceptAll _ .default = .ok exec ∧
      reportedTrades exec engineFirst = some 0 ∧ reportedTrades exec engineLast = some 1 ∧
      ¬ @BacktestSound Unit asciiCase buyer () twoMarkets exec
        (singleBacktest.replay singleStore) :=
  ⟨_, rfl, by decide +kernel, by decide +kernel,
    not_sound_of_trades engineFirst engineLast (by decide +kernel) (by decide +kernel)
      Nat.zero_ne_one⟩

end W2uos
