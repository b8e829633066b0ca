import W2uos.Data.Instruments
import W2uos.Node.Books
import W2uos.System.Reader

/-!
# The connections of a node

Two tasks of a node read from the exchange: the feed of the market data service, and the private
stream that the execution service spawns when it starts in live mode.  Each opens its connection
once, and a task whose connection has been closed or has failed is not started again.

An order that goes to the exchange is not filled by the service that sends it.  In live mode the
fills come from the private stream, and the snapshots from the feed, and from nowhere else.

* `handleCommand_live` : a live service fills nothing, and leaves its ledger alone;
* `live_fills` : the fills of a live node are those its private stream has read;
* `live_snapshots` : its snapshots are those its feed has read.
-/

namespace W2uos

/-! ### The tasks -/

/-- What is sent when a connection is open. -/
inductive OkxRequest
  | login (apiKey passphrase timestamp sign : String)
  | subscribeChannel (channel : String)
  | subscribe (args : List SubscribeArg)
  deriving DecidableEq

/-- The payload of a ping. -/
abbrev PingPayload := List UInt8

/-- `OkxPrivateStream`, without its bus. -/
structure OkxPrivateStream where
  wsUrl : String
  credentials : OkxCredentials
  deriving DecidableEq

namespace OkxPrivateStream

variable (stream : OkxPrivateStream) (hmac : String → String → String) (ts : String)

/-- `OkxPrivateStream::sign`, where `hmac` makes the text of the digest. -/
def sign (method path body : String) : String :=
  hmac stream.credentials.apiSecret (ts ++ method ++ path ++ body)

/-- What `OkxPrivateStream::run` sends first, at the time `ts`. -/
def greetings : List OkxRequest :=
  [.login stream.credentials.apiKey (stream.credentials.passphrase.getD "") ts
      (stream.sign hmac ts "GET" "/users/self/verify" ""),
    .subscribeChannel "orders"]

/-- `OkxPrivateStream::run`.  A text comes with the times at which its results are made. -/
def run [OrderChannel] : Machine (Reader OkxRequest)
    (ReaderEvent (String × List DateTime) PingPayload)
    (ReaderOutput OkxRequest PingPayload OrderResult) :=
  readerTask (stream.greetings hmac ts) fun txt => (handleText txt.1 txt.2).1

end OkxPrivateStream

/-- `OkxMarketStream::run`.  A text comes with the stamps of its snapshots. -/
def OkxMarketStream.run [CaseTable] [TickerChannel] (subscriptions : List MarketDataSubscription) :
    Machine (Reader OkxRequest) (ReaderEvent (String × (ℕ → Stamp)) PingPayload)
      (ReaderOutput OkxRequest PingPayload FeedOutput) :=
  readerTask [.subscribe (OkxMarketStream.subscribeArgs subscriptions)] fun txt =>
    (OkxMarketStream.handleText txt.1 txt.2).1

/-- The feed, when it has read what to subscribe to. -/
structure FeedTask where
  subscriptions : List MarketDataSubscription
  reader : Reader OkxRequest

/-- `MarketDataService::run_okx`, which does not connect if nothing is subscribed to. -/
def FeedTask.runOkx (subscriptions : List MarketDataSubscription) : FeedTask where
  subscriptions := subscriptions
  reader := if subscriptions.isEmpty then .over else .connecting

/-! ### The node -/

/-- A node with its connections. -/
structure ConnectedNode (σ : Type) where
  node : WholeNode σ
  feed : Option FeedTask
  orders : Reader OkxRequest

/-- The turns of such a node. -/
inductive ConnectedTurn
  /-- A turn of another part. -/
  | part (t : NodeTurn)
  /-- The feed reads the configuration of the service, which may have been replaced since the
  start. -/
  | runOkx (subscriptions : List MarketDataSubscription)
  /-- The feed goes on. -/
  | feed (e : ReaderEvent (String × (ℕ → Stamp)) PingPayload)
  /-- The private stream goes on. -/
  | orders (e : ReaderEvent (String × List DateTime) PingPayload)

/-- The turn reads from a connection. -/
def NodeTurn.isReading : NodeTurn → Bool
  | .okxFeed _ _ | .okxOrders _ _ => true
  | _ => false

/-- What the feed meets in a run. -/
def ConnectedTurn.feedEvents (ts : List ConnectedTurn) :
    List (ReaderEvent (String × (ℕ → Stamp)) PingPayload) :=
  ts.filterMap fun
    | .feed e => some e
    | _ => none

/-- What the feed subscribes to in a run, and what it meets from then on. -/
def ConnectedTurn.feedLife : List ConnectedTurn →
    Option (List MarketDataSubscription × List (ReaderEvent (String × (ℕ → Stamp)) PingPayload))
  | [] => none
  | .runOkx subscriptions :: ts => some (subscriptions, feedEvents ts)
  | _ :: ts => feedLife ts

/-- What the private stream meets. -/
def ConnectedTurn.orderEvents (ts : List ConnectedTurn) :
    List (ReaderEvent (String × List DateTime) PingPayload) :=
  ts.filterMap fun
    | .orders e => some e
    | _ => none

/-- The node when its services have been started.  The private stream is not spawned if the service
is not live. -/
def ConnectedNode.start {σ : Type} (cfg : NodeConfig) (engine : σ) (exec : ExecutionService) :
    ConnectedNode σ where
  node := WholeNode.start cfg engine exec
  feed := none
  orders :=
    if exec.config.mode = .liveOkx ∧ exec.config.okx.isSome then .connecting else .over

section Node

variable [CaseTable] [Reqwest] [TickerChannel] [OrderChannel] {σ : Type}

/-- A turn of the whole node, or none. -/
def ConnectedNode.turn (cfg : NodeConfig) (engine : StrategyEngine σ) (s : ConnectedNode σ) :
    Option NodeTurn → ConnectedNode σ × List WholeOutput
  | some t =>
    let (node, outs) := (wholeNode cfg engine).step s.node t
    ({ s with node := node }, outs)
  | none => (s, [])

/-- The node with its connections. -/
def connectedNode (cfg : NodeConfig) (engine : StrategyEngine σ) (stream : OkxPrivateStream)
    (hmac : String → String → String) (ts : String) :
    Machine (ConnectedNode σ) ConnectedTurn WholeOutput where
  step s
    | .part t => s.turn cfg engine (if t.isReading then none else some t)
    | .runOkx subscriptions =>
      if cfg.kernelMode = .live ∧ cfg.dataConfig.mode = .liveOkx ∧ s.feed.isNone then
        ({ s with feed := some (.runOkx subscriptions) }, [])
      else (s, [])
    | .feed e =>
      match s.feed with
      | none => (s, [])
      | some ⟨subscriptions, reader⟩ =>
        let taken := (reader.takes e).map fun txt => .okxFeed txt.1 txt.2
        let reader := (OkxMarketStream.run subscriptions).next reader e
        { s with feed := some ⟨subscriptions, reader⟩ }.turn cfg engine taken
    | .orders e =>
      let taken := (s.orders.takes e).map fun txt => .okxOrders txt.1 txt.2
      let orders := (stream.run hmac ts).next s.orders e
      { s with orders := orders }.turn cfg engine taken

end Node

/-! ### Live orders -/

/-- Commands go to the exchange. -/
structure ExecutionService.Live (s : ExecutionService) : Prop where
  mode : s.config.mode = .liveOkx
  client : s.okxClient.isSome = true

/-- A configuration that keeps a live service live. -/
def ExecutionConfig.KeepsLive (cfg : ExecutionConfig) : Prop :=
  cfg.mode = .liveOkx ∧ cfg.liveTradingEnabled = true

/-- An update that does. -/
def NodeTurn.KeepsLive : NodeTurn → Prop
  | .execUpdate (some cfg) => cfg.KeepsLive
  | _ => True

def ConnectedTurn.KeepsLive : ConnectedTurn → Prop
  | .part t => t.KeepsLive
  | _ => True

/-- The fills among results. -/
def OrderResult.fills (rs : List OrderResult) : List OrderResult :=
  rs.filter fun r => r.status = .filled

theorem OrderResult.fills_append (rs rs' : List OrderResult) :
    fills (rs ++ rs') = fills rs ++ fills rs' := List.filter_append ..

theorem OrderResult.fills_eq_nil {rs : List OrderResult} (h : ∀ r ∈ rs, r.status ≠ .filled) :
    fills rs = [] :=
  List.filter_eq_nil_iff.2 fun r hr => by simpa using h r hr

section Live

variable [CaseTable] [Reqwest] {s : ExecutionService}

omit [Reqwest] in
/-- **A live service fills nothing**, and leaves its ledger alone. -/
theorem handleCommand_live (h : s.Live) (cmd : OrderCommand) (now : DateTime)
    (exchange : OkxOrderRequest → Transmission) :
    (s.handleCommand cmd now exchange).service = s ∧
      ∀ r, (s.handleCommand cmd now exchange).result = .ok r → r.status ≠ .filled := by
  rcases s.handleCommand_cases cmd now exchange with ⟨-, heq⟩ | ⟨client, -, -, -, heq⟩ |
    ⟨-, hnone, -⟩
  · rw [heq]
    refine ⟨rfl, fun r hr => ?_⟩
    cases hr
    exact fun hfilled => by cases hfilled
  · rw [heq]
    exact ⟨rfl, fun r hr => ExecutionService.submit_ne_filled hr⟩
  · -- the simulator is reached without a client only
    have hclient := h.client
    rw [hnone h.mode] at hclient
    cases hclient

theorem exec_live (h : s.Live) {i : ExecInput}
    (hi : ∀ cfg, i = .configUpdate (some cfg) → cfg.KeepsLive) :
    (executionService.next s i).Live ∧ (executionService.next s i).state = s.state ∧
      OrderResult.fills (ExecOutput.results (executionService.emit s i)) = [] := by
  cases i with
  | command msg now exchange =>
    cases msg with
    | error err => exact ⟨h, rfl, rfl⟩
    | ok cmd =>
      obtain ⟨hservice, hresult⟩ := handleCommand_live h cmd now exchange
      have hnext : executionService.next s (.command (.ok cmd) now exchange) = s := hservice
      rw [hnext, results_emit_command]
      refine ⟨h, rfl, OrderResult.fills_eq_nil fun r hr => hresult r ?_⟩
      cases hanswer : (s.handleCommand cmd now exchange).result with
      | error err =>
        rw [hanswer] at hr
        cases hr
      | ok r' =>
        rw [hanswer] at hr
        rw [List.mem_singleton.1 hr]
  | configUpdate msg =>
    cases msg with
    | none => exact ⟨h, rfl, rfl⟩
    | some cfg =>
      obtain ⟨hmode, henabled⟩ := hi cfg rfl
      refine ⟨⟨?_, (s.updateConfig_okxClient cfg).2 ⟨henabled, Or.inr h.client⟩⟩,
        s.updateConfig_state cfg, rfl⟩
      rw [← hmode]
      rfl
  | blockNewOrders => exact ⟨⟨h.mode, h.client⟩, rfl, rfl⟩
  | resetCircuit => exact ⟨⟨h.mode, h.client⟩, rfl, rfl⟩

end Live

section Turns

variable [CaseTable] [Reqwest] [TickerChannel] [OrderChannel] {σ : Type} {cfg : NodeConfig}
  {engine : StrategyEngine σ} {node : WholeNode σ}

/-- **What a turn of a live node does**: the ledger stays as it is, and only the private stream
reports fills. -/
theorem turn_live (cfg : NodeConfig) (engine : StrategyEngine σ) (h : node.exec.Live)
    {t : NodeTurn} (ht : t.KeepsLive) :
    (node.turn cfg engine t).1.exec.Live ∧
      (node.turn cfg engine t).1.exec.state = node.exec.state ∧
      OrderResult.fills (Publication.results (node.turn cfg engine t).2.1) =
        OrderResult.fills t.streamed := by
  rcases turn_exec_cases cfg engine node t with
    ⟨hexec, hresults⟩ | ⟨u, i, hexec, hturn, hnone, hupdate⟩
  · rw [hexec, hresults]
    exact ⟨h, rfl, rfl⟩
  · have hi : ∀ newCfg, i = .configUpdate (some newCfg) → newCfg.KeepsLive := by
      intro newCfg heq
      rw [hupdate newCfg heq] at ht
      exact ht
    obtain ⟨hlive, hstate, hfills⟩ := exec_live h hi
    rw [hturn, hnone]
    change (executionService.next u.exec i).Live ∧
      (executionService.next u.exec i).state = node.exec.state ∧
        OrderResult.fills (Publication.results ((executionService.emit u.exec i).filterMap
          ExecOutput.publication)) = []
    rw [results_publication, hexec]
    exact ⟨hlive, hstate, hfills⟩

/-- **A run of a live node**: the ledger stays as it is, and the fills published are those among the
results of the private stream. -/
theorem run_live (cfg : NodeConfig) (engine : StrategyEngine σ) (h : node.exec.Live)
    {ts : List NodeTurn} (hts : ∀ t ∈ ts, t.KeepsLive) :
    ((wholeNode cfg engine).run node ts).exec.Live ∧
      ((wholeNode cfg engine).run node ts).exec.state = node.exec.state ∧
      OrderResult.fills (WholeOutput.publishedResults ((wholeNode cfg engine).output node ts)) =
        OrderResult.fills (ts.flatMap NodeTurn.streamed) := by
  induction ts using List.reverseRecOn with
  | nil => exact ⟨h, rfl, rfl⟩
  | append_singleton ts t ih =>
    obtain ⟨hlive, hstate, hfills⟩ := ih fun t' ht' => hts t' (List.mem_append_left _ ht')
    obtain ⟨hlive', hstate', hfills'⟩ := turn_live cfg engine hlive (hts t (by simp))
    have hexec : ((wholeNode cfg engine).next ((wholeNode cfg engine).run node ts) t).exec =
        (((wholeNode cfg engine).run node ts).turn cfg engine t).1.exec :=
      (books_foldl_route _ _).1
    rw [Machine.run_concat, Machine.output_concat, hexec, WholeOutput.publishedResults_append,
      Machine.emit, publishedResults_step, OrderResult.fills_append, hfills, hfills',
      List.flatMap_append, OrderResult.fills_append, List.flatMap_singleton]
    exact ⟨hlive', hstate'.trans hstate, rfl⟩

/-! ### Live snapshots -/

omit [CaseTable] [Reqwest] [TickerChannel] [OrderChannel] in
theorem Publication.snapshots_eq_nil {pubs : List Publication}
    (h : ∀ pub ∈ pubs, ∀ snap, pub.payload ≠ .snapshot snap) : snapshots pubs = [] := by
  refine List.filterMap_eq_nil_iff.2 fun pub hpub => ?_
  split
  · rename_i snap hsnap
    exact absurd hsnap (h pub hpub snap)
  · rfl

omit [CaseTable] [Reqwest] [TickerChannel] [OrderChannel] in
theorem snapshots_feed (outs : List FeedOutput) :
    Publication.snapshots (outs.map FeedOutput.publication) = FeedOutput.snapshots outs := by
  rw [Publication.snapshots, List.filterMap_map, FeedOutput.snapshots]
  refine List.filterMap_congr fun out _ => ?_
  cases out <;> rfl

omit [CaseTable] [Reqwest] [TickerChannel] [OrderChannel] in
theorem snapshots_exec (outs : List ExecOutput) :
    Publication.snapshots (outs.filterMap ExecOutput.publication) = [] := by
  refine Publication.snapshots_eq_nil fun pub hpub snap => ?_
  obtain ⟨out, -, hout⟩ := List.mem_filterMap.1 hpub
  cases out <;> cases hout <;> simp [eventPublication]

omit [CaseTable] [Reqwest] [TickerChannel] [OrderChannel] in
theorem snapshots_risk (outs : List RiskOutput) :
    Publication.snapshots (outs.map RiskOutput.publication) = [] := by
  refine Publication.snapshots_eq_nil fun pub hpub snap => ?_
  obtain ⟨out, -, rfl⟩ := List.mem_map.1 hpub
  cases out <;> simp [RiskOutput.publication, eventPublication]

/-- The snapshots the feed publishes in a turn. -/
def NodeTurn.fed : NodeTurn → List MarketSnapshot
  | .okxFeed txt stamp => FeedOutput.snapshots (OkxMarketStream.handleText txt stamp).1
  | _ => []

/-- A configuration whose feed is that of the exchange. -/
def NodeConfig.FedLive (cfg : NodeConfig) : Prop :=
  cfg.kernelMode = .live ∧ cfg.dataConfig.mode = .liveOkx

/-- The turn starts a backtest. -/
def NodeTurn.isBacktest : NodeTurn → Bool
  | .startBacktest _ => true
  | _ => false

/-- **What a turn publishes without backtests**: snapshots come from the feed. -/
theorem turn_fed (hcfg : cfg.FedLive) (engine : StrategyEngine σ) (h : node.backtests = [])
    {t : NodeTurn} (ht : t.isBacktest = false) :
    (node.turn cfg engine t).1.backtests = [] ∧
      Publication.snapshots (node.turn cfg engine t).2.1 = t.fed := by
  obtain ⟨hkernel, hmode⟩ := hcfg
  cases t with
  | simulatedFeed subs stamp =>
    rw [WholeNode.turn, if_neg (by rw [hmode]; exact fun hsim => by cases hsim.2)]
    exact ⟨h, rfl⟩
  | okxFeed txt stamp =>
    rw [WholeNode.turn, if_pos ⟨hkernel, hmode⟩]
    exact ⟨h, snapshots_feed _⟩
  | startBacktest snaps => cases ht
  | backtest k =>
    have hnone : node.backtests[k]? = none := by rw [h, List.getElem?_nil]
    have hturn : node.turn cfg engine (.backtest k) = (node, [], []) := by
      rw [WholeNode.turn, hnone]
    rw [hturn]
    exact ⟨h, rfl⟩
  | subscribe =>
    rw [WholeNode.turn]
    split <;> exact ⟨h, rfl⟩
  | strategy task fresh utc =>
    refine ⟨h, Publication.snapshots_eq_nil fun pub hpub snap => ?_⟩
    obtain ⟨out, -, rfl⟩ := Option.map_eq_some_iff.1 (Option.mem_toList.1 hpub)
    cases out <;> simp [HostOutput.publication, eventPublication]
  | pause paused => exact ⟨h, rfl⟩
  | listen => exact ⟨h, rfl⟩
  | execute now exchange =>
    rw [WholeNode.turn]
    split
    · exact ⟨h, snapshots_exec _⟩
    · exact ⟨h, rfl⟩
  | execUpdate msg => exact ⟨h, snapshots_exec _⟩
  | block value => cases value <;> exact ⟨h, snapshots_exec _⟩
  | okxOrders txt ts =>
    refine ⟨h, Publication.snapshots_eq_nil fun pub hpub snap => ?_⟩
    obtain ⟨r, -, rfl⟩ := List.mem_map.1 hpub
    simp
  | risk i => exact ⟨h, snapshots_risk _⟩
  | riskReset => exact ⟨h, snapshots_risk _⟩
  | reload cfg =>
    refine ⟨h, Publication.snapshots_eq_nil fun pub hpub snap => ?_⟩
    obtain ⟨msg, -, rfl⟩ := List.mem_map.1 hpub
    simp [ConfigMessage.publication]
  | heartbeat => exact ⟨h, rfl⟩
  | event evt => exact ⟨h, rfl⟩
  | startup fresh =>
    rw [WholeNode.turn]
    split <;> exact ⟨h, rfl⟩

omit [Reqwest] [TickerChannel] [OrderChannel] in
theorem backtests_foldl_route (pubs : List Publication) (node : WholeNode σ) :
    (pubs.foldl WholeNode.route node).backtests = node.backtests := by
  induction pubs generalizing node with
  | nil => rfl
  | cons pub pubs ih => exact ih (node.route pub)

/-- **A run without backtests**: the snapshots published are those of the feed. -/
theorem run_fed (hcfg : cfg.FedLive) (engine : StrategyEngine σ) (h : node.backtests = [])
    {ts : List NodeTurn} (hts : ∀ t ∈ ts, t.isBacktest = false) :
    ((wholeNode cfg engine).run node ts).backtests = [] ∧
      WholeOutput.snapshots ((wholeNode cfg engine).output node ts) =
        ts.flatMap NodeTurn.fed := by
  induction ts using List.reverseRecOn with
  | nil => exact ⟨h, rfl⟩
  | append_singleton ts t ih =>
    obtain ⟨hnone, hsnapshots⟩ := ih fun t' ht' => hts t' (List.mem_append_left _ ht')
    obtain ⟨hnone', hfed⟩ := turn_fed hcfg engine hnone (hts t (by simp))
    have hturn : WholeOutput.snapshots ((wholeNode cfg engine).output node ts ++
        (wholeNode cfg engine).emit ((wholeNode cfg engine).run node ts) t) =
          WholeOutput.snapshots ((wholeNode cfg engine).output node ts) ++ Publication.snapshots
            (((wholeNode cfg engine).run node ts).turn cfg engine t).2.1 :=
      WholeOutput.snapshots_turn _ _ (turn_seen t)
    rw [Machine.run_concat, Machine.output_concat, hturn, hsnapshots, hfed, List.flatMap_append,
      List.flatMap_singleton]
    exact ⟨(backtests_foldl_route _ _).trans hnone', rfl⟩

/-! ### What is taken from the connections -/

variable {stream : OkxPrivateStream} {hmac : String → String → String} {now : String}

omit [Reqwest] [TickerChannel] [OrderChannel] [CaseTable] in
theorem ConnectedTurn.feedLife_concat (ts : List ConnectedTurn) (t : ConnectedTurn) :
    feedLife (ts ++ [t]) = match feedLife ts with
      | some (subscriptions, es) => some (subscriptions, es ++ feedEvents [t])
      | none => feedLife [t] := by
  induction ts with
  | nil => rfl
  | cons t' ts ih =>
    cases t' with
    | runOkx subscriptions =>
      exact congrArg (fun es => some (subscriptions, es)) List.filterMap_append
    | _ => exact ih

/-- Where the feed is in its life. -/
def FeedTask.after (subscriptions : List MarketDataSubscription)
    (es : List (ReaderEvent (String × (ℕ → Stamp)) PingPayload)) : FeedTask where
  subscriptions := subscriptions
  reader := (OkxMarketStream.run subscriptions).run (FeedTask.runOkx subscriptions).reader es

/-- The snapshots it has read. -/
def FeedTask.read (subscriptions : List MarketDataSubscription)
    (es : List (ReaderEvent (String × (ℕ → Stamp)) PingPayload)) : List MarketSnapshot :=
  FeedOutput.snapshots (ReaderOutput.handledOnly
    ((OkxMarketStream.run subscriptions).output (FeedTask.runOkx subscriptions).reader es))

omit [Reqwest] [OrderChannel] in
theorem FeedTask.read_concat (subscriptions : List MarketDataSubscription)
    (es : List (ReaderEvent (String × (ℕ → Stamp)) PingPayload))
    (e : ReaderEvent (String × (ℕ → Stamp)) PingPayload) :
    FeedTask.read subscriptions (es ++ [e]) = FeedTask.read subscriptions es ++
      (((FeedTask.after subscriptions es).reader.takes e).map fun txt =>
        .okxFeed txt.1 txt.2).toList.flatMap NodeTurn.fed := by
  have hsnapshots : ∀ outs outs' : List FeedOutput, FeedOutput.snapshots (outs ++ outs') =
      FeedOutput.snapshots outs ++ FeedOutput.snapshots outs' := fun _ _ => List.filterMap_append
  have hstep : ReaderOutput.handledOnly ((OkxMarketStream.run subscriptions).emit
      (FeedTask.after subscriptions es).reader e) =
        ((FeedTask.after subscriptions es).reader.takes e).toList.flatMap fun txt =>
          (OkxMarketStream.handleText txt.1 txt.2).1 := reader_handled ..
  rw [FeedTask.read, Machine.output_concat, ReaderOutput.handledOnly_append, hsnapshots]
  refine congrArg (FeedTask.read subscriptions es ++ ·) ((congrArg _ hstep).trans ?_)
  cases (FeedTask.after subscriptions es).reader.takes e with
  | none => rfl
  | some txt =>
    rw [Option.map_some, Option.toList_some, Option.toList_some, List.flatMap_singleton,
      List.flatMap_singleton]
    rfl

/-- A run of the node with its connections, with the turns its parts take: they are those of a run
of the whole node, and the turns that read take what the readers make of their events. -/
structure ConnectedNode.Runs (cfg : NodeConfig) (engine : StrategyEngine σ)
    (stream : OkxPrivateStream) (hmac : String → String → String) (now : String)
    (s u : ConnectedNode σ) (ts : List ConnectedTurn) (outs : List WholeOutput)
    (turns : List NodeTurn) : Prop where
  node : (wholeNode cfg engine).run s.node turns = u.node
  output : (wholeNode cfg engine).output s.node turns = outs
  parts : ∀ t ∈ turns, t.isReading = true ∨ .part t ∈ ts
  orders : (stream.run hmac now).run s.orders (ConnectedTurn.orderEvents ts) = u.orders
  streamed : turns.flatMap NodeTurn.streamed = ReaderOutput.handledOnly
    ((stream.run hmac now).output s.orders (ConnectedTurn.orderEvents ts))
  feed : cfg.FedLive →
    u.feed = (ConnectedTurn.feedLife ts).map fun life => FeedTask.after life.1 life.2
  fed : cfg.FedLive →
    turns.flatMap NodeTurn.fed =
      (ConnectedTurn.feedLife ts).elim [] fun life => FeedTask.read life.1 life.2

section Steps

variable {s u v : ConnectedNode σ} {ts : List ConnectedTurn} {turns : List NodeTurn}

/-- A step of a connected node in which the whole node takes a turn or none. -/
theorem ConnectedNode.Runs.extend (h : s.Runs cfg engine stream hmac now u ts outs turns)
    {i : ConnectedTurn} {t : Option NodeTurn} (hnode : v.node = u.node)
    (hpart : ∀ t', t = some t' → t'.isReading = true ∨ i = .part t')
    (horders : v.orders = (stream.run hmac now).run u.orders (ConnectedTurn.orderEvents [i]))
    (hstreamed : t.toList.flatMap NodeTurn.streamed = ReaderOutput.handledOnly
      ((stream.run hmac now).output u.orders (ConnectedTurn.orderEvents [i])))
    (hfeed : cfg.FedLive → v.feed = (ConnectedTurn.feedLife (ts ++ [i])).map fun life =>
      FeedTask.after life.1 life.2)
    (hfed : cfg.FedLive → turns.flatMap NodeTurn.fed ++ t.toList.flatMap NodeTurn.fed =
      (ConnectedTurn.feedLife (ts ++ [i])).elim [] fun life => FeedTask.read life.1 life.2) :
    s.Runs cfg engine stream hmac now (v.turn cfg engine t).1 (ts ++ [i])
      (outs ++ (v.turn cfg engine t).2) (turns ++ t.toList) := by
  have hevents : ConnectedTurn.orderEvents (ts ++ [i]) =
      ConnectedTurn.orderEvents ts ++ ConnectedTurn.orderEvents [i] := List.filterMap_append
  have hsame : (v.turn cfg engine t).1.orders = v.orders ∧
      (v.turn cfg engine t).1.feed = v.feed := by cases t <;> exact ⟨rfl, rfl⟩
  refine ⟨?_, ?_, ?_, ?_, ?_, ?_, ?_⟩
  · cases t with
    | none => rw [Option.toList_none, List.append_nil, h.node, ← hnode]; rfl
    | some t => rw [Option.toList_some, Machine.run_concat, h.node, ← hnode]; rfl
  · cases t with
    | none => rw [Option.toList_none, List.append_nil, h.output]; exact (List.append_nil _).symm
    | some t =>
      rw [Option.toList_some, Machine.output_concat, h.output, h.node, ← hnode]
      rfl
  · intro t' ht'
    rcases List.mem_append.1 ht' with ht' | ht'
    · exact (h.parts t' ht').imp_right (List.mem_append_left _)
    · refine (hpart t' (Option.mem_toList.1 ht')).imp_right fun heq => ?_
      rw [heq]
      simp
  · rw [hsame.1, horders, hevents, Machine.run_append, h.orders]
  · rw [List.flatMap_append, hevents, Machine.output_append, ReaderOutput.handledOnly_append,
      h.streamed, hstreamed, h.orders]
  · rw [hsame.2]
    exact hfeed
  · rw [List.flatMap_append]
    exact hfed

theorem ConnectedNode.Runs.aside (h : s.Runs cfg engine stream hmac now u ts outs turns)
    {i : ConnectedTurn} {t : Option NodeTurn} (hnode : v.node = u.node) (hfeed : v.feed = u.feed)
    (hpart : ∀ t', t = some t' → t'.isReading = true ∨ i = .part t')
    (horders : v.orders = (stream.run hmac now).run u.orders (ConnectedTurn.orderEvents [i]))
    (hstreamed : t.toList.flatMap NodeTurn.streamed = ReaderOutput.handledOnly
      ((stream.run hmac now).output u.orders (ConnectedTurn.orderEvents [i])))
    (hlife : ConnectedTurn.feedLife (ts ++ [i]) = ConnectedTurn.feedLife ts)
    (hnone : t.toList.flatMap NodeTurn.fed = []) :
    s.Runs cfg engine stream hmac now (v.turn cfg engine t).1 (ts ++ [i])
      (outs ++ (v.turn cfg engine t).2) (turns ++ t.toList) := by
  refine h.extend hnode hpart horders hstreamed (fun hcfg => ?_) fun hcfg => ?_
  · rw [hfeed, h.feed hcfg, hlife]
  · rw [hnone, List.append_nil, h.fed hcfg, hlife]

omit [Reqwest] [TickerChannel] [OrderChannel] [CaseTable] in
/-- What is neither an event of the feed nor its start leaves its life as it is. -/
theorem ConnectedTurn.feedLife_aside (ts : List ConnectedTurn) {i : ConnectedTurn}
    (hevents : feedEvents [i] = []) (hnone : feedLife [i] = none) :
    feedLife (ts ++ [i]) = feedLife ts := by
  rw [feedLife_concat, hevents, hnone]
  rcases feedLife ts with _ | ⟨subscriptions, es⟩
  · rfl
  · simp only [List.append_nil]

/-- The feed starts, unless it has done so. -/
theorem ConnectedNode.Runs.runOkx (h : s.Runs cfg engine stream hmac now u ts outs turns)
    (subscriptions : List MarketDataSubscription) :
    s.Runs cfg engine stream hmac now
      ((connectedNode cfg engine stream hmac now).next u (.runOkx subscriptions))
      (ts ++ [.runOkx subscriptions])
      (outs ++ (connectedNode cfg engine stream hmac now).emit u (.runOkx subscriptions))
      (turns ++ (none : Option NodeTurn).toList) := by
  rw [Machine.next, Machine.emit, connectedNode]
  dsimp only
  split_ifs with hopens
  · refine h.extend (t := none) (v := { u with feed := some (.runOkx subscriptions) })
      rfl (fun _ heq => by cases heq) rfl rfl (fun hcfg => ?_) fun hcfg => ?_
    all_goals
      have hfeed := h.feed hcfg
      have hfed := h.fed hcfg
      rw [Option.isNone_iff_eq_none.1 hopens.2.2] at hfeed
      rw [Option.map_eq_none_iff.1 hfeed.symm] at hfed
      rw [ConnectedTurn.feedLife_concat, Option.map_eq_none_iff.1 hfeed.symm]
    · rfl
    · rw [hfed]
      rfl
  · refine h.extend (t := none) rfl (fun _ heq => by cases heq) rfl rfl
      (fun hcfg => ?_) fun hcfg => ?_
    all_goals
      obtain ⟨feed, hsome⟩ : ∃ feed, u.feed = some feed := by
        refine Option.ne_none_iff_exists'.1 fun hnone => hopens ⟨hcfg.1, hcfg.2, ?_⟩
        rw [hnone]
        rfl
      have hlife := h.feed hcfg
      rw [hsome] at hlife
      obtain ⟨⟨first, es⟩, hlife, hafter⟩ := Option.map_eq_some_iff.1 hlife.symm
      have hevents : ConnectedTurn.feedEvents [.runOkx subscriptions] = [] := rfl
      rw [ConnectedTurn.feedLife_concat, hlife, hevents]
      dsimp only
      rw [List.append_nil]
    · rw [hsome, ← hafter]
      rfl
    · rw [Option.toList_none, List.flatMap_nil, List.append_nil, h.fed hcfg, hlife]

/-- The feed meets an event, and takes it if it has started. -/
theorem ConnectedNode.Runs.feedEvent (h : s.Runs cfg engine stream hmac now u ts outs turns)
    (e : ReaderEvent (String × (ℕ → Stamp)) PingPayload) :
    ∃ t : Option NodeTurn,
      s.Runs cfg engine stream hmac now
        ((connectedNode cfg engine stream hmac now).next u (.feed e)) (ts ++ [.feed e])
        (outs ++ (connectedNode cfg engine stream hmac now).emit u (.feed e))
        (turns ++ t.toList) := by
  rw [Machine.next, Machine.emit, connectedNode]
  dsimp only
  cases hfeed : u.feed with
  | none =>
    have hnone : cfg.FedLive → ConnectedTurn.feedLife ts = none := fun hcfg =>
      Option.map_eq_none_iff.1 ((h.feed hcfg).symm.trans hfeed)
    refine ⟨none, h.extend (t := none) rfl (fun _ heq => by cases heq) rfl rfl
      (fun hcfg => ?_) fun hcfg => ?_⟩
    · rw [ConnectedTurn.feedLife_concat, hnone hcfg, hfeed]
      rfl
    · rw [ConnectedTurn.feedLife_concat, h.fed hcfg, hnone hcfg]
      rfl
  | some feed =>
    refine ⟨_, h.extend rfl (fun t' heq => ?_) rfl ?_ (fun hcfg => ?_) fun hcfg => ?_⟩
    · obtain ⟨txt, -, rfl⟩ := Option.map_eq_some_iff.1 heq
      exact Or.inl rfl
    · cases feed.reader.takes e <;> rfl
    all_goals
      obtain ⟨⟨first, es⟩, hlife, rfl⟩ :=
        Option.map_eq_some_iff.1 ((h.feed hcfg).symm.trans hfeed)
      have hevents : ConnectedTurn.feedEvents [.feed e] = [e] := rfl
      rw [ConnectedTurn.feedLife_concat, hlife, hevents]
      dsimp only
    · have hafter : FeedTask.after first (es ++ [e]) = ⟨first,
          (OkxMarketStream.run first).next (FeedTask.after first es).reader e⟩ := by
        rw [FeedTask.after, Machine.run_concat]
        rfl
      rw [Option.map_some, hafter]
      rfl
    · rw [Option.elim_some, FeedTask.read_concat, h.fed hcfg, hlife]
      rfl

/-- **Every step keeps it**, with a turn of the whole node or none. -/
theorem ConnectedNode.Runs.step (h : s.Runs cfg engine stream hmac now u ts outs turns)
    (i : ConnectedTurn) :
    ∃ t : Option NodeTurn,
      s.Runs cfg engine stream hmac now ((connectedNode cfg engine stream hmac now).next u i)
        (ts ++ [i]) (outs ++ (connectedNode cfg engine stream hmac now).emit u i)
        (turns ++ t.toList) := by
  cases i with
  | part t =>
    have haside : ConnectedTurn.feedLife (ts ++ [.part t]) = ConnectedTurn.feedLife ts :=
      ConnectedTurn.feedLife_aside ts rfl rfl
    by_cases hreading : t.isReading = true
    · have hstep : (connectedNode cfg engine stream hmac now).step u (.part t) =
          u.turn cfg engine none := congrArg (u.turn cfg engine) (if_pos hreading)
      rw [Machine.next, Machine.emit, hstep]
      exact ⟨none, h.aside rfl rfl (fun _ heq => by cases heq) rfl rfl haside rfl⟩
    · have hstep : (connectedNode cfg engine stream hmac now).step u (.part t) =
          u.turn cfg engine (some t) := congrArg (u.turn cfg engine) (if_neg hreading)
      rw [Machine.next, Machine.emit, hstep]
      refine ⟨some t, h.aside rfl rfl
        (fun t' heq => Or.inr (congrArg _ (Option.some.inj heq))) rfl ?_ haside ?_⟩
      · cases t <;> first | rfl | exact absurd rfl hreading
      · cases t <;> first | rfl | exact absurd rfl hreading
  | runOkx subscriptions => exact ⟨none, h.runOkx subscriptions⟩
  | feed e => exact h.feedEvent e
  | orders e =>
    have haside : ConnectedTurn.feedLife (ts ++ [.orders e]) = ConnectedTurn.feedLife ts :=
      ConnectedTurn.feedLife_aside ts rfl rfl
    refine ⟨_, h.aside rfl rfl (fun t' heq => ?_) rfl ?_ haside ?_⟩
    · obtain ⟨txt, -, rfl⟩ := Option.map_eq_some_iff.1 heq
      exact Or.inl rfl
    · change _ = ReaderOutput.handledOnly ((stream.run hmac now).emit u.orders e ++ [])
      rw [List.append_nil, OkxPrivateStream.run, reader_handled]
      cases u.orders.takes e <;> rfl
    · cases u.orders.takes e <;> rfl

end Steps

/-- **A run of the node with its connections is a run of the whole node.** -/
theorem connectedNode_refines (cfg : NodeConfig) (engine : StrategyEngine σ)
    (stream : OkxPrivateStream) (hmac : String → String → String) (now : String)
    {s : ConnectedNode σ} (hs : s.feed = none) (ts : List ConnectedTurn) :
    ∃ turns, s.Runs cfg engine stream hmac now
      ((connectedNode cfg engine stream hmac now).run s ts) ts
      ((connectedNode cfg engine stream hmac now).output s ts) turns := by
  refine Machine.history_induction (M := connectedNode cfg engine stream hmac now)
    (P := fun ts u outs => ∃ turns, s.Runs cfg engine stream hmac now u ts outs turns)
    (Q := fun _ => True)
    ⟨[], ⟨rfl, rfl, List.forall_mem_nil _, rfl, rfl, fun _ => hs, fun _ => rfl⟩⟩ ?_
    fun _ _ => trivial
  rintro ts u outs i ⟨turns, h⟩ -
  obtain ⟨t, hruns⟩ := h.step i
  exact ⟨_, hruns⟩

/-- The fills that a node publishes in a run are those in the texts that its private stream has read
between the sending of its greetings and the end of its connection, in their order; there is none if
it has not come to read. -/
def FillsRead (cfg : NodeConfig) (engine : StrategyEngine σ) (stream : OkxPrivateStream)
    (hmac : String → String → String) (now : String) (start : ConnectedNode σ)
    (ts : List ConnectedTurn) : Prop :=
  let orders := stream.run hmac now
  let events := ConnectedTurn.orderEvents ts
  let fills := OrderResult.fills (WholeOutput.publishedResults
    ((connectedNode cfg engine stream hmac now).output start ts))
  (fills = [] ∧ ∀ pre, pre <+: events → orders.run start.orders pre ≠ .reading) ∨
    ∃ pre post, events = pre ++ post ∧ orders.run start.orders pre = .reading ∧
      orders.output start.orders pre = (stream.greetings hmac now).map .greeting ∧
      fills = OrderResult.fills ((ReaderEvent.texts (post.takeWhile ReaderEvent.lasts)).flatMap
        fun txt => (handleText txt.1 txt.2).1)

/-- **The fills of a live node.**  In every run of a node that has started live and is kept so by
every update, with whatever the exchange answers and however many orders go out: the simulated
ledger never moves, and the fills published are exactly those the private stream has read.  None is
published after its connection has ended. -/
theorem live_fills (cfg : NodeConfig) (engine : StrategyEngine σ) (init : σ)
    {exec : ExecutionService} (hexec : exec.Live) (stream : OkxPrivateStream)
    (hmac : String → String → String) (now : String) {ts : List ConnectedTurn}
    (hts : ∀ t ∈ ts, t.KeepsLive) :
    let start := ConnectedNode.start cfg init exec
    ((connectedNode cfg engine stream hmac now).run start ts).node.exec.positions =
        exec.positions ∧
      FillsRead cfg engine stream hmac now start ts := by
  intro start
  have hclosed : start.feed = none := rfl
  obtain ⟨turns, hruns⟩ := connectedNode_refines cfg engine stream hmac now hclosed ts
  have hkeep : ∀ t ∈ turns, t.KeepsLive := by
    intro t ht
    rcases hruns.parts t ht with hreading | hpart
    · -- what is read is no update
      cases t <;> trivial
    · exact hts _ hpart
  have hlive : start.node.exec.Live := hexec
  obtain ⟨-, hledger, hfills⟩ := run_live cfg engine hlive hkeep
  rw [hruns.node] at hledger
  rw [hruns.output, hruns.streamed] at hfills
  refine ⟨?_, ?_⟩
  · rw [ExecutionService.positions, hledger]
    rfl
  have horders : start.orders = .connecting ∨ start.orders = .over := ite_eq_or_eq ..
  rcases reader_life (stream.greetings hmac now) _ horders (ConnectedTurn.orderEvents ts) with
    ⟨hnone, hunread⟩ | ⟨pre, post, hsplit, hrun, houtput, hhandled⟩
  · exact Or.inl ⟨hfills.trans (congrArg OrderResult.fills hnone), hunread⟩
  · exact Or.inr ⟨pre, post, hsplit, hrun, houtput,
      hfills.trans (congrArg OrderResult.fills hhandled)⟩

/-- The snapshots that a node publishes in a run are those in the texts that its feed has read
between the sending of its subscription and the end of its connection, in their order; there is none
before it has read what to subscribe to, and none if it has not come to read. -/
def SnapshotsRead (cfg : NodeConfig) (engine : StrategyEngine σ) (stream : OkxPrivateStream)
    (hmac : String → String → String) (now : String) (start : ConnectedNode σ)
    (ts : List ConnectedTurn) : Prop :=
  let snaps := WholeOutput.snapshots ((connectedNode cfg engine stream hmac now).output start ts)
  match ConnectedTurn.feedLife ts with
  | none => snaps = []
  | some (subscriptions, events) =>
    let feed := OkxMarketStream.run subscriptions
    let first := (FeedTask.runOkx subscriptions).reader
    (snaps = [] ∧ ∀ pre, pre <+: events → feed.run first pre ≠ .reading) ∨
      ∃ pre post, events = pre ++ post ∧ feed.run first pre = .reading ∧
        feed.output first pre =
          [.greeting (.subscribe (OkxMarketStream.subscribeArgs subscriptions))] ∧
        snaps = FeedOutput.snapshots ((ReaderEvent.texts
          (post.takeWhile ReaderEvent.lasts)).flatMap fun txt =>
            (OkxMarketStream.handleText txt.1 txt.2).1)

/-- **The snapshots of a live node.**  In every run of a node whose feed is that of the exchange,
and in which no backtest is started, whatever the configurations received: the snapshots published
are exactly those the feed has read.  None is published after its connection has ended. -/
theorem live_snapshots {cfg : NodeConfig} (hcfg : cfg.FedLive) (engine : StrategyEngine σ)
    (init : σ) (exec : ExecutionService) (stream : OkxPrivateStream)
    (hmac : String → String → String) (now : String) {ts : List ConnectedTurn}
    (hts : ∀ snaps, .part (.startBacktest snaps) ∉ ts) :
    SnapshotsRead cfg engine stream hmac now (ConnectedNode.start cfg init exec) ts := by
  let start := ConnectedNode.start cfg init exec
  have hclosed : start.feed = none := rfl
  obtain ⟨turns, hruns⟩ := connectedNode_refines cfg engine stream hmac now hclosed ts
  have hnone : ∀ t ∈ turns, t.isBacktest = false := by
    intro t ht
    rcases hruns.parts t ht with hreading | hpart
    · cases t <;> first | rfl | cases hreading
    · cases t <;> first | rfl | exact absurd hpart (hts _)
  have hbacktests : start.node.backtests = [] := rfl
  have hsnaps := (run_fed hcfg engine hbacktests hnone).2
  rw [hruns.output, hruns.fed hcfg] at hsnaps
  rw [SnapshotsRead]
  rcases hlife : ConnectedTurn.feedLife ts with _ | ⟨subscriptions, events⟩ <;>
    rw [hlife] at hsnaps
  · exact hsnaps
  have hfeed : (FeedTask.runOkx subscriptions).reader = .connecting ∨
      (FeedTask.runOkx subscriptions).reader = .over := (ite_eq_or_eq ..).symm
  rcases reader_life _ _ hfeed events with
    ⟨hnothing, hunread⟩ | ⟨pre, post, hsplit, hrun, houtput, hhandled⟩
  · exact Or.inl ⟨hsnaps.trans (congrArg FeedOutput.snapshots hnothing), hunread⟩
  · exact Or.inr ⟨pre, post, hsplit, hrun, houtput,
      hsnaps.trans (congrArg FeedOutput.snapshots hhandled)⟩

end Turns

/-! ### Runs -/

/-- A private stream of the account of `tradingConfig`. -/
def samplePrivateStream : OkxPrivateStream :=
  ⟨"wss://ws.okx.com:8443/ws/v5/private", ⟨"key", "secret", some "pass"⟩⟩

/-- A fill is read, and one comes after the close. -/
def fillThenClose : List ConnectedTurn :=
  [.orders (.connected true), .orders (.sent true), .orders (.sent true),
    .orders (.frame (.text (finalText, [0]))), .orders (.frame .close),
    .orders (.frame (.text (finalText, [1])))]

theorem live_fills_sample :
    ∃ exec, @ExecutionService.new ℚ acceptAll _ tradingConfig.execConfig = .ok exec ∧
      ((@connectedNode asciiCase acceptAll silentTickers twoPartChannel Unit tradingConfig onlooker
        samplePrivateStream (fun _ text => text) "0").run
          (ConnectedNode.start tradingConfig () exec) fillThenClose).node.exec.positions =
            exec.positions ∧
      @FillsRead asciiCase acceptAll silentTickers twoPartChannel Unit tradingConfig onlooker
        samplePrivateStream (fun _ text => text) "0" (ConnectedNode.start tradingConfig () exec)
        fillThenClose := by
  refine ⟨_, rfl, ?_⟩
  refine @live_fills asciiCase acceptAll silentTickers twoPartChannel Unit tradingConfig onlooker ()
    _ ⟨rfl, rfl⟩ samplePrivateStream (fun _ text => text) "0" fillThenClose ?_
  intro t ht
  simp only [fillThenClose, List.mem_cons, List.not_mem_nil, or_false] at ht
  rcases ht with rfl | rfl | rfl | rfl | rfl | rfl <;> trivial

/-- A ticker is read, and one comes after the connection has failed. -/
def tickerThenError : List ConnectedTurn :=
  [.runOkx tradingConfig.dataConfig.subscriptions, .feed (.connected true), .feed (.sent true),
    .feed (.frame (.text ("ticker", fun _ => ⟨0, "t"⟩))), .feed (.frame .error),
    .feed (.frame (.text ("ticker", fun _ => ⟨1, "u"⟩)))]

/-- A parser for this text. -/
@[reducible] def tickerChannel : TickerChannel :=
  ⟨fun _ => .ok [⟨"BTC-USDT", "30000", "29998.5", "30001.5", "300"⟩]⟩

theorem live_snapshots_sample :
    ∃ exec, @ExecutionService.new ℚ acceptAll _ tradingConfig.execConfig = .ok exec ∧
      @SnapshotsRead asciiCase acceptAll tickerChannel silentUpdates Unit tradingConfig onlooker
        samplePrivateStream (fun _ text => text) "0" (ConnectedNode.start tradingConfig () exec)
        tickerThenError := by
  refine ⟨_, rfl, ?_⟩
  refine @live_snapshots asciiCase acceptAll tickerChannel silentUpdates Unit tradingConfig
    ⟨rfl, rfl⟩ onlooker () _ samplePrivateStream (fun _ text => text) "0" tickerThenError ?_
  intro snaps hmem
  simp [tickerThenError] at hmem

end W2uos
