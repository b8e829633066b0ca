import Mathlib.Tactic.Ring
import W2uos.Data.Feeds
import W2uos.Data.History
import W2uos.Data.Instruments
import W2uos.System.Tagged

/-!
# The market data service

The service runs one of the two feeds, the one its configuration names when it starts; beside the
feed run a task that takes new configurations from the bus, and, if there is a history, a task that
takes snapshots from a channel and stores them.  The channel holds 1024 snapshots; the feed does not
wait for room in it.

The simulated feed reads the configuration at every tick, so a new list of subscriptions counts from
the next round; the one of OKX reads it once, before it connects.

A turn of a task that has nothing to do changes nothing.

* `round_eq_runSimulated`, `text_eq_handleText` : an undisturbed round of a feed publishes what
  `runSimulated` and `OkxMarketStream.handleText` give;
* `simulated_feed_walks` : the prices of a simulated market go up in steps of 5, whatever the
  configurations and the other tasks do.
-/

namespace W2uos

/-- The places in the channel of the history task. -/
def historyCapacity : ℕ := 1024

/-- Where the feed is. -/
inductive FeedPoint
  /-- `run` has read the configuration. -/
  | starting (cfg : MarketDataConfig)
  /-- The simulated feed, with what is left of the round; it waits for the next tick if nothing
  is. -/
  | simulated (subs : List MarketDataSubscription)
  /-- The OKX feed is about to connect. -/
  | connecting
  /-- The OKX feed, with what is left of a text; it waits for the next message if nothing is. -/
  | okx (tickers : List OkxTicker)
  /-- The feed has ended. -/
  | ended

/-- The market data service. -/
structure MarketDataService where
  config : MarketDataConfig
  clients : Client × TrafficShaper
  /-- The prices of the simulated feed. -/
  prices : PriceState
  feed : FeedPoint
  /-- The snapshot whose publication the feed awaits. -/
  publishing : Option MarketSnapshot
  /-- The channel to the history task, if there is a history. -/
  historyTx : Option (List MarketSnapshot)
  /-- The snapshot the history task is storing. -/
  storing : Option MarketSnapshot
  store : HistoricalStore

/-- What happens in the service. -/
inductive MarketInput
  /-- The service reports that it has started, and the feed begins. -/
  | start (now : DateTime)
  /-- The ticker of the simulated feed fires. -/
  | tick
  /-- The OKX feed connects, or fails to. -/
  | connect (ok : Bool)
  /-- It receives a text. -/
  | text (txt : String)
  /-- The connection is closed, or fails. -/
  | close
  /-- The feed makes the next snapshot and publishes it. -/
  | quote (stamp : Stamp)
  /-- The snapshot is published: it goes to the history, and its event to the bus. -/
  | enqueue
  /-- A configuration arrives, or something that is none. -/
  | update (msg : Option MarketDataConfig)
  /-- The history task receives a snapshot. -/
  | recv
  /-- It has stored it, or failed to. -/
  | insert (ok : Bool)

/-- What is seen of the service: what it publishes, its subscription to the tickers, and what it
logs of snapshots that are not stored. -/
inductive MarketOutput
  | publish (out : FeedOutput)
  | subscribe (args : List SubscribeArg)
  /-- "history channel full, dropping snapshot" -/
  | dropped (snap : MarketSnapshot)
  /-- "failed to persist snapshot to history store" -/
  | failed (snap : MarketSnapshot)

/-- The event of a service that has started. -/
def MarketDataConfig.startEvent (cfg : MarketDataConfig) (now : DateTime) : LogEvent where
  ts := now
  level := .info
  source := .marketData
  message := "market data service started"
  fields := [("subscriptions", .number cfg.subscriptions.length)]
  correlationId := none
  traceId := none

section Service

variable [CaseTable]

/-- `MarketDataService::new`, with the content of the store if there is a history. -/
def MarketDataService.new [Reqwest] (cfg : MarketDataConfig) (store : HistoricalStore) :
    Except String MarketDataService := do
  let clients ← buildClientAndShaper cfg.netProfile
  return {
    config := cfg
    clients := clients
    prices := ∅
    feed := .starting cfg
    publishing := none
    historyTx := cfg.history.map fun _ => []
    storing := none
    store := store }

namespace MarketDataService

/-- The feed of a configuration. -/
def feedOf (cfg : MarketDataConfig) : FeedPoint :=
  match cfg.mode with
  | .simulated => .simulated []
  | .liveOkx => .connecting

/-- The next snapshot of the round, or of the text. -/
def quote (svc : MarketDataService) (stamp : Stamp) : MarketDataService × List MarketOutput :=
  match svc.publishing, svc.feed with
  | none, .simulated (sub :: subs) =>
    let price := svc.prices.price sub
    let snapshot := sub.snapshot price stamp
    ({ svc with
        prices := svc.prices.insert sub.key price
        feed := .simulated subs
        publishing := some snapshot },
      [.publish (.market snapshot.subject snapshot)])
  | none, .okx (ticker :: tickers) =>
    match OkxMarketStream.snapshot ticker stamp with
    | .ok snapshot =>
      ({ svc with feed := .okx tickers, publishing := some snapshot },
        [.publish (.market snapshot.subject snapshot)])
    -- the rest of the text is dropped
    | .error _ => ({ svc with feed := .okx [] }, [])
  | _, _ => (svc, [])

/-- The event about a snapshot that is published. -/
def tickEvent (svc : MarketDataService) (snapshot : MarketSnapshot) : LogEvent :=
  match svc.feed with
  | .okx _ => OkxMarketStream.marketTick snapshot
  | _ => snapshot.marketTick

/-- `try_send` on the channel of the history task. -/
def trySend (svc : MarketDataService) (snapshot : MarketSnapshot) :
    MarketDataService × List MarketOutput :=
  match svc.historyTx with
  | none => (svc, [])
  | some queue =>
    if queue.length < historyCapacity then
      ({ svc with historyTx := some (queue ++ [snapshot]) }, [])
    else (svc, [.dropped snapshot])

/-- What follows the publication of a snapshot. -/
def enqueue (svc : MarketDataService) : MarketDataService × List MarketOutput :=
  match svc.publishing with
  | none => (svc, [])
  | some snapshot =>
    let (svc, outs) := { svc with publishing := none }.trySend snapshot
    (svc, outs ++ [.publish (.log (svc.tickEvent snapshot))])

/-- A text of OKX. -/
def text [TickerChannel] (svc : MarketDataService) (txt : String) : MarketDataService :=
  match svc.publishing, svc.feed with
  | none, .okx [] =>
    if ContainsEvent txt then svc
    else
      match TickerChannel.parseEnvelope txt with
      | .error _ => svc
      | .ok tickers => { svc with feed := .okx tickers }
  | _, _ => svc

/-- A new configuration; the client and the shaper stay if no new ones can be built. -/
def update [Reqwest] (svc : MarketDataService) (cfg : MarketDataConfig) : MarketDataService :=
  match buildClientAndShaper cfg.netProfile with
  | .ok clients => { svc with config := cfg, clients := clients }
  | .error _ => { svc with config := cfg }

end MarketDataService

/-- The market data service. -/
def marketDataService [Reqwest] [TickerChannel] :
    Machine MarketDataService MarketInput MarketOutput where
  step svc
    | .start now =>
      match svc.feed with
      | .starting cfg =>
        ({ svc with feed := MarketDataService.feedOf cfg },
          [.publish (.log (cfg.startEvent now))])
      | _ => (svc, [])
    | .tick =>
      match svc.publishing, svc.feed with
      | none, .simulated [] => ({ svc with feed := .simulated svc.config.subscriptions }, [])
      | _, _ => (svc, [])
    | .connect ok =>
      match svc.feed with
      | .connecting =>
        if ok = true ∧ svc.config.subscriptions ≠ [] then
          ({ svc with feed := .okx [] },
            [.subscribe (OkxMarketStream.subscribeArgs svc.config.subscriptions)])
        else ({ svc with feed := .ended }, [])
      | _ => (svc, [])
    | .text txt => (svc.text txt, [])
    | .close =>
      match svc.publishing, svc.feed with
      | none, .okx [] => ({ svc with feed := .ended }, [])
      | _, _ => (svc, [])
    | .quote stamp => svc.quote stamp
    | .enqueue => svc.enqueue
    | .update none => (svc, [])
    | .update (some cfg) => (svc.update cfg, [])
    | .recv =>
      match svc.storing, svc.historyTx with
      | none, some (snap :: queue) =>
        ({ svc with storing := some snap, historyTx := some queue }, [])
      | _, _ => (svc, [])
    | .insert ok =>
      match svc.storing, ok with
      | some snap, true =>
        ({ svc with storing := none, store := svc.store.insertSnapshot snap }, [])
      | some snap, false => ({ svc with storing := none }, [.failed snap])
      | none, _ => (svc, [])

end Service

/-! ### What is published -/

namespace MarketOutput

/-- What the service publishes. -/
def published (outs : List MarketOutput) : List FeedOutput :=
  outs.filterMap fun
    | publish out => some out
    | _ => none

/-- The snapshots it publishes. -/
def snapshots (outs : List MarketOutput) : List MarketSnapshot :=
  FeedOutput.snapshots (published outs)

theorem published_append (outs outs' : List MarketOutput) :
    published (outs ++ outs') = published outs ++ published outs' := List.filterMap_append

theorem snapshots_append (outs outs' : List MarketOutput) :
    snapshots (outs ++ outs') = snapshots outs ++ snapshots outs' := by
  rw [snapshots, published_append]
  exact List.filterMap_append

end MarketOutput

section Rounds

variable [CaseTable] [Reqwest] [TickerChannel] {svc : MarketDataService}

/-- The turns of the feed for `n` snapshots. -/
def feedTurns : ℕ → (ℕ → Stamp) → List MarketInput
  | 0, _ => []
  | n + 1, stamp => .quote (stamp 0) :: .enqueue :: feedTurns n fun i => stamp (i + 1)

omit [Reqwest] [TickerChannel] in
/-- What a snapshot that is published leads to: only its event is published. -/
theorem MarketDataService.enqueue_spec (svc : MarketDataService)
    (h : svc.publishing.isSome = true) :
    ∃ snapshot, svc.publishing = some snapshot ∧
      MarketOutput.published svc.enqueue.2 = [.log (svc.tickEvent snapshot)] ∧
      svc.enqueue.1.publishing = none ∧ svc.enqueue.1.prices = svc.prices ∧
      svc.enqueue.1.feed = svc.feed := by
  obtain ⟨snapshot, hsnapshot⟩ := Option.isSome_iff_exists.1 h
  refine ⟨snapshot, hsnapshot, ?_⟩
  rw [enqueue, hsnapshot]
  dsimp only [trySend]
  cases svc.historyTx with
  | none => exact ⟨rfl, rfl, rfl, rfl⟩
  | some queue =>
    dsimp only
    split_ifs <;> exact ⟨rfl, rfl, rfl, rfl⟩

theorem round_eq_runSimulated {subs : List MarketDataSubscription}
    (hfeed : svc.feed = .simulated subs) (hpublishing : svc.publishing = none)
    (stamp : ℕ → Stamp) :
    (marketDataService.run svc (feedTurns subs.length stamp)).prices =
        (runSimulated svc.prices subs stamp).1 ∧
      MarketOutput.published (marketDataService.output svc (feedTurns subs.length stamp)) =
        (runSimulated svc.prices subs stamp).2 := by
  induction subs generalizing svc stamp with
  | nil => exact ⟨rfl, rfl⟩
  | cons sub subs ih =>
    -- the snapshot, and its event
    have hquote : marketDataService.step svc (.quote (stamp 0)) =
        ({ svc with
            prices := svc.prices.insert sub.key (svc.prices.price sub)
            feed := .simulated subs
            publishing := some (sub.snapshot (svc.prices.price sub) (stamp 0)) },
          [.publish (.market (sub.snapshot (svc.prices.price sub) (stamp 0)).subject
            (sub.snapshot (svc.prices.price sub) (stamp 0)))]) := by
      show svc.quote (stamp 0) = _
      simp only [MarketDataService.quote, hpublishing, hfeed]
    set quoted : MarketDataService :=
      { svc with
        prices := svc.prices.insert sub.key (svc.prices.price sub)
        feed := .simulated subs
        publishing := some (sub.snapshot (svc.prices.price sub) (stamp 0)) }
    obtain ⟨snapshot, hsnapshot, hevent, hnone, hprices, hsubs⟩ :=
      quoted.enqueue_spec rfl
    have hfeed' : quoted.enqueue.1.feed = .simulated subs := hsubs
    obtain ⟨hrun, hout⟩ := ih hfeed' hnone fun i => stamp (i + 1)
    have hnext : marketDataService.next svc (.quote (stamp 0)) = quoted := by
      rw [Machine.next, hquote]
    have hnext' : marketDataService.next quoted .enqueue = quoted.enqueue.1 := rfl
    have hemit' : marketDataService.emit quoted .enqueue = quoted.enqueue.2 := rfl
    have hfirst : snapshot = sub.snapshot (svc.prices.price sub) (stamp 0) :=
      (Option.some.inj hsnapshot).symm
    rw [List.length_cons, feedTurns, Machine.run_cons, Machine.run_cons, Machine.output_cons,
      Machine.output_cons, hnext, hnext', hemit', Machine.emit, hquote]
    refine ⟨hrun.trans ?_, ?_⟩
    · rw [hprices]
      rfl
    · rw [MarketOutput.published_append, MarketOutput.published_append, hevent, hout, hprices,
        hfirst]
      rfl

omit [CaseTable] [Reqwest] [TickerChannel] in
theorem mem_feedTurns {n : ℕ} {stamp : ℕ → Stamp} {i : MarketInput} (h : i ∈ feedTurns n stamp) :
    i = .enqueue ∨ ∃ j, i = .quote (stamp j) := by
  induction n generalizing stamp with
  | zero => cases h
  | succ n ih =>
    rcases List.mem_cons.1 h with rfl | h
    · exact Or.inr ⟨0, rfl⟩
    · rcases List.mem_cons.1 h with rfl | h
      · exact Or.inl rfl
      · exact (ih h).imp_right fun ⟨j, hj⟩ => ⟨j + 1, hj⟩

/-- A text of OKX with nothing in between: up to the first ticker that is none, all are
published. -/
theorem tickers_eq_publishTickers {tickers : List OkxTicker} (hfeed : svc.feed = .okx tickers)
    (hpublishing : svc.publishing = none) (stamp : ℕ → Stamp) :
    MarketOutput.published (marketDataService.output svc (feedTurns tickers.length stamp)) =
      (OkxMarketStream.publishTickers tickers stamp).1 := by
  induction tickers generalizing svc stamp with
  | nil => rfl
  | cons ticker tickers ih =>
    rw [List.length_cons, feedTurns, Machine.output_cons, OkxMarketStream.publishTickers]
    cases hsnapshot : OkxMarketStream.snapshot ticker (stamp 0) with
    | error err =>
      have hquote : marketDataService.step svc (.quote (stamp 0)) =
          ({ svc with feed := .okx [] }, []) := by
        show svc.quote (stamp 0) = _
        simp only [MarketDataService.quote, hpublishing, hfeed, hsnapshot]
      have hnext : marketDataService.next svc (.quote (stamp 0)) =
          { svc with feed := .okx [] } := by
        rw [Machine.next, hquote]
      have hidle : marketDataService.output { svc with feed := .okx [] }
          (.enqueue :: feedTurns tickers.length fun i => stamp (i + 1)) = [] := by
        refine Machine.output_idle fun i hi => ?_
        rcases List.mem_cons.1 hi with rfl | hi
        · show MarketDataService.enqueue _ = _
          simp only [MarketDataService.enqueue, hpublishing]
        · rcases mem_feedTurns hi with rfl | ⟨j, rfl⟩
          · show MarketDataService.enqueue _ = _
            simp only [MarketDataService.enqueue, hpublishing]
          · show MarketDataService.quote _ _ = _
            simp only [MarketDataService.quote, hpublishing]
      rw [hnext, hidle, Machine.emit, hquote]
      rfl
    | ok first =>
      have hquote : marketDataService.step svc (.quote (stamp 0)) =
          ({ svc with feed := .okx tickers, publishing := some first },
            [.publish (.market first.subject first)]) := by
        show svc.quote (stamp 0) = _
        simp only [MarketDataService.quote, hpublishing, hfeed, hsnapshot]
      set quoted : MarketDataService := { svc with feed := .okx tickers, publishing := some first }
      obtain ⟨snapshot, hfirst, hevent, hnone, -, htickers⟩ :=
        quoted.enqueue_spec rfl
      have hfeed' : quoted.enqueue.1.feed = .okx tickers := htickers
      have hout := ih hfeed' hnone fun i => stamp (i + 1)
      have hnext : marketDataService.next svc (.quote (stamp 0)) = quoted := by
        rw [Machine.next, hquote]
      have hnext' : marketDataService.next quoted .enqueue = quoted.enqueue.1 := rfl
      have hemit' : marketDataService.emit quoted .enqueue = quoted.enqueue.2 := rfl
      rw [hnext, Machine.output_cons, hnext', hemit', Machine.emit, hquote,
        MarketOutput.published_append, MarketOutput.published_append, hevent, hout,
        ← Option.some.inj hfirst]
      rfl

theorem text_eq_handleText (hfeed : svc.feed = .okx []) (hpublishing : svc.publishing = none)
    (txt : String) (stamp : ℕ → Stamp) :
    ∃ n, MarketOutput.published
        (marketDataService.output svc (.text txt :: feedTurns n stamp)) =
      (OkxMarketStream.handleText txt stamp).1 := by
  have hnext : marketDataService.next svc (.text txt) = svc.text txt := rfl
  have hemit : marketDataService.emit svc (.text txt) = [] := rfl
  rw [OkxMarketStream.handleText]
  split_ifs with hevent
  · exact ⟨0, rfl⟩
  · cases hparse : TickerChannel.parseEnvelope txt with
    | error err => exact ⟨0, rfl⟩
    | ok tickers =>
      refine ⟨tickers.length, ?_⟩
      have htext : svc.text txt = { svc with feed := .okx tickers } := by
        simp only [MarketDataService.text, hpublishing, hfeed, if_neg hevent, hparse]
      have hfeed' : (svc.text txt).feed = .okx tickers := by rw [htext]
      have hnone : (svc.text txt).publishing = none := by rw [htext]; exact hpublishing
      rw [Machine.output_cons, hnext, hemit, List.nil_append]
      exact tickers_eq_publishTickers hfeed' hnone stamp

/-! ### The walk of the simulated feed -/

omit [CaseTable] [Reqwest] [TickerChannel] in
/-- The text under which the simulated feed keeps the price of a market. -/
def MarketSnapshot.priceKey (snapshot : MarketSnapshot) : String :=
  snapshot.exchange.toText ++ ":" ++ snapshot.symbol.base ++ snapshot.symbol.quote

omit [CaseTable] [Reqwest] [TickerChannel] in
/-- The last prices of the snapshots kept under a text. -/
def quotesOf (key : String) (snaps : List MarketSnapshot) : List ℚ :=
  tagged key (snaps.map fun snapshot => (snapshot.priceKey, snapshot.last))

omit [CaseTable] [Reqwest] [TickerChannel] in
/-- The first `n` prices of a simulated market. -/
def walk (n : ℕ) : List ℚ := (List.range n).map fun i : ℕ => 30000 + 5 * (i : ℚ)

omit [CaseTable] [Reqwest] [TickerChannel] in
/-- The market of a snapshot, with the exchange. -/
def MarketSnapshot.market (snapshot : MarketSnapshot) : ExchangeId × Symbol :=
  (snapshot.exchange, snapshot.symbol)

omit [CaseTable] [Reqwest] [TickerChannel] in
def MarketDataSubscription.market (sub : MarketDataSubscription) : ExchangeId × Symbol :=
  (sub.exchange, sub.symbol)

omit [CaseTable] [Reqwest] [TickerChannel] in
/-- What is left of the round of the simulated feed. -/
def FeedPoint.left : FeedPoint → List MarketDataSubscription
  | simulated subs => subs
  | _ => []

omit [CaseTable] [Reqwest] [TickerChannel] in
/-- The simulated feed waits for its ticker. -/
def MarketDataService.waits (svc : MarketDataService) : Bool :=
  match svc.publishing, svc.feed with
  | none, .simulated [] => true
  | _, _ => false

omit [CaseTable] [Reqwest] [TickerChannel] in
/-- The round that begins at an input: the subscriptions of the configuration in force. -/
def MarketDataService.begins (svc : MarketDataService) : MarketInput →
    List (List MarketDataSubscription)
  | .tick => if svc.waits then [svc.config.subscriptions] else []
  | _ => []

/-- The rounds that begin in a run. -/
def roundsBegun (svc : MarketDataService) : List MarketInput → List (List MarketDataSubscription)
  | [] => []
  | i :: is => svc.begins i ++ roundsBegun (marketDataService.next svc i) is

theorem roundsBegun_concat (svc : MarketDataService) (is : List MarketInput) (i : MarketInput) :
    roundsBegun svc (is ++ [i]) =
      roundsBegun svc is ++ (marketDataService.run svc is).begins i := by
  induction is generalizing svc with
  | nil => exact List.append_nil _
  | cons j is ih =>
    rw [List.cons_append, roundsBegun, ih, roundsBegun, List.append_assoc]
    rfl

/-- The service runs the simulated feed, or is about to. -/
def MarketDataService.Simulating (svc : MarketDataService) : Prop :=
  (∃ cfg, svc.feed = .starting cfg ∧ cfg.mode = .simulated) ∨ ∃ subs, svc.feed = .simulated subs

/-- A step that publishes no snapshot and goes on with the round, or begins one. -/
structure MarketDataService.Continues (svc : MarketDataService) (i : MarketInput) : Prop where
  snapshots : MarketOutput.snapshots (marketDataService.emit svc i) = []
  prices : (marketDataService.next svc i).prices = svc.prices
  simulating : (marketDataService.next svc i).Simulating
  left : (marketDataService.next svc i).feed.left = svc.feed.left ++ (svc.begins i).flatten

theorem MarketDataService.Simulating.continues (h : svc.Simulating) {i : MarketInput}
    (hbegins : svc.begins i = [])
    (hsnaps : MarketOutput.snapshots (marketDataService.emit svc i) = [])
    (hprices : (marketDataService.next svc i).prices = svc.prices)
    (hfeed : (marketDataService.next svc i).feed = svc.feed) : svc.Continues i := by
  refine ⟨hsnaps, hprices, ?_, ?_⟩
  · rw [Simulating, hfeed]
    exact h
  · rw [hbegins, hfeed, List.flatten_nil, List.append_nil]

theorem MarketDataService.Simulating.idle (h : svc.Simulating) {i : MarketInput}
    (hbegins : svc.begins i = []) (hstep : marketDataService.step svc i = (svc, [])) :
    svc.Continues i := by
  refine h.continues hbegins ?_ ?_ ?_
  · rw [Machine.emit, hstep]
    rfl
  · rw [Machine.next, hstep]
  · rw [Machine.next, hstep]

theorem MarketDataService.Simulating.start (h : svc.Simulating) (now : DateTime) :
    svc.Continues (.start now) := by
  rcases h with ⟨cfg, hfeed, hmode⟩ | ⟨subs, hfeed⟩
  · have hstep : marketDataService.step svc (.start now) =
        ({ svc with feed := .simulated [] }, [.publish (.log (cfg.startEvent now))]) := by
      simp only [marketDataService, hfeed, feedOf, hmode]
    refine ⟨?_, ?_, ?_, ?_⟩
    · rw [Machine.emit, hstep]
      rfl
    · rw [Machine.next, hstep]
    · rw [Machine.next, hstep]
      exact Or.inr ⟨[], rfl⟩
    · rw [Machine.next, hstep, hfeed]
      rfl
  · exact idle (Or.inr ⟨subs, hfeed⟩) rfl (by simp only [marketDataService, hfeed])

theorem MarketDataService.Simulating.tick (h : svc.Simulating) : svc.Continues .tick := by
  by_cases hwaits : svc.waits = true
  · obtain ⟨hpublishing, hfeed⟩ : svc.publishing = none ∧ svc.feed = .simulated [] := by
      unfold waits at hwaits
      split at hwaits
      · exact ⟨‹_›, ‹_›⟩
      · cases hwaits
    have hstep : marketDataService.step svc .tick =
        ({ svc with feed := .simulated svc.config.subscriptions }, []) := by
      simp only [marketDataService, hpublishing, hfeed]
    refine ⟨?_, ?_, ?_, ?_⟩
    · rw [Machine.emit, hstep]
      rfl
    · rw [Machine.next, hstep]
    · rw [Machine.next, hstep]
      exact Or.inr ⟨_, rfl⟩
    · rw [Machine.next, hstep, hfeed, begins, if_pos hwaits, List.flatten_singleton]
      rfl
  · refine h.idle (if_neg hwaits) ?_
    show (match svc.publishing, svc.feed with
      | none, .simulated [] => ({ svc with feed := .simulated svc.config.subscriptions }, [])
      | _, _ => (svc, [])) = _
    unfold waits at hwaits
    split
    · rename_i hpublishing hfeed
      rw [hpublishing, hfeed] at hwaits
      exact absurd rfl hwaits
    · rfl

theorem MarketDataService.Simulating.connection (h : svc.Simulating) :
    (∀ ok, svc.Continues (.connect ok)) ∧ (∀ txt, svc.Continues (.text txt)) ∧
      svc.Continues .close := by
  refine ⟨fun ok => h.idle rfl ?_, fun txt => h.idle rfl ?_, h.idle rfl ?_⟩
  · rcases h with ⟨cfg, hfeed, -⟩ | ⟨subs, hfeed⟩ <;> simp only [marketDataService, hfeed]
  · have htext : svc.text txt = svc := by
      rcases h with ⟨cfg, hfeed, -⟩ | ⟨subs, hfeed⟩ <;>
        cases hpublishing : svc.publishing <;> simp only [text, hfeed, hpublishing]
    exact Prod.ext htext rfl
  · rcases h with ⟨cfg, hfeed, -⟩ | ⟨subs, hfeed⟩ <;>
      cases hpublishing : svc.publishing <;> simp only [marketDataService, hfeed, hpublishing]

/-- The next snapshot of the round is published. -/
def MarketDataService.Quotes (svc : MarketDataService) (i : MarketInput) : Prop :=
  ∃ sub subs stamp, svc.feed = .simulated (sub :: subs) ∧ svc.begins i = [] ∧
    MarketOutput.snapshots (marketDataService.emit svc i) =
      [sub.snapshot (svc.prices.price sub) stamp] ∧
    (marketDataService.next svc i).prices =
      svc.prices.insert sub.key (svc.prices.price sub) ∧
    (marketDataService.next svc i).feed = .simulated subs

theorem MarketDataService.Simulating.quote (h : svc.Simulating) (stamp : Stamp) :
    svc.Quotes (.quote stamp) ∨ svc.Continues (.quote stamp) := by
  cases hpublishing : svc.publishing with
  | some snapshot =>
    refine Or.inr (h.idle rfl ?_)
    show svc.quote stamp = _
    simp only [MarketDataService.quote, hpublishing]
  | none =>
    rcases h with ⟨cfg, hfeed, hmode⟩ | ⟨_ | ⟨sub, subs⟩, hfeed⟩
    · refine Or.inr (idle (Or.inl ⟨cfg, hfeed, hmode⟩) rfl ?_)
      show svc.quote stamp = _
      simp only [MarketDataService.quote, hpublishing, hfeed]
    · refine Or.inr (idle (Or.inr ⟨[], hfeed⟩) rfl ?_)
      show svc.quote stamp = _
      simp only [MarketDataService.quote, hpublishing, hfeed]
    · have hstep : marketDataService.step svc (.quote stamp) =
          ({ svc with
              prices := svc.prices.insert sub.key (svc.prices.price sub)
              feed := .simulated subs
              publishing := some (sub.snapshot (svc.prices.price sub) stamp) },
            [.publish (.market (sub.snapshot (svc.prices.price sub) stamp).subject
              (sub.snapshot (svc.prices.price sub) stamp))]) := by
        show svc.quote stamp = _
        simp only [MarketDataService.quote, hpublishing, hfeed]
      refine Or.inl ⟨sub, subs, stamp, hfeed, rfl, ?_, ?_, ?_⟩
      · rw [Machine.emit, hstep]
        rfl
      · rw [Machine.next, hstep]
      · rw [Machine.next, hstep]

theorem MarketDataService.Simulating.enqueue (h : svc.Simulating) : svc.Continues .enqueue := by
  cases hpublishing : svc.publishing with
  | none =>
    refine h.idle rfl ?_
    show svc.enqueue = _
    simp only [MarketDataService.enqueue, hpublishing]
  | some snapshot =>
    obtain ⟨snapshot, -, hevent, -, hprices, hfeed⟩ :=
      svc.enqueue_spec (by rw [hpublishing]; rfl)
    refine h.continues rfl ?_ hprices hfeed
    show FeedOutput.snapshots (MarketOutput.published svc.enqueue.2) = []
    rw [hevent]
    rfl

theorem MarketDataService.Simulating.update (h : svc.Simulating) (msg : Option MarketDataConfig) :
    svc.Continues (.update msg) := by
  cases msg with
  | none => exact h.idle rfl rfl
  | some cfg =>
    have hupdate : (svc.update cfg).prices = svc.prices ∧ (svc.update cfg).feed = svc.feed := by
      unfold MarketDataService.update
      split <;> exact ⟨rfl, rfl⟩
    exact h.continues rfl rfl hupdate.1 hupdate.2

theorem MarketDataService.Simulating.history (h : svc.Simulating) :
    svc.Continues .recv ∧ ∀ ok, svc.Continues (.insert ok) := by
  refine ⟨h.continues rfl ?_ ?_ ?_, fun ok => h.continues rfl ?_ ?_ ?_⟩
  all_goals
    simp only [Machine.emit, Machine.next, marketDataService]
    split <;> rfl

/-- **What the simulated feed does in a step**: it publishes the next snapshot, or it continues. -/
theorem MarketDataService.Simulating.step_cases (h : svc.Simulating) (i : MarketInput) :
    svc.Quotes i ∨ svc.Continues i := by
  cases i with
  | start now => exact Or.inr (h.start now)
  | tick => exact Or.inr h.tick
  | connect ok => exact Or.inr (h.connection.1 ok)
  | text txt => exact Or.inr (h.connection.2.1 txt)
  | close => exact Or.inr h.connection.2.2
  | quote stamp => exact h.quote stamp
  | enqueue => exact Or.inr h.enqueue
  | update msg => exact Or.inr (h.update msg)
  | recv => exact Or.inr h.history.1
  | insert ok => exact Or.inr (h.history.2 ok)

/-! ### Every run -/

omit [CaseTable] [Reqwest] [TickerChannel] in
theorem walk_succ (n : ℕ) : walk (n + 1) = walk n ++ [30000 + 5 * (n : ℚ)] := by
  rw [walk, List.range_succ, List.map_append]
  rfl

omit [CaseTable] [Reqwest] [TickerChannel] in
theorem getLast?_walk (n : ℕ) :
    (walk (n + 1)).getLast? = some (30000 + 5 * (n : ℚ)) := by
  rw [walk_succ, List.getLast?_concat]

/-- The state of the simulated feed after the inputs `is` and the snapshots `snaps`. -/
structure SimulatedFeed (svc₀ : MarketDataService) (is : List MarketInput)
    (svc : MarketDataService) (snaps : List MarketSnapshot) : Prop where
  run : svc = marketDataService.run svc₀ is
  simulating : svc.Simulating
  walks : ∀ key, ∃ n, quotesOf key snaps = walk n
  kept : ∀ key, svc.prices.lookup key = (quotesOf key snaps).getLast?
  spread : ∀ snapshot ∈ snaps, snapshot.bid = snapshot.last - 3 / 2 ∧
    snapshot.ask = snapshot.last + 3 / 2 ∧ snapshot.volume24h = snapshot.last / 1000 * 10
  rounds : snaps.map MarketSnapshot.market ++ svc.feed.left.map MarketDataSubscription.market =
    (roundsBegun svc₀ is).flatten.map MarketDataSubscription.market

omit [CaseTable] [Reqwest] [TickerChannel] in
theorem quotesOf_concat (key : String) (snaps : List MarketSnapshot)
    (sub : MarketDataSubscription) (price : ℚ) (stamp : Stamp) :
    quotesOf key (snaps ++ [sub.snapshot price stamp]) =
      quotesOf key snaps ++ if sub.key = key then [price] else [] := by
  rw [quotesOf, List.map_append, List.map_singleton, tagged_append]
  have hkey : (sub.snapshot price stamp).priceKey = sub.key := rfl
  rw [hkey]
  split_ifs with h
  · rw [h, tagged_singleton_self]
    rfl
  · rw [tagged_singleton_ne h]
    rfl

omit [CaseTable] [Reqwest] [TickerChannel] in
theorem PriceState.price_walk {prices : PriceState} {sub : MarketDataSubscription} {n : ℕ}
    (h : prices.lookup sub.key = (walk n).getLast?) : prices.price sub = 30000 + 5 * (n : ℚ) := by
  cases n with
  | zero =>
    have hnone : prices.lookup sub.key = none := h
    simp [price, hnone]
  | succ n =>
    rw [getLast?_walk] at h
    rw [price, h]
    push_cast
    ring

theorem SimulatedFeed.quote {svc₀ : MarketDataService} {is : List MarketInput}
    {snaps : List MarketSnapshot} (h : SimulatedFeed svc₀ is svc snaps) {i : MarketInput}
    {sub : MarketDataSubscription} {subs : List MarketDataSubscription} {stamp : Stamp}
    (hfeed : svc.feed = .simulated (sub :: subs)) (hbegins : svc.begins i = [])
    (hprices : (marketDataService.next svc i).prices =
      svc.prices.insert sub.key (svc.prices.price sub))
    (hnext : (marketDataService.next svc i).feed = .simulated subs) :
    SimulatedFeed svc₀ (is ++ [i]) (marketDataService.next svc i)
      (snaps ++ [sub.snapshot (svc.prices.price sub) stamp]) := by
  have hwalk : ∀ key, ∃ n, quotesOf key (snaps ++ [sub.snapshot (svc.prices.price sub) stamp]) =
      walk n := by
    intro key
    obtain ⟨n, hn⟩ := h.walks key
    rw [quotesOf_concat]
    split_ifs with hkey
    · subst hkey
      refine ⟨n + 1, ?_⟩
      rw [PriceState.price_walk ((h.kept sub.key).trans (congrArg _ hn)), hn, walk_succ]
    · exact ⟨n, by rw [List.append_nil, hn]⟩
  refine ⟨?_, Or.inr ⟨subs, hnext⟩, hwalk, ?_, ?_, ?_⟩
  · rw [Machine.run_concat, ← h.run]
  · intro key
    rw [hprices, quotesOf_concat]
    split_ifs with hkey
    · rw [← hkey, Finmap.lookup_insert, List.getLast?_concat]
    · rw [Finmap.lookup_insert_of_ne _ (Ne.symm hkey), List.append_nil, h.kept key]
  · intro snapshot hmem
    rcases List.mem_append.1 hmem with hmem | hmem
    · exact h.spread snapshot hmem
    · rw [List.mem_singleton.1 hmem]
      exact ⟨rfl, rfl, rfl⟩
  · have hrounds := h.rounds
    rw [hfeed] at hrounds
    rw [roundsBegun_concat, ← h.run, hbegins, List.append_nil, ← hrounds, hnext, List.map_append,
      List.append_assoc]
    rfl

theorem SimulatedFeed.continues {svc₀ : MarketDataService} {is : List MarketInput}
    {snaps : List MarketSnapshot} (h : SimulatedFeed svc₀ is svc snaps) {i : MarketInput}
    (hi : svc.Continues i) :
    SimulatedFeed svc₀ (is ++ [i]) (marketDataService.next svc i) snaps := by
  refine ⟨?_, hi.simulating, h.walks, ?_, h.spread, ?_⟩
  · rw [Machine.run_concat, ← h.run]
  · rw [hi.prices]
    exact h.kept
  · rw [roundsBegun_concat, ← h.run, hi.left, List.map_append, ← List.append_assoc, h.rounds,
      List.flatten_append, List.map_append]

theorem simulatedFeed_run {cfg : MarketDataConfig} {store : HistoricalStore}
    {svc₀ : MarketDataService} (hnew : MarketDataService.new cfg store = .ok svc₀)
    (hmode : cfg.mode = .simulated) (is : List MarketInput) :
    SimulatedFeed svc₀ is (marketDataService.run svc₀ is)
      (MarketOutput.snapshots (marketDataService.output svc₀ is)) := by
  refine Machine.history_induction (M := marketDataService) (Q := fun _ => True)
    (P := fun is svc outs => SimulatedFeed svc₀ is svc (MarketOutput.snapshots outs)) ?_ ?_
    fun _ _ => trivial
  · obtain ⟨hfeed, hprices⟩ : svc₀.feed = .starting cfg ∧ svc₀.prices = ∅ := by
      unfold MarketDataService.new at hnew
      cases hclients : buildClientAndShaper cfg.netProfile with
      | error err => rw [hclients] at hnew; cases hnew
      | ok clients => rw [hclients] at hnew; cases hnew; exact ⟨rfl, rfl⟩
    refine ⟨rfl, Or.inl ⟨cfg, hfeed, hmode⟩, fun key => ⟨0, rfl⟩, ?_, List.forall_mem_nil _, ?_⟩
    · intro key
      rw [hprices]
      rfl
    · rw [hfeed]
      rfl
  · intro is svc outs i h _
    rw [MarketOutput.snapshots_append]
    rcases h.simulating.step_cases i with
      ⟨sub, subs, stamp, hfeed, hbegins, hsnaps, hprices, hnext⟩ | hi
    · rw [hsnaps]
      exact h.quote hfeed hbegins hprices hnext
    · rw [hi.snapshots, List.append_nil]
      exact h.continues hi

/-- **The walk of the simulated feed.**  In every run of a service that starts in simulated mode,
whatever the other tasks do in between, the prices published under a text are 30000, 30005, 30010
and so on; the other values follow the price; and the markets published are those of the
subscriptions of the configurations in force at the ticks, round after round, each from the first
on, with none left out: what is missing is what is left of the current round. -/
theorem simulated_feed_walks {cfg : MarketDataConfig} {store : HistoricalStore}
    {svc₀ : MarketDataService} (hnew : MarketDataService.new cfg store = .ok svc₀)
    (hmode : cfg.mode = .simulated) (is : List MarketInput) :
    let svc := marketDataService.run svc₀ is
    let snaps := MarketOutput.snapshots (marketDataService.output svc₀ is)
    (∀ key, ∃ n, quotesOf key snaps = walk n) ∧
      (∀ snapshot ∈ snaps, snapshot.bid = snapshot.last - 3 / 2 ∧
        snapshot.ask = snapshot.last + 3 / 2 ∧ snapshot.volume24h = snapshot.last / 1000 * 10) ∧
      snaps.map MarketSnapshot.market ++ svc.feed.left.map MarketDataSubscription.market =
        (roundsBegun svc₀ is).flatten.map MarketDataSubscription.market :=
  have h := simulatedFeed_run hnew hmode is
  ⟨h.walks, h.spread, h.rounds⟩

end Rounds

/-- Two rounds, with a configuration in between that names no market. -/
def twoRounds : List MarketInput :=
  [.start 0, .tick, .quote ⟨0, "a"⟩, .enqueue, .quote ⟨0, "b"⟩,
    .update (some { NodeConfig.default.dataConfig with subscriptions := [] }), .enqueue, .tick]

theorem simulated_feed_walks_default :
    ∃ svc₀, @MarketDataService.new acceptAll NodeConfig.default.dataConfig [] = .ok svc₀ ∧
      ∀ key, ∃ n, quotesOf key (MarketOutput.snapshots
        ((@marketDataService asciiCase acceptAll ⟨fun _ => .ok []⟩).output svc₀ twoRounds)) =
          walk n := by
  refine ⟨_, rfl, ?_⟩
  exact (@simulated_feed_walks asciiCase acceptAll ⟨fun _ => .ok []⟩
    NodeConfig.default.dataConfig [] _ rfl rfl twoRounds).1

end W2uos
