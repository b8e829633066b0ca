import W2uos.Exec.Stream
import W2uos.Log.Types
import W2uos.Node.Config

/-!
# The market feeds

The market data service publishes snapshots from one of two feeds.  The simulated one raises a
price for every subscription twice a second; the one of OKX listens to the ticker channel.  Both
publish a snapshot on the subject of its market first, and a log event about it afterwards.

The JSON parser is a parameter (`TickerChannel`), as are the times the snapshots are made at and the
traces made up for them.  Prices are finite numbers.

* `runSimulated` : one round of the simulated feed;
* `OkxMarketStream.handleText` : one text on the ticker channel;
* `runSimulated_announces`, `OkxMarketStream.handleText_announces` : a feed publishes snapshots on
  the subjects of their markets, each followed by its event.
-/

namespace W2uos

/-- What a feed publishes: a snapshot on a subject, and an event on `log.event`. -/
inductive FeedOutput
  | market (subject : String) (snapshot : MarketSnapshot)
  | log (evt : LogEvent)
  deriving DecidableEq

/-- The time a snapshot is made at, and the trace made up for it. -/
structure Stamp where
  now : DateTime
  traceId : TraceId
  deriving DecidableEq

namespace FeedOutput

/-- The snapshots published. -/
def snapshots (outs : List FeedOutput) : List MarketSnapshot :=
  outs.filterMap fun
    | market _ snapshot => some snapshot
    | log _ => none

/-- The events published. -/
def events (outs : List FeedOutput) : List LogEvent :=
  outs.filterMap fun
    | market _ _ => none
    | log evt => some evt

end FeedOutput

section Feeds

variable [CaseTable]

/-! ### The simulated feed -/

/-- The prices of the simulated markets, by the text of the market. -/
abbrev PriceState := Amounts String ℚ

omit [CaseTable] in
/-- The key of a simulated market. -/
def MarketDataSubscription.key (sub : MarketDataSubscription) : String :=
  sub.exchange.toText ++ ":" ++ sub.symbol.base ++ sub.symbol.quote

omit [CaseTable] in
/-- The next price of a simulated market. -/
def PriceState.price (priceState : PriceState) (sub : MarketDataSubscription) : ℚ :=
  match priceState.lookup sub.key with
  | some p => p + 5
  | none => 30000

omit [CaseTable] in
/-- The snapshot of a simulated market at a price. -/
def MarketDataSubscription.snapshot (sub : MarketDataSubscription) (price : ℚ) (stamp : Stamp) :
    MarketSnapshot where
  ts := stamp.now
  exchange := sub.exchange
  symbol := sub.symbol
  last := price
  bid := price - 3 / 2
  ask := price + 3 / 2
  volume24h := price / 1000 * 10
  traceId := some stamp.traceId

/-- The event of the simulated feed about a snapshot. -/
def MarketSnapshot.marketTick (snapshot : MarketSnapshot) : LogEvent where
  ts := snapshot.ts
  level := .info
  source := .marketData
  message := "market tick"
  fields := [("stage", .text "tick"), ("subject", .text snapshot.subject)]
  correlationId := none
  traceId := snapshot.traceId

/-- One round of `run_simulated`: the prices afterwards, and what is published. -/
def runSimulated (priceState : PriceState) :
    List MarketDataSubscription → (ℕ → Stamp) → PriceState × List FeedOutput
  | [], _ => (priceState, [])
  | sub :: subs, stamp =>
    let price := priceState.price sub
    let snapshot := sub.snapshot price (stamp 0)
    let (priceState, outs) :=
      runSimulated (priceState.insert sub.key price) subs fun i => stamp (i + 1)
    (priceState, .market snapshot.subject snapshot :: .log snapshot.marketTick :: outs)

/-! ### The feed of OKX -/

/-- A ticker. -/
structure OkxTicker where
  instId : String
  last : String
  bidPx : String
  askPx : String
  vol24h : String
  deriving DecidableEq

/-- The JSON parser, on the envelopes of the ticker channel. -/
class TickerChannel where
  /-- The tickers in a text, or why it is no envelope. -/
  parseEnvelope : String → Except String (List OkxTicker)

namespace OkxMarketStream

omit [CaseTable] in
/-- The symbol of an instrument: the first two of the parts between dashes. -/
def parseSymbol (instId : String) : Except String Symbol :=
  match instId.toList.splitOn '-' with
  | base :: quote :: _ => .ok { base := String.ofList base, quote := String.ofList quote }
  | _ => .error "missing quote in instId"

omit [CaseTable] in
/-- The snapshot of a ticker; a price that is no number is zero. -/
def snapshot (ticker : OkxTicker) (stamp : Stamp) : Except String MarketSnapshot := do
  let symbol ← parseSymbol ticker.instId
  return {
    ts := stamp.now
    exchange := .okx
    symbol := symbol
    last := (parseF64 ticker.last).getD 0
    bid := (parseF64 ticker.bidPx).getD 0
    ask := (parseF64 ticker.askPx).getD 0
    volume24h := (parseF64 ticker.vol24h).getD 0
    traceId := some stamp.traceId }

/-- The event of the OKX feed about a snapshot. -/
def marketTick (snapshot : MarketSnapshot) : LogEvent where
  ts := snapshot.ts
  level := .info
  source := .marketData
  message := "okx market tick"
  fields := [("subject", .text snapshot.subject)]
  correlationId := none
  traceId := snapshot.traceId

/-- What is published for the tickers up to the first one that fails, and its error. -/
def publishTickers : List OkxTicker → (ℕ → Stamp) → List FeedOutput × Option String
  | [], _ => ([], none)
  | ticker :: tickers, stamp =>
    match snapshot ticker (stamp 0) with
    | .error err => ([], some err)
    | .ok snapshot =>
      let (outs, err) := publishTickers tickers fun i => stamp (i + 1)
      (.market snapshot.subject snapshot :: .log (marketTick snapshot) :: outs, err)

/-- `OkxMarketStream::handle_text`: what is published for a text, and the error the rest is dropped
for, if there is one. -/
def handleText [TickerChannel] (txt : String) (stamp : ℕ → Stamp) :
    List FeedOutput × Option String :=
  if ContainsEvent txt then ([], none)
  else
    match TickerChannel.parseEnvelope txt with
    | .error err => ([], some err)
    | .ok tickers => publishTickers tickers stamp

end OkxMarketStream

/-! ### What the feeds publish -/

/-- What a feed publishes are snapshots on the subjects of their markets, each followed by an event
that `tick` makes of it. -/
inductive Announces (tick : MarketSnapshot → LogEvent) : List FeedOutput → Prop
  | nil : Announces tick []
  | cons (snapshot : MarketSnapshot) {outs : List FeedOutput} (htrace : snapshot.traceId.isSome)
      (houts : Announces tick outs) :
      Announces tick (.market snapshot.subject snapshot :: .log (tick snapshot) :: outs)

theorem runSimulated_announces (priceState : PriceState) (subs : List MarketDataSubscription)
    (stamp : ℕ → Stamp) :
    Announces MarketSnapshot.marketTick (runSimulated priceState subs stamp).2 := by
  induction subs generalizing priceState stamp with
  | nil => exact .nil
  | cons sub subs ih =>
    exact .cons (sub.snapshot (priceState.price sub) (stamp 0)) rfl (ih _ _)

theorem OkxMarketStream.handleText_announces [TickerChannel] (txt : String) (stamp : ℕ → Stamp) :
    Announces OkxMarketStream.marketTick (OkxMarketStream.handleText txt stamp).1 := by
  have hpublish : ∀ tickers (stamp : ℕ → Stamp),
      Announces OkxMarketStream.marketTick (publishTickers tickers stamp).1 := by
    intro tickers
    induction tickers with
    | nil => exact fun _ => .nil
    | cons ticker tickers ih =>
      intro stamp
      rw [publishTickers]
      cases hsnapshot : snapshot ticker (stamp 0) with
      | error err => exact .nil
      | ok snap =>
        refine .cons snap ?_ (ih _)
        unfold snapshot at hsnapshot
        cases hsymbol : parseSymbol ticker.instId with
        | error err => rw [hsymbol] at hsnapshot; cases hsnapshot
        | ok symbol => rw [hsymbol] at hsnapshot; cases hsnapshot; rfl
  unfold handleText
  split_ifs
  · exact .nil
  · cases TickerChannel.parseEnvelope txt with
    | error err => exact .nil
    | ok tickers => exact hpublish tickers stamp

theorem Announces.subject_eq {tick : MarketSnapshot → LogEvent} {outs : List FeedOutput}
    (h : Announces tick outs) {subject : String} {snapshot : MarketSnapshot}
    (hmem : .market subject snapshot ∈ outs) : subject = snapshot.subject := by
  induction h with
  | nil => cases hmem
  | cons snap htrace houts ih =>
    rcases List.mem_cons.1 hmem with heq | hmem
    · cases heq
      rfl
    · exact ih ((List.mem_cons.1 hmem).resolve_left (by simp))

end Feeds

end W2uos
