import W2uos.Data.Instruments
import W2uos.System.Json

/-!
# The frames of the streams

A text frame of the orders channel or of the ticker channel is an envelope with a list of updates.
The streams recognise other frames, such as the answer to a subscription, by the word `event`
anywhere in the text, and they stop at the first update whose instrument does not parse.  So an
update is lost if the word occurs in any field of the frame, or if a bad update comes before it.

What the derived decoders make of a frame is modelled here; the parser from texts to values is a
parameter (`SerdeJson`).

* `forall₂_filter_iff` : when stopping at the first bad element loses nothing;
* `everyUpdate_iff` : exactly which frames are published in full.
-/

namespace W2uos

/-! ### Decoders -/

/-- The JSON parser, from texts to values. -/
class SerdeJson where
  /-- `serde_json::from_str`; `none` if the text is no JSON. -/
  fromStr : String → Option Json

/-- The fields a derived decoder finds in a value: no name it knows may occur twice. -/
def asFields (names : List String) : Json → Option (String → Option Json)
  | .object fields =>
    if ∀ name ∈ names, (fields.map Prod.fst).count name ≤ 1 then
      (Json.object fields).asStruct names
    else none
  | json => json.asStruct names

/-- A list. -/
def decodeVec {α : Type} (decode : Json → Option α) : Json → Option (List α)
  | .array elems => elems.mapM decode
  | _ => none

/-- The derived decoder of `OkxOrderData`. -/
def OkxOrderData.decode (json : Json) : Option OkxOrderData := do
  let fields ← asFields ["instId", "ordId", "clOrdId", "side", "state", "fillPx", "fillSz"] json
  let instId ← Json.field fields "instId" Json.decodeString
  let ordId ← Json.field fields "ordId" Json.decodeString
  let clOrdId ← Json.optField fields "clOrdId" Json.decodeString
  let side ← Json.field fields "side" Json.decodeString
  let state ← Json.field fields "state" Json.decodeString
  let fillPx ← Json.optField fields "fillPx" Json.decodeString
  let fillSz ← Json.optField fields "fillSz" Json.decodeString
  return {
    instId := instId
    ordId := ordId
    clOrdId := clOrdId
    side := side
    state := state
    fillPx := fillPx
    fillSz := fillSz }

/-- The updates of an `OkxOrderEnvelope`. -/
def decodeOrderEnvelope (json : Json) : Option (List OkxOrderData) := do
  let fields ← asFields ["data"] json
  Json.field fields "data" (decodeVec OkxOrderData.decode)

/-- The derived decoder of `OkxTicker`. -/
def OkxTicker.decode (json : Json) : Option OkxTicker := do
  let fields ← asFields ["instId", "last", "bidPx", "askPx", "vol24h"] json
  let instId ← Json.field fields "instId" Json.decodeString
  let last ← Json.field fields "last" Json.decodeString
  let bidPx ← Json.field fields "bidPx" Json.decodeString
  let askPx ← Json.field fields "askPx" Json.decodeString
  let vol24h ← Json.field fields "vol24h" Json.decodeString
  return { instId := instId, last := last, bidPx := bidPx, askPx := askPx, vol24h := vol24h }

/-- `OkxArg`. -/
structure OkxArg where
  instId : Option String
  channel : String
  deriving DecidableEq

/-- The derived decoder of `OkxArg`. -/
def OkxArg.decode (json : Json) : Option OkxArg := do
  let fields ← asFields ["instId", "channel"] json
  let instId ← Json.optField fields "instId" Json.decodeString
  let channel ← Json.field fields "channel" Json.decodeString
  return { instId := instId, channel := channel }

/-- The tickers of an `OkxTickerEnvelope`; its argument must be there. -/
def decodeTickerEnvelope (json : Json) : Option (List OkxTicker) := do
  let fields ← asFields ["arg", "data"] json
  let _arg ← Json.field fields "arg" OkxArg.decode
  Json.field fields "data" (decodeVec OkxTicker.decode)

/-- The value is an object with a member of this name. -/
def HasMember (name : String) : Json → Prop
  | .object fields => name ∈ fields.map Prod.fst
  | _ => False

section Frames

variable [SerdeJson]

/-- The parser of the private stream. -/
@[reducible] def serdeOrderChannel : OrderChannel where
  parseEnvelope txt :=
    match (SerdeJson.fromStr txt).bind decodeOrderEnvelope with
    | some updates => .ok updates
    | none => .error "parse okx order envelope"

/-- The parser of the market stream. -/
@[reducible] def serdeTickerChannel : TickerChannel where
  parseEnvelope txt :=
    match (SerdeJson.fromStr txt).bind decodeTickerEnvelope with
    | some tickers => .ok tickers
    | none => .error "parse okx ticker envelope"

/-- The text is an envelope of these updates, and no event. -/
def IsOrderFrame (txt : String) (updates : List OkxOrderData) : Prop :=
  ∃ json, SerdeJson.fromStr txt = some json ∧ decodeOrderEnvelope json = some updates ∧
    ¬ HasMember "event" json

/-- The text is an envelope of these tickers, and no event. -/
def IsTickerFrame (txt : String) (tickers : List OkxTicker) : Prop :=
  ∃ json, SerdeJson.fromStr txt = some json ∧ decodeTickerEnvelope json = some tickers ∧
    ¬ HasMember "event" json

/-! ### What should be published -/

omit [SerdeJson] in
/-- The snapshots published, each with its subject. -/
def FeedOutput.published (outs : List FeedOutput) : List (String × MarketSnapshot) :=
  outs.filterMap fun
    | market subject snapshot => some (subject, snapshot)
    | log _ => none

omit [SerdeJson] in
/-- The snapshot says what the ticker says, and is published on the subject of its market. -/
structure OkxTicker.Announced [CaseTable] (ticker : OkxTicker)
    (published : String × MarketSnapshot) : Prop where
  symbol : OkxMarketStream.parseSymbol ticker.instId = .ok published.2.symbol
  last : published.2.last = (parseF64 ticker.last).getD 0
  bid : published.2.bid = (parseF64 ticker.bidPx).getD 0
  ask : published.2.ask = (parseF64 ticker.askPx).getD 0
  volume24h : published.2.volume24h = (parseF64 ticker.vol24h).getD 0
  subject : published.1 = published.2.subject

/-- For every update with an instrument that parses there is one message on `orders.result`, in
order, and no other. -/
def EveryUpdate (txt : String) (updates : List OkxOrderData) (ts : List DateTime) : Prop :=
  List.Forall₂ OkxOrderData.Reported
    (updates.filter fun data => (parseSymbol data.instId).isOk)
    (@handleText serdeOrderChannel txt ts).1

/-- For every ticker with an instrument that parses there is one snapshot on the subject of its
market, in order, and no other. -/
def EveryTicker [CaseTable] (txt : String) (tickers : List OkxTicker) (stamp : ℕ → Stamp) : Prop :=
  List.Forall₂ OkxTicker.Announced
    (tickers.filter fun ticker => (OkxMarketStream.parseSymbol ticker.instId).isOk)
    (FeedOutput.published (@OkxMarketStream.handleText _ serdeTickerChannel txt stamp).1)

end Frames

/-! ### Stopping at the first bad element -/

section Stopping

variable {α β : Type} {l : List α} {p : α → Bool}

theorem takeWhile_prefix_filter (p : α → Bool) (l : List α) : l.takeWhile p <+: l.filter p := by
  induction l with
  | nil => exact List.prefix_rfl
  | cons a l ih =>
    by_cases ha : p a = true
    · rw [List.takeWhile_cons_of_pos ha, List.filter_cons_of_pos ha]
      exact (List.prefix_cons_inj a).2 ih
    · rw [List.takeWhile_cons_of_neg ha]
      exact List.nil_prefix

/-- The first elements of a kind are all of it exactly if none comes after another element. -/
theorem takeWhile_eq_filter_iff :
    l.takeWhile p = l.filter p ↔ l.Pairwise fun a b => p b = true → p a = true := by
  induction l with
  | nil => simp
  | cons a l ih =>
    rw [List.pairwise_cons]
    by_cases ha : p a = true
    · rw [List.takeWhile_cons_of_pos ha, List.filter_cons_of_pos ha, List.cons_inj_right, ih]
      exact ⟨fun h => ⟨fun _ _ _ => ha, h⟩, fun h => h.2⟩
    · rw [List.takeWhile_cons_of_neg ha, List.filter_cons_of_neg ha, eq_comm,
        List.filter_eq_nil_iff]
      constructor
      · intro hnone
        refine ⟨fun b hb hpb => absurd hpb (hnone b hb), List.pairwise_of_forall_mem_list ?_⟩
        exact fun b _ c hc hpc => absurd hpc (hnone c hc)
      · exact fun h b hb hpb => ha (h.1 b hb hpb)

/-- **Stopping at the first bad element loses nothing** exactly if no good one comes after it. -/
theorem forall₂_filter_iff {R : α → β → Prop} {ys : List β}
    (h : List.Forall₂ R (l.takeWhile p) ys) :
    List.Forall₂ R (l.filter p) ys ↔ l.Pairwise fun a b => p b = true → p a = true := by
  rw [← takeWhile_eq_filter_iff]
  constructor
  · intro hall
    exact (takeWhile_prefix_filter p l).eq_of_length (h.length_eq.trans hall.length_eq.symm)
  · intro heq
    rwa [← heq]

theorem forall₂_filter_of_event {R : α → β → Prop} {ys : List β} {c : Prop}
    (hc : c → ys = []) (hnot : ¬ c → List.Forall₂ R (l.takeWhile p) ys) :
    List.Forall₂ R (l.filter p) ys ↔
      (c → ∀ a ∈ l, ¬ p a = true) ∧ l.Pairwise fun a b => p b = true → p a = true := by
  by_cases h : c
  · rw [hc h, List.forall₂_nil_right_iff, List.filter_eq_nil_iff]
    constructor
    · intro hnone
      exact ⟨fun _ => hnone,
        List.pairwise_of_forall_mem_list fun a _ b hb hpb => absurd hpb (hnone b hb)⟩
    · exact fun hall => hall.1 h
  · rw [forall₂_filter_iff (hnot h)]
    exact ⟨fun hpairs => ⟨fun hc => absurd hc h, hpairs⟩, fun hall => hall.2⟩

end Stopping

/-! ### What is published -/

section Published

theorem isOk_iff (instId : String) : (parseSymbol instId).isOk = true ↔ 1 ≤ dashes instId := by
  rw [← exists_symbol_iff]
  cases parseSymbol instId <;> simp [Except.isOk, Except.toBool]

theorem isOk_market (instId : String) :
    (OkxMarketStream.parseSymbol instId).isOk = (parseSymbol instId).isOk := by
  have hiff := fun symbol => @parseSymbol_market_iff instId symbol
  cases hmarket : OkxMarketStream.parseSymbol instId with
  | ok symbol => rw [(hiff symbol).1 hmarket]
  | error err =>
    cases hprivate : parseSymbol instId with
    | ok symbol =>
      rw [(hiff symbol).2 hprivate] at hmarket
      cases hmarket
    | error err => rfl

/-- No good update comes after a bad one. -/
def GoodFirst {α : Type} (instId : α → String) (updates : List α) : Prop :=
  updates.Pairwise fun a b => 1 ≤ dashes (instId b) → 1 ≤ dashes (instId a)

theorem not_goodFirst {α : Type} {instId : α → String} {a b : α} (ha : ¬ 1 ≤ dashes (instId a))
    (hb : 1 ≤ dashes (instId b)) : ¬ GoodFirst instId [a, b] :=
  fun h => ha (List.pairwise_pair.1 h hb)

/-- **The snapshots are those of the tickers** up to the first one that fails. -/
theorem publishTickers_spec [CaseTable] (tickers : List OkxTicker) (stamp : ℕ → Stamp) :
    List.Forall₂ OkxTicker.Announced
      (tickers.takeWhile fun ticker => (OkxMarketStream.parseSymbol ticker.instId).isOk)
      (FeedOutput.published (OkxMarketStream.publishTickers tickers stamp).1) := by
  induction tickers generalizing stamp with
  | nil => exact List.Forall₂.nil
  | cons ticker tickers ih =>
    unfold OkxMarketStream.publishTickers OkxMarketStream.snapshot
    cases hsymbol : OkxMarketStream.parseSymbol ticker.instId with
    | error err =>
      rw [List.takeWhile_cons_of_neg (by simp [hsymbol, Except.isOk, Except.toBool])]
      exact List.Forall₂.nil
    | ok symbol =>
      rw [List.takeWhile_cons_of_pos (by simp [hsymbol, Except.isOk, Except.toBool])]
      exact List.Forall₂.cons ⟨hsymbol, rfl, rfl, rfl, rfl, rfl⟩ (ih _)

variable [SerdeJson] {txt : String}

theorem IsOrderFrame.parseEnvelope {updates : List OkxOrderData} (h : IsOrderFrame txt updates) :
    @OrderChannel.parseEnvelope serdeOrderChannel txt = .ok updates := by
  obtain ⟨json, hparse, hdecode, -⟩ := h
  simp [OrderChannel.parseEnvelope, hparse, hdecode]

theorem IsTickerFrame.parseEnvelope {tickers : List OkxTicker} (h : IsTickerFrame txt tickers) :
    @TickerChannel.parseEnvelope serdeTickerChannel txt = .ok tickers := by
  obtain ⟨json, hparse, hdecode, -⟩ := h
  simp [TickerChannel.parseEnvelope, hparse, hdecode]

theorem IsOrderFrame.everyUpdate {updates : List OkxOrderData} (h : IsOrderFrame txt updates)
    (ts : List DateTime) :
    EveryUpdate txt updates ts ↔
      (ContainsEvent txt → ∀ data ∈ updates, ¬ 1 ≤ dashes data.instId) ∧
        GoodFirst OkxOrderData.instId updates := by
  have hevent : ContainsEvent txt → (@handleText serdeOrderChannel txt ts).1 = [] := by
    intro hevent
    unfold handleText
    rw [if_pos hevent]
  have hupdates : ¬ ContainsEvent txt →
      List.Forall₂ OkxOrderData.Reported (wellFormed updates)
        (@handleText serdeOrderChannel txt ts).1 := by
    intro hevent
    unfold handleText
    rw [if_neg hevent, h.parseEnvelope]
    exact publishUpdates_spec updates ts
  unfold EveryUpdate GoodFirst
  rw [forall₂_filter_of_event hevent hupdates]
  simp only [isOk_iff]

theorem IsTickerFrame.everyTicker [CaseTable] {tickers : List OkxTicker}
    (h : IsTickerFrame txt tickers) (stamp : ℕ → Stamp) :
    EveryTicker txt tickers stamp ↔
      (ContainsEvent txt → ∀ ticker ∈ tickers, ¬ 1 ≤ dashes ticker.instId) ∧
        GoodFirst OkxTicker.instId tickers := by
  have hevent : ContainsEvent txt →
      FeedOutput.published (@OkxMarketStream.handleText _ serdeTickerChannel txt stamp).1 = [] := by
    intro hevent
    unfold OkxMarketStream.handleText
    rw [if_pos hevent]
    rfl
  have htickers : ¬ ContainsEvent txt →
      List.Forall₂ OkxTicker.Announced
        (tickers.takeWhile fun ticker => (OkxMarketStream.parseSymbol ticker.instId).isOk)
        (FeedOutput.published (@OkxMarketStream.handleText _ serdeTickerChannel txt stamp).1) := by
    intro hevent
    unfold OkxMarketStream.handleText
    rw [if_neg hevent, h.parseEnvelope]
    exact publishTickers_spec tickers stamp
  unfold EveryTicker GoodFirst
  rw [forall₂_filter_of_event hevent htickers]
  simp only [isOk_market, isOk_iff]

/-- **Exactly which frames are published in full**, on both streams: those that do not contain the
word `event` anywhere, unless no update has an instrument that parses, and in which no update with
an instrument that parses comes after one without. -/
theorem everyUpdate_iff [CaseTable] :
    (∀ txt updates ts, IsOrderFrame txt updates →
      (EveryUpdate txt updates ts ↔
        (ContainsEvent txt → ∀ data ∈ updates, ¬ 1 ≤ dashes data.instId) ∧
          GoodFirst OkxOrderData.instId updates)) ∧
    ∀ txt tickers stamp, IsTickerFrame txt tickers →
      (EveryTicker txt tickers stamp ↔
        (ContainsEvent txt → ∀ ticker ∈ tickers, ¬ 1 ≤ dashes ticker.instId) ∧
          GoodFirst OkxTicker.instId tickers) :=
  ⟨fun _ _ ts h => h.everyUpdate ts, fun _ _ stamp h => h.everyTicker stamp⟩

end Published

/-! ### Updates that are lost -/

/-- The text of a frame on a channel. -/
def frameText (channel : String) (updates : List String) : String :=
  "\x7b\"arg\":\x7b\"channel\":\"" ++ channel ++ "\"\x7d,\"data\":[" ++
    ",".intercalate updates ++ "]\x7d"

/-- The value of this text. -/
def frameJson (channel : String) (updates : List Json) : Json :=
  .object [("arg", .object [("channel", .string channel)]), ("data", .array updates)]

/-- The text of a filled order. -/
def updateText (update : String × String) : String :=
  "\x7b\"instId\":\"" ++ update.1 ++ "\",\"ordId\":\"1\",\"clOrdId\":\"" ++ update.2 ++
    "\",\"side\":\"buy\",\"state\":\"filled\",\"fillPx\":\"30000\",\"fillSz\":\"0.1\"\x7d"

/-- The value of this text. -/
def updateJson (update : String × String) : Json :=
  .object
    [("instId", .string update.1), ("ordId", .string "1"), ("clOrdId", .string update.2),
      ("side", .string "buy"), ("state", .string "filled"), ("fillPx", .string "30000"),
      ("fillSz", .string "0.1")]

/-- The update it is. -/
def updateOf (update : String × String) : OkxOrderData where
  instId := update.1
  ordId := "1"
  clOrdId := some update.2
  side := "buy"
  state := "filled"
  fillPx := some "30000"
  fillSz := some "0.1"

/-- The text of a ticker. -/
def tickText (instId : String) : String :=
  "\x7b\"instId\":\"" ++ instId ++
    "\",\"last\":\"1\",\"bidPx\":\"1\",\"askPx\":\"1\",\"vol24h\":\"1\"\x7d"

/-- The value of this text. -/
def tickJson (instId : String) : Json :=
  .object
    [("instId", .string instId), ("last", .string "1"), ("bidPx", .string "1"),
      ("askPx", .string "1"), ("vol24h", .string "1")]

/-- The orders of some frames, each with its instrument and the identifier the client has chosen. -/
def orderFrames : List (List (String × String)) :=
  [[("BTC-USDT", "a"), ("ETH-USDT", "b"), ("BTCUSDT", "c")], [("BTC-USDT", "event-1")],
    [("BTCUSDT", "a"), ("BTC-USDT", "b")]]

/-- The instruments of some frames of tickers. -/
def tickerFrames : List (List String) :=
  [["BTC-USDT", "ETH-USDT", "BTCUSDT"], ["BTCUSDT", "BTC-USDT"]]

/-- A parser for these frames. -/
@[reducible] def frameParser : SerdeJson where
  fromStr txt :=
    match tickerFrames.find? fun instIds => frameText "tickers" (instIds.map tickText) = txt with
    | some instIds => some (frameJson "tickers" (instIds.map tickJson))
    | none =>
      (orderFrames.find? fun updates => frameText "orders" (updates.map updateText) = txt).map
        fun updates => frameJson "orders" (updates.map updateJson)

theorem isOrderFrame_sample {updates : List (String × String)}
    (hnot : (tickerFrames.find? fun instIds =>
      frameText "tickers" (instIds.map tickText) =
        frameText "orders" (updates.map updateText)) = none)
    (hfind : (orderFrames.find? fun us =>
      frameText "orders" (us.map updateText) = frameText "orders" (updates.map updateText)) =
        some updates)
    (hdecode : decodeOrderEnvelope (frameJson "orders" (updates.map updateJson)) =
      some (updates.map updateOf)) :
    @IsOrderFrame frameParser (frameText "orders" (updates.map updateText))
      (updates.map updateOf) := by
  refine ⟨frameJson "orders" (updates.map updateJson), ?_, hdecode, by simp [HasMember, frameJson]⟩
  dsimp only [SerdeJson.fromStr, frameParser]
  rw [hnot, hfind, Option.map_some]

/-- The tickers of an instrument. -/
def tickerOf (instId : String) : OkxTicker := ⟨instId, "1", "1", "1", "1"⟩

theorem isTickerFrame_sample {instIds : List String}
    (hfind : (tickerFrames.find? fun ids =>
      frameText "tickers" (ids.map tickText) = frameText "tickers" (instIds.map tickText)) =
        some instIds)
    (hdecode : decodeTickerEnvelope (frameJson "tickers" (instIds.map tickJson)) =
      some (instIds.map tickerOf)) :
    @IsTickerFrame frameParser (frameText "tickers" (instIds.map tickText))
      (instIds.map tickerOf) := by
  refine ⟨frameJson "tickers" (instIds.map tickJson), ?_, hdecode, by simp [HasMember, frameJson]⟩
  dsimp only [SerdeJson.fromStr, frameParser]
  rw [hfind]

/-- A frame with two orders and one that is not for an instrument, and the same for tickers: what is
for an instrument is published. -/
theorem everyUpdate_iff_sample :
    let updates := [("BTC-USDT", "a"), ("ETH-USDT", "b"), ("BTCUSDT", "c")]
    let instIds := ["BTC-USDT", "ETH-USDT", "BTCUSDT"]
    @EveryUpdate frameParser (frameText "orders" (updates.map updateText))
        (updates.map updateOf) [] ∧
      @EveryTicker frameParser asciiCase (frameText "tickers" (instIds.map tickText))
        (instIds.map tickerOf) fun _ => ⟨0, "trace"⟩ := by
  intro updates instIds
  have horders := @isOrderFrame_sample updates (by decide +kernel) (by decide +kernel) rfl
  have htickers := @isTickerFrame_sample instIds (by decide +kernel) rfl
  constructor
  · refine ((@everyUpdate_iff frameParser asciiCase).1 _ _ [] horders).2 ⟨fun hevent => ?_, ?_⟩
    · exact absurd hevent (by decide +kernel)
    · rw [GoodFirst]
      decide
  · refine ((@everyUpdate_iff frameParser asciiCase).2 _ _ _ htickers).2 ⟨fun hevent => ?_, ?_⟩
    · exact absurd hevent (by decide +kernel)
    · rw [GoodFirst]
      decide

/-- **Frames that are not published in full**: one with the word in the identifier that the client
has chosen, and frames of orders and of tickers with an instrument that does not parse before one
that does. -/
theorem not_everyUpdate :
    (∃ updates, @IsOrderFrame frameParser
        (frameText "orders" ([("BTC-USDT", "event-1")].map updateText)) updates ∧
      ¬ @EveryUpdate frameParser
        (frameText "orders" ([("BTC-USDT", "event-1")].map updateText)) updates []) ∧
    (∃ updates, @IsOrderFrame frameParser
        (frameText "orders" ([("BTCUSDT", "a"), ("BTC-USDT", "b")].map updateText)) updates ∧
      ¬ @EveryUpdate frameParser
        (frameText "orders" ([("BTCUSDT", "a"), ("BTC-USDT", "b")].map updateText)) updates []) ∧
    ∃ tickers, @IsTickerFrame frameParser
        (frameText "tickers" (["BTCUSDT", "BTC-USDT"].map tickText)) tickers ∧
      ¬ @EveryTicker frameParser asciiCase
        (frameText "tickers" (["BTCUSDT", "BTC-USDT"].map tickText)) tickers
        fun _ => ⟨0, "trace"⟩ := by
  have hevent := @isOrderFrame_sample [("BTC-USDT", "event-1")] (by decide +kernel)
    (by decide +kernel) rfl
  have horders := @isOrderFrame_sample [("BTCUSDT", "a"), ("BTC-USDT", "b")] (by decide +kernel)
    (by decide +kernel) rfl
  have htickers := @isTickerFrame_sample ["BTCUSDT", "BTC-USDT"] (by decide +kernel) rfl
  refine ⟨⟨_, hevent, fun h => ?_⟩, ⟨_, horders, fun h => ?_⟩, ⟨_, htickers, fun h => ?_⟩⟩
  · have hnone := ((@IsOrderFrame.everyUpdate frameParser _ _ hevent []).1 h).1 (by decide +kernel)
    exact hnone (updateOf ("BTC-USDT", "event-1")) List.mem_cons_self (by decide)
  · exact not_goodFirst (by decide) (by decide)
      ((@IsOrderFrame.everyUpdate frameParser _ _ horders []).1 h).2
  · exact not_goodFirst (by decide) (by decide)
      ((@IsTickerFrame.everyTicker frameParser _ asciiCase _ htickers _).1 h).2

end W2uos
