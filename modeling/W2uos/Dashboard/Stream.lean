import W2uos.Exec.Types
import W2uos.System.Json

/-!
# The stream of the dashboard

The server sends the dashboard what the services publish, as JSON and without the subject.  The
dashboard finds the subject again from the payload: it tries three record types of its own, one
after the other, and writes the subject of the one that fits.

On the wire a float that is no number, or infinite, is null, and the fields of a log event are any
JSON.  The records of `Wire` have both.  How a timestamp is written and read is up to the library
for dates (`ChronoSerde`).

* `subjectFromPayload_market`, `subjectFromPayload_log`, `subjectFromPayload_order` : the subject
  found for each kind of payload;
* `subjectFromPayload_iff` : when it is the one the payload was published on.
-/

namespace W2uos

/-- The library that writes timestamps in JSON and reads them. -/
class ChronoSerde where
  /-- `DateTime::serialize`, a text. -/
  serialize : DateTime → String
  /-- `DateTime::deserialize`; `none` is an error. -/
  deserialize : String → Option DateTime

/-! ### What the server sends -/

namespace Wire

/-- A 64-bit float: a number, or one of the values that are none. -/
inductive F64
  | finite (q : ℚ)
  | notFinite
  deriving DecidableEq

/-- A snapshot as it is encoded. -/
structure MarketSnapshot where
  ts : DateTime
  exchange : ExchangeId
  symbol : Symbol
  last : F64
  bid : F64
  ask : F64
  volume24h : F64
  traceId : Option TraceId

/-- A log event as it is encoded. -/
structure LogEvent where
  ts : DateTime
  level : LogLevel
  source : LogSource
  message : String
  fields : Json
  correlationId : Option String
  traceId : Option TraceId

/-- An order result as it is encoded. -/
structure OrderResult where
  commandId : String
  exchange : ExchangeId
  symbol : Symbol
  side : OrderSide
  status : OrderStatus
  filledSizeQuote : F64
  avgPrice : F64
  ts : DateTime
  traceId : Option TraceId

/-- The number a float is. -/
def F64.value : F64 → Option ℚ
  | finite q => some q
  | notFinite => none

def F64.toJson : F64 → Json
  | finite q => .number q
  | notFinite => .null

end Wire

/-- A timestamp in JSON. -/
def timeJson [ChronoSerde] (ts : DateTime) : Json := .string (ChronoSerde.serialize ts)

def ExchangeId.toJson : ExchangeId → Json
  | okx => .string "Okx"
  | binance => .string "Binance"
  | other name => .object [("Other", .string name)]

def Symbol.toJson (symbol : Symbol) : Json :=
  .object [("base", .string symbol.base), ("quote", .string symbol.quote)]

def LogLevel.toJson : LogLevel → Json
  | trace => .string "Trace"
  | debug => .string "Debug"
  | info => .string "Info"
  | warn => .string "Warn"
  | error => .string "Error"

def LogSource.toJson : LogSource → Json
  | kernel => .string "Kernel"
  | marketData => .string "MarketData"
  | execution => .string "Execution"
  | strategy => .string "Strategy"
  | api => .string "Api"
  | other name => .object [("Other", .string name)]

def OrderSide.toJson : OrderSide → Json
  | buy => .string "Buy"
  | sell => .string "Sell"

def OrderStatus.toJson : OrderStatus → Json
  | new => .string "New"
  | filled => .string "Filled"
  | rejected reason => .object [("Rejected", .string reason)]

namespace Wire

def MarketSnapshot.toJson [ChronoSerde] (snap : MarketSnapshot) : Json :=
  .object
    [("ts", timeJson snap.ts), ("exchange", snap.exchange.toJson), ("symbol", snap.symbol.toJson),
      ("last", snap.last.toJson), ("bid", snap.bid.toJson), ("ask", snap.ask.toJson),
      ("volume_24h", snap.volume24h.toJson), ("trace_id", Json.encodeOption .string snap.traceId)]

def LogEvent.toJson [ChronoSerde] (event : LogEvent) : Json :=
  .object
    [("ts", timeJson event.ts), ("level", event.level.toJson), ("source", event.source.toJson),
      ("message", .string event.message), ("fields", event.fields),
      ("correlation_id", Json.encodeOption .string event.correlationId),
      ("trace_id", Json.encodeOption .string event.traceId)]

def OrderResult.toJson [ChronoSerde] (result : OrderResult) : Json :=
  .object
    [("command_id", .string result.commandId), ("exchange", result.exchange.toJson),
      ("symbol", result.symbol.toJson), ("side", result.side.toJson),
      ("status", result.status.toJson), ("filled_size_quote", result.filledSizeQuote.toJson),
      ("avg_price", result.avgPrice.toJson), ("ts", timeJson result.ts),
      ("trace_id", Json.encodeOption .string result.traceId)]

/-- What is sent to the dashboard. -/
inductive Payload
  | market (snap : MarketSnapshot)
  | log (event : LogEvent)
  | order (result : OrderResult)

def Payload.toJson [ChronoSerde] : Payload → Json
  | market snap => snap.toJson
  | log event => event.toJson
  | order result => result.toJson

/-- The subject a payload is published on. -/
def Payload.subject [CaseTable] : Payload → String
  | market snap => marketSubject snap.exchange snap.symbol
  | log _ => "log.event"
  | order _ => "orders.result"

def Payload.ts : Payload → DateTime
  | market snap => snap.ts
  | log event => event.ts
  | order result => result.ts

end Wire

/-! ### What the dashboard reads -/

namespace Dashboard

open Json

inductive LogLevel
  | trace
  | debug
  | info
  | warn
  | error
  deriving DecidableEq

inductive LogSource
  | kernel
  | marketData
  | execution
  | strategy
  | api
  | other (name : String)
  deriving DecidableEq

structure LogDto where
  ts : DateTime
  level : LogLevel
  source : LogSource
  message : String
  fields : Json
  correlationId : Option String
  traceId : Option String

inductive ExchangeId
  | okx
  | binance
  | other (name : String)
  deriving DecidableEq

structure SymbolDto where
  base : String
  quote : String
  deriving DecidableEq

structure MarketSnapshot where
  ts : DateTime
  exchange : ExchangeId
  symbol : SymbolDto
  last : ℚ
  bid : ℚ
  ask : ℚ
  volume24h : ℚ
  traceId : Option String

inductive OrderStatus
  | new
  | filled
  | rejected (reason : String)
  deriving DecidableEq

structure MarketSymbol where
  base : String
  quote : String
  deriving DecidableEq

structure OrderResult where
  commandId : String
  exchange : Option String
  symbol : Option MarketSymbol
  side : Option String
  status : OrderStatus
  filledSizeQuote : ℚ
  avgPrice : ℚ
  ts : DateTime
  traceId : Option String

/-- What the dashboard takes a payload for. -/
inductive StreamPayload
  | market (market : MarketSnapshot)
  | order (order : OrderResult)
  | log (log : LogDto)

def decodeTime [ChronoSerde] (value : Json) : Option DateTime :=
  value.decodeString.bind ChronoSerde.deserialize

def LogLevel.fromValue : Json → Option LogLevel :=
  decodeEnum
    [("Trace", .trace), ("Debug", .debug), ("Info", .info), ("Warn", .warn), ("Error", .error)] none

def LogSource.fromValue : Json → Option LogSource :=
  decodeEnum
    [("Kernel", .kernel), ("MarketData", .marketData), ("Execution", .execution),
      ("Strategy", .strategy), ("Api", .api)]
    (some ("Other", .other))

def ExchangeId.fromValue : Json → Option ExchangeId :=
  decodeEnum [("Okx", .okx), ("Binance", .binance)] (some ("Other", .other))

def OrderStatus.fromValue : Json → Option OrderStatus :=
  decodeEnum [("New", .new), ("Filled", .filled)] (some ("Rejected", .rejected))

def SymbolDto.fromValue (value : Json) : Option SymbolDto := do
  let fields ← value.asStruct ["base", "quote"]
  let base ← field fields "base" decodeString
  let quote ← field fields "quote" decodeString
  return { base, quote }

def MarketSymbol.fromValue (value : Json) : Option MarketSymbol := do
  let fields ← value.asStruct ["base", "quote"]
  let base ← field fields "base" decodeString
  let quote ← field fields "quote" decodeString
  return { base, quote }

def MarketSnapshot.fromValue [ChronoSerde] (value : Json) : Option MarketSnapshot := do
  let fields ←
    value.asStruct ["ts", "exchange", "symbol", "last", "bid", "ask", "volume_24h", "trace_id"]
  let ts ← field fields "ts" decodeTime
  let exchange ← field fields "exchange" ExchangeId.fromValue
  let symbol ← field fields "symbol" SymbolDto.fromValue
  let last ← field fields "last" decodeNumber
  let bid ← field fields "bid" decodeNumber
  let ask ← field fields "ask" decodeNumber
  let volume24h ← field fields "volume_24h" decodeNumber
  let traceId ← optField fields "trace_id" decodeString
  return { ts, exchange, symbol, last, bid, ask, volume24h, traceId }

def OrderResult.fromValue [ChronoSerde] (value : Json) : Option OrderResult := do
  let fields ←
    value.asStruct
      ["command_id", "exchange", "symbol", "side", "status", "filled_size_quote", "avg_price", "ts",
        "trace_id"]
  let commandId ← field fields "command_id" decodeString
  let exchange ← optField fields "exchange" decodeString
  let symbol ← optField fields "symbol" MarketSymbol.fromValue
  let side ← optField fields "side" decodeString
  let status ← field fields "status" OrderStatus.fromValue
  let filledSizeQuote ← field fields "filled_size_quote" decodeNumber
  let avgPrice ← field fields "avg_price" decodeNumber
  let ts ← field fields "ts" decodeTime
  let traceId ← optField fields "trace_id" decodeString
  return { commandId, exchange, symbol, side, status, filledSizeQuote, avgPrice, ts, traceId }

def LogDto.fromValue [ChronoSerde] (value : Json) : Option LogDto := do
  let fields ←
    value.asStruct ["ts", "level", "source", "message", "fields", "correlation_id", "trace_id"]
  let ts ← field fields "ts" decodeTime
  let level ← field fields "level" LogLevel.fromValue
  let source ← field fields "source" LogSource.fromValue
  let message ← field fields "message" decodeString
  let content ← field fields "fields" some
  let correlationId ← optField fields "correlation_id" decodeString
  let traceId ← optField fields "trace_id" decodeString
  return { ts, level, source, message, fields := content, correlationId, traceId }

/-- An order result that the dashboard shows: one with a fill, or a rejection. -/
def OrderResult.shown (order : OrderResult) : Bool :=
  order.filledSizeQuote ≠ 0 || match order.status with
    | .rejected _ => true
    | _ => false

/-- What the dashboard takes a payload for.  An order result that is not shown is tried as a log
event as well. -/
def parseStreamPayload [ChronoSerde] (value : Json) : Option StreamPayload :=
  match MarketSnapshot.fromValue value with
  | some market => some (.market market)
  | none =>
    match (OrderResult.fromValue value).filter OrderResult.shown with
    | some order => some (.order order)
    | none => (LogDto.fromValue value).map .log

def formatExchange : ExchangeId → String
  | .okx => "OKX"
  | .binance => "Binance"
  | .other name => name

/-- The subject of a payload. -/
def subjectFromPayload [ChronoSerde] (value : Json) : Option String := do
  match ← parseStreamPayload value with
  | .market m =>
    some ("market." ++ formatExchange m.exchange ++ "." ++ m.symbol.base ++ m.symbol.quote)
  | .order _ => some "orders.result"
  | .log _ => some "log.event"

end Dashboard

/-! ### What is found -/

namespace Dashboard

@[simp] theorem decodeNumber_toJson (x : Wire.F64) : x.toJson.decodeNumber = x.value := by
  cases x <;> rfl

theorem exchange_fromValue (exchange : W2uos.ExchangeId) :
    ∃ e, ExchangeId.fromValue exchange.toJson = some e ∧ formatExchange e = exchange.toText := by
  cases exchange with
  | okx => exact ⟨.okx, rfl, rfl⟩
  | binance => exact ⟨.binance, rfl, rfl⟩
  | other name => exact ⟨.other name, Json.decodeEnum_text rfl, rfl⟩

/-- The exchange of an order result is read as a text, and another exchange is none. -/
theorem exchange_decodeString (exchange : W2uos.ExchangeId) :
    (∃ name, Json.decodeOption Json.decodeString exchange.toJson = some (some name)) ∧
        (∀ name, exchange ≠ .other name) ∨
      Json.decodeOption Json.decodeString exchange.toJson = none ∧
        ∃ name, exchange = .other name := by
  cases exchange with
  | okx => exact Or.inl ⟨⟨_, rfl⟩, fun _ h => by cases h⟩
  | binance => exact Or.inl ⟨⟨_, rfl⟩, fun _ h => by cases h⟩
  | other name => exact Or.inr ⟨rfl, name, rfl⟩

theorem level_fromValue (level : W2uos.LogLevel) :
    ∃ l, LogLevel.fromValue level.toJson = some l := by
  cases level <;> exact ⟨_, Json.decodeEnum_name rfl⟩

theorem source_fromValue (source : W2uos.LogSource) :
    ∃ l, LogSource.fromValue source.toJson = some l := by
  cases source with
  | other name => exact ⟨_, Json.decodeEnum_text rfl⟩
  | _ => exact ⟨_, Json.decodeEnum_name rfl⟩

theorem side_decodeString (side : OrderSide) :
    ∃ name, Json.decodeOption Json.decodeString side.toJson = some (some name) := by
  cases side <;> exact ⟨_, rfl⟩

theorem status_fromValue (status : W2uos.OrderStatus) :
    ∃ s, OrderStatus.fromValue status.toJson = some s ∧
      ∀ reason, status = .rejected reason → s = .rejected reason := by
  cases status with
  | new => exact ⟨.new, Json.decodeEnum_name rfl, fun _ h => by cases h⟩
  | filled => exact ⟨.filled, Json.decodeEnum_name rfl, fun _ h => by cases h⟩
  | rejected reason =>
    exact ⟨.rejected reason, Json.decodeEnum_text rfl, fun _ h => by cases h; rfl⟩

@[simp] theorem symbolDto_fromValue (symbol : Symbol) :
    SymbolDto.fromValue symbol.toJson = some ⟨symbol.base, symbol.quote⟩ := rfl

@[simp] theorem marketSymbol_fromValue (symbol : Symbol) :
    Json.decodeOption MarketSymbol.fromValue symbol.toJson =
      some (some ⟨symbol.base, symbol.quote⟩) := rfl

variable [ChronoSerde]

theorem decodeTime_timeJson {ts : DateTime}
    (hts : ChronoSerde.deserialize (ChronoSerde.serialize ts) = some ts) :
    decodeTime (timeJson ts) = some ts := by
  rw [decodeTime, timeJson, Json.decodeString_string, Option.bind_some, hts]

theorem market_fromValue_log (event : Wire.LogEvent) :
    MarketSnapshot.fromValue event.toJson = none := by
  simp [MarketSnapshot.fromValue, Wire.LogEvent.toJson, Json.field_absent]

theorem market_fromValue_order (result : Wire.OrderResult) :
    MarketSnapshot.fromValue result.toJson = none := by
  simp [MarketSnapshot.fromValue, Wire.OrderResult.toJson, Json.field_absent]

theorem order_fromValue_market (snap : Wire.MarketSnapshot) :
    OrderResult.fromValue snap.toJson = none := by
  simp [OrderResult.fromValue, Wire.MarketSnapshot.toJson, Json.field_absent]

theorem order_fromValue_log (event : Wire.LogEvent) :
    OrderResult.fromValue event.toJson = none := by
  simp [OrderResult.fromValue, Wire.LogEvent.toJson, Json.field_absent]

theorem log_fromValue_market (snap : Wire.MarketSnapshot) :
    LogDto.fromValue snap.toJson = none := by
  simp [LogDto.fromValue, Wire.MarketSnapshot.toJson, Json.field_absent]

theorem log_fromValue_order (result : Wire.OrderResult) :
    LogDto.fromValue result.toJson = none := by
  simp [LogDto.fromValue, Wire.OrderResult.toJson, Json.field_absent]

theorem log_fromValue (event : Wire.LogEvent)
    (hts : ChronoSerde.deserialize (ChronoSerde.serialize event.ts) = some event.ts) :
    ∃ log, LogDto.fromValue event.toJson = some log := by
  obtain ⟨level, hlevel⟩ := level_fromValue event.level
  obtain ⟨source, hsource⟩ := source_fromValue event.source
  simp [LogDto.fromValue, Wire.LogEvent.toJson, Json.field_eq, Json.optField_eq,
    decodeTime_timeJson hts, hlevel, hsource]

theorem market_fromValue (snap : Wire.MarketSnapshot)
    (hts : ChronoSerde.deserialize (ChronoSerde.serialize snap.ts) = some snap.ts) :
    ∃ e, formatExchange e = snap.exchange.toText ∧
      MarketSnapshot.fromValue snap.toJson = do
        let last ← snap.last.value
        let bid ← snap.bid.value
        let ask ← snap.ask.value
        let volume24h ← snap.volume24h.value
        return ⟨snap.ts, e, ⟨snap.symbol.base, snap.symbol.quote⟩, last, bid, ask, volume24h,
          snap.traceId⟩ := by
  obtain ⟨e, he, hname⟩ := exchange_fromValue snap.exchange
  refine ⟨e, hname, ?_⟩
  simp [MarketSnapshot.fromValue, Wire.MarketSnapshot.toJson, Json.field_eq, Json.optField_eq,
    decodeTime_timeJson hts, he]

/-- An order result is read as one if its exchange is read as a text and its floats are numbers. -/
theorem order_fromValue (result : Wire.OrderResult)
    (hts : ChronoSerde.deserialize (ChronoSerde.serialize result.ts) = some result.ts) :
    ∃ side status, (∀ reason, result.status = .rejected reason → status = .rejected reason) ∧
      OrderResult.fromValue result.toJson = do
        let exchange ← Json.decodeOption Json.decodeString result.exchange.toJson
        let filledSizeQuote ← result.filledSizeQuote.value
        let avgPrice ← result.avgPrice.value
        return ⟨result.commandId, exchange, some ⟨result.symbol.base, result.symbol.quote⟩,
          some side, status, filledSizeQuote, avgPrice, result.ts, result.traceId⟩ := by
  obtain ⟨status, hstatus, hrejected⟩ := status_fromValue result.status
  obtain ⟨side, hside⟩ := side_decodeString result.side
  refine ⟨side, status, hrejected, ?_⟩
  simp [OrderResult.fromValue, Wire.OrderResult.toJson, Json.field_eq, Json.optField_eq,
    decodeTime_timeJson hts, hstatus, hside]

end Dashboard

namespace Wire

/-- The floats of a snapshot are numbers. -/
def MarketSnapshot.Numbers (snap : MarketSnapshot) : Prop :=
  snap.last ≠ .notFinite ∧ snap.bid ≠ .notFinite ∧ snap.ask ≠ .notFinite ∧
    snap.volume24h ≠ .notFinite

/-- An order result that the dashboard is to show: a rejection, or one with a fill. -/
def OrderResult.Shown (result : OrderResult) : Prop :=
  (∃ reason, result.status = .rejected reason) ∨ result.filledSizeQuote ≠ .finite 0

/-- When the dashboard finds the subject of a payload.  The floats are numbers; a snapshot is for a
symbol that is written in upper case; and an order result is for one of the exchanges with a name of
its own. -/
def Payload.Agrees [CaseTable] : Payload → Prop
  | market snap => snap.Numbers ∧ snap.symbol.base ++ snap.symbol.quote = symbolKey snap.symbol
  | log _ => True
  | order result => (∀ name, result.exchange ≠ .other name) ∧
    result.filledSizeQuote ≠ .notFinite ∧ result.avgPrice ≠ .notFinite

/-- An order result among the payloads is one to show. -/
def Payload.Shown : Payload → Prop
  | order result => result.Shown
  | _ => True

theorem F64.value_eq_some {x : F64} (h : x ≠ .notFinite) : ∃ q, x.value = some q := by
  cases x with
  | finite q => exact ⟨q, rfl⟩
  | notFinite => exact absurd rfl h

end Wire

namespace Dashboard

theorem toUppercase_append [CaseTable] (s t : String) :
    toUppercase (s ++ t) = toUppercase s ++ toUppercase t := by
  simp [toUppercase]

theorem marketSubject_iff [CaseTable] (exchange : W2uos.ExchangeId) (symbol : Symbol) :
    "market." ++ exchange.toText ++ "." ++ symbol.base ++ symbol.quote =
        marketSubject exchange symbol ↔ symbol.base ++ symbol.quote = symbolKey symbol := by
  rw [marketSubject, symbolKey, toUppercase_append]
  simp only [String.append_assoc, String.append_right_inj]

variable [ChronoSerde]

theorem market_fromValue_cases (snap : Wire.MarketSnapshot)
    (hts : ChronoSerde.deserialize (ChronoSerde.serialize snap.ts) = some snap.ts) :
    (snap.Numbers ∧ ∃ m, MarketSnapshot.fromValue snap.toJson = some m ∧
      formatExchange m.exchange = snap.exchange.toText ∧
      m.symbol = ⟨snap.symbol.base, snap.symbol.quote⟩) ∨
    (¬ snap.Numbers ∧ MarketSnapshot.fromValue snap.toJson = none) := by
  obtain ⟨e, hname, hmarket⟩ := market_fromValue snap hts
  by_cases hnum : snap.Numbers
  · obtain ⟨last, hlast⟩ := Wire.F64.value_eq_some hnum.1
    obtain ⟨bid, hbid⟩ := Wire.F64.value_eq_some hnum.2.1
    obtain ⟨ask, hask⟩ := Wire.F64.value_eq_some hnum.2.2.1
    obtain ⟨volume24h, hvolume⟩ := Wire.F64.value_eq_some hnum.2.2.2
    rw [hlast, hbid, hask, hvolume] at hmarket
    exact Or.inl ⟨hnum, _, hmarket, hname, rfl⟩
  · refine Or.inr ⟨hnum, ?_⟩
    simp only [Wire.MarketSnapshot.Numbers, not_and_or, not_not] at hnum
    rw [hmarket]
    rcases hnum with h | h | h | h <;> simp [h, Wire.F64.value]

/-- **The subject of a snapshot.** -/
theorem subjectFromPayload_market [CaseTable] (snap : Wire.MarketSnapshot)
    (hts : ChronoSerde.deserialize (ChronoSerde.serialize snap.ts) = some snap.ts) :
    subjectFromPayload snap.toJson = some (marketSubject snap.exchange snap.symbol) ↔
      snap.Numbers ∧ snap.symbol.base ++ snap.symbol.quote = symbolKey snap.symbol := by
  rcases market_fromValue_cases snap hts with ⟨hnum, m, hmarket, hname, hsymbol⟩ | ⟨hnum, hmarket⟩
  · have hsubject : subjectFromPayload snap.toJson =
        some ("market." ++ snap.exchange.toText ++ "." ++ snap.symbol.base ++
          snap.symbol.quote) := by
      simp [subjectFromPayload, parseStreamPayload, hmarket, hname, hsymbol]
    rw [hsubject, Option.some.injEq, marketSubject_iff]
    exact (and_iff_right hnum).symm
  · -- it is taken for nothing else
    have hnothing : subjectFromPayload snap.toJson = none := by
      simp [subjectFromPayload, parseStreamPayload, hmarket, order_fromValue_market,
        log_fromValue_market]
    rw [hnothing]
    exact iff_of_false (fun h => by cases h) fun h => hnum h.1

/-- **The subject of a log event.** -/
theorem subjectFromPayload_log (event : Wire.LogEvent)
    (hts : ChronoSerde.deserialize (ChronoSerde.serialize event.ts) = some event.ts) :
    subjectFromPayload event.toJson = some "log.event" := by
  obtain ⟨log, hlog⟩ := log_fromValue event hts
  simp [subjectFromPayload, parseStreamPayload, market_fromValue_log, order_fromValue_log, hlog]

/-- An order result is read exactly if its exchange has a name of its own, and its floats are
numbers. -/
theorem order_fromValue_cases (result : Wire.OrderResult)
    (hts : ChronoSerde.deserialize (ChronoSerde.serialize result.ts) = some result.ts) :
    (((∀ name, result.exchange ≠ .other name) ∧ result.filledSizeQuote ≠ .notFinite ∧
        result.avgPrice ≠ .notFinite) ∧
      ∃ order, OrderResult.fromValue result.toJson = some order ∧
        (result.Shown → order.shown = true)) ∨
    (¬ ((∀ name, result.exchange ≠ .other name) ∧ result.filledSizeQuote ≠ .notFinite ∧
        result.avgPrice ≠ .notFinite) ∧ OrderResult.fromValue result.toJson = none) := by
  obtain ⟨side, status, hstatus, horder⟩ := order_fromValue result hts
  rcases exchange_decodeString result.exchange with ⟨⟨name, hexchange⟩, hnamed⟩ | ⟨hnone, hother⟩
  · by_cases hnum : result.filledSizeQuote ≠ .notFinite ∧ result.avgPrice ≠ .notFinite
    · obtain ⟨filled, hfilled⟩ := Wire.F64.value_eq_some hnum.1
      obtain ⟨avg, havg⟩ := Wire.F64.value_eq_some hnum.2
      rw [hexchange, hfilled, havg] at horder
      refine Or.inl ⟨⟨hnamed, hnum⟩, _, horder, ?_⟩
      rintro (⟨reason, hreason⟩ | hfill)
      · simp [OrderResult.shown, hstatus reason hreason]
      · have hpos : filled ≠ 0 := by
          rintro rfl
          cases hq : result.filledSizeQuote with
          | finite q =>
            rw [hq] at hfilled hfill
            exact hfill (congrArg _ (Option.some.inj hfilled))
          | notFinite => exact hnum.1 hq
        simp [OrderResult.shown, hpos]
    · refine Or.inr ⟨fun h => hnum h.2, ?_⟩
      simp only [not_and_or, not_not] at hnum
      rw [horder]
      rcases hnum with h | h <;> simp [h, Wire.F64.value]
  · obtain ⟨name, hname⟩ := hother
    refine Or.inr ⟨fun h => h.1 name hname, ?_⟩
    rw [horder, hnone]
    rfl

/-- **The subject of an order result** that is to be shown. -/
theorem subjectFromPayload_order (result : Wire.OrderResult) (hshown : result.Shown)
    (hts : ChronoSerde.deserialize (ChronoSerde.serialize result.ts) = some result.ts) :
    subjectFromPayload result.toJson = some "orders.result" ↔
      (∀ name, result.exchange ≠ .other name) ∧ result.filledSizeQuote ≠ .notFinite ∧
        result.avgPrice ≠ .notFinite := by
  rcases order_fromValue_cases result hts with ⟨hread, order, horder, hshow⟩ | ⟨hread, horder⟩
  · refine iff_of_true ?_ hread
    have hfilter : (OrderResult.fromValue result.toJson).filter OrderResult.shown = some order := by
      rw [horder, Option.filter_some, if_pos (hshow hshown)]
    simp [subjectFromPayload, parseStreamPayload, market_fromValue_order, hfilter]
  · have hnothing : subjectFromPayload result.toJson = none := by
      simp [subjectFromPayload, parseStreamPayload, market_fromValue_order, horder,
        log_fromValue_order]
    rw [hnothing]
    exact iff_of_false (fun h => by cases h) hread

end Dashboard

/-! ### The records of the node -/

/-- A snapshot of the node, with its prices as floats. -/
def MarketSnapshot.wire (snap : MarketSnapshot) : Wire.MarketSnapshot where
  ts := snap.ts
  exchange := snap.exchange
  symbol := snap.symbol
  last := .finite snap.last
  bid := .finite snap.bid
  ask := .finite snap.ask
  volume24h := .finite snap.volume24h
  traceId := snap.traceId

/-- An order result of the node, with its amounts as floats. -/
def OrderResult.wire (result : OrderResult) : Wire.OrderResult where
  commandId := result.commandId
  exchange := result.exchange
  symbol := result.symbol
  side := result.side
  status := result.status
  filledSizeQuote := .finite result.filledSizeQuote
  avgPrice := .finite result.avgPrice
  ts := result.ts
  traceId := result.traceId

/-- The dashboard finds the subject of a snapshot if its symbol is written in upper case. -/
theorem MarketSnapshot.subjectFromPayload_wire [CaseTable] [ChronoSerde] (snap : MarketSnapshot)
    (hts : ChronoSerde.deserialize (ChronoSerde.serialize snap.ts) = some snap.ts) :
    Dashboard.subjectFromPayload snap.wire.toJson = some snap.subject ↔
      snap.symbol.base ++ snap.symbol.quote = symbolKey snap.symbol := by
  have hnum : snap.wire.Numbers := by simp [Wire.MarketSnapshot.Numbers, wire]
  exact (Dashboard.subjectFromPayload_market snap.wire hts).trans (and_iff_right hnum)

/-- The dashboard finds the subject of an order result to show if its exchange has a name of its
own. -/
theorem OrderResult.subjectFromPayload_wire [ChronoSerde] (result : OrderResult)
    (hshown : result.wire.Shown)
    (hts : ChronoSerde.deserialize (ChronoSerde.serialize result.ts) = some result.ts) :
    Dashboard.subjectFromPayload result.wire.toJson = some "orders.result" ↔
      ∀ name, result.exchange ≠ .other name := by
  refine (Dashboard.subjectFromPayload_order result.wire hshown hts).trans ?_
  simp [wire]

/-! ### The stream -/

open Dashboard in
/-- **The stream and its subjects.**  The dashboard finds the subject on which a payload was
published exactly if the payload is a log event, a snapshot with numbers and a symbol in upper case,
or an order result with numbers for an exchange with a name of its own. -/
theorem subjectFromPayload_iff [CaseTable] [ChronoSerde] (payload : Wire.Payload)
    (hshown : payload.Shown)
    (hts : ChronoSerde.deserialize (ChronoSerde.serialize payload.ts) = some payload.ts) :
    subjectFromPayload payload.toJson = some payload.subject ↔ payload.Agrees := by
  cases payload with
  | market snap => exact subjectFromPayload_market snap hts
  | log event => exact iff_of_true (subjectFromPayload_log event hts) trivial
  | order result => exact subjectFromPayload_order result hshown hts

/-- A snapshot of a market at the beginning of 2024. -/
def streamSnapshot (exchange : ExchangeId) (symbol : Symbol) : Wire.MarketSnapshot where
  ts := 1704067200000000000
  exchange := exchange
  symbol := symbol
  last := .finite 10
  bid := .finite 9
  ask := .finite 11
  volume24h := .finite 1
  traceId := none

/-- A filled order on an exchange. -/
def streamResult (exchange : ExchangeId) : Wire.OrderResult where
  commandId := "c1"
  exchange := exchange
  symbol := ⟨"BTC", "USDT"⟩
  side := .buy
  status := .filled
  filledSizeQuote := .finite 100
  avgPrice := .finite 10
  ts := 1704067200000000000
  traceId := none

/-- A library that knows the beginning of 2024. -/
@[reducible] def newYearSerde : ChronoSerde where
  serialize _ := "2024-01-01T00:00:00Z"
  deserialize text := if text = "2024-01-01T00:00:00Z" then some 1704067200000000000 else none

theorem subjectFromPayload_iff_btc :
    @Dashboard.subjectFromPayload newYearSerde
        (@Wire.Payload.toJson newYearSerde (.market (streamSnapshot .okx ⟨"BTC", "USDT"⟩))) =
      some "market.OKX.BTCUSDT" := by
  have hagrees := (@subjectFromPayload_iff asciiCase newYearSerde
    (.market (streamSnapshot .okx ⟨"BTC", "USDT"⟩)) trivial rfl).2
    ⟨by simp [Wire.MarketSnapshot.Numbers, streamSnapshot], by decide +kernel⟩
  rw [hagrees]
  decide +kernel

/-- **Payloads whose subject is not found**: a snapshot of a symbol in lower case, for which the
dashboard finds another subject, and a fill on another exchange, for which it finds none. -/
theorem not_subjectFromPayload :
    (@Dashboard.subjectFromPayload newYearSerde
        (@Wire.MarketSnapshot.toJson newYearSerde (streamSnapshot .okx ⟨"btc", "usdt"⟩)) =
          some "market.OKX.btcusdt" ∧
      @marketSubject asciiCase .okx ⟨"btc", "usdt"⟩ = "market.OKX.BTCUSDT") ∧
    (streamResult (.other "kraken")).Shown ∧
      @Dashboard.subjectFromPayload newYearSerde
        (@Wire.OrderResult.toJson newYearSerde (streamResult (.other "kraken"))) = none := by
  refine ⟨⟨?_, by decide +kernel⟩, Or.inr (by decide +kernel), ?_⟩
  · decide +kernel
  · decide +kernel

end W2uos
