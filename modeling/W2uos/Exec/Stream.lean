import Mathlib.Data.List.Infix
import W2uos.Exec.Types

/-!
# The private stream of OKX

`OkxPrivateStream` listens to the orders channel of an account.  A text that contains the word
`event` is taken for an answer to the login or the subscription and dropped; any other text is
parsed as an envelope of order updates, and every update becomes a message on `orders.result`, up
to the first one whose instrument does not parse.

The JSON parser is a parameter (`OrderChannel`).  Decimal numbers are read exactly; the infinities
and the non-number that `f64` also reads are not amounts here.

* `handleText_spec` : which updates of a text are published, and what their results say.
-/

namespace W2uos

/-! ### Decimal numbers -/

/-- A list of decimal digits. -/
def isDigits (cs : List Char) : Bool := cs.all Char.isDigit

/-- The exponent behind a mantissa, with its mark; there may be none. -/
def parseExponent : List Char → Option ℤ
  | [] => some 0
  | _ :: '-' :: ds => if ds ≠ [] ∧ isDigits ds then some (-Nat.ofDigitChars 10 ds 0) else none
  | _ :: '+' :: ds => if ds ≠ [] ∧ isDigits ds then some (Nat.ofDigitChars 10 ds 0) else none
  | _ :: ds => if ds ≠ [] ∧ isDigits ds then some (Nat.ofDigitChars 10 ds 0) else none

/-- A number without a sign: digits with at most one point among them, and an exponent. -/
def parseNumber (cs : List Char) : Option ℚ :=
  let (mantissa, exponent) := cs.span fun c => c ≠ 'e' ∧ c ≠ 'E'
  let (whole, rest) := mantissa.span (· ≠ '.')
  let fraction := rest.drop 1
  if whole ++ fraction ≠ [] ∧ isDigits (whole ++ fraction) then
    (parseExponent exponent).map fun e =>
      (Nat.ofDigitChars 10 (whole ++ fraction) 0 : ℚ) * (10 : ℚ) ^ (e - (fraction.length : ℤ))
  else none

/-- `f64::from_str` on decimal numbers. -/
def parseF64 (s : String) : Option ℚ :=
  match s.toList with
  | '-' :: cs => (parseNumber cs).map (-·)
  | '+' :: cs => parseNumber cs
  | cs => parseNumber cs

/-! ### Order updates -/

/-- An update on the orders channel. -/
structure OkxOrderData where
  instId : String
  ordId : String
  clOrdId : Option String
  side : String
  state : String
  fillPx : Option String
  fillSz : Option String
  deriving DecidableEq

/-- The symbol of an instrument: the first two of the parts between dashes. -/
def parseSymbol (instId : String) : Except String Symbol :=
  match instId.toList.splitOn '-' with
  | base :: quote :: _ => .ok ⟨String.ofList base, String.ofList quote⟩
  | _ => .error "missing quote"

namespace OkxOrderData

/-- The side of an update. -/
def orderSide (data : OkxOrderData) : OrderSide := if data.side = "buy" then .buy else .sell

/-- The status an update stands for. -/
def status (data : OkxOrderData) : OrderStatus :=
  if data.state = "filled" then .filled
  else if data.state = "canceled" then .rejected "canceled"
  else .new

/-- The price of the last fill. -/
def fillPrice (data : OkxOrderData) : ℚ := (parseF64 (data.fillPx.getD "0")).getD 0

/-- The size of the last fill. -/
def fillSize (data : OkxOrderData) : ℚ := (parseF64 (data.fillSz.getD "0")).getD 0

/-- The quote amount of the last fill. -/
def filledQuote (data : OkxOrderData) : ℚ := data.fillPrice * data.fillSize

/-- The identifier of the command: that of the client, or else that of the exchange. -/
def commandId (data : OkxOrderData) : String := data.clOrdId.getD data.ordId

/-- The result an update stands for. -/
def result (data : OkxOrderData) (ts : DateTime) : Except String OrderResult := do
  let symbol ← parseSymbol data.instId
  return {
    commandId := data.commandId
    exchange := .okx
    symbol := symbol
    side := data.orderSide
    status := data.status
    filledSizeQuote := data.filledQuote
    avgPrice := if 0 < data.filledQuote ∧ 0 < data.fillSize then data.filledQuote / data.fillSize
      else data.fillPrice
    ts := ts
    traceId := none }

end OkxOrderData

/-- The text is taken for an answer to the login or the subscription. -/
def ContainsEvent (txt : String) : Prop := "event".toList <:+: txt.toList

instance (txt : String) : Decidable (ContainsEvent txt) :=
  inferInstanceAs (Decidable ("event".toList <:+: txt.toList))

/-- The JSON parser, on the envelopes of the orders channel. -/
class OrderChannel where
  /-- The updates in a text, or why it is no envelope. -/
  parseEnvelope : String → Except String (List OkxOrderData)

/-- The results of the updates up to the first one that fails, and its error. -/
def publishUpdates : List OkxOrderData → List DateTime → List OrderResult × Option String
  | data :: updates, ts =>
    match data.result (ts.headD 0) with
    | .error err => ([], some err)
    | .ok result =>
      let (results, err) := publishUpdates updates ts.tail
      (result :: results, err)
  | [], _ => ([], none)

/-- Handle a text: the messages put on `orders.result`, each with the time it is made at, and the
error the rest is dropped for, if there is one. -/
def handleText [OrderChannel] (txt : String) (ts : List DateTime) :
    List OrderResult × Option String :=
  if ContainsEvent txt then ([], none)
  else
    match OrderChannel.parseEnvelope txt with
    | .error err => ([], some err)
    | .ok updates => publishUpdates updates ts

/-! ### What is published -/

/-- The result says what the update says. -/
structure OkxOrderData.Reported (data : OkxOrderData) (r : OrderResult) : Prop where
  commandId : r.commandId = data.commandId
  symbol : parseSymbol data.instId = .ok r.symbol
  side : r.side = data.orderSide
  status : r.status = data.status
  quote : r.filledSizeQuote = data.filledQuote

theorem OkxOrderData.result_of_ok {data : OkxOrderData} {symbol : Symbol}
    (h : parseSymbol data.instId = .ok symbol) (ts : DateTime) :
    ∃ r, data.result ts = .ok r ∧ data.Reported r := by
  unfold OkxOrderData.result
  rw [h]
  exact ⟨_, rfl, rfl, h, rfl, rfl, rfl⟩

theorem OkxOrderData.result_of_error {data : OkxOrderData} {err : String}
    (h : parseSymbol data.instId = .error err) (ts : DateTime) : data.result ts = .error err := by
  unfold OkxOrderData.result
  rw [h]
  rfl

theorem OkxOrderData.result_traceId {data : OkxOrderData} {ts : DateTime} {r : OrderResult}
    (h : data.result ts = .ok r) : r.traceId = none := by
  unfold OkxOrderData.result at h
  cases hsymbol : parseSymbol data.instId with
  | error err =>
    rw [hsymbol] at h
    cases h
  | ok symbol =>
    rw [hsymbol] at h
    cases h
    rfl

/-- The updates up to the first one whose instrument does not parse. -/
def wellFormed (updates : List OkxOrderData) : List OkxOrderData :=
  updates.takeWhile fun data => (parseSymbol data.instId).isOk

/-- **The results are those of the updates** up to the first one that fails. -/
theorem publishUpdates_spec (updates : List OkxOrderData) (ts : List DateTime) :
    List.Forall₂ OkxOrderData.Reported (wellFormed updates) (publishUpdates updates ts).1 := by
  induction updates generalizing ts with
  | nil => exact List.Forall₂.nil
  | cons data updates ih =>
    unfold wellFormed publishUpdates
    cases hsymbol : parseSymbol data.instId with
    | error err =>
      rw [List.takeWhile_cons_of_neg (by simp [hsymbol, Except.isOk, Except.toBool]),
        data.result_of_error hsymbol]
      exact List.Forall₂.nil
    | ok symbol =>
      obtain ⟨r, hr, hreported⟩ := data.result_of_ok hsymbol (ts.headD 0)
      rw [List.takeWhile_cons_of_pos (by simp [hsymbol, Except.isOk, Except.toBool]), hr]
      exact List.Forall₂.cons hreported (ih ts.tail)

/-- The updates a text is published for. -/
def updatesOf [OrderChannel] (txt : String) : List OkxOrderData :=
  if ContainsEvent txt then []
  else
    match OrderChannel.parseEnvelope txt with
    | .error _ => []
    | .ok updates => wellFormed updates

/-- **The results of a text.** -/
theorem handleText_spec [OrderChannel] (txt : String) (ts : List DateTime) :
    List.Forall₂ OkxOrderData.Reported (updatesOf txt) (handleText txt ts).1 := by
  unfold updatesOf handleText
  by_cases hevent : ContainsEvent txt
  · rw [if_pos hevent, if_pos hevent]
    exact List.Forall₂.nil
  · rw [if_neg hevent, if_neg hevent]
    cases OrderChannel.parseEnvelope txt with
    | error err => exact List.Forall₂.nil
    | ok updates => exact publishUpdates_spec updates ts

/-! ### An order in two parts -/

/-- The first part of an order. -/
def partialText : String :=
  "\x7b\"data\":[\x7b\"instId\":\"BTC-USDT\",\"ordId\":\"1\",\"clOrdId\":\"a\",\"side\":\"buy\"," ++
    "\"state\":\"partially_filled\",\"fillPx\":\"30000\",\"fillSz\":\"0.1\"\x7d]\x7d"

/-- The rest of it. -/
def finalText : String :=
  "\x7b\"data\":[\x7b\"instId\":\"BTC-USDT\",\"ordId\":\"1\",\"clOrdId\":\"a\",\"side\":\"buy\"," ++
    "\"state\":\"filled\",\"fillPx\":\"31000\",\"fillSz\":\"0.2\"\x7d]\x7d"

/-- An update of this order. -/
def partUpdate (state fillPx fillSz : String) : OkxOrderData where
  instId := "BTC-USDT"
  ordId := "1"
  clOrdId := some "a"
  side := "buy"
  state := state
  fillPx := some fillPx
  fillSz := some fillSz

/-- A parser for the two texts. -/
@[reducible] def twoPartChannel : OrderChannel where
  parseEnvelope txt :=
    if txt = partialText then .ok [partUpdate "partially_filled" "30000" "0.1"]
    else if txt = finalText then .ok [partUpdate "filled" "31000" "0.2"]
    else .error "parse okx order envelope"

end W2uos
