import Mathlib.Algebra.Order.Field.Rat

/-!
# Market data types

The exchange, symbol and snapshot types shared by every service, with the two text forms an
exchange has and the bus subject of a market feed.

Amounts and prices are `f64` in the source and exact rationals here; instants of the monotonic
clock and UTC timestamps are integers (nanoseconds).

Rust's `str::to_uppercase` maps every character to one to three characters by a Unicode table.
The table is a parameter of the model (`CaseTable`); `asciiCase` is its restriction to ASCII.
-/

namespace W2uos

/-- A UTC timestamp, in nanoseconds. -/
abbrev DateTime := ℤ

/-- A reading of the monotonic clock, in nanoseconds. -/
abbrev Instant := ℤ

/-- A trace identifier. -/
abbrev TraceId := String

/-- The upper-case table of the Unicode data Rust is built with. -/
class CaseTable where
  /-- The characters that replace a character in upper case. -/
  upper : Char → List Char

/-- `str::to_uppercase`. -/
def toUppercase [CaseTable] (s : String) : String :=
  String.ofList (s.toList.flatMap CaseTable.upper)

/-- The table on ASCII characters. -/
@[reducible] def asciiCase : CaseTable := ⟨fun c => [c.toUpper]⟩

/-- `str::to_ascii_lowercase`. -/
def toAsciiLowercase (s : String) : String := String.ofList (s.toList.map Char.toLower)

/-- The exchanges a node knows. -/
inductive ExchangeId
  | okx
  | binance
  | other (name : String)
  deriving DecidableEq

namespace ExchangeId

/-- The name an exchange is printed with (`Display`). -/
def toText : ExchangeId → String
  | okx => "OKX"
  | binance => "Binance"
  | other name => name

/-- The exchange named by a text (`From<&str>`). -/
def ofText (value : String) : ExchangeId :=
  let name := toAsciiLowercase value
  if name = "okx" then okx else if name = "binance" then binance else other name

/-- The name of the exchange is in lower case, unless it is OKX or Binance. -/
def Rereadable : ExchangeId → Prop
  | okx => True
  | binance => True
  | other name => toAsciiLowercase name = name ∧ name ≠ "okx" ∧ name ≠ "binance"

/-- **Printing and parsing an exchange** gives it back exactly if its name is re-readable. -/
theorem ofText_toText_iff (e : ExchangeId) : ofText e.toText = e ↔ e.Rereadable := by
  cases e with
  | okx => exact ⟨fun _ => trivial, fun _ => by decide⟩
  | binance => exact ⟨fun _ => trivial, fun _ => by decide⟩
  | other name =>
    unfold ofText toText Rereadable
    dsimp only
    split_ifs with hokx hbinance
    · -- the name of OKX, in whatever case
      refine ⟨fun h => ?_, fun h => ?_⟩
      · cases h
      · exact absurd (h.1.symm.trans hokx) h.2.1
    · refine ⟨fun h => ?_, fun h => ?_⟩
      · cases h
      · exact absurd (h.1.symm.trans hbinance) h.2.2
    · rw [other.injEq]
      refine ⟨fun h => ⟨h, ?_, ?_⟩, fun h => h.1⟩
      · exact h ▸ hokx
      · exact h ▸ hbinance

end ExchangeId

/-- A trading pair. -/
@[ext]
structure Symbol where
  /-- The asset bought and sold. -/
  base : String
  /-- The asset it is priced in. -/
  quote : String
  deriving DecidableEq

/-- The key under which positions and exposures of a symbol are kept: base and quote run together,
in upper case. -/
def symbolKey [CaseTable] (symbol : Symbol) : String := toUppercase (symbol.base ++ symbol.quote)

/-- One observation of a market. -/
structure MarketSnapshot (α : Type := ℚ) where
  ts : DateTime
  exchange : ExchangeId
  symbol : Symbol
  last : α
  bid : α
  ask : α
  volume24h : α
  traceId : Option TraceId
  deriving DecidableEq

/-- The bus subject on which the snapshots of a market are published. -/
def marketSubject [CaseTable] (exchange : ExchangeId) (symbol : Symbol) : String :=
  "market." ++ exchange.toText ++ "." ++ toUppercase symbol.base ++ toUppercase symbol.quote

/-- The subject of a snapshot. -/
def MarketSnapshot.subject [CaseTable] {α : Type} (snap : MarketSnapshot α) : String :=
  marketSubject snap.exchange snap.symbol

end W2uos
