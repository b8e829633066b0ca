import W2uos.Log.Types

/-!
# Orders and their results

Amounts and prices are of a type `α`: the rationals where nothing else is said, and `Float` where
the rounding of the source matters.
-/

namespace W2uos

/-- Side of an order. -/
inductive OrderSide
  | buy
  | sell
  deriving DecidableEq

/-- Type of an order. -/
inductive OrderType
  | market
  | limit
  deriving DecidableEq

/-- A command on `orders.command`. -/
structure OrderCommand (α : Type := ℚ) where
  id : String
  exchange : ExchangeId
  symbol : Symbol
  side : OrderSide
  orderType : OrderType
  sizeQuote : α
  limitPrice : Option α
  traceId : Option TraceId
  deriving DecidableEq

/-- Outcome of an order. -/
inductive OrderStatus
  | new
  | filled
  | rejected (reason : String)
  deriving DecidableEq

/-- The `Debug` form of a status. -/
def OrderStatus.debug : OrderStatus → String
  | new => "New"
  | filled => "Filled"
  | rejected reason => "Rejected(" ++ reason.quote ++ ")"

/-- A result on `orders.result`. -/
structure OrderResult (α : Type := ℚ) where
  commandId : String
  exchange : ExchangeId
  symbol : Symbol
  side : OrderSide
  status : OrderStatus
  filledSizeQuote : α
  avgPrice : α
  ts : DateTime
  traceId : Option TraceId
  deriving DecidableEq

end W2uos
