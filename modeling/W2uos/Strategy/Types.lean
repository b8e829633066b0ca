import W2uos.Exec.Types

/-!
# Strategy types
-/

namespace W2uos

/-- A market a strategy trades. -/
structure PairId where
  exchange : ExchangeId
  symbol : Symbol
  deriving DecidableEq

/-- An order a strategy wants to place. -/
structure PlannedOrder where
  side : OrderSide
  orderType : OrderType
  sizeQuote : ℚ
  limitPrice : Option ℚ
  traceId : Option TraceId
  deriving DecidableEq

/-- What a strategy makes of a snapshot. -/
structure StrategyOutcome where
  plannedOrders : List PlannedOrder
  notes : Option String
  traceId : Option TraceId
  deriving DecidableEq

/-- Configuration of a strategy. -/
structure BotConfig where
  name : String
  pairs : List PairId
  deriving DecidableEq

end W2uos
