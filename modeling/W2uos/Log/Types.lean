import W2uos.Data.Types

/-!
# Log events and trade records

The records the services put on `log.event` and `log.trade`.  The free-form JSON `fields` of an
event are a list of named values.
-/

namespace W2uos

/-- Severity of a log event. -/
inductive LogLevel
  | trace
  | debug
  | info
  | warn
  | error
  deriving DecidableEq

/-- The component a log event comes from. -/
inductive LogSource
  | kernel
  | marketData
  | execution
  | strategy
  | api
  | other (name : String)
  deriving DecidableEq

/-- A JSON scalar in the fields of a log event. -/
inductive LogField
  | null
  | text (s : String)
  | number (q : ℚ)
  deriving DecidableEq

/-- An event on `log.event`. -/
structure LogEvent where
  ts : DateTime
  level : LogLevel
  source : LogSource
  message : String
  fields : List (String × LogField)
  correlationId : Option String
  traceId : Option TraceId
  deriving DecidableEq

/-- Outcome of a trade, as stored. -/
inductive TradeStatus
  | filled
  | rejected (reason : String)
  deriving DecidableEq

/-- Side of a trade, as stored. -/
inductive TradeSide
  | buy
  | sell
  deriving DecidableEq

/-- A record on `log.trade`. -/
structure TradeRecord (α : Type := ℚ) where
  id : String
  ts : DateTime
  exchange : String
  symbol : Symbol
  side : TradeSide
  sizeQuote : α
  price : α
  status : TradeStatus
  strategyId : Option String
  correlationId : Option String
  deriving DecidableEq

end W2uos
