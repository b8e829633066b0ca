import W2uos.Exec.Types
import W2uos.Net.Client

/-!
# The OKX client

Placing an order on OKX.  The request is the JSON body of the source with its account headers;
the timestamp and signature headers are left out.  What the exchange answers is an argument, so
that every answer is covered.
-/

namespace W2uos

/-- An OKX account. -/
structure OkxCredentials where
  apiKey : String
  apiSecret : String
  passphrase : Option String
  deriving DecidableEq

/-- The `okx` part of an execution configuration. -/
structure OkxExecutionConfig where
  restBaseUrl : String
  wsPrivateUrl : String
  credentials : OkxCredentials
  deriving DecidableEq

/-- A client of the OKX REST interface. -/
structure OkxClient where
  restBaseUrl : String
  credentials : OkxCredentials
  httpClient : Client
  trafficShaper : TrafficShaper
  deriving DecidableEq

/-- An order as posted to the exchange. -/
structure OkxOrderRequest (α : Type := ℚ) where
  url : String
  apiKey : String
  passphrase : String
  instId : String
  clOrdId : String
  tdMode : String
  side : String
  ordType : String
  tgtCcy : String
  sz : α
  px : Option α
  deriving DecidableEq

/-- One entry of the exchange's answer. -/
structure OkxOrderResponseData where
  ordId : String
  clOrdId : Option String
  sCode : Option String
  sMsg : Option String
  deriving DecidableEq

/-- The exchange's answer to an order. -/
structure OkxOrderResponse where
  code : String
  msg : String
  data : List OkxOrderResponseData
  deriving DecidableEq

/-- What becomes of a request: the traffic shaper gives up before sending it (it could not build a
client), or it is sent and answered, or its sending or its answer fails. -/
inductive Transmission
  | unsent (err : String)
  | sent (answer : Except String OkxOrderResponse)

namespace OkxClient

variable {α : Type}

/-- The request for an order; it needs the passphrase of the account. -/
def orderRequest [CaseTable] (client : OkxClient) (cmd : OrderCommand α) :
    Except String (OkxOrderRequest α) :=
  match client.credentials.passphrase with
  | none => throw "OKX passphrase required"
  | some passphrase => pure
      { url := client.restBaseUrl ++ "/api/v5/trade/order"
        apiKey := client.credentials.apiKey
        passphrase := passphrase
        instId := toUppercase cmd.symbol.base ++ "-" ++ toUppercase cmd.symbol.quote
        clOrdId := cmd.id
        tdMode := "cash"
        side := match cmd.side with
          | .buy => "buy"
          | .sell => "sell"
        ordType := match cmd.orderType with
          | .market => "market"
          | .limit => "limit"
        tgtCcy := "quote"
        sz := cmd.sizeQuote
        px := cmd.limitPrice }

/-- Place an order: the requests that reach the exchange, and its answer. -/
def placeOrder [CaseTable] (client : OkxClient) (cmd : OrderCommand α)
    (exchange : OkxOrderRequest α → Transmission) :
    List (OkxOrderRequest α) × Except String OkxOrderResponse :=
  match client.orderRequest cmd with
  | .error err => ([], .error err)
  | .ok request =>
    match exchange request with
    | .unsent err => ([], .error err)
    | .sent answer => ([request], answer)

end OkxClient

end W2uos
