import W2uos.Exec.Service
import W2uos.Risk.Supervisor
import W2uos.Strategy.Types

/-!
# The node configuration

The sections of a `NodeConfig`, what `main` derives from them when a node starts, and what the
configuration manager publishes when they are reloaded.  The sections on the identity of the node
and on the API are left out.

* `NodeConfig.okxExchange` : the exchange section `main` picks for OKX;
* `NodeConfig.execConfig` : the configuration the execution service starts with;
* `NodeConfig.dataConfig` : the configuration the market data service starts with;
* `NodeConfig.publishUpdates` : the messages of a reload.
-/

namespace W2uos

/-- How the kernel runs. -/
inductive KernelMode
  | live
  | backtest
  deriving DecidableEq

/-- The kind of an exchange section. -/
inductive ExchangeKind
  | okx
  | binance
  | dex (name : String)
  deriving DecidableEq

/-- The network of an exchange section. -/
inductive NetworkEnv
  | mainnet
  | testnet
  deriving DecidableEq

/-- The account of an exchange section. -/
structure ExchangeCredentials where
  apiKey : String
  apiSecret : String
  passphrase : Option String
  deriving DecidableEq

/-- An exchange section. -/
structure ExchangeConfig where
  kind : ExchangeKind
  env : NetworkEnv
  restBaseUrl : String
  wsPublicUrl : String
  wsPrivateUrl : Option String
  credentials : Option ExchangeCredentials
  weightPerSecond : Option ℕ
  deriving DecidableEq

/-- `ExchangeConfig::okx_defaults`. -/
def ExchangeConfig.okxDefaults (env : NetworkEnv) : ExchangeConfig where
  kind := .okx
  env := env
  restBaseUrl := "https://www.okx.com"
  wsPublicUrl := match env with
    | .mainnet => "wss://ws.okx.com:8443/ws/v5/public"
    | .testnet => "wss://wspap.okx.com:8443/ws/v5/public"
  wsPrivateUrl := match env with
    | .mainnet => some "wss://ws.okx.com:8443/ws/v5/private"
    | .testnet => some "wss://wspap.okx.com:8443/ws/v5/private"
  credentials := none
  weightPerSecond := none

/-- `ExchangeConfig::binance_defaults`. -/
def ExchangeConfig.binanceDefaults (env : NetworkEnv) : ExchangeConfig where
  kind := .binance
  env := env
  restBaseUrl := match env with
    | .mainnet => "https://api.binance.com"
    | .testnet => "https://testnet.binance.vision"
  wsPublicUrl := match env with
    | .mainnet => "wss://stream.binance.com:9443/ws"
    | .testnet => "wss://testnet.binance.vision/ws"
  wsPrivateUrl := none
  credentials := none
  weightPerSecond := none

/-- Where market data comes from. -/
inductive DataMode
  | simulated
  | liveOkx
  deriving DecidableEq

/-- A market feed. -/
structure MarketDataSubscription where
  exchange : ExchangeId
  symbol : Symbol
  wsUrl : String
  deriving DecidableEq

/-- Where snapshots are stored. -/
structure MarketHistoryConfig where
  connectionString : String
  deriving DecidableEq

/-- The market data section. -/
structure MarketDataConfig where
  subscriptions : List MarketDataSubscription
  netProfile : NetProfile
  history : Option MarketHistoryConfig
  mode : DataMode
  deriving DecidableEq

/-- The logging section. -/
structure LoggingConfig where
  level : String
  logPath : Option String
  deriving DecidableEq

/-- The strategy section. -/
structure StrategySection where
  botConfig : BotConfig
  configPath : Option String
  deriving DecidableEq

/-- The configuration of a node. -/
structure NodeConfig where
  netProfile : NetProfile
  kernelMode : KernelMode
  logging : LoggingConfig
  exchanges : List ExchangeConfig
  marketData : MarketDataConfig
  execution : ExecutionConfig
  strategy : StrategySection
  globalRisk : GlobalRiskConfig
  history : Option MarketHistoryConfig
  deriving DecidableEq

/-- `NodeConfig::default`. -/
def NodeConfig.default : NodeConfig where
  netProfile := NetProfile.default
  kernelMode := .live
  logging := { level := "info", logPath := some "logs" }
  exchanges := [ExchangeConfig.okxDefaults .testnet, ExchangeConfig.binanceDefaults .testnet]
  marketData :=
    { subscriptions := [{ exchange := .okx, symbol := ⟨"BTC", "USDT"⟩, wsUrl := "wss://dummy" }]
      netProfile := NetProfile.default
      history := none
      mode := .simulated }
  execution := ExecutionConfig.default
  strategy := { botConfig := { name := "default-bot", pairs := [] }, configPath := none }
  globalRisk := GlobalRiskConfig.default
  history := none

/-! ### What a node starts with -/

/-- The account of an exchange section, as the execution service keeps it. -/
def ExchangeCredentials.okx (creds : ExchangeCredentials) : OkxCredentials where
  apiKey := creds.apiKey
  apiSecret := creds.apiSecret
  passphrase := creds.passphrase

namespace NodeConfig

/-- The OKX section: the first with credentials, or else the first. -/
def okxExchange (cfg : NodeConfig) : Option ExchangeConfig :=
  (cfg.exchanges.find? fun ex => ex.kind = .okx ∧ ex.credentials.isSome = true).or
    (cfg.exchanges.find? fun ex => ex.kind = .okx)

/-- The history section. -/
def historyConfig (cfg : NodeConfig) : Option MarketHistoryConfig :=
  cfg.history.or cfg.marketData.history

/-- The configuration the market data service starts with. -/
def dataConfig (cfg : NodeConfig) : MarketDataConfig :=
  let config :=
    { cfg.marketData with netProfile := cfg.netProfile, history := cfg.historyConfig }
  if config.mode = .liveOkx ∨
      config.mode = .simulated ∧ cfg.execution.liveTradingEnabled = true then
    match cfg.okxExchange with
    | some okxCfg =>
      { config with
        subscriptions := config.subscriptions.map fun sub =>
          if sub.exchange = .okx then { sub with wsUrl := okxCfg.wsPublicUrl } else sub
        mode := .liveOkx }
    | none => config
  else config

/-- The configuration the execution service starts with. -/
def execConfig (cfg : NodeConfig) : ExecutionConfig :=
  let execConfig := cfg.execution
  if execConfig.liveTradingEnabled then
    match cfg.okxExchange with
    | some okxCfg =>
      match okxCfg.credentials, okxCfg.wsPrivateUrl with
      | some creds, some wsPrivate =>
        { execConfig with
          okx := some
            { restBaseUrl := okxCfg.restBaseUrl
              wsPrivateUrl := wsPrivate
              credentials := creds.okx }
          mode := .liveOkx }
      | _, _ => { execConfig with liveTradingEnabled := false, mode := .simulated }
    | none => { execConfig with mode := .simulated }
  else { execConfig with mode := .simulated }

/-- The bot a node starts with trades the markets it has a feed of. -/
def startBot (cfg : NodeConfig) : BotConfig where
  name := "default-bot"
  pairs := cfg.dataConfig.subscriptions.map fun sub =>
    { exchange := sub.exchange, symbol := sub.symbol }

theorem startBot_pairs (cfg : NodeConfig) :
    cfg.startBot.pairs = cfg.marketData.subscriptions.map fun sub =>
      { exchange := sub.exchange, symbol := sub.symbol } := by
  unfold startBot dataConfig
  dsimp only
  split_ifs
  · cases cfg.okxExchange with
    | none => rfl
    | some okxCfg =>
      rw [List.map_map]
      refine List.map_congr_left ?_
      intro sub _
      by_cases h : sub.exchange = .okx <;> simp [h]
  · rfl

end NodeConfig

/-! ### What a reload publishes -/

/-- A message on `control.config.update.risk`, `.execution`, `.strategy`, `.market` or
`.logging`. -/
inductive ConfigMessage
  | risk (cfg : GlobalRiskConfig)
  | execution (cfg : ExecutionConfig)
  | strategy (cfg : BotConfig)
  | market (cfg : MarketDataConfig)
  | logging (cfg : LoggingConfig)
  deriving DecidableEq

/-- The messages of a reload, in order: the sections as they are in the file. -/
def NodeConfig.publishUpdates (cfg : NodeConfig) : List ConfigMessage :=
  [.risk cfg.globalRisk, .execution cfg.execution, .strategy cfg.strategy.botConfig,
    .market cfg.marketData, .logging cfg.logging]

end W2uos
