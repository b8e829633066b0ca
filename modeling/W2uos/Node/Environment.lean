import W2uos.Api.Auth
import W2uos.Node.Config

/-!
# Where the configuration of a node comes from

`NodeConfig::load_with_env` reads a base file, merges the overlay of the environment into it,
deserializes the result and then lets the environment variables of the process override single
settings.  `main` falls back to the defaults when this fails.

Reading and deserializing the files is done by libraries and is a parameter (`ConfigFiles`), and so
is the part of the standard library that goes by the tables of Unicode and of floating point
(`EnvText`).

* `lookup_mergeEntries` : the overlay goes before the file;
* `environment_governs_clients_iff` : when the network mode of the environment governs all clients.
-/

namespace W2uos

/-! ### Texts -/

/-- The functions on texts that the standard library takes from its tables. -/
class EnvText where
  /-- `str::to_lowercase`. -/
  toLowercase : String → String
  /-- `str::parse::<f64>`, for finite values. -/
  parseAmount : String → Option ℚ

/-- The functions on ASCII texts; no amounts. -/
@[reducible] def asciiText : EnvText := ⟨toAsciiLowercase, fun _ => none⟩

/-- `char::is_whitespace`. -/
def isWhitespace (c : Char) : Bool :=
  (0x09 ≤ c.toNat ∧ c.toNat ≤ 0x0D) ∨ c.toNat = 0x20 ∨ c.toNat = 0x85 ∨ c.toNat = 0xA0 ∨
    c.toNat = 0x1680 ∨ (0x2000 ≤ c.toNat ∧ c.toNat ≤ 0x200A) ∨ c.toNat = 0x2028 ∨
    c.toNat = 0x2029 ∨ c.toNat = 0x202F ∨ c.toNat = 0x205F ∨ c.toNat = 0x3000

/-- `str::trim`, on the characters of a text. -/
def trimChars (s : List Char) : List Char :=
  ((s.dropWhile isWhitespace).reverse.dropWhile isWhitespace).reverse

/-- `str::trim`. -/
def trim (s : String) : String := String.ofList (trimChars s.toList)

/-- `NetMode::from_str`; `none` is an unknown mode. -/
def NetMode.fromStr [EnvText] (s : String) : Option NetMode :=
  let normalized := EnvText.toLowercase (trim s)
  if normalized = "direct" then some .direct
  else if normalized = "httpproxy" ∨ normalized = "http_proxy" then some .httpProxy
  else if normalized = "socks5" ∨ normalized = "socks5proxy" ∨ normalized = "socks5_proxy" then
    some .socks5Proxy
  else if normalized = "tor" then some .tor
  else none

/-! ### Files -/

/-- A value of a configuration file. -/
inductive TomlValue
  | string (s : String)
  | integer (n : ℤ)
  | float (x : ℚ)
  | boolean (b : Bool)
  | datetime (s : String)
  | array (values : List TomlValue)
  | table (entries : List (String × TomlValue))

namespace TomlValue

/-- The value of a key in a table. -/
def lookup (key : String) (entries : List (String × TomlValue)) : Option TomlValue :=
  (entries.find? fun entry => entry.1 = key).map Prod.snd

/-- Set the value of a key, in its place or as a new entry. -/
def setKey (entries : List (String × TomlValue)) (key : String) (value : TomlValue) :
    List (String × TomlValue) :=
  match entries with
  | [] => [(key, value)]
  | (k, v) :: entries =>
    if k = key then (k, value) :: entries else (k, v) :: setKey entries key value

theorem lookup_setKey (entries : List (String × TomlValue)) (key : String) (value : TomlValue)
    (k : String) :
    lookup k (setKey entries key value) = if k = key then some value else lookup k entries := by
  induction entries with
  | nil => by_cases h : k = key <;> simp [setKey, lookup, h, eq_comm (a := key)]
  | cons entry entries ih =>
    obtain ⟨k', v⟩ := entry
    by_cases hk' : k' = key
    · subst hk'
      by_cases h : k = k'
      · simp [setKey, lookup, h]
      · simp [setKey, lookup, h, eq_comm (a := k')]
    · rw [setKey, if_neg hk']
      by_cases h : k' = k
      · subst h
        simp [lookup, hk']
      · have hfind : ∀ es : List (String × TomlValue), lookup k ((k', v) :: es) = lookup k es := by
          intro es
          simp [lookup, h]
        rw [hfind, hfind, ih]

end TomlValue

mutual

/-- `merge_toml`: tables are merged key by key, and any other value of the overlay replaces that of
the file. -/
def mergeToml (base : TomlValue) : TomlValue → TomlValue
  | .table overlayMap =>
    match base with
    | .table baseMap => .table (mergeEntries baseMap overlayMap)
    | _ => .table overlayMap
  | overlay => overlay

/-- The loop of `merge_toml` over the entries of the overlay. -/
def mergeEntries (baseMap : List (String × TomlValue)) :
    List (String × TomlValue) → List (String × TomlValue)
  | [] => baseMap
  | (k, v) :: overlayMap =>
    let merged := match TomlValue.lookup k baseMap with
      | some baseVal => mergeToml baseVal v
      | none => v
    mergeEntries (TomlValue.setKey baseMap k merged) overlayMap

end

/-- **The overlay goes before the file**: a key of the overlay has its value there, merged with that
of the file if both are tables, and any other key keeps the value of the file. -/
theorem lookup_mergeEntries {overlayMap : List (String × TomlValue)}
    (hkeys : (overlayMap.map Prod.fst).Nodup) (baseMap : List (String × TomlValue)) (key : String) :
    TomlValue.lookup key (mergeEntries baseMap overlayMap) =
      match TomlValue.lookup key overlayMap, TomlValue.lookup key baseMap with
      | some v, some baseVal => some (mergeToml baseVal v)
      | some v, none => some v
      | none, baseVal => baseVal := by
  induction overlayMap generalizing baseMap with
  | nil => simp [mergeEntries, TomlValue.lookup]
  | cons entry overlayMap ih =>
    obtain ⟨k, v⟩ := entry
    obtain ⟨hk, hkeys⟩ := List.nodup_cons.1 hkeys
    rw [mergeEntries, ih hkeys, TomlValue.lookup_setKey]
    by_cases h : key = k
    · -- the key does not occur in the rest of the overlay
      subst h
      have hrest : TomlValue.lookup key overlayMap = none := by
        rw [TomlValue.lookup, Option.map_eq_none_iff, List.find?_eq_none]
        intro entry hentry hkey
        exact hk (List.mem_map.2 ⟨entry, hentry, by simpa using hkey⟩)
      have hhead : TomlValue.lookup key ((key, v) :: overlayMap) = some v := by
        simp [TomlValue.lookup]
      rw [hrest, hhead, if_pos rfl]
      cases TomlValue.lookup key baseMap <;> rfl
    · have htail : TomlValue.lookup key ((k, v) :: overlayMap) =
          TomlValue.lookup key overlayMap := by
        simp [TomlValue.lookup, Ne.symm h]
      rw [if_neg h, htail]

/-! ### Settings -/

/-- The role of a node in a cluster. -/
inductive NodeRole
  | data
  | exec
  | strategy
  | allInOne
  deriving DecidableEq

/-- A user of the API. -/
structure ApiUserConfig where
  id : String
  role : String
  apiKeyHash : String
  deriving DecidableEq

/-- `ApiUserConfig::new_hashed`. -/
def ApiUserConfig.newHashed [Digest] (id role apiKey : String) : ApiUserConfig where
  id := id
  role := role
  apiKeyHash := Digest.hashApiKey apiKey

/-- The API section. -/
structure ApiSection where
  bind : String
  users : List ApiUserConfig
  deriving DecidableEq

/-- `ApiSection::default`. -/
def ApiSection.default [Digest] : ApiSection where
  bind := "0.0.0.0:8080"
  users := [ApiUserConfig.newHashed "admin" "Admin" "dev-key"]

/-- A node configuration with the sections on the identity of the node and on the API. -/
structure NodeSettings extends NodeConfig where
  nodeId : String
  nodeRole : NodeRole
  api : ApiSection
  deriving DecidableEq

/-- `NodeConfig::default`. -/
def NodeSettings.default [Digest] : NodeSettings where
  toNodeConfig := NodeConfig.default
  nodeId := "node-1"
  nodeRole := .allInOne
  api := ApiSection.default

/-! ### Environment variables -/

/-- The environment variables of the process that are set to a text. -/
abbrev Env := String → Option String

/-- `resolve_secret`: a value of the form `${NAME}` stands for a variable, if that is set. -/
def resolveSecret (env : Env) (raw : String) : String :=
  match trimChars raw.toList with
  | '$' :: '\x7b' :: rest =>
    if rest.getLast? = some '\x7d' then (env (String.ofList rest.dropLast)).getD raw else raw
  | _ => raw

/-- The secrets of an exchange section. -/
def ExchangeCredentials.resolve (env : Env) (creds : ExchangeCredentials) :
    ExchangeCredentials where
  apiKey := resolveSecret env creds.apiKey
  apiSecret := resolveSecret env creds.apiSecret
  passphrase := creds.passphrase.map (resolveSecret env)

/-- The role of a node named by a variable. -/
def NodeRole.ofVar [EnvText] (role : String) : NodeRole :=
  let name := EnvText.toLowercase role
  if name = "data" then .data
  else if name = "exec" then .exec
  else if name = "strategy" then .strategy
  else .allInOne

/-- The mode of the kernel named by a variable. -/
def KernelMode.ofVar [EnvText] (mode : String) : KernelMode :=
  if EnvText.toLowercase mode = "backtest" then .backtest else .live

/-- What the variables override in a network profile. -/
def NetProfile.override [EnvText] (env : Env) (profile : NetProfile) : NetProfile :=
  { profile with
    mode := ((env "W2UOS_NET_MODE").bind NetMode.fromStr).getD profile.mode
    proxyUrl := (env "W2UOS_PROXY_URL").or profile.proxyUrl }

/-- The history section named by a variable. -/
def MarketHistoryConfig.override (env : Env) (history : Option MarketHistoryConfig) :
    Option MarketHistoryConfig :=
  ((env "W2UOS_HISTORY_URL").map MarketHistoryConfig.mk).or history

/-- `apply_env_overrides`.  The network profile of the execution section is not among the settings
that are overridden. -/
def NodeSettings.applyEnvOverrides [EnvText] [Digest] (env : Env) (cfg : NodeSettings) :
    NodeSettings :=
  { cfg with
    api :=
      { bind := (env "W2UOS_API_BIND").getD cfg.api.bind
        users := match env "W2UOS_API_KEY" with
          | some apiKey => [ApiUserConfig.newHashed "env-admin" "Admin" apiKey]
          | none => cfg.api.users }
    nodeId := (env "W2UOS_NODE_ID").getD cfg.nodeId
    nodeRole := ((env "W2UOS_NODE_ROLE").map NodeRole.ofVar).getD cfg.nodeRole
    kernelMode := ((env "W2UOS_KERNEL_MODE").map KernelMode.ofVar).getD cfg.kernelMode
    logging :=
      { cfg.logging with level := (env "W2UOS_LOG_LEVEL").getD cfg.logging.level }
    netProfile := cfg.netProfile.override env
    history := MarketHistoryConfig.override env cfg.history
    marketData :=
      { cfg.marketData with
        netProfile := cfg.marketData.netProfile.override env
        history := MarketHistoryConfig.override env cfg.marketData.history }
    execution :=
      { cfg.execution with
        initialBalanceUsdt :=
          ((env "W2UOS_EXEC_BALANCE").bind EnvText.parseAmount).getD
            cfg.execution.initialBalanceUsdt }
    exchanges := cfg.exchanges.map fun exchange =>
      { exchange with credentials := exchange.credentials.map (ExchangeCredentials.resolve env) } }

/-! ### Loading -/

/-- The files of a node and how they are read. -/
structure ConfigFiles where
  /-- The base file. -/
  base : Except String TomlValue
  /-- The overlay of a named environment; `none` if there is no such file. -/
  overlay : String → Option (Except String TomlValue)
  /-- Deserialize a file. -/
  tryInto : TomlValue → Except String NodeSettings

namespace ConfigFiles

/-- The settings in the files: the base file with the overlay of the environment. -/
def fileSettings (files : ConfigFiles) (env : Env) (envName : Option String) :
    Except String NodeSettings := do
  let base ← files.base
  let merged ← match (envName.or (env "NODE_ENV")).bind files.overlay with
    | some overlay => do
      let overlay ← overlay
      pure (mergeToml base overlay)
    | none => pure base
  files.tryInto merged

/-- `NodeConfig::load_with_env`. -/
def loadWithEnv [EnvText] [Digest] (files : ConfigFiles) (env : Env) (envName : Option String) :
    Except String NodeSettings := do
  let cfg ← files.fileSettings env envName
  return cfg.applyEnvOverrides env

/-- The settings `main` starts with: the defaults if loading fails. -/
def nodeSettings [EnvText] [Digest] (files : ConfigFiles) (env : Env) : NodeSettings :=
  match files.loadWithEnv env (env "NODE_ENV") with
  | .ok cfg => cfg
  | .error _ => NodeSettings.default

end ConfigFiles

/-- The network profiles of the clients `main` builds: that of the market data service, if the node
is live, and that of the execution service. -/
def NodeConfig.clientProfiles (cfg : NodeConfig) : List NetProfile :=
  (if cfg.kernelMode = .live then [cfg.dataConfig.netProfile] else []) ++
    [cfg.execConfig.netProfile]

namespace NodeConfig

theorem dataConfig_netProfile (cfg : NodeConfig) : cfg.dataConfig.netProfile = cfg.netProfile := by
  unfold dataConfig
  dsimp only
  split_ifs
  · cases cfg.okxExchange <;> rfl
  · rfl

theorem execConfig_netProfile (cfg : NodeConfig) :
    cfg.execConfig.netProfile = cfg.execution.netProfile := by
  unfold execConfig
  dsimp only
  split_ifs
  · rcases cfg.okxExchange with _ | okxCfg
    · rfl
    · cases hcreds : okxCfg.credentials <;> cases hws : okxCfg.wsPrivateUrl <;>
        simp only [hcreds, hws]
  · rfl

theorem mem_clientProfiles {cfg : NodeConfig} {profile : NetProfile} :
    profile ∈ cfg.clientProfiles ↔
      cfg.kernelMode = .live ∧ profile = cfg.netProfile ∨ profile = cfg.execution.netProfile := by
  rw [clientProfiles, List.mem_append, List.mem_singleton, dataConfig_netProfile,
    execConfig_netProfile]
  by_cases h : cfg.kernelMode = .live <;> simp [h]

end NodeConfig

/-! ### What the environment governs -/

/-- The profile has the mode, and the proxy if one is given. -/
def NetProfile.GovernedBy (profile : NetProfile) (mode : NetMode) (proxyUrl : Option String) :
    Prop :=
  profile.mode = mode ∧ ∀ url, proxyUrl = some url → profile.proxyUrl = some url

section

variable [EnvText] {env : Env} {value : String} {mode : NetMode}

theorem NetProfile.override_governedBy (profile : NetProfile)
    (hvar : env "W2UOS_NET_MODE" = some value) (hmode : NetMode.fromStr value = some mode) :
    (profile.override env).GovernedBy mode (env "W2UOS_PROXY_URL") := by
  constructor
  · show ((env "W2UOS_NET_MODE").bind NetMode.fromStr).getD profile.mode = mode
    rw [hvar, Option.bind_some, hmode, Option.getD_some]
  · intro url hurl
    show (env "W2UOS_PROXY_URL").or profile.proxyUrl = some url
    rw [hurl, Option.some_or]

variable [Digest] (files : ConfigFiles)

/-- What was read from the files before the variables, or the defaults if nothing could be read. -/
def ConfigFiles.readSettings (files : ConfigFiles) (env : Env) : NodeSettings :=
  match files.fileSettings env (env "NODE_ENV") with
  | .ok cfg => cfg
  | .error _ => NodeSettings.default

/-- `main` starts with what was read, overridden; only the defaults are not overridden. -/
theorem ConfigFiles.nodeSettings_cases (files : ConfigFiles) (env : Env) :
    files.nodeSettings env = (files.readSettings env).applyEnvOverrides env ∨
      files.nodeSettings env = NodeSettings.default ∧
        files.readSettings env = NodeSettings.default := by
  unfold nodeSettings loadWithEnv readSettings
  cases files.fileSettings env (env "NODE_ENV") with
  | ok cfg => exact Or.inl rfl
  | error err => exact Or.inr ⟨rfl, rfl⟩

/-- **The network mode of the environment** governs all clients exactly if the execution section
that was read asks for that mode and proxy by itself. -/
theorem environment_governs_clients_iff (hvar : env "W2UOS_NET_MODE" = some value)
    (hmode : NetMode.fromStr value = some mode) :
    (∀ profile ∈ (files.nodeSettings env).clientProfiles,
        profile.GovernedBy mode (env "W2UOS_PROXY_URL")) ↔
      (files.readSettings env).execution.netProfile.GovernedBy mode (env "W2UOS_PROXY_URL") := by
  rcases files.nodeSettings_cases env with hset | ⟨hset, hread⟩
  · rw [hset]
    constructor
    · intro h
      exact h _ (NodeConfig.mem_clientProfiles.2 (Or.inr rfl))
    · intro h profile hprofile
      rcases NodeConfig.mem_clientProfiles.1 hprofile with ⟨-, rfl⟩ | rfl
      · exact NetProfile.override_governedBy _ hvar hmode
      · exact h
  · -- the default profiles of the node and of the execution section are the same
    rw [hset, hread]
    constructor
    · intro h
      exact h _ (NodeConfig.mem_clientProfiles.2 (Or.inr rfl))
    · intro h profile hprofile
      rcases NodeConfig.mem_clientProfiles.1 hprofile with ⟨-, rfl⟩ | rfl
      · exact h
      · exact h

end

/-! ### A node behind Tor -/

/-- A configuration file that asks for direct connections everywhere. -/
def directFile : TomlValue :=
  .table
    [("net_profile", .table [("mode", .string "Direct")]),
      ("node_id", .string "node-test"),
      ("node_role", .string "AllInOne"),
      ("kernel_mode", .string "Live"),
      ("logging", .table [("level", .string "debug")]),
      ("api", .table
        [("bind", .string "127.0.0.1:8080"),
          ("users", .array
            [.table [("id", .string "admin"), ("role", .string "Admin"),
              ("api_key_hash", .string
                "2bb80d537b1da3e38bd30361aa855686bde0eacd7162fef6a25fe97bf527a25b")]])]),
      ("market_data", .table
        [("net_profile", .table [("mode", .string "Direct")]),
          ("subscriptions", .array
            [.table [("exchange", .string "Okx"),
              ("symbol", .table [("base", .string "BTC"), ("quote", .string "USDT")]),
              ("ws_url", .string "wss://mock")]])]),
      ("execution", .table
        [("net_profile", .table [("mode", .string "Direct")]),
          ("initial_balance_usdt", .float 50000)]),
      ("strategy", .table
        [("bot_config", .table [("name", .string "bot"), ("pairs", .array [])])]),
      ("global_risk", .table
        [("max_daily_loss_pct", .float 5), ("max_daily_loss_abs", .float 1000),
          ("max_total_notional", .float 250000), ("max_open_positions", .integer 10)])]

/-- The profile of a section that gives only the mode. -/
def NetProfile.ofMode (mode : NetMode) : NetProfile where
  mode := mode
  proxyUrl := none
  requestTimeout := none
  connectTimeout := none
  maxIdlePerHost := none
  maxRetries := none
  requestJitterMs := none
  maxParallelRequestsPerTarget := none
  connectionReusePolicy := none

/-- What `directFile` deserializes to, with the given profile in the execution section. -/
def directSettings (execution : NetProfile) : NodeSettings where
  netProfile := NetProfile.ofMode .direct
  kernelMode := .live
  logging := { level := "debug", logPath := none }
  exchanges := [ExchangeConfig.okxDefaults .testnet, ExchangeConfig.binanceDefaults .testnet]
  marketData :=
    { subscriptions := [{ exchange := .okx, symbol := ⟨"BTC", "USDT"⟩, wsUrl := "wss://mock" }]
      netProfile := NetProfile.ofMode .direct
      history := none
      mode := .simulated }
  execution :=
    { initialBalanceUsdt := 50000
      netProfile := execution
      liveTradingEnabled := false
      mode := .simulated
      okx := none }
  strategy := { botConfig := { name := "bot", pairs := [] }, configPath := none }
  globalRisk :=
    { maxDailyLossPct := 5
      maxDailyLossAbs := 1000
      maxTotalNotional := 250000
      maxOpenPositions := 10
      maxErrorRatePerMinute := none }
  history := none
  nodeId := "node-test"
  nodeRole := .allInOne
  api :=
    { bind := "127.0.0.1:8080"
      users := [{ id := "admin", role := "Admin", apiKeyHash :=
        "2bb80d537b1da3e38bd30361aa855686bde0eacd7162fef6a25fe97bf527a25b" }] }

/-- A node with the file alone. -/
def directFiles : ConfigFiles where
  base := .ok directFile
  overlay := fun _ => none
  tryInto := fun _ => .ok (directSettings (NetProfile.ofMode .direct))

/-- An environment that asks for Tor. -/
def torEnv : Env := fun name =>
  if name = "W2UOS_NET_MODE" then some "tor"
  else if name = "W2UOS_PROXY_URL" then some "socks5h://127.0.0.1:9050"
  else none

/-- The digest of the key of the default user. -/
@[reducible] def devKeyDigest : Digest where
  hashApiKey := fun _ => "7e9f8fd111802be56c379d597842e29b2cebd35ff2133d431a49fa556a18704e"

theorem environment_governs_clients_iff_tor :
    torEnv "W2UOS_NET_MODE" = some "tor" ∧ @NetMode.fromStr asciiText "tor" = some .tor ∧
      ((∀ profile ∈ (@ConfigFiles.nodeSettings asciiText devKeyDigest directFiles
            torEnv).clientProfiles,
          profile.GovernedBy .tor (torEnv "W2UOS_PROXY_URL")) ↔
        (@ConfigFiles.readSettings devKeyDigest directFiles torEnv).execution.netProfile.GovernedBy
          .tor (torEnv "W2UOS_PROXY_URL")) :=
  ⟨by decide, by decide, @environment_governs_clients_iff asciiText torEnv "tor" .tor devKeyDigest
    directFiles (by decide) (by decide)⟩

/-- The environment asks for Tor, and the execution service goes out directly. -/
theorem environment_misses_execution :
    torEnv "W2UOS_NET_MODE" = some "tor" ∧ @NetMode.fromStr asciiText "tor" = some .tor ∧
      ¬ ∀ profile ∈ (@ConfigFiles.nodeSettings asciiText devKeyDigest directFiles
            torEnv).clientProfiles,
          profile.GovernedBy .tor (torEnv "W2UOS_PROXY_URL") := by
  refine ⟨by decide, by decide, fun h => ?_⟩
  have hexec := h (NetProfile.ofMode .direct) (NodeConfig.mem_clientProfiles.2 (Or.inr rfl))
  exact absurd hexec.1 (by decide)

end W2uos
