import W2uos.Exec.Separation
import W2uos.Node.Config

/-!
# Reloading an unchanged configuration

`main` derives the configuration of the execution service from the execution section and the
exchange sections; a reload publishes the execution section as it is.  What the service makes of a
reload depends on its mode, its live flag and the endpoint and account of its OKX client only, and
a second reload of the same section changes nothing more.

* `Effective` : mode, live flag, OKX endpoint and OKX account of an execution service;
* `NodeConfig.ReloadKeeps` : the execution section says what `main` makes of it;
* `effective_step` : what an input of the service does to these;
* `reload_keeps_iff` : exactly when reloads change nothing;
* `not_reload_keeps` : a node that starts in live mode and becomes simulated.
-/

namespace W2uos

/-- What an execution service goes by. -/
structure Effective where
  mode : ExecutionMode
  liveTradingEnabled : Bool
  /-- The endpoint and the account of the OKX client, if there is one. -/
  okx : Option (String × OkxCredentials)
  deriving DecidableEq

/-- The endpoint and the account of a configuration section. -/
def OkxExecutionConfig.account (okxCfg : OkxExecutionConfig) : String × OkxCredentials :=
  (okxCfg.restBaseUrl, okxCfg.credentials)

/-- What a service goes by. -/
def ExecutionService.effective (s : ExecutionService) : Effective where
  mode := s.config.mode
  liveTradingEnabled := s.config.liveTradingEnabled
  okx := s.okxClient.map fun client => (client.restBaseUrl, client.credentials)

/-- What a service built from a configuration goes by. -/
def ExecutionConfig.effective (cfg : ExecutionConfig) : Effective where
  mode := cfg.mode
  liveTradingEnabled := cfg.liveTradingEnabled
  okx := if cfg.liveTradingEnabled then cfg.okx.map (·.account) else none

/-- What a service goes by after an update to the configuration `cfg`. -/
def Effective.update (e : Effective) (cfg : ExecutionConfig) : Effective where
  mode := cfg.mode
  liveTradingEnabled := cfg.liveTradingEnabled
  okx := if cfg.liveTradingEnabled then (cfg.okx.map (·.account)).or e.okx else none

section Reload

variable [CaseTable] [Reqwest] {cfg : NodeConfig} {s : ExecutionService}

omit [CaseTable] in
theorem effective_new {cfg : ExecutionConfig} (hnew : ExecutionService.new cfg = .ok s) :
    s.effective = cfg.effective := by
  obtain ⟨httpClient, trafficShaper, rfl⟩ := ExecutionService.new_cases hnew
  unfold ExecutionService.effective ExecutionConfig.effective
  cases cfg.liveTradingEnabled <;> cases cfg.okx <;> rfl

omit [CaseTable] in
theorem effective_updateConfig (s : ExecutionService) (newCfg : ExecutionConfig) :
    (s.updateConfig newCfg).effective = s.effective.update newCfg := by
  unfold ExecutionService.effective ExecutionService.updateConfig Effective.update
  cases newCfg.liveTradingEnabled <;> cases newCfg.okx <;>
    cases buildClientAndShaper newCfg.netProfile <;> simp [OkxExecutionConfig.client,
      OkxExecutionConfig.account]

/-- **The step lemma**: an update does what it says, and no other input matters. -/
theorem effective_step (s : ExecutionService) (i : ExecInput) :
    (executionService.next s i).effective =
      match i with
      | .configUpdate (some newCfg) => s.effective.update newCfg
      | _ => s.effective := by
  cases i with
  | command msg now exchange =>
    cases msg with
    | error err => rfl
    | ok cmd =>
      obtain ⟨hconfig, hclient⟩ := s.handleCommand_frame cmd now exchange
      show (s.handleCommand cmd now exchange).service.effective = s.effective
      unfold ExecutionService.effective
      rw [hconfig, hclient]
  | configUpdate msg =>
    cases msg with
    | none => rfl
    | some newCfg => exact effective_updateConfig s newCfg
  | blockNewOrders => rfl
  | resetCircuit => rfl

/-- The configurations the service receives are those a reload of `cfg` publishes. -/
def FromReloads (cfg : NodeConfig) (is : List ExecInput) : Prop :=
  ∀ newCfg, .configUpdate (some newCfg) ∈ is → .execution newCfg ∈ cfg.publishUpdates

/-- **The run lemma**: reloads change nothing exactly if one of them changes nothing. -/
theorem reloads_keep_iff (cfg : NodeConfig) (s : ExecutionService) :
    (∀ is, FromReloads cfg is → (executionService.run s is).effective = s.effective) ↔
      s.effective.update cfg.execution = s.effective := by
  constructor
  · intro hall
    have hone := hall [.configUpdate (some cfg.execution)] fun newCfg hmem => by
      simp only [List.mem_singleton, ExecInput.configUpdate.injEq, Option.some.injEq] at hmem
      simp [NodeConfig.publishUpdates, hmem]
    rwa [Machine.run_cons, Machine.run_nil, effective_step] at hone
  · -- the service goes by the same as at the start after every input
    intro hkeep is his
    refine Machine.run_invariant (M := executionService)
      (P := fun t => t.effective = s.effective) (Q := fun i => FromReloads cfg [i]) rfl
      (fun t i ht hi => ?_) fun i hi newCfg hmem => his newCfg (List.mem_singleton.1 hmem ▸ hi)
    rw [effective_step]
    cases i with
    | configUpdate msg =>
      cases msg with
      | none => exact ht
      | some newCfg =>
        have heq : newCfg = cfg.execution := by
          simpa [NodeConfig.publishUpdates] using hi newCfg (List.mem_singleton_self _)
        rw [heq, ht]
        exact hkeep
    | command msg now exchange => exact ht
    | blockNewOrders => exact ht
    | resetCircuit => exact ht

/-- The execution section says what `main` makes of it: with live trading off or without an OKX
section, the mode is simulated; with an OKX section that has an account and a private URL, the mode
is live, and an `okx` part names the same endpoint and account. -/
def NodeConfig.ReloadKeeps (cfg : NodeConfig) : Prop :=
  if cfg.execution.liveTradingEnabled then
    match cfg.okxExchange with
    | none => cfg.execution.mode = .simulated
    | some okxCfg =>
      match okxCfg.credentials, okxCfg.wsPrivateUrl with
      | some creds, some _ => cfg.execution.mode = .liveOkx ∧
          ∀ okx, cfg.execution.okx = some okx →
            okx.restBaseUrl = okxCfg.restBaseUrl ∧ okx.credentials = creds.okx
      | _, _ => False
  else cfg.execution.mode = .simulated

omit [CaseTable] [Reqwest] in
theorem update_execConfig_iff (cfg : NodeConfig) :
    cfg.execConfig.effective.update cfg.execution = cfg.execConfig.effective ↔
      cfg.ReloadKeeps := by
  unfold NodeConfig.ReloadKeeps NodeConfig.execConfig
  cases hlive : cfg.execution.liveTradingEnabled with
  | false => simp [ExecutionConfig.effective, Effective.update, hlive]
  | true =>
    cases hex : cfg.okxExchange with
    | none => simp [ExecutionConfig.effective, Effective.update, hlive]
    | some okxCfg =>
      cases hcreds : okxCfg.credentials with
      | none => simp [ExecutionConfig.effective, Effective.update, hlive, hcreds]
      | some creds =>
        cases hws : okxCfg.wsPrivateUrl with
        | none => simp [ExecutionConfig.effective, Effective.update, hlive, hcreds, hws]
        | some wsPrivate =>
          cases hokx : cfg.execution.okx <;>
            simp [ExecutionConfig.effective, Effective.update, OkxExecutionConfig.account, hlive,
              hcreds, hws, hokx]

/-- **Exactly when reloads of an unchanged configuration change nothing.**  Orders, the breaker and
messages that do not decode may come in between. -/
theorem reload_keeps_iff (hnew : ExecutionService.new cfg.execConfig = .ok s) :
    (∀ is, FromReloads cfg is → (executionService.run s is).effective = s.effective) ↔
      cfg.ReloadKeeps := by
  rw [reloads_keep_iff, effective_new hnew, update_execConfig_iff]

end Reload

/-- A node with an OKX account and live trading on. -/
def liveConfig : NodeConfig :=
  { NodeConfig.default with
    exchanges := [{ ExchangeConfig.okxDefaults .mainnet with
      credentials := some { apiKey := "key", apiSecret := "secret", passphrase := none } }]
    execution := { ExecutionConfig.default with liveTradingEnabled := true } }

theorem reload_keeps_iff_sample :
    ∃ s, @ExecutionService.new ℚ acceptAll _ liveConfig.execConfig = .ok s ∧
      ((∀ is, FromReloads liveConfig is → (sampleService.run s is).effective = s.effective) ↔
        liveConfig.ReloadKeeps) :=
  ⟨_, rfl, @reload_keeps_iff asciiCase acceptAll liveConfig _ rfl⟩

/-- **A live node becomes simulated**: it starts in live mode, and its first reload, of the same
configuration, ends that. -/
theorem not_reload_keeps :
    ∃ s, @ExecutionService.new ℚ acceptAll _ liveConfig.execConfig = .ok s ∧
      s.effective.mode = .liveOkx ∧
      FromReloads liveConfig [.configUpdate (some liveConfig.execution)] ∧
      (sampleService.run s [.configUpdate (some liveConfig.execution)]).effective.mode =
        .simulated := by
  refine ⟨_, rfl, rfl, fun newCfg hmem => ?_, rfl⟩
  rw [List.mem_singleton] at hmem
  cases hmem
  simp [NodeConfig.publishUpdates]

end W2uos
