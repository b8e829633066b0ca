import W2uos.Exec.Ledger

/-!
# Hot updates and fresh construction

A configuration received on `control.config.update.execution` is followed by rebuilding the HTTP
client and the traffic shaper, installing or removing the OKX client, and storing the
configuration.  These happen under separate conditions: the client is rebuilt only if its settings
are accepted, the OKX client is left alone by a configuration that is on without an `okx` section,
and the configuration is stored in any case.

* `UpdatesAsNew` : the update does what building the service from the configuration would do, and
  nothing if that fails;
* `FollowsConfig` : the OKX client is the one of the stored configuration, as far as that has one;
* `followsConfig_run` : every reachable service follows its configuration;
* `updatesAsNew_iff` : exactly when a hot update equals fresh construction.
-/

namespace W2uos

/-- The endpoint and the credentials of a client. -/
def OkxClient.account (client : OkxClient) : String × OkxCredentials :=
  (client.restBaseUrl, client.credentials)

section HotUpdate

variable [CaseTable] [Reqwest]

/-- After the update the configuration, the endpoint and the credentials of the OKX client (or its
absence), and the network profile of the traffic shaper are those of a service newly built from
the configuration; and if none can be built from it, they are what they were. -/
def UpdatesAsNew (s : ExecutionService) (c : ExecutionConfig) : Prop :=
  let s' := executionService.next s (.configUpdate (some c))
  match ExecutionService.new c with
  | .ok fresh =>
    s'.config = fresh.config ∧
      s'.okxClient.map OkxClient.account = fresh.okxClient.map OkxClient.account ∧
      s'.trafficShaper.profile = fresh.trafficShaper.profile
  | .error _ =>
    s'.config = s.config ∧ s'.okxClient = s.okxClient ∧ s'.trafficShaper = s.trafficShaper

omit [CaseTable] [Reqwest] in
/-- The OKX client follows the stored configuration: it is gone when live trading is off, and it is
the client of the `okx` section, on the present HTTP client and traffic shaper, when live trading
is on and there is one. -/
structure FollowsConfig (s : ExecutionService) : Prop where
  off : s.config.liveTradingEnabled = false → s.okxClient = none
  on : s.config.liveTradingEnabled = true → ∀ okxCfg, s.config.okx = some okxCfg →
    s.okxClient = some (okxCfg.client s.httpClient s.trafficShaper)

omit [CaseTable] in
theorem followsConfig_new {cfg : ExecutionConfig} {s : ExecutionService}
    (hnew : ExecutionService.new cfg = .ok s) : FollowsConfig s := by
  obtain ⟨httpClient, trafficShaper, rfl⟩ := ExecutionService.new_cases hnew
  refine ⟨?_, ?_⟩
  · intro hoff
    simp only [show cfg.liveTradingEnabled = false from hoff, Bool.false_eq_true, ↓reduceIte]
  · intro hon okxCfg hokx
    simp only [show cfg.liveTradingEnabled = true from hon, show cfg.okx = some okxCfg from hokx,
      ↓reduceIte, Option.map_some]

omit [CaseTable] in
/-- The client and the shaper after an update are the ones the profile asks for, or the old ones
when it is not accepted. -/
theorem ExecutionService.updateConfig_network (s : ExecutionService) (c : ExecutionConfig) :
    ∃ httpClient trafficShaper,
      (buildClientAndShaper c.netProfile = .ok (httpClient, trafficShaper) ∨
        (∃ err, buildClientAndShaper c.netProfile = .error err) ∧
          httpClient = s.httpClient ∧ trafficShaper = s.trafficShaper) ∧
      s.updateConfig c =
        { s with
          config := c
          httpClient := httpClient
          trafficShaper := trafficShaper
          okxClient :=
            if c.liveTradingEnabled then
              match c.okx with
              | some okxCfg => some (okxCfg.client httpClient trafficShaper)
              | none => s.okxClient
            else none } := by
  unfold updateConfig
  cases hbuild : buildClientAndShaper c.netProfile with
  | ok built => exact ⟨built.1, built.2, Or.inl rfl, rfl⟩
  | error err => exact ⟨s.httpClient, s.trafficShaper, Or.inr ⟨⟨err, rfl⟩, rfl, rfl⟩, rfl⟩

omit [CaseTable] in
/-- **An update leaves a service that follows its configuration**, whatever it was before. -/
theorem followsConfig_updateConfig (s : ExecutionService) (c : ExecutionConfig) :
    FollowsConfig (s.updateConfig c) := by
  obtain ⟨httpClient, trafficShaper, -, hs⟩ := s.updateConfig_network c
  rw [hs]
  refine ⟨?_, ?_⟩
  · intro hoff
    simp only [show c.liveTradingEnabled = false from hoff, Bool.false_eq_true, ↓reduceIte]
  · intro hon okxCfg hokx
    simp only [show c.liveTradingEnabled = true from hon, show c.okx = some okxCfg from hokx,
      ↓reduceIte]

theorem FollowsConfig.step {s : ExecutionService} (h : FollowsConfig s) (i : ExecInput) :
    FollowsConfig (executionService.next s i) := by
  cases i with
  | command msg now exchange =>
    cases msg with
    | error err => exact h
    | ok cmd =>
      -- a command keeps all the fields the invariant reads
      obtain ⟨state, fillCounter, hs⟩ := s.handleCommand_service cmd now exchange
      show FollowsConfig (s.handleCommand cmd now exchange).service
      rw [hs]
      exact ⟨h.off, h.on⟩
  | configUpdate msg =>
    cases msg with
    | none => exact h
    | some c => exact followsConfig_updateConfig s c
  | blockNewOrders => exact ⟨h.off, h.on⟩
  | resetCircuit => exact ⟨h.off, h.on⟩

/-- **Every reachable service follows its configuration.** -/
theorem followsConfig_run {cfg : ExecutionConfig} {s : ExecutionService}
    (hnew : ExecutionService.new cfg = .ok s) (is : List ExecInput) :
    FollowsConfig (executionService.run s is) :=
  Machine.run_invariant (M := executionService) (Q := fun _ => True) (followsConfig_new hnew)
    (fun _ i ht _ => ht.step i) fun _ _ => trivial

/-- An update from a configuration the constructor accepts equals fresh construction unless an old
client survives it. -/
theorem updatesAsNew_of_ok {c : ExecutionConfig} {fresh : ExecutionService}
    (hfresh : ExecutionService.new c = .ok fresh) (s : ExecutionService) :
    UpdatesAsNew s c ↔
      (c.liveTradingEnabled = true → c.okx = none → s.okxClient = none) := by
  unfold UpdatesAsNew
  simp only [hfresh]
  obtain ⟨httpClient, trafficShaper, hbuilt, hs⟩ := s.updateConfig_network c
  unfold ExecutionService.new at hfresh
  rcases hbuilt with hbuild | ⟨⟨err, hbuild⟩, -, -⟩
  · simp only [hbuild, bind, Except.bind, pure, Except.pure, Except.ok.injEq] at hfresh
    show (s.updateConfig c).config = _ ∧ (s.updateConfig c).okxClient.map _ = _ ∧
      (s.updateConfig c).trafficShaper.profile = _ ↔ _
    rw [hs, ← hfresh]
    cases c.liveTradingEnabled with
    | false => simp
    | true => cases c.okx <;> simp
  · -- the constructor fails where the update keeps the old client
    simp [hbuild, bind, Except.bind] at hfresh

/-- An update from a configuration the constructor turns down changes nothing only if the service
has that configuration already. -/
theorem updatesAsNew_of_error {c : ExecutionConfig} {err : String}
    (hfail : ExecutionService.new c = .error err) {s : ExecutionService} (h : FollowsConfig s) :
    UpdatesAsNew s c ↔ c = s.config := by
  unfold UpdatesAsNew
  simp only [hfail]
  obtain ⟨httpClient, trafficShaper, hbuilt, hs⟩ := s.updateConfig_network c
  unfold ExecutionService.new at hfail
  rcases hbuilt with hbuild | ⟨-, rfl, rfl⟩
  · simp [hbuild, bind, Except.bind, pure, Except.pure] at hfail
  · show (s.updateConfig c).config = _ ∧ (s.updateConfig c).okxClient = _ ∧
      (s.updateConfig c).trafficShaper = _ ↔ _
    rw [hs]
    refine ⟨fun hsame => hsame.1, ?_⟩
    rintro rfl
    refine ⟨rfl, ?_, rfl⟩
    cases hlive : s.config.liveTradingEnabled with
    | false => simp [h.off hlive]
    | true =>
      cases hokx : s.config.okx with
      | none => rfl
      | some okxCfg => exact (h.on hlive okxCfg hokx).symm

/-- **Exactly when a hot update equals fresh construction**: in a reachable state, for a
configuration the constructor accepts, unless that is on without an `okx` section while there is a
client; for one it turns down, if it is the stored configuration. -/
theorem updatesAsNew_iff {cfg : ExecutionConfig} {s : ExecutionService}
    (hnew : ExecutionService.new cfg = .ok s) (is : List ExecInput) (c : ExecutionConfig) :
    UpdatesAsNew (executionService.run s is) c ↔
      match ExecutionService.new c with
      | .ok _ => c.liveTradingEnabled = true → c.okx = none →
          (executionService.run s is).okxClient = none
      | .error _ => c = (executionService.run s is).config := by
  cases hc : ExecutionService.new c with
  | ok fresh => exact updatesAsNew_of_ok hc _
  | error err => exact updatesAsNew_of_error hc (followsConfig_run hnew is)

end HotUpdate

/-- Live trading with an OKX account. -/
def liveOkxConfig : ExecutionConfig :=
  { ExecutionConfig.default with
    liveTradingEnabled := true
    mode := .liveOkx
    okx := some
      { restBaseUrl := "https://www.okx.com"
        wsPrivateUrl := "wss://ws.okx.com:8443/ws/v5/private"
        credentials := ⟨"key", "secret", some "passphrase"⟩ } }

/-- The same through Tor, without the address of the proxy. -/
def torWithoutProxy : ExecutionConfig :=
  { liveOkxConfig with netProfile := { NetProfile.default with mode := .tor } }

theorem updatesAsNew_iff_sample :
    ∃ s, @ExecutionService.new ℚ acceptAll _ liveOkxConfig = .ok s ∧
      (@UpdatesAsNew asciiCase acceptAll (sampleService.run s sampleRun) torWithoutProxy ↔
        match @ExecutionService.new ℚ acceptAll _ torWithoutProxy with
        | .ok _ => torWithoutProxy.liveTradingEnabled = true → torWithoutProxy.okx = none →
            (sampleService.run s sampleRun).okxClient = none
        | .error _ => torWithoutProxy = (sampleService.run s sampleRun).config) := by
  refine ⟨_, rfl, ?_⟩
  exact @updatesAsNew_iff asciiCase acceptAll liveOkxConfig _ rfl sampleRun torWithoutProxy

/-- **A hot update is not a fresh construction**: a configuration that is on without an `okx`
section keeps the client of the one before, and a configuration from which nothing can be built is
stored all the same. -/
theorem not_updatesAsNew :
    ∃ s, @ExecutionService.new ℚ acceptAll _ liveOkxConfig = .ok s ∧
      ¬ @UpdatesAsNew asciiCase acceptAll s { liveOkxConfig with okx := none } ∧
      ¬ @UpdatesAsNew asciiCase acceptAll s torWithoutProxy := by
  refine ⟨_, rfl, ?_, ?_⟩
  · rintro ⟨-, hclient, -⟩
    exact absurd hclient (by decide)
  · rintro ⟨hcfg, -, -⟩
    exact absurd hcfg (by decide)

end W2uos
