import W2uos.Exec.Ledger

/-!
# Live mode and the simulator

`handle_command` takes the exchange branch when the mode is live *and* there is an OKX client.  The
mode follows every configuration, the client only some of them: a configuration that is on with an
`okx` section installs one, a configuration that is off removes it, and a configuration that is on
without an `okx` section leaves whatever client there was.  A live command that meets no client is
executed on the simulated ledger.

* `LiveSeparated` : no command handled in live mode is executed by the simulator;
* `ClientConfigured` : the configurations given so far leave an OKX client in place;
* `okxClient_run` : the client after a run, from the configurations it read;
* `liveSeparated_iff` : exactly when live mode is separated from the simulator;
* `not_liveSeparated` : it is not for a live configuration that is not on.
-/

namespace W2uos

section Client

variable [CaseTable] [Reqwest]

/-- The configurations received along a run. -/
def ExecInput.updates (is : List ExecInput) : List ExecutionConfig :=
  is.filterMap fun
    | .configUpdate msg => msg
    | _ => none

/-- Some configuration was on with an `okx` section, and none since was off. -/
def ClientConfigured (cfgs : List ExecutionConfig) : Prop :=
  ∃ pre c post, cfgs = pre ++ c :: post ∧ c.liveTradingEnabled = true ∧ c.okx.isSome = true ∧
    ∀ d ∈ post, d.liveTradingEnabled = true

omit [CaseTable] [Reqwest] in
theorem clientConfigured_concat (cfgs : List ExecutionConfig) (d : ExecutionConfig) :
    ClientConfigured (cfgs ++ [d]) ↔
      d.liveTradingEnabled = true ∧ (d.okx.isSome = true ∨ ClientConfigured cfgs) := by
  constructor
  · -- the configuration that installs the client is the last one, or an earlier one
    rintro ⟨pre, c, post, heq, hon, hokx, hpost⟩
    rcases List.eq_nil_or_concat post with rfl | ⟨post, e, rfl⟩
    · obtain ⟨rfl, hd⟩ := List.append_inj' heq rfl
      cases hd
      exact ⟨hon, Or.inl hokx⟩
    · have heq' : cfgs ++ [d] = (pre ++ c :: post) ++ [e] := by simpa using heq
      obtain ⟨rfl, hd⟩ := List.append_inj' heq' rfl
      cases hd
      have hrest : ∀ x ∈ post, x.liveTradingEnabled = true := fun x hx => hpost x (by simp [hx])
      exact ⟨hpost d (by simp), Or.inr ⟨pre, c, post, rfl, hon, hokx, hrest⟩⟩
  · rintro ⟨hon, hokx | ⟨pre, c, post, rfl, hc, hokx, hpost⟩⟩
    · exact ⟨cfgs, d, [], rfl, hon, hokx, by simp⟩
    · refine ⟨pre, c, post ++ [d], by simp, hc, hokx, ?_⟩
      intro x hx
      rcases List.mem_append.1 hx with hx | hx
      · exact hpost x hx
      · rw [List.mem_singleton.1 hx]
        exact hon

omit [CaseTable] [Reqwest] in
theorem clientConfigured_singleton {d : ExecutionConfig} :
    ClientConfigured [d] ↔ d.liveTradingEnabled = true ∧ d.okx.isSome = true := by
  have hnil : ¬ ClientConfigured [] := by
    rintro ⟨pre, c, post, heq, -⟩
    simp at heq
  simpa [hnil] using clientConfigured_concat [] d

omit [Reqwest] in
theorem ExecutionService.handleCommand_frame (s : ExecutionService) (cmd : OrderCommand)
    (now : DateTime) (exchange : OkxOrderRequest → Transmission) :
    (s.handleCommand cmd now exchange).service.config = s.config ∧
      (s.handleCommand cmd now exchange).service.okxClient = s.okxClient := by
  obtain ⟨state, fillCounter, hs⟩ := s.handleCommand_service cmd now exchange
  rw [hs]
  exact ⟨rfl, rfl⟩

omit [CaseTable] in
theorem ExecutionService.updateConfig_okxClient (s : ExecutionService)
    (newCfg : ExecutionConfig) :
    (s.updateConfig newCfg).okxClient.isSome = true ↔
      newCfg.liveTradingEnabled = true ∧
        (newCfg.okx.isSome = true ∨ s.okxClient.isSome = true) := by
  unfold updateConfig
  cases newCfg.liveTradingEnabled <;> cases newCfg.okx <;>
    cases buildClientAndShaper newCfg.netProfile <;> simp

omit [CaseTable] in
theorem ExecutionService.new_okxClient {cfg : ExecutionConfig} {s : ExecutionService}
    (hnew : ExecutionService.new cfg = .ok s) :
    s.okxClient.isSome = true ↔ cfg.liveTradingEnabled = true ∧ cfg.okx.isSome = true := by
  obtain ⟨httpClient, trafficShaper, rfl⟩ := ExecutionService.new_cases hnew
  cases cfg.liveTradingEnabled <;> simp

/-- **The client after a run**: there is one iff the configurations read so far, the constructor's
first, leave one in place. -/
theorem okxClient_run {cfg : ExecutionConfig} {s : ExecutionService}
    (hnew : ExecutionService.new cfg = .ok s) (is : List ExecInput) :
    (executionService.run s is).okxClient.isSome = true ↔
      ClientConfigured (cfg :: ExecInput.updates is) := by
  refine Machine.history_induction (M := executionService) (Q := fun _ => True) (s := s)
    (P := fun h t _ => t.okxClient.isSome = true ↔ ClientConfigured (cfg :: ExecInput.updates h))
    ?_ ?_ (fun (i : ExecInput) (_ : i ∈ is) => trivial)
  · rw [ExecutionService.new_okxClient hnew]
    exact clientConfigured_singleton.symm
  · intro h t o i ht _
    have hupd : ExecInput.updates (h ++ [i]) = ExecInput.updates h ++ ExecInput.updates [i] :=
      List.filterMap_append
    rw [hupd]
    cases i with
    | command msg now exchange =>
      have hsame : (executionService.next t (.command msg now exchange)).okxClient =
          t.okxClient := by
        cases msg with
        | error err => rfl
        | ok cmd => exact (t.handleCommand_frame cmd now exchange).2
      rw [hsame, ht]
      simp [ExecInput.updates]
    | configUpdate msg =>
      cases msg with
      | none => simpa [ExecInput.updates, Machine.next, executionService] using ht
      | some newCfg =>
        show (t.updateConfig newCfg).okxClient.isSome = true ↔ _
        rw [t.updateConfig_okxClient, ht]
        exact (clientConfigured_concat (cfg :: ExecInput.updates h) newCfg).symm
    | blockNewOrders => simpa [ExecInput.updates, Machine.next, executionService] using ht
    | resetCircuit => simpa [ExecInput.updates, Machine.next, executionService] using ht

end Client

/-! ### Separation -/

section Separation

variable [CaseTable] [Reqwest]

omit [Reqwest] in
/-- The command is not executed by the simulator: the ledger stays, and there is no Filled result
at the simulator's price. -/
def NotSimulated (s : ExecutionService) (cmd : OrderCommand) (now : DateTime)
    (exchange : OkxOrderRequest → Transmission) : Prop :=
  (s.handleCommand cmd now exchange).service.positions = s.positions ∧
    ∀ r, (s.handleCommand cmd now exchange).result = .ok r →
      ¬ (r.status = .filled ∧ r.avgPrice = s.priceOf cmd)

/-- No command handled in live mode along the run is executed by the simulator. -/
def LiveSeparated (s : ExecutionService) (is : List ExecInput) : Prop :=
  ∀ pre cmd now exchange post, is = pre ++ .command (.ok cmd) now exchange :: post →
    (executionService.run s pre).config.mode = .liveOkx →
      NotSimulated (executionService.run s pre) cmd now exchange

/-- The simulator turns the order down without leaving a trace: a buy the balance does not cover,
or a sale of more than the position of a key the ledger knows. -/
def ExecutionState.Refuses (state : ExecutionState) (cmd : OrderCommand) (price : ℚ) : Prop :=
  match cmd.side with
  | .buy => state.balanceUsdt < cmd.sizeQuote
  | .sell => symbolKey cmd.symbol ∈ state.positions ∧
      state.positions.amount (symbolKey cmd.symbol) < baseUnits cmd.sizeQuote price

omit [Reqwest] in
theorem ExecutionState.fill_refused_iff (state : ExecutionState) (cmd : OrderCommand) (price : ℚ) :
    ((state.fill cmd price).1 = state ∧ (state.fill cmd price).2 ≠ .filled) ↔
      state.Refuses cmd price := by
  unfold fill Refuses
  cases cmd.side with
  | buy =>
    by_cases hbal : cmd.sizeQuote ≤ state.balanceUsdt
    · simp [hbal, not_lt.2 hbal]
    · simp [hbal, not_le.1 hbal]
  | sell =>
    by_cases hpos : baseUnits cmd.sizeQuote price ≤ state.positions.amount (symbolKey cmd.symbol)
    · simp [hpos, not_lt.2 hpos]
    · -- the refused sale leaves an entry under its key, so the key must have been there
      have hinsert : state.positions.insert (symbolKey cmd.symbol)
          (state.positions.amount (symbolKey cmd.symbol)) = state.positions ↔
          symbolKey cmd.symbol ∈ state.positions := by
        constructor
        · intro h
          rw [← h, Finmap.mem_insert]
          exact Or.inl rfl
        · exact Amounts.insert_amount_of_mem
      simp [hpos, not_le.1 hpos, hinsert, ExecutionState.ext_iff]

omit [Reqwest] in
/-- A command that goes to the simulator is not executed by it only if it is refused. -/
theorem simulate_untouched_iff (s : ExecutionService) (cmd : OrderCommand) (now : DateTime) :
    ((s.simulate cmd now).service.positions = s.positions ∧
      ∀ r, (s.simulate cmd now).result = .ok r →
        ¬ (r.status = .filled ∧ r.avgPrice = s.priceOf cmd)) ↔
      s.state.Refuses cmd (s.priceOf cmd) := by
  rw [← ExecutionState.fill_refused_iff, ExecutionService.simulate_service,
    ExecutionService.simulate_result]
  refine and_congr ?_ ?_
  · simp [ExecutionService.positions, ExecutionState.ext_iff]
  · simp only [Except.ok.injEq, forall_eq', OrderCommand.result]
    by_cases hfilled : (s.state.fill cmd (s.priceOf cmd)).2 = .filled <;> simp [hfilled]

omit [Reqwest] in
/-- **One live command**: it is kept from the simulator iff the breaker blocks it, there is a
client, or the simulator refuses it. -/
theorem notSimulated_iff {s : ExecutionService} (hmode : s.config.mode = .liveOkx)
    (cmd : OrderCommand) (now : DateTime) (exchange : OkxOrderRequest → Transmission) :
    NotSimulated s cmd now exchange ↔
      s.blockNewOrders = true ∨ s.okxClient.isSome = true ∨
        s.state.Refuses cmd (s.priceOf cmd) := by
  unfold NotSimulated
  rcases s.handleCommand_cases cmd now exchange with ⟨hblock, heq⟩ | ⟨client, -, -, hclient, heq⟩ |
    ⟨hblock, hclient, heq⟩
  · rw [heq]
    simp [hblock, OrderCommand.result]
  · have huntouched : (s.submit client cmd now exchange).service.positions = s.positions ∧
        ∀ r, (s.submit client cmd now exchange).result = .ok r →
          ¬ (r.status = .filled ∧ r.avgPrice = s.priceOf cmd) :=
      ⟨rfl, fun r hr hfilled => ExecutionService.submit_ne_filled hr hfilled.1⟩
    rw [heq]
    exact iff_of_true huntouched (Or.inr (Or.inl (by rw [hclient]; rfl)))
  · rw [heq, simulate_untouched_iff, hblock, hclient hmode]
    simp

/-- **Exactly when live mode is separated from the simulator**: at every command handled in live
mode the breaker blocks it, the configurations so far leave an OKX client in place, or the
simulator refuses it. -/
theorem liveSeparated_iff {cfg : ExecutionConfig} {s : ExecutionService}
    (hnew : ExecutionService.new cfg = .ok s) (is : List ExecInput) :
    LiveSeparated s is ↔
      ∀ pre cmd now exchange post, is = pre ++ .command (.ok cmd) now exchange :: post →
        (executionService.run s pre).config.mode = .liveOkx →
          (executionService.run s pre).blockNewOrders = true ∨
            ClientConfigured (cfg :: ExecInput.updates pre) ∨
            (executionService.run s pre).state.Refuses cmd
              ((executionService.run s pre).priceOf cmd) := by
  unfold LiveSeparated
  refine forall_congr' fun pre => forall_congr' fun cmd => forall_congr' fun now =>
    forall_congr' fun exchange => forall_congr' fun post => forall_congr' fun _ =>
      forall_congr' fun hmode => ?_
  rw [notSimulated_iff hmode, okxClient_run hnew]

end Separation

/-- Live mode requested while live trading is off. -/
def liveButOff : ExecutionConfig := { ExecutionConfig.default with mode := .liveOkx }

theorem liveSeparated_iff_sample :
    ∃ s, @ExecutionService.new ℚ acceptAll _ liveButOff = .ok s ∧
      (@LiveSeparated asciiCase acceptAll s sampleRun ↔
        ∀ pre cmd now exchange post, sampleRun = pre ++ .command (.ok cmd) now exchange :: post →
          (sampleService.run s pre).config.mode = .liveOkx →
            (sampleService.run s pre).blockNewOrders = true ∨
              ClientConfigured (liveButOff :: ExecInput.updates pre) ∨
              @ExecutionState.Refuses asciiCase (sampleService.run s pre).state cmd
                ((sampleService.run s pre).priceOf cmd)) := by
  refine ⟨_, rfl, ?_⟩
  exact @liveSeparated_iff asciiCase acceptAll liveButOff _ rfl sampleRun

/-- **Live mode is not separated from the simulator**: with live trading off, a buy in live mode is
filled on the simulated ledger. -/
theorem not_liveSeparated :
    ∃ s, @ExecutionService.new ℚ acceptAll _ liveButOff = .ok s ∧
      ¬ @LiveSeparated asciiCase acceptAll s
        [.command (.ok (sampleOrder "a" .buy 10 none)) 0 fun _ => .unsent "unreachable"] := by
  refine ⟨_, rfl, ?_⟩
  intro h
  have hone := h [] (sampleOrder "a" .buy 10 none) 0 (fun _ => .unsent "unreachable") [] rfl rfl
  exact hone.2 _ rfl (by decide +kernel)

end W2uos
