import W2uos.Exec.Service

/-!
# What the execution service does with its inputs

The amounts may be of any type here.  A command is turned down by the breaker, goes to the exchange
or to the simulator (`ExecutionService.handleCommand_cases`); the ledger changes by one fill or not
at all (`state_step`).  In simulated mode every command publishes one result (`simulated_run`).
-/

namespace W2uos

variable {α : Type}

/-- The messages on `orders.result`. -/
def ExecOutput.results (os : List (ExecOutput α)) : List (OrderResult α) :=
  os.filterMap fun
    | .result r => some r
    | _ => none

/-- The commands that decode. -/
def ExecInput.commands (is : List (ExecInput α)) : List (OrderCommand α) :=
  is.filterMap fun
    | .command (.ok cmd) _ _ => some cmd
    | _ => none

/-- A configuration update, if there is one, stays in simulated mode. -/
def ExecInput.KeepsSimulated : ExecInput α → Prop
  | .configUpdate (some newCfg) => newCfg.mode = .simulated
  | _ => True

theorem OkxOrderResponse.status_ne_filled (resp : OkxOrderResponse) : resp.status ≠ .filled := by
  unfold OkxOrderResponse.status
  split
  · exact fun h => by cases h
  · split_ifs <;> exact fun h => by cases h

theorem results_append (os ps : List (ExecOutput α)) :
    ExecOutput.results (os ++ ps) = ExecOutput.results os ++ ExecOutput.results ps :=
  List.filterMap_append

theorem commands_concat (is : List (ExecInput α)) (i : ExecInput α) :
    ExecInput.commands (is ++ [i]) = ExecInput.commands is ++ ExecInput.commands [i] :=
  List.filterMap_append

/-- An amount after a fill of a size. -/
def OrderSide.shift [Add α] [Sub α] (entry size : α) : OrderSide → α
  | .buy => entry + size
  | .sell => entry - size

section Fill

variable [CaseTable] [Zero α] [Add α] [Sub α] [Div α] [LT α] [DecidableLT α] [LE α] [DecidableLE α]

/-- The simulator fills the order at the price: the balance covers a buy, the position a sale. -/
def ExecutionState.Accepts (state : ExecutionState α) (cmd : OrderCommand α) (price : α) : Prop :=
  match cmd.side with
  | .buy => cmd.sizeQuote ≤ state.balanceUsdt
  | .sell => baseUnits cmd.sizeQuote price ≤ state.positions.amount (symbolKey cmd.symbol)

theorem ExecutionState.fill_accepted {state : ExecutionState α} {cmd : OrderCommand α} {price : α}
    (h : state.Accepts cmd price) :
    (state.fill cmd price).2 = .filled ∧
      (state.fill cmd price).1.positions = state.positions.insert (symbolKey cmd.symbol)
        (cmd.side.shift (state.positions.amount (symbolKey cmd.symbol))
          (baseUnits cmd.sizeQuote price)) := by
  unfold Accepts at h
  unfold fill
  cases hside : cmd.side with
  | buy =>
    rw [hside] at h
    dsimp only at h ⊢
    rw [if_pos h]
    exact ⟨rfl, rfl⟩
  | sell =>
    rw [hside] at h
    dsimp only at h ⊢
    rw [if_pos h]
    exact ⟨rfl, rfl⟩

/-- An order that is not accepted moves none; it may leave an entry of nothing. -/
theorem ExecutionState.fill_declined {state : ExecutionState α} {cmd : OrderCommand α} {price : α}
    (h : ¬ state.Accepts cmd price) :
    (state.fill cmd price).2 ≠ .filled ∧
      ∀ key, (state.fill cmd price).1.positions.amount key = state.positions.amount key := by
  unfold Accepts at h
  unfold fill
  cases hside : cmd.side with
  | buy =>
    rw [hside] at h
    dsimp only at h ⊢
    rw [if_neg h]
    exact ⟨nofun, fun key => rfl⟩
  | sell =>
    rw [hside] at h
    dsimp only at h ⊢
    rw [if_neg h]
    refine ⟨nofun, fun key => ?_⟩
    by_cases hkey : key = symbolKey cmd.symbol
    · rw [hkey, Amounts.amount_insert_self]
    · rw [Amounts.amount_insert_ne _ _ hkey]

end Fill

section Construction

variable [Reqwest]

@[simp] theorem ExecutionService.updateConfig_state (s : ExecutionService α)
    (newCfg : ExecutionConfig α) : (s.updateConfig newCfg).state = s.state := by
  unfold updateConfig
  cases buildClientAndShaper newCfg.netProfile <;> rfl

theorem ExecutionService.updateConfig_fillCounter (s : ExecutionService α)
    (newCfg : ExecutionConfig α) : (s.updateConfig newCfg).fillCounter = s.fillCounter := by
  unfold updateConfig
  cases buildClientAndShaper newCfg.netProfile <;> rfl

variable [NatCast α]

/-- **What the constructor builds**: everything but the HTTP client and the traffic shaper is
determined by the configuration. -/
theorem ExecutionService.new_cases {cfg : ExecutionConfig α} {s : ExecutionService α}
    (hnew : ExecutionService.new cfg = .ok s) :
    ∃ httpClient trafficShaper, s =
      { config := cfg
        state := { balanceUsdt := cfg.initialBalanceUsdt, positions := ∅ }
        fillCounter := 30000
        httpClient := httpClient
        trafficShaper := trafficShaper
        blockNewOrders := false
        okxClient :=
          if cfg.liveTradingEnabled then
            cfg.okx.map fun okxCfg => okxCfg.client httpClient trafficShaper
          else none } := by
  unfold ExecutionService.new at hnew
  cases hbuild : buildClientAndShaper cfg.netProfile with
  | error err => simp [hbuild, bind, Except.bind] at hnew
  | ok built =>
    simp only [hbuild, bind, Except.bind, pure, Except.pure, Except.ok.injEq] at hnew
    exact ⟨built.1, built.2, hnew.symm⟩

/-- A service that has just been built holds the initial balance and nothing else. -/
theorem ExecutionService.new_spec {cfg : ExecutionConfig α} {s : ExecutionService α}
    (hnew : ExecutionService.new cfg = .ok s) :
    s.config = cfg ∧ s.state = ⟨cfg.initialBalanceUsdt, ∅⟩ := by
  obtain ⟨httpClient, trafficShaper, rfl⟩ := ExecutionService.new_cases hnew
  exact ⟨rfl, rfl⟩

end Construction

namespace ExecutionService

theorem submit_ne_filled [CaseTable] [Zero α] {s : ExecutionService α} {client : OkxClient}
    {cmd : OrderCommand α} {now : DateTime} {exchange : OkxOrderRequest α → Transmission}
    {r : OrderResult α}
    (hr : (s.submit client cmd now exchange).result = .ok r) : r.status ≠ .filled := by
  unfold submit at hr
  cases hanswer : (client.placeOrder cmd exchange).2 with
  | error err => simp [hanswer, Except.map] at hr
  | ok resp =>
    simp only [hanswer, Except.map, Except.ok.injEq] at hr
    rw [← hr]
    exact resp.status_ne_filled

section Price

variable [Add α] [NatCast α]

theorem nextFillPrice_config (s : ExecutionService α) (limit : Option α) :
    (s.nextFillPrice limit).2.config = s.config := by
  cases limit <;> rfl

/-- The price a simulated command is filled at. -/
abbrev priceOf (s : ExecutionService α) (cmd : OrderCommand α) : α :=
  (s.nextFillPrice cmd.limitPrice).1

end Price

variable [CaseTable] [Zero α] [Add α] [Sub α] [Div α] [LT α] [DecidableLT α] [LE α] [DecidableLE α]
  [NatCast α]

theorem simulate_service (s : ExecutionService α) (cmd : OrderCommand α) (now : DateTime) :
    (s.simulate cmd now).service =
      { (s.nextFillPrice cmd.limitPrice).2 with
        state := (s.state.fill cmd (s.priceOf cmd)).1 } := by
  unfold simulate priceOf
  cases cmd.limitPrice <;> rfl

theorem simulate_result (s : ExecutionService α) (cmd : OrderCommand α) (now : DateTime) :
    (s.simulate cmd now).result =
      .ok (cmd.result (s.state.fill cmd (s.priceOf cmd)).2
        (if (s.state.fill cmd (s.priceOf cmd)).2 = .filled then cmd.sizeQuote else 0)
        (if (s.state.fill cmd (s.priceOf cmd)).2 = .filled then s.priceOf cmd else 0) now) := by
  unfold simulate priceOf
  cases cmd.limitPrice <;> rfl

/-- **What handling a command does**: the breaker turns it down, or it goes to the exchange, or to
the simulator. -/
theorem handleCommand_cases (s : ExecutionService α) (cmd : OrderCommand α) (now : DateTime)
    (exchange : OkxOrderRequest α → Transmission) :
    (s.blockNewOrders = true ∧ s.handleCommand cmd now exchange =
        ⟨s, [], .ok (cmd.result (.rejected "circuit breaker active") 0 0 now)⟩) ∨
      (∃ client, s.blockNewOrders = false ∧ s.config.mode = .liveOkx ∧ s.okxClient = some client ∧
        s.handleCommand cmd now exchange = s.submit client cmd now exchange) ∨
      (s.blockNewOrders = false ∧ (s.config.mode = .liveOkx → s.okxClient = none) ∧
        s.handleCommand cmd now exchange = s.simulate cmd now) := by
  unfold handleCommand
  cases hblock : s.blockNewOrders with
  | true => exact Or.inl ⟨rfl, rfl⟩
  | false =>
    cases hmode : s.config.mode with
    | simulated => exact Or.inr (Or.inr ⟨rfl, (fun hlive => by cases hlive), rfl⟩)
    | liveOkx =>
      cases hclient : s.okxClient with
      | none => exact Or.inr (Or.inr ⟨rfl, fun _ => rfl, rfl⟩)
      | some client => exact Or.inr (Or.inl ⟨client, rfl, rfl, rfl, rfl⟩)

/-- **The frame of a command**: whatever becomes of it, it touches the ledger and the fill counter
only. -/
theorem handleCommand_service (s : ExecutionService α) (cmd : OrderCommand α) (now : DateTime)
    (exchange : OkxOrderRequest α → Transmission) :
    ∃ state fillCounter, (s.handleCommand cmd now exchange).service =
      { s with state := state, fillCounter := fillCounter } := by
  rcases s.handleCommand_cases cmd now exchange with ⟨-, heq⟩ | ⟨_, -, -, -, heq⟩ | ⟨-, -, heq⟩
  · exact ⟨s.state, s.fillCounter, by rw [heq]⟩
  · exact ⟨s.state, s.fillCounter, by rw [heq]; rfl⟩
  · rw [heq, simulate_service]
    cases cmd.limitPrice <;> exact ⟨_, _, rfl⟩

/-- **A command in simulated mode** publishes one result with its id, submits nothing, and keeps
the configuration. -/
theorem handleCommand_simulated {s : ExecutionService α} (hmode : s.config.mode = .simulated)
    (cmd : OrderCommand α) (now : DateTime) (exchange : OkxOrderRequest α → Transmission) :
    ∃ r, (s.handleCommand cmd now exchange).result = .ok r ∧ r.commandId = cmd.id ∧
      (s.handleCommand cmd now exchange).submitted = [] ∧
      (s.handleCommand cmd now exchange).service.config = s.config := by
  rcases s.handleCommand_cases cmd now exchange with ⟨-, heq⟩ | ⟨_, -, hlive, -⟩ | ⟨-, -, heq⟩
  · rw [heq]
    exact ⟨_, rfl, rfl, rfl, rfl⟩
  · rw [hmode] at hlive
    cases hlive
  · rw [heq]
    refine ⟨_, s.simulate_result cmd now, rfl, rfl, ?_⟩
    rw [simulate_service]
    exact s.nextFillPrice_config cmd.limitPrice

/-- What a command can do to the ledger: nothing, or one fill. -/
theorem handleCommand_state (s : ExecutionService α) (cmd : OrderCommand α)
    (now : DateTime) (exchange : OkxOrderRequest α → Transmission) :
    (s.handleCommand cmd now exchange).service.state = s.state ∨
      (s.handleCommand cmd now exchange).service.state =
        (s.state.fill cmd (s.priceOf cmd)).1 := by
  rcases s.handleCommand_cases cmd now exchange with ⟨-, heq⟩ | ⟨_, -, -, -, heq⟩ | ⟨-, -, heq⟩
  · exact Or.inl (by rw [heq])
  · exact Or.inl (by rw [heq]; rfl)
  · exact Or.inr (by rw [heq, simulate_service])

end ExecutionService

/-! ### Whole runs -/

section Runs

variable [CaseTable] [Reqwest] [Zero α] [Add α] [Sub α] [Div α] [LT α] [DecidableLT α] [LE α]
  [DecidableLE α] [NatCast α]

/-- The outputs of a command are its submissions and then its messages. -/
theorem filterMap_emit_command {β : Type} (f : ExecOutput α → Option β) (s : ExecutionService α)
    (cmd : OrderCommand α) (now : DateTime) (exchange : OkxOrderRequest α → Transmission) :
    (executionService.emit s (.command (.ok cmd) now exchange)).filterMap f =
      ((s.handleCommand cmd now exchange).submitted.filterMap fun request => f (.submit request)) ++
        ((s.handleCommand cmd now exchange).messages cmd now).filterMap f := by
  show List.filterMap f (_ ++ Handled.messages _ cmd now) = _
  rw [List.filterMap_append, List.filterMap_map]
  rfl

/-- The messages of a command carry its result, if it has one, and no other. -/
theorem results_emit_command (s : ExecutionService α) (cmd : OrderCommand α) (now : DateTime)
    (exchange : OkxOrderRequest α → Transmission) :
    ExecOutput.results (executionService.emit s (.command (.ok cmd) now exchange)) =
      (s.handleCommand cmd now exchange).result.toOption.toList := by
  rw [ExecOutput.results, filterMap_emit_command, List.filterMap_eq_nil_iff.2 fun _ _ => rfl,
    List.nil_append, Handled.messages]
  cases (s.handleCommand cmd now exchange).result <;> rfl

/-- **What a step can do to the ledger**: nothing, or one fill of the command it carries. -/
theorem state_step (s : ExecutionService α) (i : ExecInput α) :
    (executionService.next s i).state = s.state ∨
      ∃ cmd now exchange, i = .command (.ok cmd) now exchange ∧
        (executionService.next s i).state = (s.state.fill cmd (s.priceOf cmd)).1 := by
  cases i with
  | command msg now exchange =>
    cases msg with
    | error err => exact Or.inl rfl
    | ok cmd =>
      rcases s.handleCommand_state cmd now exchange with hsame | hfill
      · exact Or.inl hsame
      · exact Or.inr ⟨cmd, now, exchange, rfl, hfill⟩
  | configUpdate msg =>
    cases msg with
    | none => exact Or.inl rfl
    | some newCfg => exact Or.inl (s.updateConfig_state newCfg)
  | blockNewOrders => exact Or.inl rfl
  | resetCircuit => exact Or.inl rfl

/-- **The step lemma of simulated mode**: an input that keeps the mode simulated publishes one
result for the command it carries, if it does. -/
theorem step_simulated {s : ExecutionService α} (hmode : s.config.mode = .simulated)
    {i : ExecInput α} (hi : i.KeepsSimulated) :
    (executionService.next s i).config.mode = .simulated ∧
      (ExecOutput.results (executionService.emit s i)).map (·.commandId) =
        (ExecInput.commands [i]).map (·.id) := by
  cases i with
  | command msg now exchange =>
    cases msg with
    | error err => exact ⟨hmode, rfl⟩
    | ok cmd =>
      obtain ⟨r, hres, hid, -, hcfg⟩ :=
        ExecutionService.handleCommand_simulated hmode cmd now exchange
      rw [results_emit_command, hres]
      refine ⟨?_, ?_⟩
      · rw [← hmode, ← hcfg]
        rfl
      · simp [ExecInput.commands, Except.toOption, hid]
  | configUpdate msg =>
    cases msg with
    | none => exact ⟨hmode, rfl⟩
    | some newCfg => exact ⟨hi, rfl⟩
  | blockNewOrders => exact ⟨hmode, rfl⟩
  | resetCircuit => exact ⟨hmode, rfl⟩

/-- **The run lemma of simulated mode.** -/
theorem simulated_run {s : ExecutionService α} (hmode : s.config.mode = .simulated)
    {is : List (ExecInput α)} (his : ∀ i ∈ is, i.KeepsSimulated) :
    (executionService.run s is).config.mode = .simulated ∧
      (ExecOutput.results (executionService.output s is)).map (·.commandId) =
        (ExecInput.commands is).map (·.id) := by
  refine Machine.history_induction (M := executionService) (Q := ExecInput.KeepsSimulated)
    (s := s) (P := fun h t o => t.config.mode = .simulated ∧
      (ExecOutput.results o).map (·.commandId) = (ExecInput.commands h).map (·.id))
    ⟨hmode, rfl⟩ ?_ his
  rintro h t o i ⟨ht, hids⟩ hi
  obtain ⟨hm, hid⟩ := step_simulated ht hi
  refine ⟨hm, ?_⟩
  rw [results_append, commands_concat, List.map_append, List.map_append, hids, hid]

end Runs

end W2uos
