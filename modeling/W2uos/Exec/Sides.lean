import W2uos.Exec.Holdings
import W2uos.Exec.Neutral

/-!
# The side of a trade

A buy takes from the balance and adds to a position, a sale does the reverse; but nothing says that
the size of an order is positive, and a fill with a negative size moves both the other way.  The
checks of balance and position do not catch it: a negative size is covered by any balance, and
negative units by any position.

* `sideLaw_iff` : exactly when one command is to its side;
* `sidesRespected_iff` : exactly when the commands of a run are.
-/

namespace W2uos

section Sides

variable [CaseTable]

/-- If the command is filled, a buy does not raise the balance and lowers no position, and a sale
does not lower the balance and raises no position. -/
def SideLaw (s : ExecutionService) (cmd : OrderCommand) (now : DateTime)
    (exchange : OkxOrderRequest → Transmission) : Prop :=
  let s' := (s.handleCommand cmd now exchange).service
  ∀ r, (s.handleCommand cmd now exchange).result = .ok r → r.status = .filled →
    match cmd.side with
    | .buy => s'.positions.1 ≤ s.positions.1 ∧
        ∀ key, s.positions.2.amount key ≤ s'.positions.2.amount key
    | .sell => s.positions.1 ≤ s'.positions.1 ∧
        ∀ key, s'.positions.2.amount key ≤ s.positions.2.amount key

/-- The command is blocked, goes to the exchange or is declined, or its size is not negative. -/
def SoundSize (s : ExecutionService) (cmd : OrderCommand) : Prop :=
  ¬ s.Simulates ∨ s.state.Declines cmd (s.priceOf cmd) ∨ 0 ≤ cmd.sizeQuote

/-- Some position is negative. -/
def ExecutionService.Short (s : ExecutionService) : Prop := ∃ key, s.positions.2.amount key < 0

/-! ### One command -/

/-- **A fill**: the result, and what it does to balance and positions. -/
theorem ExecutionService.Simulates.filled {s : ExecutionService} (h : s.Simulates)
    {cmd : OrderCommand} (hdecl : ¬ s.state.Declines cmd (s.priceOf cmd)) (now : DateTime)
    (exchange : OkxOrderRequest → Transmission) :
    let r := cmd.result .filled cmd.sizeQuote (s.priceOf cmd) now
    (s.handleCommand cmd now exchange).result = .ok r ∧
      (s.handleCommand cmd now exchange).service.state.account =
        s.state.account.postAll r.postings := by
  have hstatus := (s.state.fill_filled_iff cmd (s.priceOf cmd)).2 hdecl
  have hresult : (s.handleCommand cmd now exchange).result =
      .ok (cmd.result .filled cmd.sizeQuote (s.priceOf cmd) now) := by
    rw [h.handleCommand, s.simulate_result, hstatus, if_pos rfl, if_pos rfl]
  have hacc := s.handleCommand_account cmd now exchange
  rw [hresult] at hacc
  exact ⟨hresult, by simpa [Except.toOption] using hacc⟩

/-- A filled result comes from an order the simulator executes and does not decline. -/
theorem simulates_of_filled {s : ExecutionService} {cmd : OrderCommand} {now : DateTime}
    {exchange : OkxOrderRequest → Transmission} {r : OrderResult}
    (hr : (s.handleCommand cmd now exchange).result = .ok r) (hfilled : r.status = .filled) :
    s.Simulates ∧ ¬ s.state.Declines cmd (s.priceOf cmd) := by
  obtain ⟨hblock, hdecl, -⟩ := handleCommand_filled hr hfilled
  refine ⟨⟨hblock, ?_⟩, hdecl⟩
  rcases s.handleCommand_cases cmd now exchange with ⟨hblock', -⟩ | ⟨client, -, -, -, heq⟩ |
    ⟨-, hclient, -⟩
  · exact absurd (hblock.symm.trans hblock') Bool.false_ne_true
  · rw [heq] at hr
    exact absurd hfilled (ExecutionService.submit_ne_filled hr)
  · exact hclient

theorem ExecutionService.Simulates.filled_positions {s : ExecutionService} (h : s.Simulates)
    {cmd : OrderCommand} (hdecl : ¬ s.state.Declines cmd (s.priceOf cmd)) (now : DateTime)
    (exchange : OkxOrderRequest → Transmission) :
    let s' := (s.handleCommand cmd now exchange).service
    let units := baseUnits cmd.sizeQuote (s.priceOf cmd)
    match cmd.side with
    | .buy => s'.positions.1 = s.positions.1 - cmd.sizeQuote ∧
        ∀ key, s'.positions.2.amount key =
          s.positions.2.amount key + if symbolKey cmd.symbol = key then units else 0
    | .sell => s'.positions.1 = s.positions.1 + cmd.sizeQuote ∧
        ∀ key, s'.positions.2.amount key =
          s.positions.2.amount key - if symbolKey cmd.symbol = key then units else 0 := by
  obtain ⟨-, hacc⟩ := h.filled hdecl now exchange
  have hbal := congrArg Account.balance hacc
  have hheld := fun key => congrFun (congrArg Account.holding hacc) key
  simp only [Account.balance_postAll, Account.holding_postAll, OrderResult.postings,
    OrderCommand.result, OrderResult.units] at hbal hheld
  cases hside : cmd.side with
  | buy =>
    simp only [hside, List.map_cons, List.map_nil, List.sum_singleton] at hbal hheld
    exact ⟨by rw [sub_eq_add_neg]; exact hbal, hheld⟩
  | sell =>
    simp only [hside, List.map_cons, List.map_nil, List.sum_singleton] at hbal hheld
    refine ⟨hbal, fun key => ?_⟩
    rw [sub_eq_add_neg, neg_ite, neg_zero]
    exact hheld key

/-- **Exactly when one command is to its side**: if it is not executed, or its size is not
negative. -/
theorem sideLaw_iff (s : ExecutionService) (cmd : OrderCommand) (now : DateTime)
    (exchange : OkxOrderRequest → Transmission) :
    SideLaw s cmd now exchange ↔ SoundSize s cmd := by
  constructor
  · intro hlaw
    by_contra hunsound
    obtain ⟨hsim, hdecl, hsize⟩ : s.Simulates ∧ ¬ s.state.Declines cmd (s.priceOf cmd) ∧
        cmd.sizeQuote < 0 := by
      simpa [SoundSize] using hunsound
    have hmoved := hsim.filled_positions hdecl now exchange
    have hside := hlaw _ (hsim.filled hdecl now exchange).1 rfl
    -- the balance moves the wrong way
    cases h : cmd.side with
    | buy =>
      rw [h] at hside hmoved
      have hbal := hside.1
      rw [hmoved.1] at hbal
      linarith
    | sell =>
      rw [h] at hside hmoved
      have hbal := hside.1
      rw [hmoved.1] at hbal
      linarith
  · intro hsound r hr hfilled
    obtain ⟨hsim, hdecl⟩ := simulates_of_filled hr hfilled
    have hsize : 0 ≤ cmd.sizeQuote :=
      (hsound.resolve_left (not_not_intro hsim)).resolve_left hdecl
    have hunits : 0 ≤ baseUnits cmd.sizeQuote (s.priceOf cmd) := baseUnits_nonneg hsize
    have hmoved := hsim.filled_positions hdecl now exchange
    cases h : cmd.side with
    | buy =>
      rw [h] at hmoved
      obtain ⟨hbal, hheld⟩ := hmoved
      refine ⟨hbal ▸ sub_le_self _ hsize, fun key => ?_⟩
      rw [hheld]
      split_ifs with hkey
      · exact le_add_of_nonneg_right hunits
      · exact le_add_of_nonneg_right le_rfl
    | sell =>
      rw [h] at hmoved
      obtain ⟨hbal, hheld⟩ := hmoved
      refine ⟨hbal ▸ le_add_of_nonneg_right hsize, fun key => ?_⟩
      rw [hheld]
      split_ifs with hkey
      · exact sub_le_self _ hunits
      · exact sub_le_self _ le_rfl

theorem handleCommand_idle (s : ExecutionService) (cmd : OrderCommand) (now : DateTime)
    (exchange : OkxOrderRequest → Transmission)
    (h : ∀ r, (s.handleCommand cmd now exchange).result = .ok r → r.status ≠ .filled) :
    (s.handleCommand cmd now exchange).service.state.account = s.state.account := by
  rw [s.handleCommand_account cmd now exchange]
  cases hr : (s.handleCommand cmd now exchange).result with
  | error err => rfl
  | ok r =>
    rw [Except.toOption, Option.toList_some, List.flatMap_singleton, r.postings_of_ne (h r hr)]
    rfl

/-- **A buy of sound size** lowers no position, filled or not. -/
theorem buy_raises {s : ExecutionService} {cmd : OrderCommand} (hbuy : cmd.side = .buy)
    {now : DateTime} {exchange : OkxOrderRequest → Transmission}
    (hlaw : SideLaw s cmd now exchange) (key : String) :
    s.positions.2.amount key ≤
      (s.handleCommand cmd now exchange).service.positions.2.amount key := by
  by_cases hfilled : ∃ r, (s.handleCommand cmd now exchange).result = .ok r ∧ r.status = .filled
  · obtain ⟨r, hr, hstatus⟩ := hfilled
    have hmoved := hlaw r hr hstatus
    rw [hbuy] at hmoved
    exact hmoved.2 key
  · have hidle := handleCommand_idle s cmd now exchange
      fun r hr hstatus => hfilled ⟨r, hr, hstatus⟩
    exact (congrFun (congrArg Account.holding hidle) key).symm.le

/-! ### Whole runs -/

variable [Reqwest]

/-- Along the run every command that is filled is filled to its side, and wherever no position is
negative, none is after any number of buys. -/
def SidesRespected (s : ExecutionService) (is : List ExecInput) : Prop :=
  (∀ pre cmd now exchange post, is = pre ++ .command (.ok cmd) now exchange :: post →
    SideLaw (executionService.run s pre) cmd now exchange) ∧
  ∀ pre buys post, is = pre ++ buys ++ post →
    (∀ cmd ∈ ExecInput.commands buys, cmd.side = .buy) →
    ¬ (executionService.run s pre).Short → ¬ (executionService.run s (pre ++ buys)).Short

/-- **Buys alone** lower no position if each is to its side. -/
theorem buys_raise (s : ExecutionService) (buys : List ExecInput)
    (hlaw : ∀ pre cmd now exchange post, buys = pre ++ .command (.ok cmd) now exchange :: post →
      SideLaw (executionService.run s pre) cmd now exchange)
    (hbuys : ∀ cmd ∈ ExecInput.commands buys, cmd.side = .buy) (key : String) :
    s.positions.2.amount key ≤ (executionService.run s buys).positions.2.amount key := by
  induction buys using List.reverseRecOn with
  | nil => exact le_rfl
  | append_singleton buys i ih =>
    rw [commands_concat] at hbuys
    have hpre := ih
      (fun pre cmd now exchange post hsplit =>
        hlaw pre cmd now exchange (post ++ [i]) (by rw [hsplit]; simp))
      fun cmd hcmd => hbuys cmd (List.mem_append_left _ hcmd)
    refine hpre.trans ?_
    rw [Machine.run_concat]
    cases i with
    | command msg now exchange =>
      cases msg with
      | error err => exact le_rfl
      | ok cmd =>
        exact buy_raises (hbuys cmd (List.mem_append_right _ (by simp [ExecInput.commands])))
          (hlaw buys cmd now exchange [] rfl) key
    | configUpdate msg =>
      cases msg with
      | none => exact le_rfl
      | some newCfg =>
        refine le_of_eq ?_
        show _ = Amounts.amount ((executionService.run s buys).updateConfig newCfg).state.positions
          key
        rw [ExecutionService.updateConfig_state]
        rfl
    | blockNewOrders => exact le_rfl
    | resetCircuit => exact le_rfl

/-- **Exactly when the commands of a run are to their side**: every command of it is not executed
by the simulator, or has a size that is not negative. -/
theorem sidesRespected_iff (s : ExecutionService) (is : List ExecInput) :
    SidesRespected s is ↔
      ∀ pre cmd now exchange post, is = pre ++ .command (.ok cmd) now exchange :: post →
        SoundSize (executionService.run s pre) cmd := by
  constructor
  · intro h pre cmd now exchange post his
    exact (sideLaw_iff _ cmd now exchange).1 (h.1 pre cmd now exchange post his)
  · intro h
    have hlaw : ∀ pre cmd now exchange post, is = pre ++ .command (.ok cmd) now exchange :: post →
        SideLaw (executionService.run s pre) cmd now exchange :=
      fun pre cmd now exchange post his =>
        (sideLaw_iff _ cmd now exchange).2 (h pre cmd now exchange post his)
    refine ⟨hlaw, ?_⟩
    rintro pre buys post his hbuys hlong ⟨key, hshort⟩
    rw [Machine.run_append] at hshort
    have hraise := buys_raise (executionService.run s pre) buys
      (fun pre' cmd now exchange post' hsplit => by
        rw [← Machine.run_append]
        exact hlaw (pre ++ pre') cmd now exchange (post' ++ post) (by rw [his, hsplit]; simp))
      hbuys key
    exact hlong ⟨key, hraise.trans_lt hshort⟩

end Sides

/-- A buy of -1000 at the limit price 100. -/
def negativeBuy : List ExecInput :=
  [.command (.ok (sampleOrder "a" .buy (-1000) (some 100))) 0 fun _ => .unsent "unreachable"]

/-- **A buy on the wrong side**: on a fresh ledger it is filled, adds 1000 to the balance and leaves
a short position of 10. -/
theorem not_sidesRespected :
    ∃ s, @ExecutionService.new ℚ acceptAll _ .default = .ok s ∧
      ¬ @SidesRespected asciiCase acceptAll s negativeBuy ∧
      (sampleService.run s negativeBuy).positions.1 = s.positions.1 + 1000 ∧
      (sampleService.run s negativeBuy).Short := by
  refine ⟨_, rfl, fun h => ?_, by decide +kernel, "BTCUSDT", by decide +kernel⟩
  have hlaw := h.1 [] (sampleOrder "a" .buy (-1000) (some 100)) 0
    (fun _ => .unsent "unreachable") [] rfl
  exact absurd (hlaw _ rfl (by decide +kernel)).1 (by decide +kernel)

end W2uos
