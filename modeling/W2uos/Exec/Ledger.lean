import W2uos.Amounts.Posting
import W2uos.Exec.Commands
import Mathlib.Algebra.Order.Field.Rat
import Mathlib.Tactic.Ring
import Mathlib.Tactic.Linarith

/-!
# The simulated ledger and its audit trail

In either mode a result says exactly what its command did to the ledger: read as a posting, it takes
the account before the command to the account after it (`ExecutionService.handleCommand_account`).
Over a run the ledger is therefore the initial balance with the postings of all published results
carried out (`account_run`).  In simulated mode every command publishes one result
(`simulated_run`), and balance and positions are sums over `orders.result`.

The second part shows that the ledger never goes negative.

* `ledger_reconstructible` : results match commands, and the ledger is a sum over the results;
* `solvent_run` : the ledger stays solvent along every run.
-/

namespace W2uos

variable [CaseTable]

/-! ### Results as postings -/

/-- The units of a result, at its average price. -/
def OrderResult.units (r : OrderResult) : ℚ := baseUnits r.filledSizeQuote r.avgPrice

/-- What a result says happened to the ledger. -/
def OrderResult.postings (r : OrderResult) : List (Posting String ℚ) :=
  match r.status, r.side with
  | .filled, .buy => [⟨symbolKey r.symbol, -r.filledSizeQuote, r.units⟩]
  | .filled, .sell => [⟨symbolKey r.symbol, r.filledSizeQuote, -r.units⟩]
  | .new, _ => []
  | .rejected _, _ => []

omit [CaseTable] in
/-- The account of a ledger. -/
def ExecutionState.account (state : ExecutionState) : Account String ℚ :=
  Amounts.account state.balanceUsdt state.positions

/-- The Filled results of one side. -/
def filledOn (side : OrderSide) (rs : List OrderResult) : List OrderResult :=
  rs.filter fun r => r.status = .filled ∧ r.side = side

/-- The quote amount of the Filled results of one side. -/
def quoteOn (side : OrderSide) (rs : List OrderResult) : ℚ :=
  ((filledOn side rs).map (·.filledSizeQuote)).sum

omit [CaseTable] in
@[simp] theorem quoteOn_nil (side : OrderSide) : quoteOn side [] = 0 := rfl

omit [CaseTable] in
theorem quoteOn_cons (side : OrderSide) (r : OrderResult) (rs : List OrderResult) :
    quoteOn side (r :: rs) =
      (if r.status = .filled ∧ r.side = side then r.filledSizeQuote else 0) + quoteOn side rs := by
  unfold quoteOn filledOn
  by_cases hr : r.status = .filled ∧ r.side = side <;> simp [hr]

omit [CaseTable] in
theorem quoteOn_append (side : OrderSide) (rs qs : List OrderResult) :
    quoteOn side (rs ++ qs) = quoteOn side rs + quoteOn side qs := by
  simp [quoteOn, filledOn]

omit [CaseTable] in
theorem quoteOn_singleton (side : OrderSide) (r : OrderResult) :
    quoteOn side [r] = if r.status = .filled ∧ r.side = side then r.filledSizeQuote else 0 := by
  rw [quoteOn_cons, quoteOn_nil, add_zero]

/-- The units under `key` of the Filled results of one side. -/
def unitsOn (side : OrderSide) (key : String) (rs : List OrderResult) : ℚ :=
  (((filledOn side rs).filter fun r => symbolKey r.symbol = key).map (·.units)).sum

theorem OrderResult.postings_of_ne {r : OrderResult} (hr : r.status ≠ .filled) :
    r.postings = [] := by
  unfold OrderResult.postings
  cases hstatus : r.status with
  | filled => exact absurd hstatus hr
  | new => rfl
  | rejected reason => rfl

theorem cash_postings (rs : List OrderResult) :
    ((rs.flatMap OrderResult.postings).map (·.cash)).sum = -quoteOn .buy rs + quoteOn .sell rs := by
  induction rs with
  | nil => simp [quoteOn, filledOn]
  | cons r rs ih =>
    rw [List.flatMap_cons, List.map_append, List.sum_append, ih]
    simp only [quoteOn, filledOn, OrderResult.postings, List.filter_cons]
    cases r.status <;> cases r.side <;> simp <;> ring

theorem units_postings (key : String) (rs : List OrderResult) :
    ((rs.flatMap OrderResult.postings).map fun p => if p.key = key then p.units else 0).sum =
      unitsOn .buy key rs - unitsOn .sell key rs := by
  induction rs with
  | nil => simp [unitsOn, filledOn]
  | cons r rs ih =>
    rw [List.flatMap_cons, List.map_append, List.sum_append, ih]
    simp only [unitsOn, filledOn, OrderResult.postings, List.filter_cons]
    by_cases hk : symbolKey r.symbol = key <;> cases r.status <;> cases r.side <;>
      simp [hk] <;> ring

/-! ### One command -/

/-- **A fill does to the account what its result reports.** -/
theorem ExecutionState.fill_account (state : ExecutionState) (cmd : OrderCommand) (price : ℚ)
    (now : DateTime) :
    (state.fill cmd price).1.account =
      state.account.postAll (cmd.result (state.fill cmd price).2
        (if (state.fill cmd price).2 = .filled then cmd.sizeQuote else 0)
        (if (state.fill cmd price).2 = .filled then price else 0) now).postings := by
  unfold fill
  cases hside : cmd.side with
  | buy =>
    by_cases hbal : cmd.sizeQuote ≤ state.balanceUsdt
    · simp only [hbal, ↓reduceIte, OrderResult.postings, OrderCommand.result, hside, sub_eq_add_neg,
        Account.postAll_cons, Account.postAll_nil]
      exact Amounts.account_insert_add _ _ _ _ _
    · simp [hbal, OrderResult.postings, OrderCommand.result]
  | sell =>
    by_cases hpos : baseUnits cmd.sizeQuote price ≤ state.positions.amount (symbolKey cmd.symbol)
    · simp only [hpos, ↓reduceIte, OrderResult.postings, OrderCommand.result, hside, sub_eq_add_neg,
        Account.postAll_cons, Account.postAll_nil]
      exact Amounts.account_insert_add _ _ _ _ _
    · -- the entry a refused sale leaves behind is not seen in the account
      simp only [hpos, ↓reduceIte, OrderResult.postings, OrderCommand.result, Account.postAll_nil]
      exact Amounts.account_insert_amount _ _ _

namespace ExecutionService

/-- **A command moves the account as its result reports**, in either mode. -/
theorem handleCommand_account (s : ExecutionService) (cmd : OrderCommand) (now : DateTime)
    (exchange : OkxOrderRequest → Transmission) :
    (s.handleCommand cmd now exchange).service.state.account =
      s.state.account.postAll
        ((s.handleCommand cmd now exchange).result.toOption.toList.flatMap
          OrderResult.postings) := by
  rcases s.handleCommand_cases cmd now exchange with ⟨-, heq⟩ | ⟨client, -, -, -, heq⟩ |
    ⟨-, -, heq⟩
  · rw [heq]
    rfl
  · rw [heq]
    cases hres : (s.submit client cmd now exchange).result with
    | error err => rfl
    | ok r =>
      rw [Except.toOption, Option.toList_some, List.flatMap_singleton,
        r.postings_of_ne (submit_ne_filled hres)]
      rfl
  · rw [heq, s.simulate_result, s.simulate_service, Except.toOption, Option.toList_some,
      List.flatMap_singleton]
    exact s.state.fill_account cmd (s.priceOf cmd) now

end ExecutionService

/-! ### Whole runs -/

section Runs

variable [Reqwest]

/-- **The account of a step**: in either mode the results it publishes are the postings it makes. -/
theorem account_step (s : ExecutionService) (i : ExecInput) :
    (executionService.next s i).state.account =
      s.state.account.postAll
        ((ExecOutput.results (executionService.emit s i)).flatMap OrderResult.postings) := by
  cases i with
  | command msg now exchange =>
    cases msg with
    | error err => rfl
    | ok cmd =>
      rw [results_emit_command]
      exact s.handleCommand_account cmd now exchange
  | configUpdate msg =>
    cases msg with
    | none => rfl
    | some newCfg => exact congrArg ExecutionState.account (s.updateConfig_state newCfg)
  | blockNewOrders => rfl
  | resetCircuit => rfl

/-- **The account of a run**: the ledger afterwards is the one before with the postings of all
results carried out. -/
theorem account_run (s : ExecutionService) (is : List ExecInput) :
    (executionService.run s is).state.account =
      s.state.account.postAll
        ((ExecOutput.results (executionService.output s is)).flatMap OrderResult.postings) := by
  induction is using List.reverseRecOn with
  | nil => rfl
  | append_singleton is i ih =>
    rw [Machine.run_concat, Machine.output_concat, results_append, List.flatMap_append,
      Account.postAll_append, ← ih]
    exact account_step _ i

/-- **The ledger is reconstructible from the published results.**  In simulated mode
`orders.result` carries one result for each decoded command, in order and with its id; the balance
is the initial balance less the Filled buys plus the Filled sells, and the position of every
symbol key is the units bought less the units sold. -/
theorem ledger_reconstructible {cfg : ExecutionConfig} {s : ExecutionService}
    (hnew : ExecutionService.new cfg = .ok s) (hmode : cfg.mode = .simulated)
    {is : List ExecInput} (his : ∀ i ∈ is, i.KeepsSimulated) :
    (ExecOutput.results (executionService.output s is)).map (·.commandId) =
        (ExecInput.commands is).map (·.id) ∧
      (executionService.run s is).positions.1 =
        cfg.initialBalanceUsdt - quoteOn .buy (ExecOutput.results (executionService.output s is)) +
          quoteOn .sell (ExecOutput.results (executionService.output s is)) ∧
      ∀ key, (executionService.run s is).positions.2.amount key =
        unitsOn .buy key (ExecOutput.results (executionService.output s is)) -
          unitsOn .sell key (ExecOutput.results (executionService.output s is)) := by
  obtain ⟨hcfg, hstate⟩ := ExecutionService.new_spec hnew
  obtain ⟨-, hids⟩ := simulated_run (hcfg ▸ hmode) his
  have hacc := account_run s is
  refine ⟨hids, ?_, ?_⟩
  · have hbal := congrArg Account.balance hacc
    rw [Account.balance_postAll, cash_postings, hstate] at hbal
    calc (executionService.run s is).positions.1
        = cfg.initialBalanceUsdt + (-quoteOn .buy _ + quoteOn .sell _) := hbal
      _ = _ := by ring
  · intro key
    have hpos := congrFun (congrArg Account.holding hacc) key
    rw [Account.holding_postAll, units_postings, hstate] at hpos
    calc (executionService.run s is).positions.2.amount key
        = 0 + (unitsOn .buy key _ - unitsOn .sell key _) := hpos
      _ = _ := by ring

/-- The service on ASCII symbols, with a library that accepts every client. -/
abbrev sampleService : Machine ExecutionService ExecInput ExecOutput :=
  letI := asciiCase
  letI := acceptAll
  executionService

/-- An order for `BTCUSDT`. -/
def sampleOrder (id : String) (side : OrderSide) (sizeQuote : ℚ) (limitPrice : Option ℚ) :
    OrderCommand where
  id := id
  exchange := .okx
  symbol := ⟨"btc", "usdt"⟩
  side := side
  orderType := .limit
  sizeQuote := sizeQuote
  limitPrice := limitPrice
  traceId := none

/-- A buy at a positive price, a sale while the breaker blocks, and a sale of a negative size at a
negative price. -/
def sampleRun : List ExecInput :=
  [.command (.ok (sampleOrder "a" .buy 1000 (some 100))) 0 fun _ => .unsent "unreachable",
    .blockNewOrders,
    .command (.ok (sampleOrder "b" .sell 500 (some 100))) 1 fun _ => .unsent "unreachable",
    .resetCircuit,
    .configUpdate (some .default),
    .command (.ok (sampleOrder "c" .sell (-5) (some (-1)))) 2 fun _ => .unsent "unreachable"]

omit [CaseTable] [Reqwest] in
theorem ledger_reconstructible_sample :
    ∃ s, @ExecutionService.new ℚ acceptAll _ .default = .ok s ∧
      (ExecOutput.results (sampleService.output s sampleRun)).map (·.commandId) = ["a", "b", "c"] ∧
      (sampleService.run s sampleRun).positions.1 =
        100000 - quoteOn .buy (ExecOutput.results (sampleService.output s sampleRun)) +
          quoteOn .sell (ExecOutput.results (sampleService.output s sampleRun)) ∧
      ∀ key, (sampleService.run s sampleRun).positions.2.amount key =
        @unitsOn asciiCase .buy key (ExecOutput.results (sampleService.output s sampleRun)) -
          @unitsOn asciiCase .sell key (ExecOutput.results (sampleService.output s sampleRun)) := by
  refine ⟨_, rfl, ?_⟩
  exact @ledger_reconstructible asciiCase acceptAll .default _ rfl rfl sampleRun
    (by simp [sampleRun, ExecInput.KeepsSimulated, ExecutionConfig.default])

/-! ### Solvency -/

omit [CaseTable] [Reqwest] in
theorem baseUnits_nonneg {size price : ℚ} (h : 0 ≤ size) : 0 ≤ baseUnits size price := by
  unfold baseUnits
  split_ifs with hp
  · exact div_nonneg h hp.le
  · exact le_rfl

omit [CaseTable] [Reqwest] in
/-- Balance and positions are non-negative. -/
structure ExecutionState.Solvent (state : ExecutionState) : Prop where
  balance_nonneg : 0 ≤ state.balanceUsdt
  positions_nonneg : state.positions.Nonneg

omit [Reqwest] in
/-- A fill of a non-negative size makes no position negative: a sale is covered by the position. -/
theorem ExecutionState.fill_positions_nonneg {state : ExecutionState}
    (h : state.positions.Nonneg) {cmd : OrderCommand} (hsize : 0 ≤ cmd.sizeQuote) (price : ℚ) :
    (state.fill cmd price).1.positions.Nonneg := by
  have hentry := h.amount (symbolKey cmd.symbol)
  have hunits : 0 ≤ baseUnits cmd.sizeQuote price := baseUnits_nonneg hsize
  unfold ExecutionState.fill
  cases cmd.side with
  | buy =>
    by_cases hbal : cmd.sizeQuote ≤ state.balanceUsdt
    · simp only [hbal, ↓reduceIte]
      exact h.insert (add_nonneg hentry hunits)
    · simpa only [hbal, ↓reduceIte] using h
  | sell =>
    by_cases hpos : baseUnits cmd.sizeQuote price ≤ state.positions.amount (symbolKey cmd.symbol)
    · simp only [hpos, ↓reduceIte]
      exact h.insert (sub_nonneg.2 hpos)
    · simp only [hpos, ↓reduceIte]
      exact h.insert hentry

omit [Reqwest] in
/-- A fill of a non-negative size keeps the ledger solvent, at any price: a buy is covered by the
balance, a sale by the position. -/
theorem ExecutionState.Solvent.fill {state : ExecutionState} (h : state.Solvent)
    {cmd : OrderCommand} (hsize : 0 ≤ cmd.sizeQuote) (price : ℚ) :
    (state.fill cmd price).1.Solvent := by
  refine ⟨?_, ExecutionState.fill_positions_nonneg h.positions_nonneg hsize price⟩
  unfold ExecutionState.fill
  cases cmd.side with
  | buy =>
    by_cases hbal : cmd.sizeQuote ≤ state.balanceUsdt
    · simp only [hbal, ↓reduceIte]
      exact sub_nonneg.2 hbal
    · simpa only [hbal, ↓reduceIte] using h.balance_nonneg
  | sell =>
    by_cases hpos : baseUnits cmd.sizeQuote price ≤ state.positions.amount (symbolKey cmd.symbol)
    · simp only [hpos, ↓reduceIte]
      exact add_nonneg h.balance_nonneg hsize
    · simpa only [hpos, ↓reduceIte] using h.balance_nonneg

/-- An order, if there is one, has a non-negative size. -/
def ExecInput.SizeNonneg : ExecInput → Prop
  | .command (.ok cmd) _ _ => 0 ≤ cmd.sizeQuote
  | _ => True

theorem ExecutionState.Solvent.step {s : ExecutionService} (h : s.state.Solvent) {i : ExecInput}
    (hi : i.SizeNonneg) : (executionService.next s i).state.Solvent := by
  rcases state_step s i with hsame | ⟨cmd, now, exchange, rfl, hfill⟩
  · rw [hsame]
    exact h
  · rw [hfill]
    exact h.fill hi _

/-- **The ledger stays solvent**: from a non-negative initial balance, orders of non-negative size
never make the balance or a position negative, whatever their prices and whatever the breaker and
the configuration do in between. -/
theorem solvent_run {cfg : ExecutionConfig} {s : ExecutionService}
    (hnew : ExecutionService.new cfg = .ok s) (hinit : 0 ≤ cfg.initialBalanceUsdt)
    {is : List ExecInput} (his : ∀ i ∈ is, i.SizeNonneg) :
    0 ≤ (executionService.run s is).positions.1 ∧
      ∀ key units, (executionService.run s is).positions.2.lookup key = some units → 0 ≤ units := by
  obtain ⟨-, hstate⟩ := ExecutionService.new_spec hnew
  have h₀ : s.state.Solvent := by
    rw [hstate]
    exact ⟨hinit, Amounts.nonneg_empty⟩
  have hrun := Machine.run_invariant (M := executionService) (P := fun t => t.state.Solvent) h₀
    (fun _ _ ht hi => ht.step hi) his
  exact ⟨hrun.balance_nonneg, hrun.positions_nonneg⟩

/-- Orders at a positive, a zero and a negative price, around a blocked one. -/
def solventRun : List ExecInput :=
  [.command (.ok (sampleOrder "a" .buy 1000 (some 100))) 0 fun _ => .unsent "unreachable",
    .blockNewOrders,
    .command (.ok (sampleOrder "b" .sell 500 (some 100))) 1 fun _ => .unsent "unreachable",
    .resetCircuit,
    .command (.ok (sampleOrder "c" .sell 500 (some 0))) 2 fun _ => .unsent "unreachable",
    .command (.ok (sampleOrder "d" .buy 500 (some (-3)))) 3 fun _ => .unsent "unreachable"]

omit [CaseTable] [Reqwest] in
theorem solvent_sample :
    ∃ s, @ExecutionService.new ℚ acceptAll _ .default = .ok s ∧
      0 ≤ (sampleService.run s solventRun).positions.1 ∧
      ∀ key units, (sampleService.run s solventRun).positions.2.lookup key = some units →
        0 ≤ units := by
  refine ⟨_, rfl, ?_⟩
  exact @solvent_run asciiCase acceptAll .default _ rfl (by simp [ExecutionConfig.default])
    solventRun (by simp [solventRun, ExecInput.SizeNonneg, sampleOrder])

end Runs

end W2uos
