import W2uos.Backtest.Result
import W2uos.Exec.Sides
import W2uos.Log.Trades

/-!
# The profit of a backtest and the ledger

The same trades are accounted for twice: the execution service moves its balance, and the metrics of
a backtest add up a profit from the published results.  The metrics do not look at the side of a
result: they count a thousandth of whatever is filled as profit.

* `executedOn` : the quote amount of the commands of one side that the simulator executes;
* `PnlAgrees` : the profit of the metrics is the change of the balance;
* `quoteOn_results` : the filled results of a run are its executed commands;
* `balance_run`, `pnl_run` : both accounts in terms of the executed commands;
* `pnlAgrees_iff` : exactly when they agree.
-/

namespace W2uos

/-! ### Filled amounts -/

/-- **The profit of the metrics** is a thousandth of what is filled on both sides. -/
theorem BacktestMetrics.pnl_foldl (rs : List OrderResult) (metrics : BacktestMetrics) :
    (rs.foldl BacktestMetrics.record metrics).pnl =
      metrics.pnl + (quoteOn .buy rs + quoteOn .sell rs) * (1 / 1000) := by
  induction rs generalizing metrics with
  | nil => simp
  | cons r rs ih =>
    rw [List.foldl_cons, ih, quoteOn_cons, quoteOn_cons, BacktestMetrics.record]
    cases hstatus : r.status with
    | new => simp
    | rejected reason => simp
    | filled =>
      cases hside : r.side with
      | buy =>
        simp only [reduceCtorEq, and_true, and_false, if_true, if_false]
        ring
      | sell =>
        simp only [reduceCtorEq, and_true, and_false, if_true, if_false]
        ring

/-! ### Executed commands -/

section Pnl

variable [CaseTable]

omit [CaseTable] in
instance (s : ExecutionService) : Decidable s.Simulates := inferInstanceAs (Decidable (_ ∧ _))

/-- The quote amount of a command of the given side, if the simulator executes it. -/
def ExecInput.executed (side : OrderSide) (s : ExecutionService) : ExecInput → ℚ
  | .command (.ok cmd) _ _ =>
    if cmd.side = side ∧ s.Simulates ∧ ¬ s.state.Declines cmd (s.priceOf cmd) then cmd.sizeQuote
    else 0
  | _ => 0

variable [Reqwest]

/-- The quote amount of the commands of the given side that the simulator executes. -/
def executedOn (side : OrderSide) (s : ExecutionService) : List ExecInput → ℚ
  | [] => 0
  | i :: is => i.executed side s + executedOn side (executionService.next s i) is

/-- No position is open. -/
def ExecutionService.Flat (s : ExecutionService) : Prop := ∀ key, s.positions.2.amount key = 0

/-- The profit that the metrics make of the results of a run is the change of the balance. -/
def PnlAgrees (s : ExecutionService) (is : List ExecInput) : Prop :=
  ((ExecOutput.results (executionService.output s is)).foldl BacktestMetrics.record
      BacktestMetrics.default).toResult.pnl =
    (executionService.run s is).positions.1 - s.positions.1

theorem quoteOn_emit (side : OrderSide) (s : ExecutionService) (i : ExecInput) :
    quoteOn side (ExecOutput.results (executionService.emit s i)) = i.executed side s := by
  cases i with
  | command msg now exchange =>
    cases msg with
    | error err => rfl
    | ok cmd =>
      rw [results_emit_command, ExecInput.executed]
      by_cases hfill : s.Simulates ∧ ¬ s.state.Declines cmd (s.priceOf cmd)
      · rw [(hfill.1.filled hfill.2 now exchange).1, Except.toOption, Option.toList_some,
          quoteOn_singleton]
        simp [OrderCommand.result, hfill]
      · rw [if_neg fun h => hfill h.2]
        cases hr : (s.handleCommand cmd now exchange).result with
        | error err => rfl
        | ok r =>
          have hne : ¬ (r.status = .filled ∧ r.side = side) := fun h =>
            hfill (simulates_of_filled hr h.1)
          rw [Except.toOption, Option.toList_some, quoteOn_singleton, if_neg hne]
  | configUpdate msg => cases msg <;> rfl
  | blockNewOrders => rfl
  | resetCircuit => rfl

/-- **The filled results of a run are its executed commands.** -/
theorem quoteOn_results (side : OrderSide) (s : ExecutionService) (is : List ExecInput) :
    quoteOn side (ExecOutput.results (executionService.output s is)) = executedOn side s is := by
  induction is generalizing s with
  | nil => rfl
  | cons i is ih =>
    rw [Machine.output_cons, results_append, quoteOn_append, quoteOn_emit, ih, executedOn]

theorem balance_run (s : ExecutionService) (is : List ExecInput) :
    (executionService.run s is).positions.1 =
      s.positions.1 - executedOn .buy s is + executedOn .sell s is := by
  have hbal := congrArg Account.balance (account_run s is)
  rw [Account.balance_postAll, cash_postings, quoteOn_results, quoteOn_results] at hbal
  calc (executionService.run s is).positions.1
      = s.positions.1 + (-executedOn .buy s is + executedOn .sell s is) := hbal
    _ = _ := by ring

theorem pnl_run (s : ExecutionService) (is : List ExecInput) :
    ((ExecOutput.results (executionService.output s is)).foldl BacktestMetrics.record
      BacktestMetrics.default).toResult.pnl =
      (executedOn .buy s is + executedOn .sell s is) * (1 / 1000) := by
  rw [BacktestMetrics.toResult, BacktestMetrics.pnl_foldl, quoteOn_results, quoteOn_results]
  simp [BacktestMetrics.default]

/-- **Exactly when the metrics agree with the ledger**: the executed sales are worth 1001 for every
999 of the executed buys. -/
theorem pnlAgrees_iff (s : ExecutionService) (is : List ExecInput) :
    PnlAgrees s is ↔ 1001 * executedOn .buy s is = 999 * executedOn .sell s is := by
  rw [PnlAgrees, pnl_run, balance_run]
  constructor
  · intro h
    linarith
  · intro h
    linarith

theorem executedOn_nonneg (side : OrderSide) (s : ExecutionService) {is : List ExecInput}
    (his : ∀ i ∈ is, i.SizeNonneg) : 0 ≤ executedOn side s is := by
  induction is generalizing s with
  | nil => exact le_rfl
  | cons i is ih =>
    refine add_nonneg ?_ (ih _ fun j hj => his j (List.mem_cons_of_mem _ hj))
    have hi := his i List.mem_cons_self
    unfold ExecInput.executed
    split
    · split_ifs
      · exact hi
      · exact le_rfl
    · exact le_rfl

/-- **The metrics never report a loss**, whatever the trades lose. -/
theorem pnl_nonneg (s : ExecutionService) {is : List ExecInput} (his : ∀ i ∈ is, i.SizeNonneg) :
    0 ≤ ((ExecOutput.results (executionService.output s is)).foldl BacktestMetrics.record
      BacktestMetrics.default).toResult.pnl := by
  rw [pnl_run]
  exact mul_nonneg (add_nonneg (executedOn_nonneg _ s his) (executedOn_nonneg _ s his))
    (by norm_num)

end Pnl

/-- Ten units bought at 100 and sold at 90. -/
def losingTrip : List ExecInput :=
  [.command (.ok (sampleOrder "a" .buy 1000 (some 100))) 0 fun _ => .unsent "unreachable",
    .command (.ok (sampleOrder "b" .sell 900 (some 90))) 1 fun _ => .unsent "unreachable"]

/-- **A loss reported as a profit**: the round trip costs 100, and the metrics make it a profit. -/
theorem not_pnlAgrees :
    ∃ s, @ExecutionService.new ℚ acceptAll _ .default = .ok s ∧ s.Flat ∧
      (sampleService.run s losingTrip).Flat ∧
      (sampleService.run s losingTrip).positions.1 - s.positions.1 = -100 ∧
      ¬ @PnlAgrees asciiCase acceptAll s losingTrip := by
  obtain ⟨s, hnew, hempty, hsold, hbalance, hpnl⟩ :
      ∃ s, @ExecutionService.new ℚ acceptAll _ .default = .ok s ∧ s.positions.2 = ∅ ∧
        (sampleService.run s losingTrip).positions.2 = (∅ : Amounts String ℚ).insert "BTCUSDT" 0 ∧
        (sampleService.run s losingTrip).positions.1 - s.positions.1 = -100 ∧
        ((ExecOutput.results (sampleService.output s losingTrip)).foldl BacktestMetrics.record
          BacktestMetrics.default).toResult.pnl = 19 / 10 := ⟨_, rfl, by decide +kernel⟩
  refine ⟨s, hnew, fun key => ?_, fun key => ?_, hbalance, fun hagrees => ?_⟩
  · rw [hempty, Amounts.amount_empty]
  · rw [hsold]
    by_cases hkey : key = "BTCUSDT"
    · rw [hkey, Amounts.amount_insert_self]
    · rw [Amounts.amount_insert_ne _ _ hkey, Amounts.amount_empty]
  · have hgain : (19 / 10 : ℚ) = -100 := hpnl.symm.trans (hagrees.trans hbalance)
    norm_num at hgain

end W2uos
