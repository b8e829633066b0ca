import W2uos.Data.Markets
import W2uos.Exec.Ledger
import W2uos.Strategy.Types

/-!
# Holdings of different markets

The simulated ledger keeps what is held of a market under the code of its symbol.  The exchange is
not part of the key, and neither is the place where the base ends, so several markets can share an
entry: an order for one of them then moves what is recorded for the others, and may sell what was
bought under another.  Orders without a limit share one more thing, the counter their prices are
taken from, and every one of them moves it on.

* `amount_run` : what the ledger holds of a market that has its key to itself;
* `ledgerSeparated_iff`, `not_ledgerSeparated` : exactly when the ledger keeps the markets apart.
-/

namespace W2uos

/-- The market of a command. -/
def OrderCommand.pair (cmd : OrderCommand) : PairId where
  exchange := cmd.exchange
  symbol := cmd.symbol

/-- The market of a result. -/
def OrderResult.pair (r : OrderResult) : PairId where
  exchange := r.exchange
  symbol := r.symbol

section Holdings

variable [CaseTable]

/-- The pairs name one market: the exchange is the same, and base and quote are the same up to
letter case. -/
def PairId.Same (p q : PairId) : Prop := p.exchange = q.exchange ∧ p.symbol.SameUpToCase q.symbol

instance (p q : PairId) : Decidable (p.Same q) := inferInstanceAs (Decidable (_ ∧ _))

/-- The units of the filled results of one side and one market. -/
def unitsUnder (side : OrderSide) (p : PairId) (rs : List OrderResult) : ℚ :=
  (((filledOn side rs).filter fun r => r.pair.Same p).map (·.units)).sum

/-- What is held of a market by its own results. -/
def holdingUnder (p : PairId) (rs : List OrderResult) : ℚ :=
  unitsUnder .buy p rs - unitsUnder .sell p rs

/-- The command would be executed by the simulator. -/
def ExecutionService.Simulates (s : ExecutionService) : Prop :=
  s.blockNewOrders = false ∧ (s.config.mode = .liveOkx → s.okxClient = none)

/-- The next command is filled. -/
def ExecutionService.Fills (s : ExecutionService) (cmd : OrderCommand) (now : DateTime)
    (exchange : OkxOrderRequest → Transmission) : Prop :=
  ∃ r, (s.handleCommand cmd now exchange).result = .ok r ∧ r.status = .filled

/-- The run has commands for markets of `T` only, and the simulator executes the next one. -/
def SimulatedRun [Reqwest] (s : ExecutionService) (T : Set PairId) (is : List ExecInput) : Prop :=
  (∀ cmd ∈ ExecInput.commands is, cmd.pair ∈ T) ∧ (executionService.run s is).Simulates

/-- Executing the command leaves what is recorded for the other markets of `T` as it is, and after
runs that hold the same of its own market it is filled if a sale alike. -/
structure LedgerSeparated [Reqwest] (s : ExecutionService) (T : Set PairId) (cmd : OrderCommand) :
    Prop where
  frame : ∀ is, SimulatedRun s T is → ∀ now exchange, ∀ p ∈ T, ¬ p.Same cmd.pair →
    ((executionService.run s is).handleCommand cmd now exchange).service.positions.2.amount
        (symbolKey p.symbol) =
      (executionService.run s is).positions.2.amount (symbolKey p.symbol)
  sale : cmd.side = .sell → ∀ is is', SimulatedRun s T is → SimulatedRun s T is' →
    holdingUnder cmd.pair (ExecOutput.results (executionService.output s is)) =
      holdingUnder cmd.pair (ExecOutput.results (executionService.output s is')) →
    ∀ now exchange, (executionService.run s is).Fills cmd now exchange ↔
      (executionService.run s is').Fills cmd now exchange

/-- The markets of `T` with the code of a market are on its exchange, and the code is split at the
same place. -/
def KeyAlone (T : Set PairId) (p : PairId) : Prop :=
  ∀ q ∈ T, q.symbol.code = p.symbol.code →
    q.exchange = p.exchange ∧
      (toUppercase q.symbol.base).length = (toUppercase p.symbol.base).length

theorem KeyAlone.same_iff {T : Set PairId} {p q : PairId} (h : KeyAlone T p) (hq : q ∈ T) :
    q.Same p ↔ symbolKey q.symbol = symbolKey p.symbol := by
  rw [symbolKey_eq_iff, PairId.Same, Symbol.sameUpToCase_iff]
  constructor
  · exact fun hsame => hsame.2.1
  · intro hcode
    obtain ⟨hexchange, hlength⟩ := h q hq hcode
    exact ⟨hexchange, hcode, hlength⟩

/-- If the key of a market is not its own, another market of `T` has it. -/
theorem exists_other_of_not_keyAlone {T : Set PairId} {p : PairId} (h : ¬ KeyAlone T p) :
    ∃ q ∈ T, ¬ q.Same p ∧ symbolKey q.symbol = symbolKey p.symbol := by
  unfold KeyAlone at h
  push Not at h
  obtain ⟨q, hq, hcode, hsplit⟩ := h
  refine ⟨q, hq, ?_, (symbolKey_eq_iff _ _).2 hcode⟩
  rw [PairId.Same, Symbol.sameUpToCase_iff]
  exact fun hsame => hsplit hsame.1 hsame.2.2

/-- The command moves units if it is filled. -/
def OrderCommand.Moves (cmd : OrderCommand) : Prop :=
  cmd.sizeQuote ≠ 0 ∧ ∀ price, cmd.limitPrice = some price → 0 < price

/-- A buy moves no units, or its market has its key to itself.  A sale has its market's key to
itself and is at a limit price, or of no size. -/
def KeepsApart (T : Set PairId) (cmd : OrderCommand) : Prop :=
  match cmd.side with
  | .buy => cmd.Moves → KeyAlone T cmd.pair
  | .sell => KeyAlone T cmd.pair ∧ (cmd.limitPrice = none → cmd.sizeQuote = 0)

/-! ### The results of a market -/

theorem ExecutionService.handleCommand_pair {s : ExecutionService} {cmd : OrderCommand}
    {now : DateTime} {exchange : OkxOrderRequest → Transmission} {r : OrderResult}
    (hr : (s.handleCommand cmd now exchange).result = .ok r) : r.pair = cmd.pair := by
  rcases s.handleCommand_cases cmd now exchange with ⟨-, heq⟩ | ⟨client, -, -, -, heq⟩ | ⟨-, -, heq⟩
  · rw [heq] at hr
    cases hr
    rfl
  · rw [heq] at hr
    unfold submit at hr
    cases hanswer : (client.placeOrder cmd exchange).2 with
    | error err => simp [hanswer, Except.map] at hr
    | ok resp =>
      simp only [hanswer, Except.map, Except.ok.injEq] at hr
      rw [← hr]
      rfl
  · rw [heq, s.simulate_result] at hr
    cases hr
    rfl

theorem pair_of_mem_results [Reqwest] (s : ExecutionService) (is : List ExecInput)
    {r : OrderResult} (hr : r ∈ ExecOutput.results (executionService.output s is)) :
    ∃ cmd ∈ ExecInput.commands is, r.pair = cmd.pair := by
  induction is using List.reverseRecOn with
  | nil => cases hr
  | append_singleton is i ih =>
    rw [Machine.output_concat, results_append] at hr
    rw [commands_concat]
    rcases List.mem_append.1 hr with hr | hr
    · obtain ⟨cmd, hcmd, hpair⟩ := ih hr
      exact ⟨cmd, List.mem_append_left _ hcmd, hpair⟩
    · -- only a command that decodes has a result
      cases i with
      | command msg now exchange =>
        cases msg with
        | error err => cases hr
        | ok cmd =>
          rw [results_emit_command, Option.mem_toList] at hr
          refine ⟨cmd, List.mem_append_right _ (List.mem_singleton.2 rfl), ?_⟩
          cases hres : ((executionService.run s is).handleCommand cmd now exchange).result with
          | error err =>
            rw [hres] at hr
            cases hr
          | ok r' =>
            rw [hres] at hr
            cases hr
            exact ExecutionService.handleCommand_pair hres
      | configUpdate msg => cases msg <;> cases hr
      | blockNewOrders => cases hr
      | resetCircuit => cases hr

/-- The units under a key are those of the market, if the results with the key are its own. -/
theorem unitsOn_eq_unitsUnder (side : OrderSide) {p : PairId} {rs : List OrderResult}
    (h : ∀ r ∈ rs, r.pair.Same p ↔ symbolKey r.symbol = symbolKey p.symbol) :
    unitsOn side (symbolKey p.symbol) rs = unitsUnder side p rs := by
  have hfilter : ((filledOn side rs).filter fun r => symbolKey r.symbol = symbolKey p.symbol) =
      (filledOn side rs).filter fun r => r.pair.Same p := by
    refine List.filter_congr ?_
    intro r hr
    exact decide_eq_decide.2 (h r (List.mem_of_mem_filter hr)).symm
  rw [unitsOn, unitsUnder, hfilter]

/-- **What the ledger holds**: what the results of the market add up to, if no other market that was
ordered has its key. -/
theorem amount_run [Reqwest] {cfg : ExecutionConfig} {s : ExecutionService}
    (hnew : ExecutionService.new cfg = .ok s) {T : Set PairId} {p : PairId} (hkey : KeyAlone T p)
    {is : List ExecInput} (his : ∀ cmd ∈ ExecInput.commands is, cmd.pair ∈ T) :
    (executionService.run s is).positions.2.amount (symbolKey p.symbol) =
      holdingUnder p (ExecOutput.results (executionService.output s is)) := by
  have hown : ∀ r ∈ ExecOutput.results (executionService.output s is),
      r.pair.Same p ↔ symbolKey r.symbol = symbolKey p.symbol := by
    intro r hr
    obtain ⟨cmd, hcmd, hpair⟩ := pair_of_mem_results s is hr
    exact hkey.same_iff (hpair ▸ his cmd hcmd)
  have hholding := congrFun (congrArg Account.holding (account_run s is)) (symbolKey p.symbol)
  rw [Account.holding_postAll, units_postings, (ExecutionService.new_spec hnew).2,
    unitsOn_eq_unitsUnder .buy hown, unitsOn_eq_unitsUnder .sell hown] at hholding
  calc (executionService.run s is).positions.2.amount (symbolKey p.symbol)
      = 0 + holdingUnder p _ := hholding
    _ = _ := zero_add _

/-! ### One command -/

theorem ExecutionState.fill_amount_ne (state : ExecutionState) (cmd : OrderCommand) (price : ℚ)
    {key : String} (hkey : key ≠ symbolKey cmd.symbol) :
    (state.fill cmd price).1.positions.amount key = state.positions.amount key := by
  unfold fill
  cases cmd.side with
  | buy =>
    dsimp only
    split_ifs
    · exact Amounts.amount_insert_ne _ _ hkey
    · rfl
  | sell =>
    dsimp only
    split_ifs
    · exact Amounts.amount_insert_ne _ _ hkey
    · exact Amounts.amount_insert_ne _ _ hkey

theorem ExecutionState.fill_sell_filled_iff (state : ExecutionState) {cmd : OrderCommand}
    (hside : cmd.side = .sell) (price : ℚ) :
    (state.fill cmd price).2 = .filled ↔
      baseUnits cmd.sizeQuote price ≤ state.positions.amount (symbolKey cmd.symbol) := by
  unfold fill
  rw [hside]
  dsimp only
  split_ifs with hunits
  · simp [hunits]
  · simp [hunits]

theorem ExecutionService.Simulates.handleCommand {s : ExecutionService} (h : s.Simulates)
    (cmd : OrderCommand) (now : DateTime) (exchange : OkxOrderRequest → Transmission) :
    s.handleCommand cmd now exchange = s.simulate cmd now := by
  rcases s.handleCommand_cases cmd now exchange with ⟨hblock, -⟩ | ⟨client, -, hlive, hclient, -⟩ |
    ⟨-, -, heq⟩
  · exact absurd (h.1.symm.trans hblock) Bool.false_ne_true
  · exact absurd ((h.2 hlive).symm.trans hclient) (by simp)
  · exact heq

theorem ExecutionService.simulate_positions (s : ExecutionService) (cmd : OrderCommand)
    (now : DateTime) :
    (s.simulate cmd now).service.positions.2 = (s.state.fill cmd (s.priceOf cmd)).1.positions := by
  rw [simulate_service]
  rfl

/-! ### Separation -/

section Separation

variable [Reqwest] {cfg : ExecutionConfig} {s : ExecutionService} {T : Set PairId}
  {is : List ExecInput} {cmd : OrderCommand}

omit [Reqwest] in
theorem ExecutionService.Simulates.fills_iff {t : ExecutionService} (h : t.Simulates)
    (cmd : OrderCommand) (now : DateTime) (exchange : OkxOrderRequest → Transmission) :
    t.Fills cmd now exchange ↔ (t.state.fill cmd (t.priceOf cmd)).2 = .filled := by
  rw [ExecutionService.Fills, h.handleCommand, ExecutionService.simulate_result]
  simp [OrderCommand.result]

theorem SimulatedRun.concat (h : SimulatedRun s T is) (hcmd : cmd.pair ∈ T) :
    let t := executionService.run s is
    let is' := is ++ [.command (.ok cmd) 0 fun _ => .unsent ""]
    SimulatedRun s T is' ∧
      (executionService.run s is').state = (t.state.fill cmd (t.priceOf cmd)).1 ∧
      (executionService.run s is').fillCounter = (t.nextFillPrice cmd.limitPrice).2.fillCounter ∧
      ExecOutput.results (executionService.output s is') =
        ExecOutput.results (executionService.output s is) ++
          (t.simulate cmd 0).result.toOption.toList := by
  intro t is'
  have hservice : executionService.run s is' = (t.simulate cmd 0).service := by
    rw [Machine.run_concat, ← h.2.handleCommand cmd 0 fun _ => .unsent ""]
    rfl
  have hkeeps : (t.nextFillPrice cmd.limitPrice).2.Simulates := by
    unfold ExecutionService.nextFillPrice
    cases cmd.limitPrice <;> exact h.2
  rw [hservice, ExecutionService.simulate_service]
  refine ⟨⟨?_, ?_⟩, rfl, rfl, ?_⟩
  · intro c hc
    rw [commands_concat] at hc
    rcases List.mem_append.1 hc with hc | hc
    · exact h.1 c hc
    · rw [List.mem_singleton.1 hc]
      exact hcmd
  · rw [hservice, ExecutionService.simulate_service]
    exact hkeeps
  · rw [Machine.output_concat, results_append, results_emit_command, h.2.handleCommand]

theorem simulatedRun_start (hnew : ExecutionService.new cfg = .ok s) (T : Set PairId) :
    ∃ is, SimulatedRun s T is ∧
      (executionService.run s is).state = ⟨cfg.initialBalanceUsdt, ∅⟩ ∧
      (executionService.run s is).fillCounter = 30000 ∧
      ExecOutput.results (executionService.output s is) = [] := by
  have hblock : (s.updateConfig .default).blockNewOrders = false := by
    obtain ⟨httpClient, trafficShaper, rfl⟩ := ExecutionService.new_cases hnew
    unfold ExecutionService.updateConfig
    cases buildClientAndShaper ExecutionConfig.default.netProfile <;> rfl
  refine ⟨[.configUpdate (some .default)], ⟨by simp [ExecInput.commands], hblock, ?_⟩, ?_, ?_, rfl⟩
  · intro hlive
    have hmode : (s.updateConfig .default).config.mode = .simulated := rfl
    exact absurd (hmode.symm.trans hlive) (by decide)
  · exact (s.updateConfig_state .default).trans (ExecutionService.new_spec hnew).2
  · refine (s.updateConfig_fillCounter .default).trans ?_
    obtain ⟨httpClient, trafficShaper, rfl⟩ := ExecutionService.new_cases hnew
    rfl

/-- A limit order for a market. -/
def limitOrder (p : PairId) (side : OrderSide) (sizeQuote price : ℚ) : OrderCommand where
  id := ""
  exchange := p.exchange
  symbol := p.symbol
  side := side
  orderType := .limit
  sizeQuote := sizeQuote
  limitPrice := some price
  traceId := none

omit [Reqwest] in
/-- An entry of nothing can be moved to any amount: upwards by a sale of a negative size, and
downwards by a buy of one, at a price high enough for the balance. -/
theorem exists_limitOrder_amount (state : ExecutionState) (p : PairId)
    (hzero : state.positions.amount (symbolKey p.symbol) = 0) (x : ℚ) :
    ∃ side size price, (state.fill (limitOrder p side size price) price).1.positions.amount
      (symbolKey p.symbol) = x := by
  rcases le_or_gt 0 x with hx | hx
  · refine ⟨.sell, -x, 1, ?_⟩
    have haccept : state.Accepts (limitOrder p .sell (-x) 1) 1 := by
      show baseUnits (-x) 1 ≤ state.positions.amount (symbolKey p.symbol)
      rw [hzero, baseUnits, if_pos one_pos]
      linarith
    rw [(ExecutionState.fill_accepted haccept).2]
    refine (Amounts.amount_insert_self _ _ _).trans ?_
    show state.positions.amount (symbolKey p.symbol) - baseUnits (-x) 1 = x
    rw [hzero, baseUnits, if_pos one_pos]
    ring
  · have hprice : 0 < max 1 (state.balanceUsdt / x) := lt_max_of_lt_left one_pos
    refine ⟨.buy, x * max 1 (state.balanceUsdt / x), max 1 (state.balanceUsdt / x), ?_⟩
    have haccept : state.Accepts (limitOrder p .buy (x * max 1 (state.balanceUsdt / x))
        (max 1 (state.balanceUsdt / x))) (max 1 (state.balanceUsdt / x)) := by
      show x * max 1 (state.balanceUsdt / x) ≤ state.balanceUsdt
      calc x * max 1 (state.balanceUsdt / x)
          ≤ x * (state.balanceUsdt / x) := mul_le_mul_of_nonpos_left (le_max_right _ _) hx.le
        _ = state.balanceUsdt := mul_div_cancel₀ _ hx.ne
    rw [(ExecutionState.fill_accepted haccept).2]
    refine (Amounts.amount_insert_self _ _ _).trans ?_
    show state.positions.amount (symbolKey p.symbol) +
      baseUnits (x * max 1 (state.balanceUsdt / x)) (max 1 (state.balanceUsdt / x)) = x
    rw [hzero, baseUnits, if_pos hprice, mul_div_cancel_right₀ _ hprice.ne', zero_add]

omit [Reqwest] in
theorem holdingUnder_eq_zero {p : PairId} {rs : List OrderResult}
    (h : ∀ r ∈ rs, ¬ r.pair.Same p) : holdingUnder p rs = 0 := by
  have hnone : ∀ side, unitsUnder side p rs = 0 := by
    intro side
    have hempty : ((filledOn side rs).filter fun r => r.pair.Same p) = [] :=
      List.filter_eq_nil_iff.2 fun r hr => by simpa using h r (List.mem_of_mem_filter hr)
    rw [unitsUnder, hempty]
    rfl
  rw [holdingUnder, hnone, hnone, sub_zero]

theorem exists_run_amount (hnew : ExecutionService.new cfg = .ok s) {q : PairId} (hq : q ∈ T)
    (x : ℚ) :
    ∃ is, SimulatedRun s T is ∧ (executionService.run s is).fillCounter = 30000 ∧
      (executionService.run s is).state.positions.amount (symbolKey q.symbol) = x ∧
      ∀ r ∈ ExecOutput.results (executionService.output s is), r.pair = q := by
  obtain ⟨is, hrun, hstate, hcounter, hresults⟩ := simulatedRun_start hnew T
  have hzero : (executionService.run s is).state.positions.amount (symbolKey q.symbol) = 0 := by
    rw [hstate]
    exact Amounts.amount_empty _
  obtain ⟨side, size, price, hamount⟩ := exists_limitOrder_amount _ q hzero x
  obtain ⟨hrun', hstate', hcounter', hresults'⟩ :=
    hrun.concat (show (limitOrder q side size price).pair ∈ T from hq)
  refine ⟨_, hrun', hcounter'.trans hcounter, ?_, ?_⟩
  · rw [hstate']
    exact hamount
  · rw [hresults', hresults, ExecutionService.simulate_result]
    simp [Except.toOption, OrderCommand.result, OrderResult.pair, limitOrder]

omit [CaseTable] [Reqwest] in
theorem baseUnits_zero (price : ℚ) : baseUnits 0 price = 0 := by
  unfold baseUnits
  split_ifs <;> simp

omit [Reqwest] in
theorem fill_amount_of_units_eq_zero (state : ExecutionState) {price : ℚ}
    (hunits : baseUnits cmd.sizeQuote price = 0) (key : String) :
    (state.fill cmd price).1.positions.amount key = state.positions.amount key := by
  by_cases haccept : state.Accepts cmd price
  · rw [(ExecutionState.fill_accepted haccept).2, hunits]
    by_cases hkey : key = symbolKey cmd.symbol
    · rw [hkey, Amounts.amount_insert_self]
      cases cmd.side <;> simp [OrderSide.shift]
    · exact Amounts.amount_insert_ne _ _ hkey
  · exact (ExecutionState.fill_declined haccept).2 key

theorem keyAlone_of_separated (hnew : ExecutionService.new cfg = .ok s)
    (hside : cmd.side = .sell) (h : LedgerSeparated s T cmd) : KeyAlone T cmd.pair := by
  by_contra halone
  obtain ⟨q, hq, hother, hkey⟩ := exists_other_of_not_keyAlone halone
  -- nothing is held of the market, and of the other one as much as decides the sale
  obtain ⟨is, hrun, hstate, hcounter, hresults⟩ := simulatedRun_start hnew T
  let units := baseUnits cmd.sizeQuote ((executionService.run s is).priceOf cmd)
  obtain ⟨is', hrun', hcounter', hamount', hresults'⟩ :=
    exists_run_amount hnew hq (if units ≤ 0 then units - 1 else units)
  have hprice : (executionService.run s is').priceOf cmd =
      (executionService.run s is).priceOf cmd := by
    unfold ExecutionService.priceOf ExecutionService.nextFillPrice
    cases cmd.limitPrice with
    | none => simp [hcounter, hcounter']
    | some price => rfl
  have hholdings : holdingUnder cmd.pair (ExecOutput.results (executionService.output s is)) =
      holdingUnder cmd.pair (ExecOutput.results (executionService.output s is')) := by
    have hnone : holdingUnder cmd.pair (ExecOutput.results (executionService.output s is')) = 0 :=
      holdingUnder_eq_zero fun r hr => by rwa [hresults' r hr]
    rw [hresults, hnone]
    exact holdingUnder_eq_zero (by simp)
  have hsale := h.sale hside is is' hrun hrun' hholdings 0 fun _ => .unsent ""
  rw [hrun.2.fills_iff, hrun'.2.fills_iff, ExecutionState.fill_sell_filled_iff _ hside,
    ExecutionState.fill_sell_filled_iff _ hside, hprice, hstate] at hsale
  have hown : symbolKey cmd.symbol = symbolKey q.symbol := hkey.symm
  rw [Amounts.amount_empty, hown, hamount'] at hsale
  by_cases hunits : units ≤ 0
  · rw [if_pos hunits] at hsale
    have hle : units ≤ units - 1 := hsale.1 hunits
    linarith
  · rw [if_neg hunits] at hsale
    exact hunits (hsale.2 le_rfl)

theorem size_eq_zero_of_separated (hnew : ExecutionService.new cfg = .ok s) (hcmd : cmd.pair ∈ T)
    (hside : cmd.side = .sell) (h : LedgerSeparated s T cmd) (hmarket : cmd.limitPrice = none) :
    cmd.sizeQuote = 0 := by
  have halone := keyAlone_of_separated hnew hside h
  -- enough is held at one of two values of the counter only
  obtain ⟨is, hrun, hcounter, hamount, -⟩ :=
    exists_run_amount hnew hcmd (min (cmd.sizeQuote / 30010) (cmd.sizeQuote / 30020))
  let filler : OrderCommand :=
    { limitOrder cmd.pair .buy 0 0 with orderType := .market, limitPrice := none }
  obtain ⟨hrun', hstate', hcounter', -⟩ := hrun.concat (show filler.pair ∈ T from hcmd)
  have hsame := fill_amount_of_units_eq_zero (executionService.run s is).state
    (show baseUnits filler.sizeQuote ((executionService.run s is).priceOf filler) = 0 from
      baseUnits_zero _) (symbolKey cmd.symbol)
  rw [← hstate'] at hsame
  have hholdings := (amount_run hnew halone hrun.1).symm.trans
    (hsame.symm.trans (amount_run hnew halone hrun'.1))
  have hsale := h.sale hside is _ hrun hrun' hholdings 0 fun _ => .unsent ""
  rw [hrun.2.fills_iff, hrun'.2.fills_iff, ExecutionState.fill_sell_filled_iff _ hside,
    ExecutionState.fill_sell_filled_iff _ hside, hsame] at hsale
  have hprice : ∀ t : ExecutionService, t.priceOf cmd = t.fillCounter + 10 := by
    intro t
    unfold ExecutionService.priceOf ExecutionService.nextFillPrice
    rw [hmarket]
  have hnext : (executionService.run s (is ++ [.command (.ok filler) 0 fun _ =>
      .unsent ""])).fillCounter = 30010 := by
    rw [hcounter']
    show (executionService.run s is).fillCounter + 10 = 30010
    rw [hcounter]
    norm_num
  have hown : (executionService.run s is).state.positions.amount (symbolKey cmd.symbol) =
      min (cmd.sizeQuote / 30010) (cmd.sizeQuote / 30020) := hamount
  rw [hprice, hprice, hcounter, hnext, hown, baseUnits, baseUnits, if_pos (by norm_num),
    if_pos (by norm_num), le_min_iff, le_min_iff] at hsale
  norm_num at hsale
  rcases le_total (cmd.sizeQuote / 30010) (cmd.sizeQuote / 30020) with hle | hle
  · have hge := hsale.1 hle
    linarith
  · have hge := hsale.2 hle
    linarith

theorem keyAlone_of_separated_buy (hnew : ExecutionService.new cfg = .ok s) (hcmd : cmd.pair ∈ T)
    (hside : cmd.side = .buy) (hmoves : cmd.Moves) (h : LedgerSeparated s T cmd) :
    KeyAlone T cmd.pair := by
  by_contra halone
  obtain ⟨q, hq, hother, hkey⟩ := exists_other_of_not_keyAlone halone
  obtain ⟨is, hrun, hstate, hcounter, -⟩ := simulatedRun_start hnew T
  -- a sale at the price zero raises the balance and moves no units
  let raise := max 0 (cmd.sizeQuote - cfg.initialBalanceUsdt)
  let filler := limitOrder cmd.pair .sell raise 0
  have hraise : (executionService.run s is).state.Accepts filler
      ((executionService.run s is).priceOf filler) := by
    rw [hstate]
    show baseUnits raise 0 ≤ Amounts.amount ∅ _
    rw [baseUnits, if_neg (lt_irrefl 0), Amounts.amount_empty]
  obtain ⟨hrun', hstate', hcounter', -⟩ := hrun.concat (show filler.pair ∈ T from hcmd)
  have hbalance : cmd.sizeQuote ≤ (executionService.run s (is ++ [.command (.ok filler) 0 fun _ =>
      .unsent ""])).state.balanceUsdt := by
    have hfilled : ((executionService.run s is).state.fill filler
        ((executionService.run s is).priceOf filler)).1.balanceUsdt =
        cfg.initialBalanceUsdt + raise := by
      unfold ExecutionState.fill
      rw [hstate] at hraise ⊢
      exact congrArg (fun p : ExecutionState × OrderStatus => p.1.balanceUsdt) (if_pos hraise)
    rw [hstate', hfilled]
    have hle := le_max_right 0 (cmd.sizeQuote - cfg.initialBalanceUsdt)
    linarith
  generalize is ++ [.command (.ok filler) 0 fun _ => .unsent ""] = is' at hrun' hcounter' hbalance
  have hprice : 0 < (executionService.run s is').priceOf cmd := by
    have hcounter : (executionService.run s is').fillCounter = 30000 := hcounter'.trans hcounter
    unfold ExecutionService.priceOf ExecutionService.nextFillPrice
    cases hlimit : cmd.limitPrice with
    | none =>
      show 0 < (executionService.run s is').fillCounter + 10
      rw [hcounter]
      norm_num
    | some price => exact hmoves.2 price hlimit
  have haccept : (executionService.run s is').state.Accepts cmd
      ((executionService.run s is').priceOf cmd) := by
    unfold ExecutionState.Accepts
    rw [hside]
    exact hbalance
  have hframe := h.frame is' hrun' 0 (fun _ => .unsent "") q hq hother
  have hown : symbolKey q.symbol = symbolKey cmd.symbol := hkey
  rw [hrun'.2.handleCommand, ExecutionService.simulate_positions,
    (ExecutionState.fill_accepted haccept).2, hown, Amounts.amount_insert_self, hside] at hframe
  have hunits : baseUnits cmd.sizeQuote ((executionService.run s is').priceOf cmd) = 0 :=
    add_eq_left.1 hframe
  rw [baseUnits, if_pos hprice, div_eq_zero_iff] at hunits
  exact hunits.elim hmoves.1 hprice.ne'

omit [CaseTable] [Reqwest] in
theorem units_of_not_moves (hstill : ¬ cmd.Moves) (t : ExecutionService) :
    baseUnits cmd.sizeQuote (t.priceOf cmd) = 0 := by
  unfold OrderCommand.Moves at hstill
  by_cases hsize : cmd.sizeQuote = 0
  · rw [hsize, baseUnits_zero]
  · push Not at hstill
    obtain ⟨price, hlimit, hprice⟩ := hstill hsize
    unfold ExecutionService.priceOf ExecutionService.nextFillPrice
    rw [hlimit]
    exact if_neg (not_lt.2 hprice)

omit [Reqwest] in
theorem KeepsApart.amount_fill (h : KeepsApart T cmd) {p : PairId} (hp : p ∈ T)
    (hne : ¬ p.Same cmd.pair) (t : ExecutionService) :
    (t.state.fill cmd (t.priceOf cmd)).1.positions.amount (symbolKey p.symbol) =
      t.state.positions.amount (symbolKey p.symbol) := by
  by_cases halone : KeyAlone T cmd.pair
  · exact ExecutionState.fill_amount_ne _ _ _ fun hkey => hne ((halone.same_iff hp).2 hkey)
  · -- a buy of no units
    refine fill_amount_of_units_eq_zero _ (units_of_not_moves ?_ t) _
    unfold KeepsApart at h
    cases hside : cmd.side with
    | buy =>
      rw [hside] at h
      exact fun hmoves => halone (h hmoves)
    | sell =>
      rw [hside] at h
      exact absurd h.1 halone

end Separation

end Holdings

/-! ### One symbol on two exchanges, and one counter for two symbols -/

/-- BTC/USDT on an exchange. -/
def btcUsdt (exchange : ExchangeId) : PairId := ⟨exchange, ⟨"BTC", "USDT"⟩⟩

/-- ETH/USDT on OKX. -/
def ethUsdt : PairId := ⟨.okx, ⟨"ETH", "USDT"⟩⟩

/-- A market order of an amount. -/
def marketOrder (p : PairId) (side : OrderSide) (sizeQuote : ℚ) : OrderCommand :=
  { limitOrder p side sizeQuote 0 with orderType := .market, limitPrice := none }

/-- A buy on OKX. -/
def okxBought : List ExecInput :=
  [.command (.ok (limitOrder (btcUsdt .okx) .buy 1000 100)) 0 fun _ => .unsent ""]

/-- A buy of one unit. -/
def oneBought : List ExecInput :=
  [.command (.ok (limitOrder (btcUsdt .okx) .buy 30015 30015)) 0 fun _ => .unsent ""]

/-- A buy of one unit, and one of another symbol. -/
def twoBought : List ExecInput :=
  oneBought ++ [.command (.ok (marketOrder ethUsdt .buy 100)) 0 fun _ => .unsent ""]

end W2uos
