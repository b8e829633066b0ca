import W2uos.Exec.HotUpdate
import W2uos.Exec.Separation

/-!
# Value neutrality of the simulated ledger

A fill moves the balance by the size of the order and the position by the size divided by the fill
price, so it is worth nothing at that price; but at a price that is not positive the quotient is
replaced by zero while the balance still moves.

Read as a posting, a result is neutral at its own price if that is positive.  The worth of balance
and positions at a price is then conserved along every run whose fills are at that price, by
`Account.worth_postAll`.

* `valueNeutral_iff` : exactly when a command is value neutral;
* `noMoneyFromNothing_iff` : exactly when no money comes out of nothing.
-/

namespace W2uos

section Neutral

variable [CaseTable]

/-! ### One fill -/

/-- The simulator does not fill the order at the price: a buy the balance does not cover, or a sale
of more than the position. -/
def ExecutionState.Declines (state : ExecutionState) (cmd : OrderCommand) (price : ℚ) : Prop :=
  match cmd.side with
  | .buy => state.balanceUsdt < cmd.sizeQuote
  | .sell => state.positions.amount (symbolKey cmd.symbol) < baseUnits cmd.sizeQuote price

theorem ExecutionState.fill_filled_iff (state : ExecutionState) (cmd : OrderCommand) (price : ℚ) :
    (state.fill cmd price).2 = .filled ↔ ¬ state.Declines cmd price := by
  unfold fill Declines
  cases cmd.side with
  | buy => by_cases hbal : cmd.sizeQuote ≤ state.balanceUsdt <;> simp [hbal]
  | sell =>
    by_cases hpos : baseUnits cmd.sizeQuote price ≤
        state.positions.amount (symbolKey cmd.symbol) <;>
      simp [hpos]

theorem ExecutionState.fill_lookup_ne (state : ExecutionState) (cmd : OrderCommand) (price : ℚ)
    {key : String} (hkey : key ≠ symbolKey cmd.symbol) :
    (state.fill cmd price).1.positions.lookup key = state.positions.lookup key := by
  unfold fill
  cases cmd.side with
  | buy =>
    by_cases hbal : cmd.sizeQuote ≤ state.balanceUsdt
    · simp [hbal, Finmap.lookup_insert_of_ne _ hkey]
    · simp [hbal]
  | sell =>
    by_cases hpos : baseUnits cmd.sizeQuote price ≤
        state.positions.amount (symbolKey cmd.symbol) <;>
      simp [hpos, Finmap.lookup_insert_of_ne _ hkey]

/-- **A filled result** comes from the simulator, of an order that was not blocked and not
declined. -/
theorem handleCommand_filled {s : ExecutionService} {cmd : OrderCommand} {now : DateTime}
    {exchange : OkxOrderRequest → Transmission} {r : OrderResult}
    (hr : (s.handleCommand cmd now exchange).result = .ok r) (hfilled : r.status = .filled) :
    s.blockNewOrders = false ∧ ¬ s.state.Declines cmd (s.priceOf cmd) ∧
      r = cmd.result .filled cmd.sizeQuote (s.priceOf cmd) now := by
  rcases s.handleCommand_cases cmd now exchange with ⟨-, heq⟩ | ⟨client, -, -, -, heq⟩ |
    ⟨hblock, -, heq⟩
  · rw [heq, Except.ok.injEq] at hr
    rw [← hr] at hfilled
    cases hfilled
  · rw [heq] at hr
    exact absurd hfilled (ExecutionService.submit_ne_filled hr)
  · rw [heq, s.simulate_result, Except.ok.injEq] at hr
    have hstatus : (s.state.fill cmd (s.priceOf cmd)).2 = .filled := by
      rw [← hr] at hfilled
      exact hfilled
    rw [hstatus, if_pos rfl, if_pos rfl] at hr
    exact ⟨hblock, (s.state.fill_filled_iff cmd _).1 hstatus, hr.symm⟩

/-- **A result is neutral at its own price**, if that is positive. -/
theorem OrderResult.postings_neutral {r : OrderResult} (hprice : 0 < r.avgPrice) :
    ∀ p ∈ r.postings, p.NeutralAt r.avgPrice ∧ p.key = symbolKey r.symbol := by
  have hunits : r.avgPrice * r.units = r.filledSizeQuote := by
    rw [OrderResult.units, baseUnits, if_pos hprice, mul_div_cancel₀ _ hprice.ne']
  intro p hp
  unfold OrderResult.postings at hp
  cases hstatus : r.status with
  | new => simp [hstatus] at hp
  | rejected reason => simp [hstatus] at hp
  | filled =>
    cases hside : r.side with
    | buy =>
      simp only [hstatus, hside, List.mem_singleton] at hp
      subst hp
      refine ⟨?_, rfl⟩
      show -r.filledSizeQuote + r.avgPrice * r.units = 0
      rw [hunits]
      ring
    | sell =>
      simp only [hstatus, hside, List.mem_singleton] at hp
      subst hp
      refine ⟨?_, rfl⟩
      show r.filledSizeQuote + r.avgPrice * -r.units = 0
      rw [mul_neg, hunits]
      ring

/-! ### One command -/

/-- If the command is filled, then at a positive price at which the change of the balance pays for
the change of the symbol's position, and no other position is touched. -/
def ValueNeutral (s : ExecutionService) (cmd : OrderCommand) (now : DateTime)
    (exchange : OkxOrderRequest → Transmission) : Prop :=
  let s' := (s.handleCommand cmd now exchange).service
  ∀ r, (s.handleCommand cmd now exchange).result = .ok r → r.status = .filled →
    0 < r.avgPrice ∧
      (s'.positions.1 - s.positions.1) + r.avgPrice *
        (s'.positions.2.amount (symbolKey cmd.symbol) -
          s.positions.2.amount (symbolKey cmd.symbol)) = 0 ∧
      ∀ key, key ≠ symbolKey cmd.symbol → s'.positions.2.lookup key = s.positions.2.lookup key

/-- The command is not filled, or it is at a positive price: the breaker blocks it, it goes to the
exchange, it has no limit price or a positive one, or the simulator declines it. -/
def SoundPrice (s : ExecutionService) (cmd : OrderCommand) : Prop :=
  s.blockNewOrders = true ∨ (s.config.mode = .liveOkx ∧ s.okxClient.isSome = true) ∨
    (∀ price, cmd.limitPrice = some price → 0 < price) ∨
    s.state.Declines cmd (s.priceOf cmd)

omit [CaseTable] in
theorem ExecutionService.priceOf_pos_iff {s : ExecutionService} (hcounter : 0 < s.fillCounter)
    (cmd : OrderCommand) :
    0 < s.priceOf cmd ↔ ∀ price, cmd.limitPrice = some price → 0 < price := by
  unfold priceOf nextFillPrice
  cases cmd.limitPrice with
  | none =>
    have hnext : 0 < s.fillCounter + 10 := by linarith
    simpa using hnext
  | some price => simp

/-- **A simulated command** is value neutral iff its price is positive or it is not filled. -/
theorem simulate_neutral_iff (s : ExecutionService) (cmd : OrderCommand) (now : DateTime)
    (exchange : OkxOrderRequest → Transmission)
    (heq : s.handleCommand cmd now exchange = s.simulate cmd now) :
    ValueNeutral s cmd now exchange ↔
      0 < s.priceOf cmd ∨ s.state.Declines cmd (s.priceOf cmd) := by
  have hfilled := s.state.fill_filled_iff cmd (s.priceOf cmd)
  have hresult := s.simulate_result cmd now
  unfold ValueNeutral
  rw [heq]
  dsimp only
  by_cases hdecl : s.state.Declines cmd (s.priceOf cmd)
  · refine iff_of_true ?_ (Or.inr hdecl)
    intro r hr hstatus
    rw [hresult, Except.ok.injEq] at hr
    subst hr
    exact absurd hdecl (hfilled.1 hstatus)
  · have hfill := hfilled.2 hdecl
    rw [if_pos hfill, if_pos hfill] at hresult
    constructor
    · intro h
      exact Or.inl (h _ hresult hfill).1
    · intro hprice r hr _
      rw [hresult, Except.ok.injEq] at hr
      have hpos : 0 < s.priceOf cmd := hprice.resolve_right hdecl
      have hacc := s.state.fill_account cmd (s.priceOf cmd) now
      rw [if_pos hfill, if_pos hfill, hr] at hacc
      have hstate : (s.simulate cmd now).service.positions =
          ((s.state.fill cmd (s.priceOf cmd)).1.balanceUsdt,
            (s.state.fill cmd (s.priceOf cmd)).1.positions) := by
        rw [ExecutionService.positions, ExecutionService.simulate_service]
      have hr_price : r.avgPrice = s.priceOf cmd := by rw [← hr]; rfl
      have hr_symbol : r.symbol = cmd.symbol := by rw [← hr]; rfl
      rw [hstate]
      refine ⟨hr_price ▸ hpos, ?_, ?_⟩
      · -- the account is worth at this price what it was worth before
        have hworth : (s.state.fill cmd (s.priceOf cmd)).1.account.worth r.avgPrice
            {symbolKey cmd.symbol} = s.state.account.worth r.avgPrice {symbolKey cmd.symbol} := by
          rw [hacc]
          refine Account.worth_postAll _ ?_
          intro p hp
          obtain ⟨hneutral, hkey⟩ := OrderResult.postings_neutral (hr_price ▸ hpos) p hp
          exact ⟨hneutral, by rw [hkey, hr_symbol, Finset.mem_singleton]⟩
        simp only [Account.worth, Finset.sum_singleton, ExecutionState.account,
          Amounts.account] at hworth
        simp only [ExecutionService.positions]
        linarith
      · intro key hkey
        exact s.state.fill_lookup_ne cmd _ hkey

/-- **One command** is value neutral iff its price is sound. -/
theorem valueNeutral_iff {s : ExecutionService} (hcounter : 0 < s.fillCounter)
    (cmd : OrderCommand) (now : DateTime) (exchange : OkxOrderRequest → Transmission) :
    ValueNeutral s cmd now exchange ↔ SoundPrice s cmd := by
  rcases s.handleCommand_cases cmd now exchange with ⟨hblock, heq⟩ |
    ⟨client, -, hlive, hclient, heq⟩ | ⟨hblock, hclient, heq⟩
  · refine iff_of_true ?_ (Or.inl hblock)
    intro r hr hstatus
    rw [heq, Except.ok.injEq] at hr
    subst hr
    cases hstatus
  · refine iff_of_true ?_ (Or.inr (Or.inl ⟨hlive, by rw [hclient]; rfl⟩))
    intro r hr hstatus
    rw [heq] at hr
    exact absurd hstatus (ExecutionService.submit_ne_filled hr)
  · rw [simulate_neutral_iff s cmd now exchange heq, SoundPrice,
      ExecutionService.priceOf_pos_iff hcounter, hblock]
    have hno : ¬ (s.config.mode = .liveOkx ∧ s.okxClient.isSome = true) := by
      rintro ⟨hlive, hsome⟩
      rw [hclient hlive] at hsome
      cases hsome
    simp [hno]

/-! ### Whole runs -/

variable [Reqwest]

theorem fillCounter_run {cfg : ExecutionConfig} {s : ExecutionService}
    (hnew : ExecutionService.new cfg = .ok s) (is : List ExecInput) :
    0 < (executionService.run s is).fillCounter := by
  refine Machine.run_invariant (M := executionService) (Q := fun _ => True)
    (P := fun t => 0 < t.fillCounter) ?_ ?_ fun _ _ => trivial
  · obtain ⟨httpClient, trafficShaper, rfl⟩ := ExecutionService.new_cases hnew
    norm_num
  · intro t i ht _
    cases i with
    | command msg now exchange =>
      cases msg with
      | error err => exact ht
      | ok cmd =>
        show 0 < (t.handleCommand cmd now exchange).service.fillCounter
        rcases t.handleCommand_cases cmd now exchange with ⟨-, heq⟩ | ⟨_, -, -, -, heq⟩ |
          ⟨-, -, heq⟩
        · rw [heq]
          exact ht
        · rw [heq]
          exact ht
        · rw [heq, t.simulate_service]
          show 0 < (t.nextFillPrice cmd.limitPrice).2.fillCounter
          cases cmd.limitPrice with
          | none =>
            show 0 < t.fillCounter + 10
            linarith
          | some price => exact ht
    | configUpdate msg =>
      cases msg with
      | none => exact ht
      | some newCfg =>
        obtain ⟨_, _, -, hs⟩ := t.updateConfig_network newCfg
        show 0 < (t.updateConfig newCfg).fillCounter
        rw [hs]
        exact ht
    | blockNewOrders => exact ht
    | resetCircuit => exact ht

/-- No money comes out of nothing along a run: every command of it is value neutral, and as long as
all fills are at one price, of symbols with keys among `K`, the balance and the positions of `K` are
worth at that price what they were worth at the start. -/
def NoMoneyFromNothing (s : ExecutionService) (is : List ExecInput) : Prop :=
  (∀ pre cmd now exchange post, is = pre ++ .command (.ok cmd) now exchange :: post →
    ValueNeutral (executionService.run s pre) cmd now exchange) ∧
  ∀ pre post, is = pre ++ post → ∀ (price : ℚ) (K : Finset String),
    (∀ r ∈ ExecOutput.results (executionService.output s pre), r.status = .filled →
      r.avgPrice = price ∧ symbolKey r.symbol ∈ K) →
    (executionService.run s pre).positions.1 +
        price * ∑ key ∈ K, (executionService.run s pre).positions.2.amount key =
      s.positions.1 + price * ∑ key ∈ K, s.positions.2.amount key

/-- When all commands of a run are value neutral, every fill is at a positive price. -/
theorem avgPrice_pos {s : ExecutionService} {is : List ExecInput}
    (h : ∀ pre cmd now exchange post, is = pre ++ .command (.ok cmd) now exchange :: post →
      ValueNeutral (executionService.run s pre) cmd now exchange) :
    ∀ r ∈ ExecOutput.results (executionService.output s is), r.status = .filled →
      0 < r.avgPrice := by
  induction is using List.reverseRecOn with
  | nil => simp [ExecOutput.results]
  | append_singleton is i ih =>
    intro r hr hstatus
    rw [Machine.output_concat, results_append, List.mem_append] at hr
    rcases hr with hr | hr
    · refine ih ?_ r hr hstatus
      intro pre cmd now exchange post his
      exact h pre cmd now exchange (post ++ [i]) (by rw [his]; simp)
    · -- a result of the last step is that of a command
      cases i with
      | command msg now exchange =>
        cases msg with
        | error err => simp [Machine.emit, executionService, ExecOutput.results] at hr
        | ok cmd =>
          rw [results_emit_command] at hr
          cases hres : ((executionService.run s is).handleCommand cmd now exchange).result with
          | error err => simp [hres, Except.toOption] at hr
          | ok r' =>
            rw [hres, Except.toOption, Option.toList_some, List.mem_singleton] at hr
            subst hr
            exact (h is cmd now exchange [] rfl r hres hstatus).1
      | configUpdate msg =>
        cases msg <;> simp [Machine.emit, executionService, ExecOutput.results] at hr
      | blockNewOrders => simp [Machine.emit, executionService, ExecOutput.results] at hr
      | resetCircuit => simp [Machine.emit, executionService, ExecOutput.results] at hr

/-- **Exactly when no money comes out of nothing**: every command of the run is blocked, goes to
the exchange, has no limit price or a positive one, or is declined. -/
theorem noMoneyFromNothing_iff {cfg : ExecutionConfig} {s : ExecutionService}
    (hnew : ExecutionService.new cfg = .ok s) (is : List ExecInput) :
    NoMoneyFromNothing s is ↔
      ∀ pre cmd now exchange post, is = pre ++ .command (.ok cmd) now exchange :: post →
        SoundPrice (executionService.run s pre) cmd := by
  have hneutral : (∀ pre cmd now exchange post,
      is = pre ++ .command (.ok cmd) now exchange :: post →
        ValueNeutral (executionService.run s pre) cmd now exchange) ↔
      ∀ pre cmd now exchange post, is = pre ++ .command (.ok cmd) now exchange :: post →
        SoundPrice (executionService.run s pre) cmd := by
    refine forall_congr' fun pre => forall_congr' fun cmd => forall_congr' fun now =>
      forall_congr' fun exchange => forall_congr' fun post => forall_congr' fun _ => ?_
    exact valueNeutral_iff (fillCounter_run hnew pre) cmd now exchange
  constructor
  · intro h
    exact hneutral.1 h.1
  · intro h
    refine ⟨hneutral.2 h, ?_⟩
    intro pre post his price K hfills
    have hpos := @avgPrice_pos _ _ s pre ?_
    · have hworth : (executionService.run s pre).state.account.worth price K =
          s.state.account.worth price K := by
        rw [account_run]
        refine Account.worth_postAll _ ?_
        intro p hp
        obtain ⟨r, hr, hp⟩ := List.mem_flatMap.1 hp
        -- only filled results have postings
        have hstatus : r.status = .filled := by
          by_contra hne
          simp [r.postings_of_ne hne] at hp
        obtain ⟨hprice, hkey⟩ := hfills r hr hstatus
        obtain ⟨hneut, hpkey⟩ := OrderResult.postings_neutral (hpos r hr hstatus) p hp
        exact ⟨hprice ▸ hneut, hpkey ▸ hkey⟩
      exact hworth
    · intro pre' cmd now exchange post' hpre
      exact hneutral.2 h pre' cmd now exchange (post' ++ post) (by rw [his, hpre]; simp)

end Neutral

theorem noMoneyFromNothing_iff_sample :
    ∃ s, @ExecutionService.new ℚ acceptAll _ .default = .ok s ∧
      (@NoMoneyFromNothing asciiCase acceptAll s sampleRun ↔
        ∀ pre cmd now exchange post, sampleRun = pre ++ .command (.ok cmd) now exchange :: post →
          @SoundPrice asciiCase (sampleService.run s pre) cmd) := by
  refine ⟨_, rfl, ?_⟩
  exact @noMoneyFromNothing_iff asciiCase acceptAll .default _ rfl sampleRun

/-- **Money comes out of nothing**: a sale of 1000 at the limit price 0, of a symbol nothing is held
of, is filled and adds 1000 to the balance. -/
theorem not_noMoneyFromNothing :
    ∃ s, @ExecutionService.new ℚ acceptAll _ .default = .ok s ∧
      ¬ @NoMoneyFromNothing asciiCase acceptAll s
        [.command (.ok (sampleOrder "a" .sell 1000 (some 0))) 0
          fun _ => .unsent "unreachable"] := by
  refine ⟨_, rfl, ?_⟩
  intro h
  have hone := h.1 [] (sampleOrder "a" .sell 1000 (some 0)) 0
    (fun _ => .unsent "unreachable") [] rfl
  exact absurd (hone _ rfl (by decide +kernel)).1 (by decide +kernel)

end W2uos
