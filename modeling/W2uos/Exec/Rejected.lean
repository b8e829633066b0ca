import W2uos.Exec.Separation
import W2uos.Exec.Sides

/-!
# Rejected orders

A rejected order changes neither the balance nor any amount.  The simulator looks a position up in a
way that makes an entry for it, though, before it decides on a sale: turned down, a sale of a symbol
that was never traded leaves an entry of zero, which whoever reads the positions sees.

* `RejectionTraceless` : if the command is rejected, the balance and the positions are as before;
* `NewKeySale` : a sale of units under a key that the ledger does not know;
* `rejected_account` : no rejection changes the balance or an amount;
* `rejectionTraceless_iff`, `rejectionsTraceless_iff` : exactly when rejections leave no trace.
-/

namespace W2uos

section Rejected

variable [CaseTable] {s : ExecutionService} {cmd : OrderCommand} {now : DateTime}
  {exchange : OkxOrderRequest → Transmission} {r : OrderResult} {reason : String}

/-- If the command is rejected, the balance and the positions are as before, with the same keys. -/
def RejectionTraceless (s : ExecutionService) (cmd : OrderCommand) (now : DateTime)
    (exchange : OkxOrderRequest → Transmission) : Prop :=
  ∀ r reason, (s.handleCommand cmd now exchange).result = .ok r → r.status = .rejected reason →
    (s.handleCommand cmd now exchange).service.positions = s.positions

/-- The simulator gets a sale of some units under a key that the ledger does not know. -/
def NewKeySale (s : ExecutionService) (cmd : OrderCommand) : Prop :=
  s.Simulates ∧ cmd.side = .sell ∧ symbolKey cmd.symbol ∉ s.positions.2 ∧
    0 < baseUnits cmd.sizeQuote (s.priceOf cmd)

/-- **No rejection changes the account**: the balance stays, and so does the amount under every
key. -/
theorem rejected_account (hr : (s.handleCommand cmd now exchange).result = .ok r)
    (hrejected : r.status = .rejected reason) :
    (s.handleCommand cmd now exchange).service.positions.1 = s.positions.1 ∧
      ∀ key, (s.handleCommand cmd now exchange).service.positions.2.amount key =
        s.positions.2.amount key := by
  have hacc := s.handleCommand_account cmd now exchange
  rw [hr, Except.toOption, Option.toList_some, List.flatMap_singleton,
    r.postings_of_ne (by simp [hrejected]), Account.postAll_nil] at hacc
  exact ⟨congrArg Account.balance hacc, congrFun (congrArg Account.holding hacc)⟩

theorem fill_rejected_iff (state : ExecutionState) (cmd : OrderCommand) (price : ℚ) :
    (∃ reason, (state.fill cmd price).2 = .rejected reason) ↔ state.Declines cmd price := by
  unfold ExecutionState.fill ExecutionState.Declines
  cases cmd.side with
  | buy => by_cases hbal : state.balanceUsdt < cmd.sizeQuote <;> simp [hbal, ← not_lt]
  | sell =>
    by_cases hpos : state.positions.amount (symbolKey cmd.symbol) <
        baseUnits cmd.sizeQuote price <;>
      simp [hpos, ← not_lt]

/-- **What the simulator declines** leaves the ledger as it is exactly if it is no sale of some
units under a key that the ledger does not know. -/
theorem untouched_iff (hsim : s.Simulates) (hdecl : s.state.Declines cmd (s.priceOf cmd)) :
    (s.state.fill cmd (s.priceOf cmd)).1 = s.state ↔ ¬ NewKeySale s cmd := by
  have hne : (s.state.fill cmd (s.priceOf cmd)).2 ≠ .filled := fun hfilled =>
    (s.state.fill_filled_iff cmd _).1 hfilled hdecl
  rw [← and_iff_left (a := _ = s.state) hne, ExecutionState.fill_refused_iff]
  unfold ExecutionState.Refuses NewKeySale
  unfold ExecutionState.Declines at hdecl
  cases hside : cmd.side with
  | buy =>
    rw [hside] at hdecl
    exact iff_of_true hdecl fun h => by cases h.2.1
  | sell =>
    rw [hside] at hdecl
    rw [and_iff_left hdecl]
    constructor
    · exact fun hkey hsale => hsale.2.2.1 hkey
    · intro hsale
      by_contra hkey
      rw [Amounts.amount_of_notMem hkey] at hdecl
      exact hsale ⟨hsim, rfl, hkey, hdecl⟩

theorem NewKeySale.declines (h : NewKeySale s cmd) : s.state.Declines cmd (s.priceOf cmd) := by
  obtain ⟨-, hside, hkey, hunits⟩ := h
  unfold ExecutionState.Declines
  rw [hside]
  dsimp only
  rwa [Amounts.amount_of_notMem (m := s.state.positions) hkey]

/-- **One command**: its rejection leaves no trace exactly if it is not a sale of some units under a
key that the ledger does not know. -/
theorem rejectionTraceless_iff (s : ExecutionService) (cmd : OrderCommand) (now : DateTime)
    (exchange : OkxOrderRequest → Transmission) :
    RejectionTraceless s cmd now exchange ↔ ¬ NewKeySale s cmd := by
  unfold RejectionTraceless
  rcases s.handleCommand_cases cmd now exchange with ⟨hblock, heq⟩ |
    ⟨client, -, hlive, hclient, heq⟩ | ⟨hblock, hclient, heq⟩
  · rw [heq]
    refine iff_of_true (fun _ _ _ _ => rfl) fun hsale => ?_
    exact Bool.false_ne_true (hsale.1.1.symm.trans hblock)
  · rw [heq]
    refine iff_of_true (fun _ _ _ _ => rfl) fun hsale => ?_
    exact Option.some_ne_none client (hclient.symm.trans (hsale.1.2 hlive))
  · rw [heq, s.simulate_result, s.simulate_service]
    by_cases hdecl : s.state.Declines cmd (s.priceOf cmd)
    · -- it is rejected, so the ledger has to be as before
      obtain ⟨reason, hreason⟩ := (fill_rejected_iff _ _ _).2 hdecl
      rw [← untouched_iff ⟨hblock, hclient⟩ hdecl, ExecutionState.ext_iff]
      constructor
      · exact fun h => Prod.mk_inj.1 (h _ reason rfl hreason)
      · exact fun h _ _ _ _ => Prod.mk_inj.2 h
    · refine iff_of_true (fun r reason hr hrejected => ?_) fun hsale => hdecl hsale.declines
      rw [← Except.ok.inj hr] at hrejected
      exact absurd ((fill_rejected_iff _ _ _).1 ⟨reason, hrejected⟩) hdecl

/-! ### Whole runs -/

variable [Reqwest]

/-- No rejected command of the run leaves a trace. -/
def RejectionsTraceless (s : ExecutionService) (is : List ExecInput) : Prop :=
  ∀ pre cmd now exchange post, is = pre ++ .command (.ok cmd) now exchange :: post →
    RejectionTraceless (executionService.run s pre) cmd now exchange

/-- **Exactly when the rejections of a run leave no trace**: no command of it is a sale of some
units under a key that the ledger does not know at that time. -/
theorem rejectionsTraceless_iff (s : ExecutionService) (is : List ExecInput) :
    RejectionsTraceless s is ↔
      ∀ pre cmd now exchange post, is = pre ++ .command (.ok cmd) now exchange :: post →
        ¬ NewKeySale (executionService.run s pre) cmd := by
  unfold RejectionsTraceless
  simp only [rejectionTraceless_iff]

end Rejected

/-- A sale of 100 at the limit price 10. -/
def newKeySale : OrderCommand := sampleOrder "a" .sell 100 (some 10)

/-- **A rejection that leaves an entry**: a fresh ledger has no keys, and after a sale that it
declines it has the key of the sale. -/
theorem not_rejectionsTraceless :
    ∃ s, @ExecutionService.new ℚ acceptAll _ .default = .ok s ∧
      ¬ @RejectionsTraceless asciiCase acceptAll s
        [.command (.ok newKeySale) 0 fun _ => .unsent "unreachable"] ∧
      s.positions.2.keys = ∅ ∧
      (sampleService.run s
        [.command (.ok newKeySale) 0 fun _ => .unsent "unreachable"]).positions.2.keys =
          {"BTCUSDT"} := by
  refine ⟨_, rfl, fun h => ?_, rfl, by decide +kernel⟩
  have hsale := (@rejectionTraceless_iff asciiCase _ _ _ _).1
    (h [] newKeySale 0 (fun _ => .unsent "unreachable") [] rfl)
  exact hsale ⟨⟨rfl, fun hlive => by cases hlive⟩, rfl, Finmap.notMem_empty, by decide +kernel⟩

end W2uos
