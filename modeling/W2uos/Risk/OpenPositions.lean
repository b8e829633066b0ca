import W2uos.Exec.Separation
import W2uos.Risk.Bookings

/-!
# Open positions

The supervisor counts the symbols with a positive exposure, in quote amounts; the execution service
holds units.  A buy opens the symbol in both, unless its units are rounded to none.  A sale
subtracts its size from the exposure and its units from the position, and these reach zero together
only if the sale is at the average price the exposure was built up at, and nothing of it is lost in
rounding.

Both books are kept in floating-point numbers here.  All that is needed of them is on which side of
zero a rounded sum or difference is.

* `open_command` : what one command does to the open keys on both sides;
* `openAgrees_iff`, `not_openAgrees` : exactly when supervisor and execution service agree.
-/

namespace W2uos

open RiskInput

section OpenPositions

variable {state : ExecutionState Float} {risk : RiskState Float} {key : String}

/-- The symbol keys with a positive position. -/
def ExecutionState.openKeys (state : ExecutionState Float) : Finset String :=
  state.positions.keys.filter fun key => 0 < state.positions.amount key

theorem ExecutionState.mem_openKeys : key ∈ state.openKeys ↔ 0 < state.positions.amount key := by
  rw [openKeys, Finset.mem_filter, and_iff_right_iff_imp, Finmap.mem_keys]
  intro hpos
  by_contra hkey
  rw [Amounts.amount_of_notMem hkey] at hpos
  exact absurd hpos (by decide)

/-- Sets that differ at most in `k` have as many members iff they do not differ in `k`. -/
theorem card_eq_iff_of_agree {α : Type*} [DecidableEq α] {A B : Finset α} {k : α}
    (h : ∀ x, x ≠ k → (x ∈ A ↔ x ∈ B)) : A.card = B.card ↔ (k ∈ A ↔ k ∈ B) := by
  have hcard : (A.erase k).card = (B.erase k).card := by
    refine congrArg Finset.card ?_
    ext x
    rw [Finset.mem_erase, Finset.mem_erase]
    exact and_congr_right (h x)
  rw [Finset.card_erase_eq_ite, Finset.card_erase_eq_ite] at hcard
  have hposA : k ∈ A → 0 < A.card := fun hA => Finset.card_pos.2 ⟨k, hA⟩
  have hposB : k ∈ B → 0 < B.card := fun hB => Finset.card_pos.2 ⟨k, hB⟩
  by_cases hA : k ∈ A <;> by_cases hB : k ∈ B <;> simp only [hA, hB, ↓reduceIte] at hcard ⊢ <;>
    grind

/-- The exposures are positive numbers. -/
def RiskState.Exposed (risk : RiskState Float) : Prop :=
  Amounts.All (fun a : Float => 0 < a) risk.exposure

/-- No position is negative.  One may not be a number, since infinite amounts have no
difference. -/
def ExecutionState.Held (state : ExecutionState Float) : Prop :=
  ∀ key, 0 ≤ state.positions.amount key ∨ (state.positions.amount key).isNaN = true

/-- A command of positive finite size, at a positive limit price if it has one. -/
structure OrderCommand.Positive (cmd : OrderCommand Float) : Prop where
  size : 0 < cmd.sizeQuote
  finite : cmd.sizeQuote.isFinite = true
  price : ∀ price, cmd.limitPrice = some price → 0 < price

/-- Something is held after a fill. -/
def OrderSide.LeavesOpen (held units : Float) : OrderSide → Prop
  | .buy => 0 ≤ held ∧ (0 < held ∨ 0 < units)
  | .sell => ¬ held ≤ units

/-- If the command is executed, a buy leaves something held, and a sale takes the whole exposure of
its symbol exactly if it takes the whole position. -/
def MovesAlike [CaseTable] (s : ExecutionService Float) (risk : RiskState Float)
    (cmd : OrderCommand Float) : Prop :=
  let held := s.state.positions.amount (symbolKey cmd.symbol)
  let units := baseUnits cmd.sizeQuote (s.priceOf cmd)
  s.blockNewOrders = false → s.state.Accepts cmd (s.priceOf cmd) →
    match cmd.side with
    | .buy => 0 ≤ held ∧ (0 < held ∨ 0 < units)
    | .sell => risk.exposure.amount (symbolKey cmd.symbol) ≤ cmd.sizeQuote ↔ held ≤ units

/-! ### One fill -/

theorem RiskState.Exposed.amount (h : risk.Exposed) (key : String) :
    0 ≤ risk.exposure.amount key := by
  by_cases hkey : key ∈ risk.exposure
  · obtain ⟨a, ha⟩ := Finmap.mem_iff.1 hkey
    rw [Amounts.amount_of_lookup ha]
    exact Binary64.nonneg_of_pos (h key a ha)
  · rw [Amounts.amount_of_notMem hkey]
    decide

/-- What a fill of a positive size makes of an exposure: a buy and a sale of less leave a positive
number. -/
theorem shift_exposure {entry size : Float} (hentry : 0 ≤ entry) (hsize : 0 < size)
    (hfinite : size.isFinite = true) (side : OrderSide) :
    (side.shift entry size ≤ 0 ↔ side = .sell ∧ entry ≤ size) ∧
      (¬ side.shift entry size ≤ 0 → 0 < side.shift entry size) := by
  have hnonneg := Binary64.nonneg_of_pos hsize
  cases side with
  | buy =>
    have hpos : 0 < entry + size := (Binary64.add_pos_iff hentry hnonneg).2 (Or.inr hsize)
    exact ⟨iff_of_false (Binary64.not_le_of_lt hpos) (by simp), fun _ => hpos⟩
  | sell =>
    have hiff : entry - size ≤ 0 ↔ entry ≤ size := Binary64.sub_nonpos_iff entry hfinite
    refine ⟨by simpa [OrderSide.shift] using hiff, fun hpos => ?_⟩
    show 0 < entry - size
    rw [Binary64.sub_pos_iff]
    exact (Binary64.not_le_iff hentry hnonneg).1 fun hle => hpos (hiff.2 hle)

theorem shift_position {entry units : Float} (hentry : 0 ≤ entry ∨ entry.isNaN = true)
    (hunits : 0 ≤ units) (side : OrderSide) (haccept : side = .sell → units ≤ entry) :
    (0 < side.shift entry units ↔ side.LeavesOpen entry units) ∧
      (0 ≤ side.shift entry units ∨ (side.shift entry units).isNaN = true) := by
  cases side with
  | buy =>
    dsimp only [OrderSide.shift, OrderSide.LeavesOpen]
    rcases hentry with hentry | hnan
    · refine ⟨?_, Or.inl (Binary64.add_nonneg hentry hunits)⟩
      rw [Binary64.add_pos_iff hentry hunits, and_iff_right hentry]
    · have hsum := Binary64.isNaN_add hnan units
      refine ⟨iff_of_false ?_ ?_, Or.inr hsum⟩
      · exact fun hpos => Binary64.not_nonneg_of_isNaN hsum (Binary64.nonneg_of_pos hpos)
      · exact fun h => Binary64.not_nonneg_of_isNaN hnan h.1
  | sell =>
    have hle := haccept rfl
    dsimp only [OrderSide.shift, OrderSide.LeavesOpen]
    refine ⟨?_, Binary64.sub_nonneg hle⟩
    rw [Binary64.sub_pos_iff]
    exact Binary64.lt_iff_of_le hle


theorem baseUnits_nonneg_float {size price : Float} (hsize : 0 < size)
    (hfinite : size.isFinite = true) (hprice : 0 < price) : 0 ≤ baseUnits size price := by
  rw [baseUnits, if_pos hprice]
  exact Binary64.div_nonneg hsize hfinite hprice

/-! ### One command -/

variable [CaseTable] {s : ExecutionService Float} {cmd : OrderCommand Float} {now : DateTime}
  {exchange : OkxOrderRequest Float → Transmission} {r : OrderResult Float}

theorem mem_openKeys_fill (hheld : state.Held) {price : Float}
    (hunits : 0 ≤ baseUnits cmd.sizeQuote price) (haccept : state.Accepts cmd price)
    (key : String) :
    key ∈ (state.fill cmd price).1.openKeys ↔
      if key = symbolKey cmd.symbol then
        cmd.side.LeavesOpen (state.positions.amount key) (baseUnits cmd.sizeQuote price)
      else key ∈ state.openKeys := by
  have hcover : cmd.side = .sell → baseUnits cmd.sizeQuote price ≤
      state.positions.amount (symbolKey cmd.symbol) := by
    intro hsell
    unfold ExecutionState.Accepts at haccept
    rwa [hsell] at haccept
  rw [ExecutionState.mem_openKeys, (ExecutionState.fill_accepted haccept).2]
  split_ifs with hkey
  · rw [hkey, Amounts.amount_insert_self, (shift_position (hheld _) hunits _ hcover).1]
  · rw [Amounts.amount_insert_ne _ _ hkey, ExecutionState.mem_openKeys]

theorem ExecutionState.Held.fill (hheld : state.Held) {price : Float}
    (hunits : 0 ≤ baseUnits cmd.sizeQuote price) : (state.fill cmd price).1.Held := by
  intro key
  by_cases haccept : state.Accepts cmd price
  · rw [(ExecutionState.fill_accepted haccept).2]
    by_cases hkey : key = symbolKey cmd.symbol
    · rw [hkey, Amounts.amount_insert_self]
      refine (shift_position (hheld _) hunits _ fun hsell => ?_).2
      unfold ExecutionState.Accepts at haccept
      rwa [hsell] at haccept
    · rw [Amounts.amount_insert_ne _ _ hkey]
      exact hheld key
  · rw [(ExecutionState.fill_declined haccept).2]
    exact hheld key

variable [HashOrder]

theorem mem_recordOrder (hrisk : risk.Exposed) (hsize : 0 < r.filledSizeQuote)
    (hfinite : r.filledSizeQuote.isFinite = true) (hr : r.status = .filled) (key : String) :
    key ∈ (risk.recordOrder r).exposure.keys ↔
      if key = symbolKey r.symbol then
        ¬ (r.side = .sell ∧ risk.exposure.amount key ≤ r.filledSizeQuote)
      else key ∈ risk.exposure.keys := by
  obtain ⟨hclose, -⟩ := shift_exposure (hrisk.amount (symbolKey r.symbol)) hsize hfinite r.side
  rw [recordOrder_of_filled hr]
  dsimp only
  rw [Finmap.mem_keys, mem_settle, hclose, Finmap.mem_keys]
  split_ifs with hkey
  · rw [hkey]
  · rfl

theorem RiskState.Exposed.recordOrder (hrisk : risk.Exposed)
    (hr : r.status = .filled → 0 < r.filledSizeQuote ∧ r.filledSizeQuote.isFinite = true) :
    (risk.recordOrder r).Exposed := by
  by_cases hstatus : r.status = .filled
  · obtain ⟨hsize, hfinite⟩ := hr hstatus
    obtain ⟨-, hpos⟩ := shift_exposure (hrisk.amount (symbolKey r.symbol)) hsize hfinite r.side
    rw [recordOrder_of_filled hstatus]
    unfold settle
    split_ifs with hnonpos
    · rw [Amounts.erase_insert_self]
      exact hrisk.erase _
    · exact hrisk.insert (hpos hnonpos)
  · rw [recordOrder_of_ne hstatus]
    exact hrisk

omit [CaseTable] [HashOrder] in
theorem ExecutionService.fillCounter_add_pos {counter : Float} (h : 0 < counter) :
    0 < counter + 10 :=
  (Binary64.add_pos_iff (Binary64.nonneg_of_pos h) (by decide)).2 (Or.inl h)

omit [CaseTable] [HashOrder] in
theorem OrderCommand.Positive.units_nonneg (hcmd : cmd.Positive) (hcounter : 0 < s.fillCounter) :
    0 ≤ baseUnits cmd.sizeQuote (s.priceOf cmd) := by
  refine baseUnits_nonneg_float hcmd.size hcmd.finite ?_
  unfold ExecutionService.priceOf ExecutionService.nextFillPrice
  cases hlimit : cmd.limitPrice with
  | none => exact ExecutionService.fillCounter_add_pos hcounter
  | some price => exact hcmd.price price hlimit

/-- **A fill** moves one key on both sides, and leaves it open on both or on neither iff it moves
alike. -/
theorem open_fill (hblock : s.blockNewOrders = false) (hheld : s.state.Held) (hrisk : risk.Exposed)
    (hsame : risk.exposure.keys = s.state.openKeys) (hcmd : cmd.Positive)
    (hunits : 0 ≤ baseUnits cmd.sizeQuote (s.priceOf cmd))
    (haccept : s.state.Accepts cmd (s.priceOf cmd)) (now : DateTime) :
    let r := cmd.result .filled cmd.sizeQuote (s.priceOf cmd) now
    let state' := (s.state.fill cmd (s.priceOf cmd)).1
    (∀ key, key ≠ symbolKey cmd.symbol →
      (key ∈ (risk.recordOrder r).exposure.keys ↔ key ∈ state'.openKeys)) ∧
      ((symbolKey cmd.symbol ∈ (risk.recordOrder r).exposure.keys ↔
        symbolKey cmd.symbol ∈ state'.openKeys) ↔ MovesAlike s risk cmd) := by
  intro r state'
  have hR : ∀ key, key ∈ (risk.recordOrder r).exposure.keys ↔
      if key = symbolKey cmd.symbol then
        ¬ (cmd.side = .sell ∧ risk.exposure.amount key ≤ cmd.sizeQuote)
      else key ∈ risk.exposure.keys := mem_recordOrder hrisk hcmd.size hcmd.finite rfl
  have hE := mem_openKeys_fill hheld hunits haccept
  refine ⟨fun key hkey => ?_, ?_⟩
  · rw [hR, hE, if_neg hkey, if_neg hkey, hsame]
  · rw [hR, hE, if_pos rfl, if_pos rfl]
    unfold MovesAlike OrderSide.LeavesOpen
    cases hcmdside : cmd.side with
    | buy => simp [hblock, haccept]
    | sell =>
      simp only [hblock, haccept, true_and, forall_const]
      exact not_iff_not

/-- **One command**: while the open keys are the same on both sides, they are as many on both sides
after it iff they are the same, and that is iff it moves alike. -/
theorem open_command (hmode : s.config.mode = .simulated) (hcounter : 0 < s.fillCounter)
    (hheld : s.state.Held) (hrisk : risk.Exposed) (hsame : risk.exposure.keys = s.state.openKeys)
    (hcmd : cmd.Positive) (hr : (s.handleCommand cmd now exchange).result = .ok r) :
    ((risk.recordOrder r).exposure.keys.card =
        (s.handleCommand cmd now exchange).service.state.openKeys.card ↔ MovesAlike s risk cmd) ∧
      (MovesAlike s risk cmd → (risk.recordOrder r).exposure.keys =
        (s.handleCommand cmd now exchange).service.state.openKeys) := by
  -- a command that is not executed moves nothing on either side
  have hidle : r.status ≠ .filled →
      (s.handleCommand cmd now exchange).service.state.openKeys = s.state.openKeys →
      MovesAlike s risk cmd →
      ((risk.recordOrder r).exposure.keys.card =
          (s.handleCommand cmd now exchange).service.state.openKeys.card ↔
        MovesAlike s risk cmd) ∧
      (MovesAlike s risk cmd → (risk.recordOrder r).exposure.keys =
        (s.handleCommand cmd now exchange).service.state.openKeys) := by
    intro hne hkeys halike
    rw [recordOrder_of_ne hne, hkeys, hsame]
    exact ⟨iff_of_true rfl halike, fun _ => rfl⟩
  rcases s.handleCommand_cases cmd now exchange with ⟨hblock, heq⟩ | ⟨_, -, hlive, -⟩ |
    ⟨hblock, -, heq⟩
  · rw [heq, Except.ok.injEq] at hr
    refine hidle (by rw [← hr]; exact nofun) (by rw [heq]) fun hunblocked => ?_
    rw [hblock] at hunblocked
    cases hunblocked
  · rw [hmode] at hlive
    cases hlive
  · rw [heq, s.simulate_result, Except.ok.injEq] at hr
    by_cases haccept : s.state.Accepts cmd (s.priceOf cmd)
    · rw [(ExecutionState.fill_accepted haccept).1, if_pos rfl, if_pos rfl] at hr
      obtain ⟨hothers, hown⟩ := open_fill hblock hheld hrisk hsame hcmd
        (hcmd.units_nonneg hcounter) haccept now
      rw [heq, s.simulate_service, ← hr]
      refine ⟨(card_eq_iff_of_agree hothers).trans hown, fun halike => ?_⟩
      ext key
      by_cases hkey : key = symbolKey cmd.symbol
      · rw [hkey]
        exact hown.2 halike
      · exact hothers key hkey
    · obtain ⟨hne, hamount⟩ := ExecutionState.fill_declined haccept
      refine hidle (by rw [← hr]; exact hne) ?_ fun _ h => absurd h haccept
      ext key
      rw [heq, s.simulate_service, ExecutionState.mem_openKeys, ExecutionState.mem_openKeys,
        hamount]

/-! ### Whole runs -/

variable [Reqwest]

/-- Once the supervisor has recorded the results published so far, whatever else it has read, it
reports as many open positions as there are symbol keys with a positive position; and so it is
throughout the run. -/
def OpenAgrees (s : ExecutionService Float) (is : List (ExecInput Float)) : Prop :=
  ∀ pre, pre <+: is → ∀ cfg h,
    orders h = ExecOutput.results (executionService.output s pre) →
      (riskSupervisor.run (.new cfg) h).status.openPositions =
        (executionService.run s pre).state.openKeys.card

/-- A command, if it is one, moves alike. -/
def ExecInput.MovesAlike (s : ExecutionService Float) (risk : RiskState Float) :
    ExecInput Float → Prop
  | .command (.ok cmd) _ _ => W2uos.MovesAlike s risk cmd
  | _ => True

/-- Every command moves alike in the states it comes in. -/
def AllMoveAlike (s : ExecutionService Float) : List (ExecInput Float) → Prop :=
  Always fun pre i => i.MovesAlike (executionService.run s pre)
    (booked (ExecOutput.results (executionService.output s pre)))

/-- A command, if it is one, has a positive size, and a positive limit price if any. -/
def ExecInput.Positive : ExecInput Float → Prop
  | .command (.ok cmd) _ _ => cmd.Positive
  | _ => True

omit [Reqwest] in
theorem openPositions_booked (rs : List (OrderResult Float)) :
    (booked rs).status.openPositions = (booked rs).exposure.keys.card := by
  induction rs using List.reverseRecOn with
  | nil => rfl
  | append_singleton rs r ih =>
    rw [booked_concat]
    by_cases hr : r.status = .filled
    · rw [recordOrder_of_filled hr]
    · rw [recordOrder_of_ne hr, ih]

theorem openAgrees_iff_booked (s : ExecutionService Float) (is : List (ExecInput Float)) :
    OpenAgrees s is ↔ ∀ pre, pre <+: is →
      (booked (ExecOutput.results (executionService.output s pre))).exposure.keys.card =
        (executionService.run s pre).state.openKeys.card := by
  have hreport : ∀ cfg (h : List (RiskInput Float)),
      (riskSupervisor.run (.new cfg) h).status.openPositions =
        (booked (orders h)).exposure.keys.card := by
    intro cfg h
    have hmark := congrArg (·.status.openPositions) (recorded_run cfg h false [])
    exact hmark.trans (openPositions_booked (orders h))
  refine forall_congr' fun pre => forall_congr' fun _ => ?_
  constructor
  · intro h
    rw [← h ⟨0, 0, 0, 0, none⟩ _ (orders_map _ ⟨0, 0⟩), hreport, orders_map]
  · intro h cfg hist hhist
    rw [hreport, hhist, h]

omit [HashOrder] in
theorem fillCounter_step (hcounter : 0 < s.fillCounter) (i : ExecInput Float) :
    0 < (executionService.next s i).fillCounter := by
  cases i with
  | command msg now exchange =>
    cases msg with
    | error err => exact hcounter
    | ok cmd =>
      show 0 < (s.handleCommand cmd now exchange).service.fillCounter
      rcases s.handleCommand_cases cmd now exchange with ⟨-, heq⟩ | ⟨_, -, -, -, heq⟩ | ⟨-, -, heq⟩
      · rwa [heq]
      · rwa [heq]
      · rw [heq, s.simulate_service]
        show 0 < (s.nextFillPrice cmd.limitPrice).2.fillCounter
        cases cmd.limitPrice with
        | none => exact ExecutionService.fillCounter_add_pos hcounter
        | some price => exact hcounter
  | configUpdate msg =>
    cases msg with
    | none => exact hcounter
    | some newCfg =>
      show 0 < (s.updateConfig newCfg).fillCounter
      rwa [s.updateConfig_fillCounter]
  | blockNewOrders => exact hcounter
  | resetCircuit => exact hcounter

omit [Reqwest] [HashOrder] in
theorem handleCommand_size (hcmd : cmd.Positive)
    (hr : (s.handleCommand cmd now exchange).result = .ok r) (hfilled : r.status = .filled) :
    0 < r.filledSizeQuote ∧ r.filledSizeQuote.isFinite = true := by
  rcases s.handleCommand_cases cmd now exchange with ⟨-, heq⟩ | ⟨_, -, -, -, heq⟩ | ⟨-, -, heq⟩
  · rw [heq, Except.ok.injEq] at hr
    rw [← hr] at hfilled
    cases hfilled
  · rw [heq] at hr
    exact absurd hfilled (ExecutionService.submit_ne_filled hr)
  · rw [heq, s.simulate_result, Except.ok.injEq] at hr
    have hstatus : (s.state.fill cmd (s.priceOf cmd)).2 = .filled := by
      rw [← hr] at hfilled
      exact hfilled
    rw [hstatus, if_pos rfl] at hr
    rw [← hr]
    exact ⟨hcmd.size, hcmd.finite⟩

/-- What holds of every state of a run, and of the supervisor that has recorded the results. -/
structure Reached (s : ExecutionService Float) (rs : List (OrderResult Float)) : Prop where
  simulated : s.config.mode = .simulated
  counter : 0 < s.fillCounter
  held : s.state.Held
  exposed : (booked rs).Exposed

variable {rs : List (OrderResult Float)} {i : ExecInput Float}

/-- **The invariant is kept** by commands of positive size and what may come between them. -/
theorem Reached.step (h : Reached s rs) (hi : i.KeepsSimulated ∧ i.Positive) :
    Reached (executionService.next s i)
      (rs ++ ExecOutput.results (executionService.emit s i)) where
  simulated := (step_simulated h.simulated hi.1).1
  counter := fillCounter_step h.counter i
  held := by
    rcases state_step s i with hsame | ⟨cmd, now, exchange, rfl, hfill⟩
    · rw [hsame]
      exact h.held
    · rw [hfill]
      exact h.held.fill (OrderCommand.Positive.units_nonneg hi.2 h.counter)
  exposed := by
    -- an input that is no command publishes no result
    have hidle : ∀ os : List (ExecOutput Float), ExecOutput.results os = [] →
        (booked (rs ++ ExecOutput.results os)).Exposed := by
      intro os hos
      rw [hos, List.append_nil]
      exact h.exposed
    cases i with
    | command msg now exchange =>
      cases msg with
      | error err => exact hidle _ rfl
      | ok cmd =>
        rw [results_emit_command]
        cases hr : (s.handleCommand cmd now exchange).result with
        | error err => simpa [Except.toOption] using h.exposed
        | ok r =>
          rw [Except.toOption, Option.toList_some, booked_concat]
          exact h.exposed.recordOrder (handleCommand_size hi.2 hr)
    | configUpdate msg => cases msg <;> exact hidle _ rfl
    | blockNewOrders => exact hidle _ rfl
    | resetCircuit => exact hidle _ rfl

theorem reached_run {cfg : ExecutionConfig Float} (hnew : ExecutionService.new cfg = .ok s)
    (hmode : cfg.mode = .simulated) {is : List (ExecInput Float)}
    (his : ∀ i ∈ is, i.KeepsSimulated ∧ i.Positive) :
    Reached (executionService.run s is) (ExecOutput.results (executionService.output s is)) := by
  refine Machine.history_induction (M := executionService)
    (Q := fun i : ExecInput Float => i.KeepsSimulated ∧ i.Positive)
    (P := fun _ t os => Reached t (ExecOutput.results os)) ?_ ?_ his
  · obtain ⟨httpClient, trafficShaper, rfl⟩ := ExecutionService.new_cases hnew
    have hcounter : (0 : Float) < 30000 := by decide
    have hzero : (0 : Float) ≤ 0 := by decide
    exact ⟨hmode, hcounter, fun _ => Or.inl hzero, Amounts.all_empty⟩
  · intro h t os i ht hi
    rw [results_append]
    exact ht.step hi

/-- **The step lemma**: in a reachable state with the same open keys on both sides, they are as
many on both sides after a step iff the step moves alike, and then they are the same. -/
theorem open_step (h : Reached s rs) (hsame : (booked rs).exposure.keys = s.state.openKeys)
    (hi : i.Positive) :
    ((booked (rs ++ ExecOutput.results (executionService.emit s i))).exposure.keys.card =
        (executionService.next s i).state.openKeys.card ↔ i.MovesAlike s (booked rs)) ∧
      (i.MovesAlike s (booked rs) →
        (booked (rs ++ ExecOutput.results (executionService.emit s i))).exposure.keys =
          (executionService.next s i).state.openKeys) := by
  -- an input that is no command publishes no result and leaves the ledger alone
  have hidle : ∀ {t : ExecutionService Float} {os : List (ExecOutput Float)}, t.state = s.state →
      ExecOutput.results os = [] →
      ((booked (rs ++ ExecOutput.results os)).exposure.keys.card = t.state.openKeys.card ↔ True) ∧
        (True → (booked (rs ++ ExecOutput.results os)).exposure.keys = t.state.openKeys) := by
    intro t os ht hos
    rw [ht, hos, List.append_nil, hsame]
    exact ⟨iff_of_true rfl trivial, fun _ => rfl⟩
  cases i with
  | command msg now exchange =>
    cases msg with
    | error err => exact hidle rfl rfl
    | ok cmd =>
      obtain ⟨r, hr, -⟩ := ExecutionService.handleCommand_simulated h.simulated cmd now exchange
      rw [results_emit_command, hr, Except.toOption, Option.toList_some, booked_concat]
      exact open_command h.simulated h.counter h.held h.exposed hsame hi hr
  | configUpdate msg =>
    cases msg with
    | none => exact hidle rfl rfl
    | some newCfg => exact hidle (s.updateConfig_state newCfg) rfl
  | blockNewOrders => exact hidle rfl rfl
  | resetCircuit => exact hidle rfl rfl

/-- **Exactly when supervisor and execution service agree on what is open**: every executed buy
leaves something held, and every executed sale takes the whole exposure of its symbol iff it takes
the whole position. -/
theorem openAgrees_iff {cfg : ExecutionConfig Float} (hnew : ExecutionService.new cfg = .ok s)
    (hmode : cfg.mode = .simulated) {is : List (ExecInput Float)}
    (his : ∀ i ∈ is, i.KeepsSimulated ∧ i.Positive) :
    OpenAgrees s is ↔ AllMoveAlike s is := by
  rw [openAgrees_iff_booked]
  -- by the last input: as long as the numbers agree, the keys do
  suffices h : ((∀ pre, pre <+: is →
      (booked (ExecOutput.results (executionService.output s pre))).exposure.keys.card =
        (executionService.run s pre).state.openKeys.card) ↔ AllMoveAlike s is) ∧
      (AllMoveAlike s is →
        (booked (ExecOutput.results (executionService.output s is))).exposure.keys =
          (executionService.run s is).state.openKeys) from h.1
  induction is using List.reverseRecOn with
  | nil =>
    have hempty : (booked (ExecOutput.results (executionService.output s []))).exposure.keys =
        (executionService.run s []).state.openKeys := by
      rw [Machine.run_nil, (ExecutionService.new_spec hnew).2]
      rfl
    refine ⟨iff_of_true ?_ always_nil, fun _ => hempty⟩
    intro pre hpre
    rw [List.prefix_nil.1 hpre, hempty]
  | append_singleton is i ih =>
    obtain ⟨hiff, hkeys⟩ := ih fun j hj => his j (List.mem_append_left _ hj)
    have hreached := reached_run hnew hmode fun j hj => his j (List.mem_append_left _ hj)
    have hsplit : (∀ pre, pre <+: is ++ [i] →
        (booked (ExecOutput.results (executionService.output s pre))).exposure.keys.card =
          (executionService.run s pre).state.openKeys.card) ↔
        AllMoveAlike s is ∧
          (booked (ExecOutput.results (executionService.output s (is ++ [i])))).exposure.keys.card =
            (executionService.run s (is ++ [i])).state.openKeys.card := by
      rw [← hiff]
      constructor
      · intro h
        refine ⟨?_, h _ (List.prefix_refl _)⟩
        exact fun pre hpre => h pre (hpre.trans (List.prefix_append is [i]))
      · rintro ⟨h, hlast⟩ pre hpre
        rcases List.prefix_concat_iff.1 hpre with rfl | hpre
        · exact hlast
        · exact h pre hpre
    have hstep (hsame : (booked (ExecOutput.results (executionService.output s is))).exposure.keys =
        (executionService.run s is).state.openKeys) :=
      open_step hreached hsame (his i (by simp)).2
    rw [hsplit, AllMoveAlike, always_concat, Machine.output_concat, results_append,
      Machine.run_concat]
    constructor
    · exact and_congr_right fun halways => (hstep (hkeys halways)).1
    · rintro ⟨halways, hi⟩
      exact (hstep (hkeys halways)).2 hi

end OpenPositions

/-- A simulated account of 100000. -/
def floatConfig : ExecutionConfig Float where
  initialBalanceUsdt := 100000
  netProfile := NetProfile.default
  liveTradingEnabled := false
  mode := .simulated
  okx := none

/-- An order for `BTCUSDT`. -/
def floatOrder (id : String) (side : OrderSide) (sizeQuote price : Float) : OrderCommand Float where
  id := id
  exchange := .okx
  symbol := ⟨"btc", "usdt"⟩
  side := side
  orderType := .limit
  sizeQuote := sizeQuote
  limitPrice := some price
  traceId := none

/-- A buy at 100 of one unit, and a sale of it at the same price. -/
def wholeSold : List (ExecInput Float) :=
  [.command (.ok (floatOrder "a" .buy 100 100)) 0 fun _ => .unsent "unreachable",
    .command (.ok (floatOrder "b" .sell 100 100)) 1 fun _ => .unsent "unreachable"]

/-- A buy at 100 of one unit, and a sale of half of it at twice the price. -/
def halfSold : List (ExecInput Float) :=
  [.command (.ok (floatOrder "a" .buy 100 100)) 0 fun _ => .unsent "unreachable",
    .command (.ok (floatOrder "b" .sell 100 200)) 1 fun _ => .unsent "unreachable"]

/-- What is bought is sold at the same price. -/
theorem openAgrees_iff_sample :
    letI := asciiCase
    letI := acceptAll
    letI := keyOrder
    ∃ s, ExecutionService.new floatConfig = .ok s ∧ OpenAgrees s wholeSold := by
  let _ := asciiCase
  let _ := acceptAll
  let _ := keyOrder
  obtain ⟨s, hs⟩ : ∃ s, ExecutionService.new floatConfig = .ok s := ⟨_, rfl⟩
  have hpositive : ∀ i ∈ wholeSold, i.KeepsSimulated ∧ i.Positive := by
    intro i hi
    simp only [wholeSold, List.mem_cons, List.not_mem_nil, or_false] at hi
    rcases hi with rfl | rfl <;>
      exact ⟨trivial, by decide, by decide, by rintro _ ⟨⟩; decide⟩
  refine ⟨s, hs, (openAgrees_iff hs rfl hpositive).2 ?_⟩
  have htwo : wholeSold = [] ++ [wholeSold[0]] ++ [wholeSold[1]] := rfl
  rw [AllMoveAlike, htwo, always_concat, always_concat]
  cases hs
  refine ⟨⟨always_nil, fun _ _ => ?_⟩, fun _ _ => ?_⟩
  · show 0 ≤ _ ∧ (0 < _ ∨ 0 < _)
    decide +kernel
  · show _ ≤ _ ↔ _ ≤ _
    decide +kernel

/-- **The supervisor does not count what is open**: half a unit is held after the sale, and the
supervisor reports no open position. -/
theorem not_openAgrees :
    letI := asciiCase
    letI := acceptAll
    letI := keyOrder
    ∃ s, ExecutionService.new floatConfig = .ok s ∧ ¬ OpenAgrees s halfSold := by
  let _ := asciiCase
  let _ := acceptAll
  let _ := keyOrder
  refine ⟨_, rfl, fun h => ?_⟩
  have hlast := (openAgrees_iff_booked _ _).1 h halfSold (List.prefix_refl _)
  exact absurd hlast (by decide +kernel)

end W2uos
