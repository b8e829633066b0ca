import Mathlib.Tactic.Linarith
import W2uos.Data.Timestamps
import W2uos.Risk.OpenPositions

/-!
# What the daily loss measures

The supervisor calls the quote amount sold less the quote amount bought the profit of the day.  It
is a cash flow: what was paid for a position counts as a loss until the position is sold.  Together
with the notional it is the *surplus*, which moves only when a result takes an exposure below zero,
as the entry is dropped then; so a loss limit can only be reached by a notional that is as large.

The profit is never set back, and the timestamps of the results are not looked at: it is the profit
of a day only if the days before it have none.

* `surplus_recordOrder` : what one result adds to the surplus, the profit and notional together;
* `loss_within_notional` : the surplus over a run, and what a loss implies;
* `dailyProfit_run` : when the profit reported is that of the day.
-/

namespace W2uos

section Loss

variable [CaseTable] {rs : List OrderResult} {s : RiskState}

omit [CaseTable] in
/-- The profit and the notional together. -/
def RiskStatus.surplus (status : RiskStatus) : ℚ := status.dailyPnlQuote + status.totalNotional

/-- The amount by which a result takes the exposure of its symbol below zero. -/
def RiskState.shortfall (s : RiskState) (r : OrderResult) : ℚ :=
  match r.change (symbolKey r.symbol) with
  | none => 0
  | some d => max 0 (-(s.exposure.amount (symbolKey r.symbol) + d))

/-- The result is no filled sale of more than the exposure of its symbol. -/
def RiskState.Covers (s : RiskState) (r : OrderResult) : Prop :=
  r.status = .filled → r.side = .sell →
    r.filledSizeQuote ≤ s.exposure.amount (symbolKey r.symbol)

/-- No filled sale exceeds the exposure of its symbol when it is recorded. -/
def Covered (rs : List OrderResult) : Prop := Always (fun before r => (booked before).Covers r) rs

/-! ### One result -/

omit [CaseTable] in
theorem reflect_eq (x d : ℚ) : reflect x d = x + d + max 0 (-(x + d)) := by
  unfold reflect
  split_ifs with h
  · rw [max_eq_right (neg_nonneg.2 h), add_neg_cancel]
  · rw [max_eq_left (neg_nonpos.2 (not_le.1 h).le), add_zero]

omit [CaseTable] in
theorem total_settle (m : Amounts String ℚ) (key : String) (d : ℚ) :
    (settle m key (m.amount key + d)).total =
      m.total - m.amount key + reflect (m.amount key) d := by
  have htotal := Amounts.total_eq_add_erase m key
  unfold settle reflect
  split_ifs with h
  · rw [Amounts.erase_insert_self, htotal]
    ring
  · rw [Amounts.total_insert, htotal]
    ring

/-- **What one result adds to the surplus** is what it takes the exposure below zero. -/
theorem surplus_recordOrder (hs : s.status.totalNotional = s.exposure.total) (r : OrderResult) :
    (s.recordOrder r).status.surplus = s.status.surplus + s.shortfall r := by
  unfold RiskState.shortfall
  by_cases hr : r.status = .filled
  · obtain ⟨d, hd, -, hstate⟩ := recordOrder_filled hr s []
    rw [hd, if_pos rfl, hstate]
    show s.status.dailyPnlQuote - d + (settle s.exposure _ _).total = _
    rw [total_settle, reflect_eq, RiskStatus.surplus, hs]
    ring
  · rw [recordOrder_of_ne hr, change_eq_none hr]
    exact (add_zero _).symm

theorem shortfall_nonneg (s : RiskState) (r : OrderResult) : 0 ≤ s.shortfall r := by
  unfold RiskState.shortfall
  split
  · exact le_rfl
  · exact le_max_left _ _

/-- A result of some amount adds nothing to the surplus exactly if it is covered. -/
theorem shortfall_eq_zero_iff (hs : s.exposure.Pos) {r : OrderResult}
    (hr : 0 ≤ r.filledSizeQuote) : s.shortfall r = 0 ↔ s.Covers r := by
  unfold RiskState.shortfall RiskState.Covers OrderResult.change
  cases hstatus : r.status with
  | new => simp
  | rejected reason => simp
  | filled =>
    cases hside : r.side with
    | buy =>
      -- a purchase keeps the exposure from going below zero
      have hamount : 0 ≤ s.exposure.amount (symbolKey r.symbol) := hs.nonneg.amount _
      simpa using (neg_nonpos.2 hr).trans hamount
    | sell => simp [← sub_eq_add_neg]

/-! ### All results -/

theorem bookings (rs : List OrderResult) : Bookings rs (booked rs) := bookings_booked rs

theorem surplus_concat (rs : List OrderResult) (r : OrderResult) :
    (booked (rs ++ [r])).status.surplus =
      (booked rs).status.surplus + (booked rs).shortfall r := by
  rw [booked_concat, surplus_recordOrder (bookings rs).notional]

/-- **The surplus never falls.** -/
theorem surplus_mono {before rs : List OrderResult} (h : before <+: rs) :
    (booked before).status.surplus ≤ (booked rs).status.surplus := by
  obtain ⟨after, rfl⟩ := h
  induction after using List.reverseRecOn with
  | nil => rw [List.append_nil]
  | append_singleton after r ih =>
    rw [← List.append_assoc, surplus_concat]
    exact ih.trans (le_add_of_nonneg_right (shortfall_nonneg _ _))

theorem surplus_nonneg (rs : List OrderResult) : 0 ≤ (booked rs).status.surplus := by
  have hmono : (booked []).status.surplus ≤ (booked rs).status.surplus :=
    surplus_mono List.nil_prefix
  simpa [booked, RiskState.initial, RiskStatus.default, RiskStatus.surplus] using hmono

omit [CaseTable] in
/-- If there is no deficit, a loss of a limit implies a notional of the limit. -/
theorem RiskStatus.notional_of_loss {status : RiskStatus} (hsurplus : 0 ≤ status.surplus)
    {limit : ℚ} (hloss : status.dailyPnlQuote ≤ -limit) : limit ≤ status.totalNotional := by
  unfold surplus at hsurplus
  linarith

/-- The surplus of results of some amounts is zero exactly if all sales are covered. -/
theorem surplus_eq_zero_iff (hrs : ∀ r ∈ rs, 0 ≤ r.filledSizeQuote) :
    (booked rs).status.surplus = 0 ↔ Covered rs := by
  induction rs using List.reverseRecOn with
  | nil =>
    refine iff_of_true ?_ always_nil
    simp [booked, RiskState.initial, RiskStatus.default, RiskStatus.surplus]
  | append_singleton rs r ih =>
    have hbefore := ih fun q hq => hrs q (List.mem_append_left _ hq)
    have hr : 0 ≤ r.filledSizeQuote := hrs r (by simp)
    have hcovered : Covered (rs ++ [r]) ↔ Covered rs ∧ (booked rs).Covers r := always_concat
    rw [surplus_concat, hcovered, ← hbefore, ← shortfall_eq_zero_iff (bookings rs).pos hr]
    exact add_eq_zero_iff_of_nonneg (surplus_nonneg rs) (shortfall_nonneg _ _)

/-- **What the loss limit measures**: profit and notional together are never negative and never
fall, and stay at zero exactly as long as no filled sale exceeds the exposure of its symbol; so a
loss of the limit implies a notional of the limit. -/
theorem loss_within_notional (rs : List OrderResult) (hrs : ∀ r ∈ rs, 0 ≤ r.filledSizeQuote) :
    0 ≤ (booked rs).status.dailyPnlQuote + (booked rs).status.totalNotional ∧
      (∀ before, before <+: rs →
        (booked before).status.dailyPnlQuote + (booked before).status.totalNotional ≤
          (booked rs).status.dailyPnlQuote + (booked rs).status.totalNotional) ∧
      ((booked rs).status.dailyPnlQuote + (booked rs).status.totalNotional = 0 ↔ Covered rs) ∧
      ∀ config : GlobalRiskConfig,
        (booked rs).status.dailyPnlQuote ≤ -config.maxDailyLossAbs →
          config.maxDailyLossAbs ≤ (booked rs).status.totalNotional := by
  refine ⟨surplus_nonneg rs, fun before h => surplus_mono h, surplus_eq_zero_iff hrs, ?_⟩
  intro config hloss
  exact RiskStatus.notional_of_loss (surplus_nonneg rs) hloss

omit [CaseTable] in
/-- Purchases of 200 and 100, and a sale of 50 of the first. -/
def twoSymbols : List OrderResult :=
  [lossOrder, { lossOrder with symbol := ⟨"ETH", "USDT"⟩, filledSizeQuote := 100 },
    { lossOrder with side := .sell, filledSizeQuote := 50 }]

omit [CaseTable] in
/-- Purchases of two symbols and a sale: a loss of 250, and a notional of as much. -/
theorem loss_within_notional_sample :
    (@booked _ _ _ _ asciiCase _ _ _ _ twoSymbols).status.dailyPnlQuote ≤
        -lossLimits.maxDailyLossAbs ∧
      lossLimits.maxDailyLossAbs ≤
        (@booked _ _ _ _ asciiCase _ _ _ _ twoSymbols).status.totalNotional := by
  let _ := asciiCase
  have hloss : (booked twoSymbols).status.dailyPnlQuote ≤ -lossLimits.maxDailyLossAbs := by
    decide +kernel
  have hquote : ∀ r ∈ twoSymbols, 0 ≤ r.filledSizeQuote := by decide +kernel
  exact ⟨hloss, (loss_within_notional twoSymbols hquote).2.2.2 lossLimits hloss⟩

/-- In every run of the supervisor a loss of the limit implies a notional of the limit. -/
theorem loss_run (cfg : GlobalRiskConfig) (h : List RiskInput) (config : GlobalRiskConfig)
    (hloss : (riskSupervisor.run (.new cfg) h).status.dailyPnlQuote ≤ -config.maxDailyLossAbs) :
    config.maxDailyLossAbs ≤ (riskSupervisor.run (.new cfg) h).status.totalNotional := by
  -- the surplus does not look at flag and errors
  have hmark : (riskSupervisor.run (.new cfg) h).status.surplus =
      (booked (RiskInput.orders h)).status.surplus :=
    (congrArg (fun s : RiskState => s.status.surplus) (recorded_run cfg h false []) :)
  have hsurplus : 0 ≤ (riskSupervisor.run (.new cfg) h).status.surplus := by
    rw [hmark]
    exact surplus_nonneg _
  exact RiskStatus.notional_of_loss hsurplus hloss

/-! ### Days -/

omit [CaseTable] in
/-- The day of a timestamp in UTC, from the first of January 1970. -/
def utcDay (t : DateTime) : ℤ := t / nanosPerDay

end Loss

section Days

variable [CaseTable] [HashOrder] {rs before : List (OrderResult Float)} {r : OrderResult Float}

/-- The sum of the filled results, sales less purchases, in order. -/
def signedSum (rs : List (OrderResult Float)) : Float :=
  rs.foldl (fun sum r => if r.status = .filled then sum + r.side.earn r.filledSizeQuote else sum) 0

/-- The results of a day. -/
def ofDay (day : ℤ) (rs : List (OrderResult Float)) : List (OrderResult Float) :=
  rs.filter fun r => utcDay r.ts = day

/-- The profit reported is the sum of the results of the day of the last one. -/
def DailyProfit (rs : List (OrderResult Float)) : Prop :=
  ∀ last ∈ rs.getLast?,
    (booked rs).status.dailyPnlQuote = signedSum (ofDay (utcDay last.ts) rs)

/-- The result is the first of its day. -/
def BeginsDay (before : List (OrderResult Float)) (r : OrderResult Float) : Prop :=
  ∀ q ∈ before, utcDay q.ts < utcDay r.ts

omit [CaseTable] [HashOrder] in
theorem signedSum_concat (rs : List (OrderResult Float)) (r : OrderResult Float) :
    signedSum (rs ++ [r]) = if r.status = .filled then
      signedSum rs + r.side.earn r.filledSizeQuote else signedSum rs := by
  rw [signedSum, List.foldl_append]
  rfl

theorem booked_profit (rs : List (OrderResult Float)) :
    (booked rs).status.dailyPnlQuote = signedSum rs := by
  induction rs using List.reverseRecOn with
  | nil => rfl
  | append_singleton rs r ih =>
    rw [booked_concat, signedSum_concat, ← ih]
    by_cases hr : r.status = .filled
    · rw [recordOrder_of_filled hr, if_pos hr]
    · rw [recordOrder_of_ne hr, if_neg hr]

omit [CaseTable] [HashOrder] in
theorem utcDay_mono {t u : DateTime} (h : t ≤ u) : utcDay t ≤ utcDay u :=
  Int.ediv_le_ediv (by decide) h

theorem dailyProfit_concat_iff :
    DailyProfit (rs ++ [r]) ↔
      signedSum (rs ++ [r]) = signedSum (ofDay (utcDay r.ts) rs ++ [r]) := by
  have hday : ofDay (utcDay r.ts) (rs ++ [r]) = ofDay (utcDay r.ts) rs ++ [r] := by
    simp [ofDay]
  rw [DailyProfit, List.getLast?_concat, booked_profit, ← hday]
  simp

theorem dailyProfit_first_iff (h : BeginsDay rs r) :
    DailyProfit (rs ++ [r]) ↔ signedSum (rs ++ [r]) = signedSum [r] := by
  have hnone : ofDay (utcDay r.ts) rs = [] :=
    List.filter_eq_nil_iff.2 fun q hq => by simpa using (h q hq).ne
  rw [dailyProfit_concat_iff, hnone, List.nil_append]

theorem DailyProfit.concat (hsorted : (rs ++ [r]).Pairwise fun q t => q.ts ≤ t.ts)
    (h : DailyProfit rs) (hday : ¬ BeginsDay rs r) : DailyProfit (rs ++ [r]) := by
  rw [dailyProfit_concat_iff, signedSum_concat, signedSum_concat]
  suffices hsum : signedSum rs = signedSum (ofDay (utcDay r.ts) rs) by rw [hsum]
  obtain ⟨q, hq, hle⟩ : ∃ q ∈ rs, utcDay r.ts ≤ utcDay q.ts := by
    simpa [BeginsDay] using hday
  obtain ⟨before, last, rfl⟩ := (List.eq_nil_or_concat rs).resolve_left (List.ne_nil_of_mem hq)
  -- the last result is of the day of `r`, as it is between `q` and `r`
  obtain ⟨hbefore, -, hlast⟩ := List.pairwise_append.1 hsorted
  have hqlast : q.ts ≤ last.ts := by
    rw [List.concat_eq_append] at hq hbefore
    rcases List.mem_append.1 hq with hq | hq
    · exact (List.pairwise_append.1 hbefore).2.2 q hq last (by simp)
    · rw [List.mem_singleton.1 hq]
  have hsame : utcDay last.ts = utcDay r.ts :=
    (utcDay_mono (hlast last (by simp) r (by simp))).antisymm (hle.trans (utcDay_mono hqlast))
  rw [← booked_profit, h last (by simp), hsame]

/-- At the first result of every day the profit of the days before is zero. -/
def DaysBalanced (rs : List (OrderResult Float)) : Prop :=
  Always (fun before r => BeginsDay before r → signedSum before = 0) rs

/-- **When the profit reported is that of the day**: if each day begins with a profit of zero, the
supervisor reports the sum of the day after every result; and it does exactly if the profit is lost
in rounding whenever a day begins. -/
theorem dailyProfit_run (rs : List (OrderResult Float))
    (hsorted : rs.Pairwise fun r q => r.ts ≤ q.ts) :
    (DaysBalanced rs → ∀ pre, pre <+: rs → DailyProfit pre) ∧
      ((∀ pre, pre <+: rs → DailyProfit pre) ↔
        Always (fun before r => BeginsDay before r →
          signedSum (before ++ [r]) = signedSum [r]) rs) := by
  have hexact : (∀ pre, pre <+: rs → DailyProfit pre) ↔
      Always (fun before r => BeginsDay before r → signedSum (before ++ [r]) = signedSum [r])
        rs := by
    induction rs using List.reverseRecOn with
    | nil =>
      refine iff_of_true (fun pre hpre => ?_) always_nil
      rw [List.prefix_nil.1 hpre]
      intro last hlast
      cases hlast
    | append_singleton rs r ih =>
      rw [always_concat, ← ih (List.pairwise_append.1 hsorted).1]
      constructor
      · intro h
        refine ⟨fun pre hpre => h pre (hpre.trans (List.prefix_append rs [r])), fun hday => ?_⟩
        exact (dailyProfit_first_iff hday).1 (h _ (List.prefix_refl _))
      · rintro ⟨h, hfirst⟩ pre hpre
        rcases List.prefix_concat_iff.1 hpre with rfl | hpre
        · by_cases hday : BeginsDay rs r
          · exact (dailyProfit_first_iff hday).2 (hfirst hday)
          · exact (h rs (List.prefix_refl rs)).concat hsorted hday
        · exact h pre hpre
  refine ⟨fun h => hexact.2 fun before r after hrs hday => ?_, hexact⟩
  have hzero := h before r after hrs hday
  rw [signedSum_concat, hzero]
  rfl

/-- A fill of 200 at some time. -/
def fillAt (ts : DateTime) (side : OrderSide) : OrderResult Float :=
  { lossOrder Float with ts, side }

omit [CaseTable] [HashOrder] in
/-- What is bought on the first day is sold on it, and bought again on the second. -/
theorem dailyProfit_run_sample :
    letI := asciiCase
    letI := keyOrder
    DailyProfit [fillAt 0 .buy] ∧ DailyProfit [fillAt 0 .buy, fillAt 1 .sell] ∧
      DailyProfit [fillAt 0 .buy, fillAt 1 .sell, fillAt nanosPerDay .buy] := by
  let _ := asciiCase
  let _ := keyOrder
  have hdays : ∀ pre, pre <+: [fillAt 0 .buy, fillAt 1 .sell, fillAt nanosPerDay .buy] →
      DailyProfit pre := by
    refine (dailyProfit_run [fillAt 0 .buy, fillAt 1 .sell, fillAt nanosPerDay .buy]
      (by decide)).1 ?_
    have hthree : [fillAt 0 .buy, fillAt 1 .sell, fillAt nanosPerDay .buy] =
        [] ++ [fillAt 0 .buy] ++ [fillAt 1 .sell] ++ [fillAt nanosPerDay .buy] := rfl
    rw [DaysBalanced, hthree, always_concat, always_concat, always_concat]
    refine ⟨⟨⟨always_nil, fun _ => rfl⟩, fun hday => ?_⟩, fun _ => by decide +kernel⟩
    exact absurd (hday _ List.mem_cons_self) (by decide)
  exact ⟨hdays _ ⟨_, rfl⟩, hdays _ ⟨_, rfl⟩, hdays _ ⟨[], rfl⟩⟩

omit [CaseTable] [HashOrder] in
/-- **A profit that is not that of the day**: the purchase of the day before still counts. -/
theorem not_dailyProfit :
    letI := asciiCase
    letI := keyOrder
    [fillAt 0 .buy, fillAt nanosPerDay .buy].Pairwise (fun r q => r.ts ≤ q.ts) ∧
      ¬ DailyProfit [fillAt 0 .buy, fillAt nanosPerDay .buy] := by
  let _ := asciiCase
  let _ := keyOrder
  refine ⟨by decide, fun h => ?_⟩
  have hpnl := h _ rfl
  rw [booked_profit] at hpnl
  exact absurd hpnl (by decide +kernel)

end Days

end W2uos
