import W2uos.Backtest.Pnl
import W2uos.System.Curve

/-!
# The drawdown and the win rate of a backtest

The metrics add up a profit, and call the sum of the profits after each result the equity: what is
added up once in the profit is added up twice there.  The drawdown is computed from the equity and
its peak at the end only, and a result counts as a win if the profit so far is not negative.  The
profit is right; the other two are what they should be in some runs only, such as those without
losses.

* `describes_recorded` : what the metrics are, in terms of the contributions;
* `metricsExact`, `not_metricsExact` : when the reported result is right.
-/

namespace W2uos

open Curve

/-- The contribution of each filled result, in order. -/
def contributions (rs : List OrderResult) : List ℚ :=
  (rs.filter fun r => r.status = .filled).map fun r => r.filledSizeQuote * (1 / 1000)

/-- The result of a backtest in which these order results are recorded. -/
def backtestResult (rs : List OrderResult) : BacktestResult :=
  (rs.foldl BacktestMetrics.record BacktestMetrics.default).toResult

/-- The number of values that are not negative. -/
def wins (ds : List ℚ) : ℕ := ds.countP fun d => 0 ≤ d

/-- The profit is the sum of the contributions, the drawdown the largest fall of their sums along
the way, and the win rate the share of the contributions that are not negative (zero if there are
none). -/
structure MetricsExact (rs : List OrderResult) : Prop where
  pnl : (backtestResult rs).pnl = (contributions rs).sum
  maxDrawdown : (backtestResult rs).maxDrawdown = maxFall (sums (contributions rs))
  winRate : (backtestResult rs).winRate = wins (contributions rs) / (contributions rs).length

/-- The metrics have recorded the contributions. -/
structure BacktestMetrics.Describes (metrics : BacktestMetrics) (ds : List ℚ) : Prop where
  pnl : metrics.pnl = ds.sum
  tradeCount : metrics.tradeCount = ds.length
  /-- A result counts as a win if the profit so far is not negative. -/
  wins : metrics.wins = W2uos.wins (sums ds)
  /-- The equity is the sum of the profits. -/
  equity : metrics.equity = (sums ds).sum
  equityPeak : metrics.equityPeak = peak (sums (sums ds))

theorem contributions_concat (rs : List OrderResult) (r : OrderResult) :
    contributions (rs ++ [r]) =
      contributions rs ++
        if r.status = .filled then [r.filledSizeQuote * (1 / 1000)] else [] := by
  unfold contributions
  by_cases hr : r.status = .filled
  · simp [hr]
  · simp [hr]

theorem wins_concat (ds : List ℚ) (d : ℚ) :
    wins (ds ++ [d]) = if 0 ≤ d then wins ds + 1 else wins ds := by
  unfold wins
  by_cases hd : 0 ≤ d
  · simp [hd]
  · simp [hd]

/-- **One result.** -/
theorem BacktestMetrics.Describes.record {metrics : BacktestMetrics} {ds : List ℚ}
    (h : metrics.Describes ds) (r : OrderResult) :
    (metrics.record r).Describes
      (ds ++ if r.status = .filled then [r.filledSizeQuote * (1 / 1000)] else []) := by
  obtain ⟨hpnl, hcount, hwins, hequity, hpeak⟩ := h
  unfold BacktestMetrics.record
  cases hstatus : r.status with
  | filled =>
    rw [if_pos rfl]
    refine ⟨?_, ?_, ?_, ?_, ?_⟩
    · simp [hpnl]
    · simp [hcount]
    · simp [hpnl, hwins, wins_concat]
    · simp [hpnl, hequity]
    · simp [hpnl, hequity, hpeak]
  | new => simpa using ⟨hpnl, hcount, hwins, hequity, hpeak⟩
  | rejected reason => simpa using ⟨hpnl, hcount, hwins, hequity, hpeak⟩

/-- **All results**: what the metrics are, in terms of the contributions. -/
theorem describes_recorded (rs : List OrderResult) :
    (rs.foldl BacktestMetrics.record BacktestMetrics.default).Describes (contributions rs) := by
  induction rs using List.reverseRecOn with
  | nil => exact ⟨rfl, rfl, rfl, rfl, rfl⟩
  | append_singleton rs r ih =>
    rw [List.foldl_append, contributions_concat]
    exact ih.record r

/-- The drawdown reported is the fall of the sums of the profits at the end. -/
theorem maxDrawdown_eq (rs : List OrderResult) :
    (backtestResult rs).maxDrawdown = fall (sums (sums (contributions rs))) := by
  obtain ⟨-, -, -, hequity, hpeak⟩ := describes_recorded rs
  have hlast : last (sums (sums (contributions rs))) = (sums (contributions rs)).sum :=
    last_sums _
  have hle : (sums (contributions rs)).sum ≤ peak (sums (sums (contributions rs))) := by
    rw [← hlast]
    exact last_le_peak _
  rw [backtestResult, BacktestMetrics.toResult, hequity, hpeak, fall, hlast,
    max_eq_left (sub_nonneg.2 hle)]

/-- The win rate reported is the share of the profits that are not negative. -/
theorem winRate_eq (rs : List OrderResult) :
    (backtestResult rs).winRate =
      wins (sums (contributions rs)) / (contributions rs).length := by
  obtain ⟨-, hcount, hwins, -, -⟩ := describes_recorded rs
  rw [backtestResult, BacktestMetrics.toResult, hcount, hwins]
  by_cases hlength : 0 < (contributions rs).length
  · rw [if_pos hlength]
  · have hzero : (contributions rs).length = 0 := Nat.eq_zero_of_not_pos hlength
    rw [if_neg hlength, hzero, Nat.cast_zero, div_zero]

/-- The win rate is right exactly if as many profits as contributions are not negative. -/
theorem winRate_exact_iff (rs : List OrderResult) :
    (backtestResult rs).winRate = wins (contributions rs) / (contributions rs).length ↔
      wins (sums (contributions rs)) = wins (contributions rs) := by
  rw [winRate_eq]
  rcases eq_or_ne (contributions rs) [] with hnil | hne
  · rw [hnil]
    exact iff_of_true rfl rfl
  · have hlength : ((contributions rs).length : ℚ) ≠ 0 :=
      Nat.cast_ne_zero.2 (List.length_pos_iff.2 hne).ne'
    rw [div_left_inj' hlength, Nat.cast_inj]

/-- Every profit is negative exactly if the contribution that leads to it is. -/
def SignsAgree (ds : List ℚ) : Prop := Always (fun before d => 0 ≤ before.sum + d ↔ 0 ≤ d) ds

/-- After no profit a loss leads to a negative one, so there are at most as many profits as
contributions that are not negative, and as many exactly if their signs agree. -/
theorem wins_sums {ds : List ℚ} (hsteady : Steady ds) :
    wins (sums ds) ≤ wins ds ∧ (wins (sums ds) = wins ds ↔ SignsAgree ds) := by
  induction ds using List.reverseRecOn with
  | nil => exact ⟨le_rfl, iff_of_true rfl always_nil⟩
  | append_singleton ds d ih =>
    obtain ⟨hsteady, hloss⟩ := steady_concat.1 hsteady
    obtain ⟨hle, hiff⟩ := ih hsteady
    have hsign : 0 ≤ ds.sum + d → 0 ≤ d := by
      intro hsum
      by_contra hneg
      have hlast : ds.sum ≤ 0 := by
        rw [← last_sums]
        exact (last_le_peak _).trans (peak_le_iff.2 ⟨le_rfl, hloss (not_le.1 hneg)⟩)
      linarith
    rw [SignsAgree, always_concat, ← SignsAgree, ← hiff, sums_concat, wins_concat, wins_concat]
    by_cases hsum : 0 ≤ ds.sum + d
    · simp only [hsum, hsign hsum, if_true, iff_self, and_true]
      omega
    · by_cases hd : 0 ≤ d
      · simp only [hsum, hd, if_true, if_false, false_iff, not_true_eq_false, and_false,
          iff_false]
        omega
      · simp only [hsum, hd, if_false, iff_self, and_true]
        omega

/-- While no loss comes after the profit has been positive, the result is right exactly if the
profits have the signs of the contributions. -/
theorem metricsExact_iff_of_steady {rs : List OrderResult} (hsteady : Steady (contributions rs)) :
    MetricsExact rs ↔ SignsAgree (contributions rs) := by
  rw [← (wins_sums hsteady).2]
  constructor
  · exact fun h => (winRate_exact_iff rs).1 h.winRate
  · intro hwins
    refine ⟨(describes_recorded rs).pnl, ?_, (winRate_exact_iff rs).2 hwins⟩
    rw [maxDrawdown_eq, hsteady.fall_sums_sums, maxFall_sums_eq_zero_iff.2 hsteady]

/-- While the profit is never negative, the result is right exactly if there is no loss. -/
theorem metricsExact_iff_of_nonneg {rs : List OrderResult}
    (hnonneg : ∀ s ∈ sums (contributions rs), 0 ≤ s) :
    MetricsExact rs ↔ ∀ d ∈ contributions rs, 0 ≤ d := by
  constructor
  · intro h
    have hall : wins (sums (contributions rs)) = (contributions rs).length := by
      rw [wins, List.countP_eq_length.2 fun s hs => decide_eq_true (hnonneg s hs)]
      simp [sums]
    have hwins := (winRate_exact_iff rs).1 h.winRate
    rw [hall, eq_comm, wins, List.countP_eq_length] at hwins
    exact fun d hd => of_decide_eq_true (hwins d hd)
  · intro h
    rw [metricsExact_iff_of_steady (steady_of_nonneg h)]
    intro before d after hds
    have hd : 0 ≤ d := h d (by simp [hds])
    have hbefore : 0 ≤ before.sum :=
      List.sum_nonneg fun x hx => h x (by simp [hds, hx])
    exact iff_of_true (add_nonneg hbefore hd) hd

/-- **When the reported result is right**: if no loss comes after the profit has been positive, and
every profit has the sign of the contribution that leads to it.  While the first is so the second is
needed too; and where the profit is never negative, it is right exactly if there is no loss. -/
theorem metricsExact (rs : List OrderResult) :
    (Steady (contributions rs) ∧ SignsAgree (contributions rs) → MetricsExact rs) ∧
      (Steady (contributions rs) → (MetricsExact rs ↔ SignsAgree (contributions rs))) ∧
      ((∀ s ∈ sums (contributions rs), 0 ≤ s) →
        (MetricsExact rs ↔ ∀ d ∈ contributions rs, 0 ≤ d)) :=
  ⟨fun h => (metricsExact_iff_of_steady h.1).2 h.2, metricsExact_iff_of_steady,
    metricsExact_iff_of_nonneg⟩

/-- Two purchases of a negative amount, in a backtest that only loses. -/
def losses : List ExecInput :=
  [.command (.ok (sampleOrder "a" .buy (-1000) (some 100))) 0 fun _ => .unsent "unreachable",
    .command (.ok (sampleOrder "b" .buy (-500) (some 100))) 1 fun _ => .unsent "unreachable"]

theorem metricsExact_sample :
    ∃ s, @ExecutionService.new ℚ acceptAll _ .default = .ok s ∧
      contributions (ExecOutput.results (sampleService.output s losses)) = [-1, -1 / 2] ∧
      MetricsExact (ExecOutput.results (sampleService.output s losses)) := by
  obtain ⟨s, hnew, hds⟩ :
      ∃ s, @ExecutionService.new ℚ acceptAll _ .default = .ok s ∧
        contributions (ExecOutput.results (sampleService.output s losses)) = [-1, -1 / 2] :=
    ⟨_, rfl, by decide +kernel⟩
  refine ⟨s, hnew, hds, (metricsExact _).1 ?_⟩
  have htwo : ([-1, -1 / 2] : List ℚ) = [] ++ [-1] ++ [-1 / 2] := rfl
  rw [hds, htwo, steady_concat, steady_concat, SignsAgree, always_concat, always_concat]
  refine ⟨⟨⟨always_nil, fun _ => by decide +kernel⟩, fun _ => by decide +kernel⟩,
    ⟨always_nil, by decide +kernel⟩, by decide +kernel⟩

/-- A purchase of 1000, and one of -500. -/
def negativePurchase : List ExecInput :=
  [.command (.ok (sampleOrder "a" .buy 1000 (some 100))) 0 fun _ => .unsent "unreachable",
    .command (.ok (sampleOrder "b" .buy (-500) (some 100))) 1 fun _ => .unsent "unreachable"]

/-- **A fall that is not reported**: the second purchase takes back half of the profit, and the
metrics report no drawdown and two wins. -/
theorem not_metricsExact :
    ∃ s, @ExecutionService.new ℚ acceptAll _ .default = .ok s ∧
      contributions (ExecOutput.results (sampleService.output s negativePurchase)) =
        [1, -1 / 2] ∧
      backtestResult (ExecOutput.results (sampleService.output s negativePurchase)) =
        { pnl := 1 / 2, maxDrawdown := 0, tradeCount := 2, winRate := 1 } ∧
      ¬ MetricsExact (ExecOutput.results (sampleService.output s negativePurchase)) := by
  obtain ⟨s, hnew, hds, hresult⟩ :
      ∃ s, @ExecutionService.new ℚ acceptAll _ .default = .ok s ∧
        contributions (ExecOutput.results (sampleService.output s negativePurchase)) =
          [1, -1 / 2] ∧
        backtestResult (ExecOutput.results (sampleService.output s negativePurchase)) =
          { pnl := 1 / 2, maxDrawdown := 0, tradeCount := 2, winRate := 1 } :=
    ⟨_, rfl, by decide +kernel⟩
  refine ⟨s, hnew, hds, hresult, fun h => ?_⟩
  have hrate := h.winRate
  rw [hresult, hds] at hrate
  exact absurd hrate (by decide +kernel)

end W2uos
