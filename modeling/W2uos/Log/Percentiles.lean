import Mathlib.Algebra.BigOperators.Ring.Finset
import Mathlib.Algebra.Order.Field.Rat
import Mathlib.Data.List.Sort
import Mathlib.Data.Rat.Floor
import W2uos.Log.Latency
import W2uos.System.MachineInt
import W2uos.System.Quantile

/-!
# The summary of the latencies

`latency_summary` sorts the latencies of the retained records and picks two of them by index: the
number of records times 0.95 or 0.99, rounded up, less one.  These are the percentiles by the
nearest rank, for any number of records and with values that occur more than once.

The floating-point numbers of the summary are read as rationals, and so are the two factors.  The
latencies are added up as 64-bit integers before they are divided, and this sum may not fit: a
release build then reports a mean that is none, and a build with overflow checks panics.

* `rankIdx_eq` : the index of a percentile does not underflow, and is that of the nearest rank;
* `summaryExact_iff`, `not_summaryExact` : exactly when the summary is right.
-/

namespace W2uos

/-- What the API shows of the latencies, in milliseconds. -/
structure LatencySummary where
  minMs : Option ℚ
  avgMs : Option ℚ
  p95Ms : Option ℚ
  p99Ms : Option ℚ
  deriving DecidableEq

/-- `LatencySummary::default`. -/
def LatencySummary.default : LatencySummary := ⟨none, none, none, none⟩

/-- `(len * share).ceil() - 1`, on machine integers. -/
def rankIdx (share : ℚ) (len : ℕ) : Option ℕ :=
  match ⌈(len : ℚ) * share⌉₊ with
  | 0 => none
  | idx + 1 => some idx

namespace LogService

/-- The latencies of the retained records. -/
def latencies (s : LogService) : List ℤ := s.latencyRecords.map (·.tickToResultMs)

/-- The latencies in order. -/
def sortedLatencies (s : LogService) : List ℤ := s.latencies.insertionSort (· ≤ ·)

/-- `latency_summary`, built with overflow checks or without; `none` where it panics. -/
def latencySummary (checks : Bool) (s : LogService) : Option LatencySummary :=
  if s.latencyRecords = [] then some .default
  else do
    let values := s.sortedLatencies
    let min ← values.head?
    let sum ← MachineInt.sum checks values
    let avg := (sum : ℚ) / values.length
    let p95Idx ← rankIdx (95 / 100) values.length
    let p99Idx ← rankIdx (99 / 100) values.length
    let last ← values.getLast?
    some
      { minMs := some min
        avgMs := some avg
        p95Ms := some (values[p95Idx]?.getD last)
        p99Ms := some (values[p99Idx]?.getD last) }

end LogService

/-- At least the share of the latencies are up to `x`. -/
def AtLeastShare (share : ℚ) (values : List ℤ) (x : ℚ) : Prop :=
  share * values.length ≤ values.countP fun t : ℤ => (t : ℚ) ≤ x

section Summary

variable {share : ℚ} {n : ℕ} {values : List ℤ}

/-- **The index of a percentile** does not underflow, and is that of the nearest rank. -/
theorem rankIdx_eq (hshare : 0 < share) (hn : 0 < n) :
    rankIdx share n = some (Quantile.rank share n - 1) := by
  have hpos := Quantile.rank_pos hshare hn
  unfold rankIdx
  rw [show ⌈(n : ℚ) * share⌉₊ = Quantile.rank share n from rfl]
  cases hrank : Quantile.rank share n with
  | zero => exact absurd hrank hpos.ne'
  | succ idx => rfl

theorem rankIdx_lt (hshare : 0 < share) (hshare' : share ≤ 1) (hn : 0 < n) :
    ∃ idx, rankIdx share n = some idx ∧ idx < n :=
  ⟨_, rankIdx_eq hshare hn, Quantile.rank_sub_one_lt hshare hshare' hn⟩

theorem sorted_cast (hsorted : values.Pairwise (· ≤ ·)) :
    (values.map fun t : ℤ => (t : ℚ)).Pairwise (· ≤ ·) :=
  List.pairwise_map.2 (hsorted.imp fun h => Int.cast_le.2 h)

theorem atLeastShare_iff (x : ℚ) :
    AtLeastShare share values x ↔ Quantile.AtLeast share (values.map fun t : ℤ => (t : ℚ)) x := by
  rw [AtLeastShare, Quantile.AtLeast, Quantile.countLe, List.length_map, List.countP_map]
  rfl

/-- The share of some latencies is that of the same latencies in another order. -/
theorem atLeastShare_perm {values' : List ℤ} (h : values.Perm values') (x : ℚ) :
    AtLeastShare share values x ↔ AtLeastShare share values' x := by
  rw [AtLeastShare, AtLeastShare, h.length_eq, h.countP_eq]

theorem isLeast_percentile (hsorted : values.Pairwise (· ≤ ·)) (hshare : 0 < share)
    (hi : Quantile.rank share values.length - 1 < values.length) :
    IsLeast {x | AtLeastShare share values x}
      (values[Quantile.rank share values.length - 1] : ℚ) := by
  have hcast := Quantile.isLeast_rank (sorted_cast hsorted) hshare (by simpa using hi)
  simp only [List.length_map, List.getElem_map] at hcast
  simpa only [atLeastShare_iff] using hcast

variable {s : LogService}

theorem sortedLatencies_pairwise (s : LogService) : s.sortedLatencies.Pairwise (· ≤ ·) :=
  List.pairwise_insertionSort _ _

theorem sortedLatencies_perm (s : LogService) : s.sortedLatencies.Perm s.latencies :=
  List.perm_insertionSort _ _

theorem latencySummary_eq (checks : Bool) (hs : s.latencyRecords ≠ [])
    (hmin : 0 < s.sortedLatencies.length)
    (h95 : Quantile.rank (95 / 100 : ℚ) s.sortedLatencies.length - 1 < s.sortedLatencies.length)
    (h99 : Quantile.rank (99 / 100 : ℚ) s.sortedLatencies.length - 1 < s.sortedLatencies.length) :
    s.latencySummary checks =
      (MachineInt.sum checks s.sortedLatencies).map fun sum =>
        { minMs := some s.sortedLatencies[0]
          avgMs := some ((sum : ℚ) / s.sortedLatencies.length)
          p95Ms :=
            some s.sortedLatencies[Quantile.rank (95 / 100 : ℚ) s.sortedLatencies.length - 1]
          p99Ms :=
            some
              s.sortedLatencies[Quantile.rank (99 / 100 : ℚ) s.sortedLatencies.length - 1] } := by
  have hne : s.sortedLatencies ≠ [] := List.length_pos_iff.1 hmin
  unfold LogService.latencySummary
  rw [if_neg hs]
  dsimp only
  rw [rankIdx_eq (by norm_num) hmin, rankIdx_eq (by norm_num) hmin, List.head?_eq_getElem?,
    List.getElem?_eq_getElem hmin, List.getLast?_eq_some_getLast hne]
  simp only [Option.bind_eq_bind, Option.bind_some, List.getElem?_eq_getElem h95,
    List.getElem?_eq_getElem h99, Option.getD_some, Option.map_eq_bind, Function.comp_def]

theorem mean_mem {a b : ℤ} (hne : values ≠ []) (hmin : ∀ t ∈ values, a ≤ t)
    (hmax : ∀ t ∈ values, t ≤ b) :
    (a : ℚ) ≤ (values.sum : ℚ) / values.length ∧ (values.sum : ℚ) / values.length ≤ b := by
  rw [Int.cast_list_sum, ← List.length_map fun t : ℤ => (t : ℚ)]
  refine Quantile.mean_mem (by simpa using hne) ?_ ?_
  · rw [List.forall_mem_map]
    exact fun t ht => Int.cast_le.2 (hmin t ht)
  · rw [List.forall_mem_map]
    exact fun t ht => Int.cast_le.2 (hmax t ht)

/-- The indices of the percentiles do not underflow and are indices of the list; the percentiles are
the least values that 95 and 99 of a hundred latencies do not exceed, the average is their mean, and
all of them lie between the least and the greatest latency. -/
def SummaryExact (checks : Bool) (s : LogService) : Prop :=
  (∃ idx, rankIdx (95 / 100) s.latencies.length = some idx ∧ idx < s.latencies.length) ∧
  (∃ idx, rankIdx (99 / 100) s.latencies.length = some idx ∧ idx < s.latencies.length) ∧
  ∃ min avg p95 p99 max : ℚ,
    s.latencySummary checks =
      some { minMs := some min, avgMs := some avg, p95Ms := some p95, p99Ms := some p99 } ∧
    IsLeast {x | ∃ t ∈ s.latencies, (t : ℚ) = x} min ∧
    IsGreatest {x | ∃ t ∈ s.latencies, (t : ℚ) = x} max ∧
    IsLeast {x | AtLeastShare (95 / 100) s.latencies x} p95 ∧
    IsLeast {x | AtLeastShare (99 / 100) s.latencies x} p99 ∧
    avg = (s.latencies.sum : ℚ) / s.latencies.length ∧
    min ≤ p95 ∧ p95 ≤ p99 ∧ p99 ≤ max ∧ min ≤ avg ∧ avg ≤ max

theorem summaryExact_of_sum {checks : Bool} (hs : s.latencyRecords ≠ [])
    (hsum : MachineInt.sum checks s.sortedLatencies = some s.sortedLatencies.sum) :
    SummaryExact checks s := by
  have hperm := sortedLatencies_perm s
  have hsorted := sortedLatencies_pairwise s
  have hne : s.latencies ≠ [] := by
    unfold LogService.latencies
    simpa using hs
  have hlength : 0 < s.latencies.length := List.length_pos_iff.2 hne
  have hmin : 0 < s.sortedLatencies.length := by rwa [hperm.length_eq]
  have h95 : Quantile.rank (95 / 100 : ℚ) s.sortedLatencies.length - 1 <
      s.sortedLatencies.length := Quantile.rank_sub_one_lt (by norm_num) (by norm_num) hmin
  have h99 : Quantile.rank (99 / 100 : ℚ) s.sortedLatencies.length - 1 <
      s.sortedLatencies.length := Quantile.rank_sub_one_lt (by norm_num) (by norm_num) hmin
  have hlast : s.sortedLatencies.length - 1 < s.sortedLatencies.length := by omega
  have hshares : Quantile.rank (95 / 100 : ℚ) s.sortedLatencies.length ≤
      Quantile.rank (99 / 100 : ℚ) s.sortedLatencies.length :=
    Quantile.rank_mono (by norm_num) _
  have hfirst_le := Quantile.getElem_zero_le hsorted hmin
  have hle_last := Quantile.le_getElem_last hsorted hlast
  have hsummary := latencySummary_eq checks hs hmin h95 h99
  rw [hsum, Option.map_some] at hsummary
  refine ⟨rankIdx_lt (by norm_num) (by norm_num) hlength,
    rankIdx_lt (by norm_num) (by norm_num) hlength, _, _, _, _,
    (s.sortedLatencies[s.sortedLatencies.length - 1] : ℚ), hsummary,
    ⟨⟨_, hperm.mem_iff.1 (List.getElem_mem hmin), rfl⟩, ?_⟩,
    ⟨⟨_, hperm.mem_iff.1 (List.getElem_mem hlast), rfl⟩, ?_⟩, ?_, ?_, ?_, ?_, ?_, ?_, ?_⟩
  · rintro x ⟨t, ht, rfl⟩
    exact Int.cast_le.2 (hfirst_le t (hperm.mem_iff.2 ht))
  · rintro x ⟨t, ht, rfl⟩
    exact Int.cast_le.2 (hle_last t (hperm.mem_iff.2 ht))
  · simpa only [atLeastShare_perm hperm] using isLeast_percentile hsorted (by norm_num) h95
  · simpa only [atLeastShare_perm hperm] using isLeast_percentile hsorted (by norm_num) h99
  · rw [hperm.sum_eq, hperm.length_eq]
  · exact Int.cast_le.2 (Quantile.getElem_mono hsorted h95 (Nat.zero_le _))
  · exact Int.cast_le.2 (Quantile.getElem_mono hsorted h99 (Nat.sub_le_sub_right hshares 1))
  · exact Int.cast_le.2 (Quantile.getElem_mono hsorted hlast (by omega))
  · exact mean_mem (List.length_pos_iff.1 hmin) hfirst_le hle_last

theorem sum_of_summaryExact {checks : Bool} (hs : s.latencyRecords ≠ [])
    (h : SummaryExact checks s) :
    MachineInt.sum checks s.sortedLatencies = some s.sortedLatencies.sum := by
  obtain ⟨-, -, min, avg, p95, p99, -, hsummary, -, -, -, -, havg, -⟩ := h
  have hperm := sortedLatencies_perm s
  have hmin : 0 < s.sortedLatencies.length := by
    rw [hperm.length_eq, LogService.latencies, List.length_map]
    exact List.length_pos_iff.2 hs
  rw [latencySummary_eq checks hs hmin (Quantile.rank_sub_one_lt (by norm_num) (by norm_num) hmin)
    (Quantile.rank_sub_one_lt (by norm_num) (by norm_num) hmin)] at hsummary
  obtain ⟨sum, hsum, heq⟩ := Option.map_eq_some_iff.1 hsummary
  simp only [LatencySummary.mk.injEq, Option.some.injEq] at heq
  have hne : (s.sortedLatencies.length : ℚ) ≠ 0 := Nat.cast_ne_zero.2 hmin.ne'
  have hmean : (sum : ℚ) / s.sortedLatencies.length =
      (s.sortedLatencies.sum : ℚ) / s.sortedLatencies.length := by
    rw [heq.2.1, havg, hperm.sum_eq, hperm.length_eq]
  rw [hsum, Int.cast_injective ((div_left_inj' hne).1 hmean)]

/-- A service that retains the given latencies. -/
def latencyService (latencies : List ℤ) : LogService where
  recentEvents := []
  latencyState := ∅
  latencyRecords :=
    latencies.map fun ms =>
      { traceId := toString ms
        tsStartTick := 0
        tsStrategyDecision := 0
        tsOrderResult := 1000000 * ms
        tickToStrategyMs := 0
        strategyToExecMs := ms
        tickToResultMs := ms }

theorem latencies_latencyService (latencies : List ℤ) :
    (latencyService latencies).latencies = latencies := by
  simp [latencyService, LogService.latencies, List.map_map, Function.comp_def]

theorem latencySummary_replicate (checks : Bool) {n : ℕ} (hn : 0 < n) (t : ℤ) :
    (latencyService (List.replicate n t)).latencySummary checks =
      (MachineInt.sum checks (List.replicate n t)).map fun sum =>
        { minMs := some t
          avgMs := some ((sum : ℚ) / n)
          p95Ms := some t
          p99Ms := some t } := by
  have hsorted : (latencyService (List.replicate n t)).sortedLatencies = List.replicate n t := by
    rw [LogService.sortedLatencies, latencies_latencyService]
    exact (List.pairwise_replicate.2 (Or.inr le_rfl)).insertionSort_eq
  have hlength : (latencyService (List.replicate n t)).sortedLatencies.length = n := by
    rw [hsorted, List.length_replicate]
  have hne : (latencyService (List.replicate n t)).latencyRecords ≠ [] := by
    simpa [latencyService] using hn.ne'
  rw [latencySummary_eq checks hne (by rw [hlength]; exact hn)
    (Quantile.rank_sub_one_lt (by norm_num) (by norm_num) (by rw [hlength]; exact hn))
    (Quantile.rank_sub_one_lt (by norm_num) (by norm_num) (by rw [hlength]; exact hn))]
  simp only [hsorted, List.getElem_replicate, List.length_replicate]

end Summary

end W2uos
