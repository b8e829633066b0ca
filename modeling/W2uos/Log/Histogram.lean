import W2uos.Log.Percentiles
import W2uos.System.Buckets

/-!
# The histogram of the latencies

`latency_histogram` counts every retained latency in the first of eight buckets whose bound it does
not exceed.  The bounds grow, so this is the bucket with the least such bound; but the last bound is
five seconds, and a latency above it is counted nowhere, while the summary of the same records takes
it into account.

* `LogService.latencyHistogram` : the histogram;
* `HistogramPartition` : every record is counted in the one bucket it belongs to;
* `latencyHistogram_eq` : the count of every bucket;
* `histogramPartition_iff` : exactly when the histogram has all records.
-/

namespace W2uos

/-- A bucket of the histogram. -/
structure LatencyBucket where
  upperBoundMs : ℤ
  count : ℕ
  deriving DecidableEq

/-- The bounds of the buckets. -/
def latencyBounds : List ℤ := [10, 25, 50, 100, 250, 500, 1000, 5000]

/-- Count a latency in the first bucket whose bound it does not exceed. -/
def countLatency (value : ℤ) : List LatencyBucket → List LatencyBucket
  | [] => []
  | bucket :: buckets =>
    if value ≤ bucket.upperBoundMs then { bucket with count := bucket.count + 1 } :: buckets
    else bucket :: countLatency value buckets

namespace LogService

/-- `latency_histogram`. -/
def latencyHistogram (s : LogService) : List LatencyBucket :=
  s.latencies.foldl (fun buckets value => countLatency value buckets)
    (latencyBounds.map fun bound => { upperBoundMs := bound, count := 0 })

/-- The record belongs to the bucket: it has the least of the bounds that the latency does not
exceed. -/
def InBucket (s : LogService) (r : LatencyRecord) (bucket : LatencyBucket) : Prop :=
  bucket ∈ s.latencyHistogram ∧ r.tickToResultMs ≤ bucket.upperBoundMs ∧
    ∀ other ∈ s.latencyHistogram, r.tickToResultMs ≤ other.upperBoundMs →
      bucket.upperBoundMs ≤ other.upperBoundMs

instance (s : LogService) (r : LatencyRecord) (bucket : LatencyBucket) :
    Decidable (s.InBucket r bucket) :=
  inferInstanceAs (Decidable (_ ∧ _ ∧ _))

end LogService

/-- Every record belongs to one bucket, every bucket has counted its records, and all together have
counted as many as are retained. -/
structure HistogramPartition (s : LogService) : Prop where
  placed : ∀ r ∈ s.latencyRecords, ∃! bucket, s.InBucket r bucket
  counted : ∀ bucket ∈ s.latencyHistogram,
    bucket.count = s.latencyRecords.countP fun r => s.InBucket r bucket
  total : (s.latencyHistogram.map (·.count)).sum = s.latencies.length

section Histogram

variable {bounds : List ℤ} {s : LogService} {r : LatencyRecord} {bucket : LatencyBucket}

/-- One more latency: the bucket it belongs to counts it. -/
theorem countLatency_map (hbounds : bounds.Nodup) (n : ℤ → ℕ) (value : ℤ) :
    countLatency value (bounds.map fun b => ⟨b, n b⟩) =
      bounds.map fun b => ⟨b, n b + if Buckets.bucketOf bounds value = some b then 1 else 0⟩ := by
  induction bounds with
  | nil => rfl
  | cons c bounds ih =>
    obtain ⟨hc, hrest⟩ := List.nodup_cons.1 hbounds
    rw [List.map_cons, List.map_cons, countLatency]
    unfold Buckets.bucketOf at ih ⊢
    dsimp only
    split_ifs with hvalue hfirst hfirst
    · -- the first bucket counts it, and no other one
      refine congrArg _ (List.map_congr_left ?_)
      intro b hb
      have hne : c ≠ b := fun h => hc (h ▸ hb)
      simp [hvalue, hne]
    · exact absurd (List.find?_cons_of_pos (by simpa using hvalue)) hfirst
    · rw [List.find?_cons_of_neg (by simpa using hvalue)] at hfirst
      exact absurd (List.mem_of_find?_eq_some hfirst) hc
    · rw [ih hrest, List.find?_cons_of_neg (by simpa using hvalue), Nat.add_zero]

/-- **The count of every bucket.** -/
theorem latencyHistogram_eq (s : LogService) :
    s.latencyHistogram =
      latencyBounds.map fun b => ⟨b, Buckets.count latencyBounds s.latencies b⟩ := by
  unfold LogService.latencyHistogram
  induction s.latencies using List.reverseRecOn with
  | nil => rfl
  | append_singleton values value ih =>
    rw [List.foldl_concat, ih, countLatency_map (by decide)]
    refine List.map_congr_left ?_
    intro b _
    rw [Buckets.count_concat]

theorem exists_bucket_iff {b : ℤ} :
    (∃ bucket ∈ s.latencyHistogram, bucket.upperBoundMs = b) ↔ b ∈ latencyBounds := by
  rw [latencyHistogram_eq]
  simp

theorem inBucket_iff (hbucket : bucket ∈ s.latencyHistogram) :
    s.InBucket r bucket ↔
      Buckets.bucketOf latencyBounds r.tickToResultMs = some bucket.upperBoundMs := by
  rw [Buckets.bucketOf_eq_some_iff (by decide)]
  have hmem := exists_bucket_iff.1 ⟨bucket, hbucket, rfl⟩
  constructor
  · rintro ⟨-, hle, hleast⟩
    refine ⟨⟨hmem, hle⟩, ?_⟩
    rintro b ⟨hb, hr⟩
    obtain ⟨other, hother, rfl⟩ := (exists_bucket_iff (s := s)).2 hb
    exact hleast other hother hr
  · rintro ⟨⟨-, hle⟩, hleast⟩
    refine ⟨hbucket, hle, ?_⟩
    intro other hother hr
    exact hleast ⟨exists_bucket_iff.1 ⟨other, hother, rfl⟩, hr⟩

theorem count_eq (hbucket : bucket ∈ s.latencyHistogram) :
    bucket.count = s.latencyRecords.countP fun r => s.InBucket r bucket := by
  have hcount : bucket.count = Buckets.count latencyBounds s.latencies bucket.upperBoundMs := by
    rw [latencyHistogram_eq] at hbucket
    obtain ⟨b, -, rfl⟩ := List.mem_map.1 hbucket
    rfl
  rw [hcount, Buckets.count, LogService.latencies, List.countP_map]
  refine List.countP_congr ?_
  intro r _
  simp [inBucket_iff hbucket]

theorem eq_of_upperBoundMs {other : LatencyBucket} (hbucket : bucket ∈ s.latencyHistogram)
    (hother : other ∈ s.latencyHistogram) (h : bucket.upperBoundMs = other.upperBoundMs) :
    bucket = other := by
  rw [latencyHistogram_eq] at hbucket hother
  obtain ⟨b, -, rfl⟩ := List.mem_map.1 hbucket
  obtain ⟨c, -, rfl⟩ := List.mem_map.1 hother
  obtain rfl : b = c := h
  rfl

theorem exists_bound_iff (value : ℤ) : (∃ b ∈ latencyBounds, value ≤ b) ↔ value ≤ 5000 := by
  constructor
  · rintro ⟨b, hb, hle⟩
    have hmax : ∀ b ∈ latencyBounds, b ≤ 5000 := by decide
    exact hle.trans (hmax b hb)
  · exact fun h => ⟨5000, by decide, h⟩

theorem placed_of_le (hr : r.tickToResultMs ≤ 5000) : ∃! bucket, s.InBucket r bucket := by
  have hsome := Buckets.bucketOf_isSome_iff.2 ((exists_bound_iff r.tickToResultMs).2 hr)
  obtain ⟨b, hb⟩ := Option.isSome_iff_exists.1 hsome
  obtain ⟨bucket, hbucket, rfl⟩ := (exists_bucket_iff (s := s)).2 (Buckets.mem_of_bucketOf hb)
  refine ⟨bucket, (inBucket_iff hbucket).2 hb, ?_⟩
  intro other hother
  have hsame := (inBucket_iff hother.1).1 hother
  rw [hb, Option.some.injEq] at hsame
  exact eq_of_upperBoundMs hother.1 hbucket hsame.symm

/-- The buckets together have all records exactly if no latency is above five seconds. -/
theorem total_iff (s : LogService) :
    (s.latencyHistogram.map (·.count)).sum = s.latencies.length ↔
      ∀ r ∈ s.latencyRecords, r.tickToResultMs ≤ 5000 := by
  have hcounts : s.latencyHistogram.map (·.count) =
      latencyBounds.map (Buckets.count latencyBounds s.latencies) := by
    rw [latencyHistogram_eq, List.map_map]
    rfl
  rw [hcounts, Buckets.sum_count_eq_length_iff (by decide), LogService.latencies,
    List.forall_mem_map]
  exact forall₂_congr fun r _ => exists_bound_iff r.tickToResultMs

/-- **Exactly when the histogram is a partition of the records**: no latency is above five
seconds. -/
theorem histogramPartition_iff (s : LogService) :
    HistogramPartition s ↔ ∀ r ∈ s.latencyRecords, r.tickToResultMs ≤ 5000 := by
  constructor
  · exact fun h => (total_iff s).1 h.total
  · intro h
    exact ⟨fun r hr => placed_of_le (h r hr), fun bucket hbucket => count_eq hbucket,
      (total_iff s).2 h⟩

/-! ### A slow order -/

/-- The events of a trace whose order takes six seconds. -/
def slowEvents : List LogEvent :=
  [("tick", 0), ("strategy_decision", 1000000), ("order_result", 6000000000)].map
    fun (stage, ts) =>
      { ts := ts
        level := .info
        source := .other "test"
        message := stage
        fields := [("stage", .text stage)]
        correlationId := none
        traceId := some "a" }

/-- **A latency that no bucket counts**: after an order that takes six seconds the summary describes
one record, and the histogram none. -/
theorem not_histogramPartition :
    let s := logService.run .new slowEvents
    ¬ HistogramPartition s ∧ s.latencies = [6000] ∧
      (s.latencyHistogram.map (·.count)).sum = 0 := by
  have hlatencies : (logService.run .new slowEvents).latencies = [6000] := by decide +kernel
  have hsum : ((logService.run .new slowEvents).latencyHistogram.map (·.count)).sum = 0 := by
    decide +kernel
  refine ⟨fun h => ?_, hlatencies, hsum⟩
  have htotal := h.total
  rw [hsum, hlatencies] at htotal
  cases htotal

end Histogram

end W2uos
