import Mathlib.Data.Set.Basic
import W2uos.Log.Latency
import W2uos.System.Text

/-!
# What the log service keeps

The log service keeps the last thousand events and the last two thousand latency records.  What it
knows of the traces that have no record yet is not trimmed: a trace is entered by any event with a
trace and a stage, whatever the stage is called, and only a record takes it out again.

* `recentWindow_exact` : the events and the records that are kept;
* `keys_run` : the service has an entry for every open trace, and for no other;
* `memoryBounded_iff` : exactly which runs have a common bound.
-/

namespace W2uos

/-- `recent_events`: the last events, up to a limit. -/
def LogService.recentEventsUpTo (s : LogService) (limit : ℕ) : List LogEvent :=
  s.recentEvents.drop (s.recentEvents.length - limit)

/-- The latency records written. -/
def LogOutput.latencies (outs : List LogOutput) : List LatencyRecord :=
  outs.filterMap fun
    | .latency record => some record
    | .event _ => none

/-! ### The last elements of a list -/

section KeepLast

variable {α : Type} (n : ℕ) (l : List α)

theorem keepLast_suffix : keepLast n l <:+ l := List.drop_suffix _ _

theorem length_keepLast : (keepLast n l).length = min n l.length := by
  rw [keepLast, List.length_drop]
  omega

theorem keepLast_concat (a : α) : keepLast n (keepLast n l ++ [a]) = keepLast n (l ++ [a]) := by
  have hsuffix : keepLast n l ++ [a] <:+ l ++ [a] :=
    List.suffix_append_self_iff.2 (keepLast_suffix n l)
  have hleft := (keepLast_suffix n (keepLast n l ++ [a])).trans hsuffix
  refine (List.suffix_of_suffix_length_le hleft (keepLast_suffix n (l ++ [a])) ?_).eq_of_length ?_
  · simp only [length_keepLast, List.length_append, List.length_singleton]
    omega
  · simp only [length_keepLast, List.length_append, List.length_singleton]
    omega

end KeepLast

/-! ### Events and records -/

namespace LogService

theorem recentEvents_handleEvent (s : LogService) (evt : LogEvent) :
    (s.handleEvent evt).1.recentEvents = keepLast 1000 (s.recentEvents ++ [evt]) := by
  obtain ⟨-, heq⟩ | ⟨traceId, stage, -, -, ⟨-, heq⟩ | ⟨latency, -, heq⟩⟩ :=
    s.handleEvent_cases evt
  · rw [heq]
  · rw [heq]
  · rw [heq]

theorem latencyRecords_handleEvent (s : LogService) (evt : LogEvent) :
    (LogOutput.latencies (s.handleEvent evt).2 = [] ∧
      (s.handleEvent evt).1.latencyRecords = s.latencyRecords) ∨
    ∃ latency, LogOutput.latencies (s.handleEvent evt).2 = [latency] ∧
      (s.handleEvent evt).1.latencyRecords = keepLast 2000 (s.latencyRecords ++ [latency]) := by
  obtain ⟨-, heq⟩ | ⟨traceId, stage, -, -, ⟨-, heq⟩ | ⟨latency, -, heq⟩⟩ :=
    s.handleEvent_cases evt
  · rw [heq]
    exact Or.inl ⟨rfl, rfl⟩
  · rw [heq]
    exact Or.inl ⟨rfl, rfl⟩
  · refine Or.inr ⟨latency, ?_⟩
    rw [heq]
    dsimp only
    exact ⟨rfl, rfl⟩

end LogService

theorem recentEvents_run (events : List LogEvent) :
    (logService.run .new events).recentEvents = keepLast 1000 events := by
  induction events using List.reverseRecOn with
  | nil => rfl
  | append_singleton events evt ih =>
    rw [Machine.run_concat]
    have hstep := (logService.run .new events).recentEvents_handleEvent evt
    rw [ih, keepLast_concat] at hstep
    exact hstep

theorem latencyRecords_run (events : List LogEvent) :
    (logService.run .new events).latencyRecords =
      keepLast 2000 (LogOutput.latencies (logService.output .new events)) := by
  induction events using List.reverseRecOn with
  | nil => rfl
  | append_singleton events evt ih =>
    rw [Machine.run_concat, Machine.output_concat, LogOutput.latencies, List.filterMap_append]
    show ((logService.run .new events).handleEvent evt).1.latencyRecords =
      keepLast 2000 (LogOutput.latencies (logService.output .new events) ++
        LogOutput.latencies ((logService.run .new events).handleEvent evt).2)
    rcases (logService.run .new events).latencyRecords_handleEvent evt with ⟨hout, hrecords⟩ |
      ⟨latency, hout, hrecords⟩
    · rw [hout, hrecords, ih, List.append_nil]
    · rw [hout, hrecords, ih, keepLast_concat]

/-- **The windows of the log service**: what the API gets are the last events, as many as it asks
for, up to a thousand and as far as there are any, and the records kept are the last two thousand,
in the order they came in. -/
theorem recentWindow_exact (events : List LogEvent) (limit : ℕ) :
    let s := logService.run .new events
    let emitted := LogOutput.latencies (logService.output .new events)
    (s.recentEventsUpTo limit <:+ events ∧
      (s.recentEventsUpTo limit).length = min limit (min 1000 events.length)) ∧
    s.latencyRecords <:+ emitted ∧ s.latencyRecords.length = min 2000 emitted.length := by
  dsimp only
  rw [latencyRecords_run]
  have hwindow : (logService.run .new events).recentEventsUpTo limit =
      keepLast limit (keepLast 1000 events) := by
    rw [← recentEvents_run]
    rfl
  rw [hwindow, length_keepLast, length_keepLast, length_keepLast]
  exact ⟨⟨(keepLast_suffix _ _).trans (keepLast_suffix _ _), rfl⟩, keepLast_suffix _ _, rfl⟩

/-! ### Open traces -/

/-- The stages of a trace in some events. -/
def stagesOf (traceId : TraceId) (events : List LogEvent) : List String :=
  events.filterMap fun evt => if evt.traceId = some traceId then evt.stage else none

/-- The stages with a time in a record. -/
def recordStages : List String := ["tick", "strategy_decision", "order_result"]

/-- One more stage since the last record; with the last stage of a record, nothing is left. -/
def passStage (passed : List String) (stage : String) : List String :=
  if ∀ required ∈ recordStages, required ∈ passed ++ [stage] then [] else passed ++ [stage]

/-- The stages that a trace has passed since its last record. -/
def sinceRecord (stages : List String) : List String := stages.foldl passStage []

/-- The traces that have passed a stage, whatever its name, since their last record. -/
def openTraces (events : List LogEvent) : Finset TraceId :=
  (events.filterMap (·.traceId)).toFinset.filter fun traceId =>
    sinceRecord (stagesOf traceId events) ≠ []

section OpenTraces

variable {traceId : TraceId} {stage : String} {events : List LogEvent} {evt : LogEvent}
  {passed : List String} {s : LogService}

theorem stagesOf_own (htrace : evt.traceId = some traceId) (hstage : evt.stage = some stage) :
    stagesOf traceId (events ++ [evt]) = stagesOf traceId events ++ [stage] := by
  simp [stagesOf, List.filterMap_append, htrace, hstage]

theorem stagesOf_other (h : evt.traceId = some traceId → evt.stage = none) :
    stagesOf traceId (events ++ [evt]) = stagesOf traceId events := by
  simp only [stagesOf, List.filterMap_append, List.filterMap_cons, List.filterMap_nil]
  split_ifs with htrace
  · simp [h htrace]
  · simp

theorem sinceRecord_concat (stages : List String) :
    sinceRecord (stages ++ [stage]) = passStage (sinceRecord stages) stage := by
  rw [sinceRecord, List.foldl_concat]
  rfl

theorem mem_openTraces :
    traceId ∈ openTraces events ↔ sinceRecord (stagesOf traceId events) ≠ [] := by
  rw [openTraces, Finset.mem_filter, and_iff_right_iff_imp]
  intro hopen
  -- a trace that is in no event has no stages
  by_contra hmem
  refine hopen ?_
  have hnil : stagesOf traceId events = [] := by
    refine List.filterMap_eq_nil_iff.2 ?_
    intro evt hevt
    refine if_neg fun htrace => hmem ?_
    rw [List.mem_toFinset]
    exact List.mem_filterMap.2 ⟨evt, hevt, htrace⟩
  rw [hnil]
  rfl

/-- What the service knows of a trace that has passed these stages since its last record. -/
structure KeepsStages (passed : List String) (entry : Option PartialLatencyState) : Prop where
  none_iff : entry = none ↔ passed = []
  tick : (entry.getD .default).tsStartTick.isSome ↔ "tick" ∈ passed
  decision : (entry.getD .default).tsStrategyDecision.isSome ↔ "strategy_decision" ∈ passed
  result : (entry.getD .default).tsOrderResult.isSome ↔ "order_result" ∈ passed

theorem KeepsStages.nil : KeepsStages [] none := by
  constructor <;> simp [PartialLatencyState.default]

/-- **One more stage**: the entry is complete exactly if no stage of a record is missing. -/
theorem KeepsStages.pass {entry : Option PartialLatencyState} (h : KeepsStages passed entry)
    (traceId : TraceId) (stage : String) (ts : DateTime) :
    let noted := (entry.getD .default).note stage ts
    KeepsStages (passStage passed stage)
      (if (noted.latency traceId).isSome then none else some noted) := by
  have hall : (((entry.getD .default).note stage ts).latency traceId).isSome ↔
      ∀ required ∈ recordStages, required ∈ passed ++ [stage] := by
    rw [PartialLatencyState.latency_isSome_iff, PartialLatencyState.note_tick,
      PartialLatencyState.note_decision, PartialLatencyState.note_result, h.tick, h.decision,
      h.result]
    simp only [recordStages, List.forall_mem_cons, List.mem_append, List.mem_singleton, forall_eq,
      @eq_comm _ stage, or_comm]
  dsimp only
  unfold passStage
  simp only [hall]
  split_ifs with hdone
  · exact KeepsStages.nil
  · refine ⟨by simp, ?_, ?_, ?_⟩
    · rw [Option.getD_some, PartialLatencyState.note_tick, h.tick]
      simp [or_comm, eq_comm]
    · rw [Option.getD_some, PartialLatencyState.note_decision, h.decision]
      simp [or_comm, eq_comm]
    · rw [Option.getD_some, PartialLatencyState.note_result, h.result]
      simp [or_comm, eq_comm]

/-- **The step lemma of the entries.** -/
theorem KeepsStages.handleEvent
    (h : KeepsStages (sinceRecord (stagesOf traceId events)) (s.latencyState.lookup traceId))
    (evt : LogEvent) :
    KeepsStages (sinceRecord (stagesOf traceId (events ++ [evt])))
      ((s.handleEvent evt).1.latencyState.lookup traceId) := by
  obtain ⟨hother, heq⟩ | ⟨other, stage, htrace, hstage, hcases⟩ := s.handleEvent_cases evt
  · rw [stagesOf_other (hother traceId), heq]
    exact h
  · by_cases hown : traceId = other
    · subst hown
      have hpass := h.pass traceId stage evt.ts
      rw [stagesOf_own htrace hstage, sinceRecord_concat]
      dsimp only at hpass
      obtain ⟨hnone, heq⟩ | ⟨latency, hsome, heq⟩ := hcases
      · rw [LogService.entry] at hnone heq
        rw [hnone, if_neg (by simp)] at hpass
        rw [heq, Finmap.lookup_insert]
        exact hpass
      · rw [LogService.entry] at hsome
        rw [hsome, if_pos Option.isSome_some] at hpass
        rw [heq, Finmap.lookup_erase]
        exact hpass
    · have hnot : evt.traceId = some traceId → evt.stage = none := by
        intro hsame
        rw [htrace, Option.some.injEq] at hsame
        exact absurd hsame.symm hown
      rw [stagesOf_other hnot]
      obtain ⟨-, heq⟩ | ⟨latency, -, heq⟩ := hcases
      · rw [heq, Finmap.lookup_insert_of_ne _ hown]
        exact h
      · rw [heq, Finmap.lookup_erase_ne hown]
        exact h

theorem keepsStages_run (traceId : TraceId) (events : List LogEvent) :
    KeepsStages (sinceRecord (stagesOf traceId events))
      ((logService.run .new events).latencyState.lookup traceId) := by
  induction events using List.reverseRecOn with
  | nil => exact KeepsStages.nil
  | append_singleton events evt ih =>
    rw [Machine.run_concat]
    exact ih.handleEvent evt

/-- **The entries of the service** are those of the open traces. -/
theorem keys_run (events : List LogEvent) :
    (logService.run .new events).latencyState.keys = openTraces events := by
  ext traceId
  rw [mem_openTraces, Finmap.mem_keys, ← Finmap.lookup_isSome, Option.isSome_iff_ne_none, Ne,
    (keepsStages_run traceId events).none_iff]

end OpenTraces

/-! ### Bounds for all of some runs -/

/-- There is a bound for what the service keeps after each of the runs. -/
def MemoryBounded (runs : Set (List LogEvent)) : Prop :=
  ∃ bound, ∀ events ∈ runs,
    (logService.run .new events).recentEvents.length ≤ bound ∧
    (logService.run .new events).latencyRecords.length ≤ bound ∧
    (logService.run .new events).latencyState.keys.card ≤ bound

/-- **Exactly which runs have a common bound**: those with a bound for the number of traces that
are open at the end. -/
theorem memoryBounded_iff (runs : Set (List LogEvent)) :
    MemoryBounded runs ↔ ∃ bound, ∀ events ∈ runs, (openTraces events).card ≤ bound := by
  unfold MemoryBounded
  simp only [keys_run]
  constructor
  · rintro ⟨bound, h⟩
    exact ⟨bound, fun events hevents => (h events hevents).2.2⟩
  · rintro ⟨bound, h⟩
    refine ⟨max 2000 bound, fun events hevents => ⟨?_, ?_, ?_⟩⟩
    · rw [recentEvents_run, length_keepLast]
      omega
    · rw [latencyRecords_run, length_keepLast]
      omega
    · exact (h events hevents).trans (le_max_right _ _)

/-! ### Runs without a common bound -/

/-- A trace passes a stage. -/
def passing (traceId : TraceId) (stage : String) : LogEvent where
  ts := 0
  level := .info
  source := .other "test"
  message := stage
  fields := [("stage", .text stage)]
  correlationId := none
  traceId := some traceId

/-- So many traces pass the stages, one after the other. -/
def tracesPassing (stages : List String) (n : ℕ) : List LogEvent :=
  (List.range n).flatMap fun i => stages.map (passing (toString i))

theorem stagesOf_passing (traceId other : TraceId) (stages : List String) :
    stagesOf traceId (stages.map (passing other)) = if other = traceId then stages else [] := by
  unfold stagesOf
  rw [List.filterMap_map]
  by_cases hother : other = traceId
  · rw [if_pos hother]
    have hsome : (fun evt : LogEvent => if evt.traceId = some traceId then evt.stage else none) ∘
        passing other = some := by
      funext stage
      exact if_pos (congrArg some hother)
    rw [hsome, List.filterMap_some]
  · rw [if_neg hother]
    refine List.filterMap_eq_nil_iff.2 ?_
    intro stage _
    exact if_neg fun h => hother (Option.some.inj h)

theorem stagesOf_tracesPassing {stages : List String} {n i : ℕ} (hi : i < n) :
    stagesOf (toString i) (tracesPassing stages n) = stages := by
  have hflat : stagesOf (toString i) (tracesPassing stages n) =
      (List.range n).flatMap fun j => if j = i then stages else [] := by
    unfold tracesPassing
    rw [stagesOf, List.filterMap_flatMap]
    refine List.flatMap_congr ?_
    intro j _
    have hstages := stagesOf_passing (toString i) (toString j) stages
    simp only [natText_inj] at hstages
    exact hstages
  rw [hflat]
  clear hflat
  induction n with
  | zero => cases hi
  | succ n ih =>
    rw [List.range_succ, List.flatMap_append, List.flatMap_singleton]
    by_cases hlast : n = i
    · subst hlast
      have hnone : (List.range n).flatMap (fun j => if j = n then stages else []) = [] := by
        refine List.flatMap_eq_nil_iff.2 ?_
        intro j hj
        exact if_neg (List.mem_range.1 hj).ne
      rw [hnone, if_pos rfl, List.nil_append]
    · rw [if_neg hlast, List.append_nil]
      exact ih (by omega)

theorem le_card_openTraces {stages : List String} (hopen : sinceRecord stages ≠ []) (n : ℕ) :
    n ≤ (openTraces (tracesPassing stages n)).card := by
  have hinj : Function.Injective fun i : ℕ => (toString i : TraceId) := by
    intro i j h
    exact natText_inj.1 h
  have hcard : ((Finset.range n).image fun i => (toString i : TraceId)).card = n := by
    rw [Finset.card_image_of_injective _ hinj, Finset.card_range]
  refine hcard.symm.le.trans (Finset.card_le_card ?_)
  intro traceId htrace
  obtain ⟨i, hi, rfl⟩ := Finset.mem_image.1 htrace
  rw [mem_openTraces, stagesOf_tracesPassing (Finset.mem_range.1 hi)]
  exact hopen

theorem not_bounded_tracesPassing {stages : List String} (hopen : sinceRecord stages ≠ []) :
    ¬ ∃ bound, ∀ events ∈ Set.range (tracesPassing stages),
      (logService.run .new events).latencyState.keys.card ≤ bound := by
  rintro ⟨bound, h⟩
  have hbound := h _ ⟨bound + 1, rfl⟩
  rw [keys_run] at hbound
  have hcard := le_card_openTraces hopen (bound + 1)
  omega

/-- **Memory without a bound**: there is none for all runs, and none for those in which traces never
produce an order, in which events have an unknown stage, or in which a tick comes once more after
the record of its trace. -/
theorem not_memoryBounded :
    ¬ MemoryBounded Set.univ ∧
    ∀ stages ∈ [["tick", "strategy_decision"], ["retry"],
        ["tick", "strategy_decision", "order_result", "tick"]],
      ¬ MemoryBounded (Set.range (tracesPassing stages)) := by
  have hopen : ∀ stages ∈ [["tick", "strategy_decision"], ["retry"],
      ["tick", "strategy_decision", "order_result", "tick"]], sinceRecord stages ≠ [] := by
    decide
  refine ⟨?_, ?_⟩
  · rintro ⟨bound, h⟩
    exact not_bounded_tracesPassing (hopen ["retry"] (by decide))
      ⟨bound, fun events _ => (h events (Set.mem_univ events)).2.2⟩
  · rintro stages hstages ⟨bound, h⟩
    exact not_bounded_tracesPassing (hopen stages hstages)
      ⟨bound, fun events hevents => (h events hevents).2.2⟩

end W2uos
