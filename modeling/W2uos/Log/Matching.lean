import W2uos.Log.Latency

/-!
# Matching the stages of a trace

`record_latency` keeps one entry for each trace.  Seen from one trace it is a small machine of its
own, which knows nothing of the other traces: it collects the last time of each stage and, once it
has all three, writes a record and starts afresh.

* `latencyMatcher_project` : the service seen from one trace is the matching of that trace;
* `logService_project` : the log service feeds `record_latency` with the stages of its events;
* `latency_matching` : what is written about a trace.
-/

namespace W2uos

/-- An event as it is fed to `record_latency`. -/
structure StageEvent where
  traceId : TraceId
  stage : String
  ts : DateTime
  deriving DecidableEq

/-- The service on the events fed to `record_latency`. -/
def latencyMatcher : Machine LogService StageEvent LogOutput where
  step s evt := s.recordLatency evt.traceId evt.stage evt.ts

/-- A passed stage of the given trace. -/
def StageEvent.mark (traceId : TraceId) (evt : StageEvent) : Option (String × DateTime) :=
  if evt.traceId = traceId then some (evt.stage, evt.ts) else none

/-- A record of the given trace. -/
def LogOutput.record (traceId : TraceId) : LogOutput → Option LatencyRecord
  | .latency written => if written.traceId = traceId then some written else none
  | .event _ => none

/-- The records of a trace that have been written. -/
def recordsFor (traceId : TraceId) (outs : List LogOutput) : List LatencyRecord :=
  outs.filterMap (LogOutput.record traceId)

/-- The matching of one trace. -/
def traceMatcher (traceId : TraceId) : Machine PartialLatencyState (String × DateTime) LatencyRecord
    where
  step entry mark :=
    match (entry.note mark.1 mark.2).latency traceId with
    | some latency => (.default, [latency])
    | none => (entry.note mark.1 mark.2, [])

/-- The last time of a stage. -/
def lastMark (stage : String) (marks : List (String × DateTime)) : Option DateTime :=
  (marks.filter fun mark => mark.1 = stage).getLast?.map Prod.snd

/-- The last time of every stage. -/
def lastMarks (marks : List (String × DateTime)) : PartialLatencyState where
  tsStartTick := lastMark "tick" marks
  tsStrategyDecision := lastMark "strategy_decision" marks
  tsOrderResult := lastMark "order_result" marks

/-- The last time of a stage of a trace among some events. -/
def lastSeen (traceId : TraceId) (stage : String) (events : List StageEvent) : Option DateTime :=
  lastMark stage (events.filterMap (StageEvent.mark traceId))

/-- How often a trace passes a stage among some events. -/
def passes (traceId : TraceId) (stage : String) (events : List StageEvent) : ℕ :=
  events.countP fun evt => evt.traceId = traceId ∧ evt.stage = stage

/-- The three stages a record needs. -/
def latencyStages : List String := ["tick", "strategy_decision", "order_result"]

/-- The trace has passed all three stages among some events. -/
def AllPassed (traceId : TraceId) (events : List StageEvent) : Prop :=
  ∀ stage ∈ latencyStages, 0 < passes traceId stage events

/-- `since` is what has happened since the last record of the trace, or since the start. -/
def SinceRecord (traceId : TraceId) (pre since : List StageEvent) : Prop :=
  (pre = [] ∨ ∃ before last, pre = before ++ [last] ∧
    recordsFor traceId (latencyMatcher.emit (latencyMatcher.run .new before) last) ≠ []) ∧
  recordsFor traceId (latencyMatcher.output (latencyMatcher.run .new pre) since) = []

/-- The stage events in the events on the bus. -/
def LogEvent.stageEvent (evt : LogEvent) : Option StageEvent :=
  match evt.traceId, evt.stage with
  | some traceId, some stage => some ⟨traceId, stage, evt.ts⟩
  | _, _ => none

/-- The records among the outputs. -/
def LogOutput.latencyOnly : LogOutput → Option LogOutput
  | .latency written => some (.latency written)
  | .event _ => none

/-- The time noted for a stage. -/
def PartialLatencyState.noted (entry : PartialLatencyState) (stage : String) : Option DateTime :=
  if stage = "tick" then entry.tsStartTick
  else if stage = "strategy_decision" then entry.tsStrategyDecision
  else if stage = "order_result" then entry.tsOrderResult
  else none

/-! ### One trace -/

section Trace

variable {traceId : TraceId} {entry : PartialLatencyState} {marks : List (String × DateTime)}
  {mark : String × DateTime}

theorem lastMark_concat (stage : String) (marks : List (String × DateTime))
    (mark : String × DateTime) :
    lastMark stage (marks ++ [mark]) =
      if mark.1 = stage then some mark.2 else lastMark stage marks := by
  unfold lastMark
  rw [List.filter_append]
  by_cases h : mark.1 = stage
  · simp [h]
  · simp [h]

theorem noted_note {stage : String} (hstage : stage ∈ latencyStages) (entry : PartialLatencyState)
    (mark : String × DateTime) :
    (entry.note mark.1 mark.2).noted stage =
      if mark.1 = stage then some mark.2 else entry.noted stage := by
  simp only [latencyStages, List.mem_cons, List.not_mem_nil, or_false] at hstage
  unfold PartialLatencyState.note PartialLatencyState.noted
  rcases hstage with rfl | rfl | rfl <;> split_ifs <;> simp_all

theorem latency_isSome_iff_noted (entry : PartialLatencyState) :
    (entry.latency traceId).isSome ↔ ∀ stage ∈ latencyStages, (entry.noted stage).isSome := by
  rw [PartialLatencyState.latency_isSome_iff]
  simp [latencyStages, PartialLatencyState.noted]

theorem noted_lastMarks {stage : String} (hstage : stage ∈ latencyStages)
    (marks : List (String × DateTime)) : (lastMarks marks).noted stage = lastMark stage marks := by
  simp only [latencyStages, List.mem_cons, List.not_mem_nil, or_false] at hstage
  rcases hstage with rfl | rfl | rfl <;> rfl

theorem lastMarks_concat (marks : List (String × DateTime)) (mark : String × DateTime) :
    lastMarks (marks ++ [mark]) = (lastMarks marks).note mark.1 mark.2 := by
  simp only [lastMarks, lastMark_concat, PartialLatencyState.note]
  split_ifs <;> simp_all

theorem lastMark_isSome_iff (stage : String) (marks : List (String × DateTime)) :
    (lastMark stage marks).isSome ↔ 0 < marks.countP fun mark => mark.1 = stage := by
  rw [lastMark, Option.isSome_map, List.getLast?_isSome, Ne, List.filter_eq_nil_iff,
    List.countP_pos_iff]
  simp

/-- What a mark does to the matching: a record is written and the matching starts afresh, or the
mark is noted. -/
theorem traceMatcher_step (traceId : TraceId) (entry : PartialLatencyState)
    (mark : String × DateTime) :
    (∃ latency, (entry.note mark.1 mark.2).latency traceId = some latency ∧
      (traceMatcher traceId).next entry mark = .default ∧
      (traceMatcher traceId).emit entry mark = [latency]) ∨
    ((entry.note mark.1 mark.2).latency traceId = none ∧
      (traceMatcher traceId).next entry mark = entry.note mark.1 mark.2 ∧
      (traceMatcher traceId).emit entry mark = []) := by
  unfold Machine.next Machine.emit traceMatcher
  cases h : (entry.note mark.1 mark.2).latency traceId with
  | none => exact Or.inr ⟨rfl, by simp only [h], by simp only [h]⟩
  | some latency => exact Or.inl ⟨latency, rfl, by simp only [h], by simp only [h]⟩

theorem traceMatcher_emit (entry : PartialLatencyState) (mark : String × DateTime) :
    (traceMatcher traceId).emit entry mark =
      ((entry.note mark.1 mark.2).latency traceId).toList := by
  obtain ⟨latency, hlatency, -, hemit⟩ | ⟨hlatency, -, hemit⟩ :=
    traceMatcher_step traceId entry mark
  · rw [hemit, hlatency]
    rfl
  · rw [hemit, hlatency]
    rfl

theorem traceMatcher_next_of_emit
    (h : (traceMatcher traceId).emit entry mark ≠ []) :
    (traceMatcher traceId).next entry mark = .default := by
  obtain ⟨-, -, hnext, -⟩ | ⟨-, -, hemit⟩ := traceMatcher_step traceId entry mark
  · exact hnext
  · exact absurd hemit h

theorem traceMatcher_waiting (traceId : TraceId) (h : entry.latency traceId = none)
    (marks : List (String × DateTime)) :
    ((traceMatcher traceId).run entry marks).latency traceId = none := by
  refine Machine.run_invariant (M := traceMatcher traceId) (Q := fun _ => True)
    (P := fun entry => entry.latency traceId = none) h ?_ fun _ _ => trivial
  intro entry mark _ _
  obtain ⟨-, -, hnext, -⟩ | ⟨hlatency, hnext, -⟩ :=
    traceMatcher_step traceId entry mark
  · rw [hnext]
    rfl
  · rw [hnext]
    exact hlatency

/-- As long as nothing is written, the matching holds the last time of every stage. -/
theorem traceMatcher_silent (marks : List (String × DateTime))
    (h : (traceMatcher traceId).output .default marks = []) :
    (traceMatcher traceId).run .default marks = lastMarks marks := by
  induction marks using List.reverseRecOn with
  | nil => rfl
  | append_singleton marks mark ih =>
    rw [Machine.output_concat, List.append_eq_nil_iff] at h
    have hrun := ih h.1
    rw [Machine.run_concat, lastMarks_concat, ← hrun]
    obtain ⟨latency, -, -, hemit⟩ | ⟨-, hnext, -⟩ := traceMatcher_step traceId
      ((traceMatcher traceId).run .default marks) mark
    · rw [hemit] at h
      exact absurd h.2 (List.cons_ne_nil _ _)
    · exact hnext

/-- **Every record takes a mark of every stage**: those written and the one noted are at most as
many as the marks. -/
theorem traceMatcher_count (traceId : TraceId) {stage : String} (hstage : stage ∈ latencyStages)
    (marks : List (String × DateTime)) :
    ((traceMatcher traceId).output .default marks).length +
        (if (((traceMatcher traceId).run .default marks).noted stage).isSome then 1 else 0) ≤
      marks.countP fun mark => mark.1 = stage := by
  refine Machine.history_induction (M := traceMatcher traceId) (Q := fun _ => True)
    (P := fun marks entry outs => outs.length + (if (entry.noted stage).isSome then 1 else 0) ≤
      marks.countP fun mark => mark.1 = stage) ?_ ?_ fun _ _ => trivial
  · simp [PartialLatencyState.default, PartialLatencyState.noted]
  · intro marks entry outs mark hcount _
    have hnote := noted_note hstage entry mark
    rw [List.countP_append, List.countP_singleton, List.length_append]
    obtain ⟨latency, hlatency, hnext, hemit⟩ | ⟨-, hnext, hemit⟩ :=
      traceMatcher_step traceId entry mark
    · -- the record takes the mark of the stage that was noted, or this one
      have hall := (latency_isSome_iff_noted _).1 (Option.isSome_of_eq_some hlatency) stage hstage
      have hdefault : (PartialLatencyState.default.noted stage).isSome = false := by
        simp [PartialLatencyState.default, PartialLatencyState.noted]
      rw [hnote] at hall
      rw [hnext, hemit, hdefault]
      by_cases hmark : mark.1 = stage
      · simp only [hmark, decide_true, if_true, Bool.false_eq_true, if_false, List.length_singleton]
        omega
      · rw [if_neg hmark] at hall
        rw [if_pos hall] at hcount
        simpa [hmark] using hcount
    · rw [hnext, hemit, hnote]
      by_cases hmark : mark.1 = stage
      · simp only [hmark, decide_true, if_true, Option.isSome_some, List.length_nil]
        omega
      · simpa [hmark] using hcount

theorem traceMatcher_written (marks : List (String × DateTime))
    (h : ∀ stage ∈ latencyStages, 0 < marks.countP fun mark => mark.1 = stage) :
    (traceMatcher traceId).output .default marks ≠ [] := by
  intro hsilent
  have hrun := traceMatcher_silent marks hsilent
  have hwaiting := @traceMatcher_waiting .default traceId rfl marks
  have hall : ((lastMarks marks).latency traceId).isSome := by
    refine (latency_isSome_iff_noted _).2 fun stage hstage => ?_
    rw [noted_lastMarks hstage, lastMark_isSome_iff]
    exact h stage hstage
  rw [← hrun, hwaiting] at hall
  cases hall

end Trace

/-! ### All traces -/

section Traces

variable {traceId : TraceId} {events : List StageEvent} {evt : StageEvent}

theorem recordLatency_own (s : LogService) (traceId : TraceId) (stage : String) (ts : DateTime) :
    (traceMatcher traceId).next (s.entry traceId) (stage, ts) =
        (s.recordLatency traceId stage ts).1.entry traceId ∧
      (traceMatcher traceId).emit (s.entry traceId) (stage, ts) =
        recordsFor traceId (s.recordLatency traceId stage ts).2 := by
  unfold Machine.next Machine.emit traceMatcher LogService.recordLatency
  dsimp only
  cases h : ((s.entry traceId).note stage ts).latency traceId with
  | none =>
    exact ⟨by simp only [LogService.entry, Finmap.lookup_insert, Option.getD_some], rfl⟩
  | some latency =>
    refine ⟨?_, ?_⟩
    · simp only [LogService.entry, Finmap.lookup_erase, Option.getD_none]
    · simp [recordsFor, LogOutput.record, PartialLatencyState.latency_traceId h]

theorem recordLatency_other (s : LogService) {other : TraceId} (hne : other ≠ traceId)
    (stage : String) (ts : DateTime) :
    (s.recordLatency other stage ts).1.entry traceId = s.entry traceId ∧
      recordsFor traceId (s.recordLatency other stage ts).2 = [] := by
  unfold LogService.recordLatency
  dsimp only
  cases h : ((s.entry other).note stage ts).latency other with
  | none =>
    refine ⟨?_, rfl⟩
    rw [LogService.entry, Finmap.lookup_insert_of_ne _ hne.symm]
    rfl
  | some latency =>
    refine ⟨?_, ?_⟩
    · rw [LogService.entry, Finmap.lookup_erase_ne hne.symm]
      rfl
    · simp [recordsFor, LogOutput.record, PartialLatencyState.latency_traceId h, hne]

/-- **The service, seen from one trace**, is the matching of that trace. -/
theorem latencyMatcher_project (traceId : TraceId) (s : LogService) (events : List StageEvent) :
    (traceMatcher traceId).run (s.entry traceId) (events.filterMap (StageEvent.mark traceId)) =
        (latencyMatcher.run s events).entry traceId ∧
      (traceMatcher traceId).output (s.entry traceId)
          (events.filterMap (StageEvent.mark traceId)) =
        recordsFor traceId (latencyMatcher.output s events) := by
  refine latencyMatcher.project (traceMatcher traceId) (fun s => s.entry traceId)
    (StageEvent.mark traceId) (LogOutput.record traceId) ?_ ?_ s events
  · intro s evt mark hmark
    by_cases hown : evt.traceId = traceId
    · rw [StageEvent.mark, if_pos hown, Option.some.injEq] at hmark
      subst hown hmark
      exact recordLatency_own s evt.traceId evt.stage evt.ts
    · rw [StageEvent.mark, if_neg hown] at hmark
      cases hmark
  · intro s evt hmark
    refine recordLatency_other s (fun hown => ?_) evt.stage evt.ts
    rw [StageEvent.mark, if_pos hown] at hmark
    cases hmark

theorem passes_eq_countP (traceId : TraceId) (stage : String) (events : List StageEvent) :
    passes traceId stage events =
      (events.filterMap (StageEvent.mark traceId)).countP fun mark => mark.1 = stage := by
  rw [List.countP_filterMap, passes]
  refine List.countP_congr fun evt _ => ?_
  by_cases h : evt.traceId = traceId <;> simp [StageEvent.mark, h]

/-- All stages have been passed exactly if the last times of all of them are known. -/
theorem allPassed_iff (traceId : TraceId) (events : List StageEvent) :
    AllPassed traceId events ↔
      ((lastMarks (events.filterMap (StageEvent.mark traceId))).latency traceId).isSome := by
  rw [latency_isSome_iff_noted, AllPassed]
  refine forall₂_congr fun stage hstage => ?_
  rw [noted_lastMarks hstage, lastMark_isSome_iff, passes_eq_countP]

/-- Since its last record, the matching of a trace holds the last time of every stage, and it waits
for a stage. -/
theorem SinceRecord.entry {pre since : List StageEvent} (h : SinceRecord traceId pre since) :
    (latencyMatcher.run .new (pre ++ since)).entry traceId =
        lastMarks (since.filterMap (StageEvent.mark traceId)) ∧
      (lastMarks (since.filterMap (StageEvent.mark traceId))).latency traceId = none := by
  obtain ⟨hpre, hsilent⟩ := h
  have hfresh : (latencyMatcher.run .new pre).entry traceId = .default := by
    rcases hpre with rfl | ⟨before, last, rfl, hrecord⟩
    · rfl
    · rw [Machine.run_concat]
      by_cases hown : last.traceId = traceId
      · subst hown
        obtain ⟨hnext, hemit⟩ := recordLatency_own (latencyMatcher.run .new before) last.traceId
          last.stage last.ts
        refine hnext.symm.trans (traceMatcher_next_of_emit ?_)
        rw [hemit]
        exact hrecord
      · exact absurd (recordLatency_other _ hown _ _).2 hrecord
  obtain ⟨hrun, hout⟩ := latencyMatcher_project traceId (latencyMatcher.run .new pre) since
  rw [hfresh] at hrun hout
  have hmarks := traceMatcher_silent _ (hout.trans hsilent)
  refine ⟨?_, ?_⟩
  · rw [Machine.run_append, ← hrun, hmarks]
  · rw [← hmarks]
    exact traceMatcher_waiting _ rfl _

theorem exists_sinceRecord (traceId : TraceId) (events : List StageEvent) :
    ∃ pre since, events = pre ++ since ∧ SinceRecord traceId pre since := by
  induction events using List.reverseRecOn with
  | nil => exact ⟨[], [], rfl, Or.inl rfl, rfl⟩
  | append_singleton events evt ih =>
    obtain ⟨pre, since, rfl, hsince⟩ := ih
    by_cases hrecord : recordsFor traceId
        (latencyMatcher.emit (latencyMatcher.run .new (pre ++ since)) evt) = []
    · refine ⟨pre, since ++ [evt], by rw [List.append_assoc], hsince.1, ?_⟩
      rw [Machine.output_concat, recordsFor, List.filterMap_append, ← Machine.run_append]
      exact List.append_eq_nil_iff.2 ⟨hsince.2, hrecord⟩
    · exact ⟨pre ++ since ++ [evt], [], by rw [List.append_nil],
        Or.inr ⟨pre ++ since, evt, rfl, hrecord⟩, rfl⟩

/-- **What the next event writes** about a trace: the last times of the three stages since the last
record, if all three have been passed. -/
theorem SinceRecord.emit {pre since : List StageEvent} (h : SinceRecord traceId pre since)
    (evt : StageEvent) :
    recordsFor traceId (latencyMatcher.emit (latencyMatcher.run .new (pre ++ since)) evt) =
      ((lastMarks ((since ++ [evt]).filterMap (StageEvent.mark traceId))).latency traceId).toList :=
      by
  obtain ⟨hentry, hwaiting⟩ := h.entry
  rw [List.filterMap_append]
  by_cases hown : evt.traceId = traceId
  · subst hown
    have hemit := (recordLatency_own (latencyMatcher.run .new (pre ++ since)) evt.traceId
      evt.stage evt.ts).2
    have hmark : [evt].filterMap (StageEvent.mark evt.traceId) = [(evt.stage, evt.ts)] := by
      simp [StageEvent.mark]
    rw [hmark, lastMarks_concat, ← hentry]
    exact hemit.symm.trans (traceMatcher_emit _ _)
  · have hmark : [evt].filterMap (StageEvent.mark traceId) = [] := by
      simp [StageEvent.mark, hown]
    rw [hmark, List.append_nil, hwaiting]
    exact (recordLatency_other _ hown _ _).2

theorem filterMap_mark_filter (traceId : TraceId) (events : List StageEvent) :
    (events.filter fun evt => evt.traceId = traceId).filterMap (StageEvent.mark traceId) =
      events.filterMap (StageEvent.mark traceId) := by
  rw [List.filterMap_filter]
  refine List.filterMap_congr fun evt _ => ?_
  by_cases h : evt.traceId = traceId <;> simp [StageEvent.mark, h]

theorem recordsFor_output (traceId : TraceId) (events : List StageEvent) :
    recordsFor traceId (latencyMatcher.output .new events) =
      (traceMatcher traceId).output .default (events.filterMap (StageEvent.mark traceId)) :=
  (latencyMatcher_project traceId .new events).2.symm

theorem recordsFor_le_passes {stage : String} (hstage : stage ∈ latencyStages) (traceId : TraceId)
    (events : List StageEvent) :
    (recordsFor traceId (latencyMatcher.output .new events)).length ≤
      passes traceId stage events := by
  have hcount := traceMatcher_count traceId hstage
    (events.filterMap (StageEvent.mark traceId))
  rw [recordsFor_output, passes_eq_countP]
  omega

theorem recordsFor_ne_nil (h : AllPassed traceId events) :
    recordsFor traceId (latencyMatcher.output .new events) ≠ [] := by
  rw [recordsFor_output]
  refine traceMatcher_written _ fun stage hstage => ?_
  rw [← passes_eq_countP]
  exact h stage hstage

theorem latency_fields {entry : PartialLatencyState} {latency : LatencyRecord}
    (h : entry.latency traceId = some latency) :
    latency.traceId = traceId ∧ entry.tsStartTick = some latency.tsStartTick ∧
      entry.tsStrategyDecision = some latency.tsStrategyDecision ∧
      entry.tsOrderResult = some latency.tsOrderResult := by
  unfold PartialLatencyState.latency at h
  split at h
  case h_1 start decision result hstart hdecision hresult =>
    cases h
    exact ⟨rfl, hstart, hdecision, hresult⟩
  case h_2 => cases h

/-- **Latency matching.**  The records of a trace depend on its own events only.  An event writes a
record exactly if it is the one with which the trace has passed all three stages since its last
record, with the last time of each.  So there are no more records than events of any of the stages,
and there is exactly one record if there is one tick and the other stages are passed. -/
theorem latency_matching (traceId : TraceId) (events : List StageEvent) :
    (∀ others : List StageEvent,
      others.filter (fun evt => evt.traceId = traceId) =
        events.filter (fun evt => evt.traceId = traceId) →
      recordsFor traceId (latencyMatcher.output .new others) =
        recordsFor traceId (latencyMatcher.output .new events)) ∧
    (∀ before evt post, events = before ++ evt :: post →
      ∃ pre since, before = pre ++ since ∧ SinceRecord traceId pre since) ∧
    (∀ pre since evt post, events = (pre ++ since) ++ evt :: post →
      SinceRecord traceId pre since →
      let written := recordsFor traceId
        (latencyMatcher.emit (latencyMatcher.run .new (pre ++ since)) evt)
      (written ≠ [] ↔ ¬ AllPassed traceId since ∧ AllPassed traceId (since ++ [evt])) ∧
      ∀ latency ∈ written, written = [latency] ∧ latency.traceId = traceId ∧
        lastSeen traceId "tick" (since ++ [evt]) = some latency.tsStartTick ∧
        lastSeen traceId "strategy_decision" (since ++ [evt]) = some latency.tsStrategyDecision ∧
        lastSeen traceId "order_result" (since ++ [evt]) = some latency.tsOrderResult) ∧
    (recordsFor traceId (latencyMatcher.output .new events)).length ≤
      min (passes traceId "tick" events)
        (min (passes traceId "strategy_decision" events) (passes traceId "order_result" events)) ∧
    (passes traceId "tick" events = 1 → 0 < passes traceId "strategy_decision" events →
      0 < passes traceId "order_result" events →
      (recordsFor traceId (latencyMatcher.output .new events)).length = 1) := by
  have hle : ∀ stage ∈ latencyStages, _ ≤ _ := fun stage hstage =>
    recordsFor_le_passes hstage traceId events
  simp only [latencyStages, List.forall_mem_cons] at hle
  obtain ⟨htick, hdecision, hresult, -⟩ := hle
  refine ⟨?_, fun before _ _ _ => exists_sinceRecord traceId before, ?_,
    le_min htick (le_min hdecision hresult), ?_⟩
  · intro others hothers
    rw [recordsFor_output, recordsFor_output, ← filterMap_mark_filter, hothers,
      filterMap_mark_filter]
  · intro pre since evt post _ hsince
    dsimp only
    rw [hsince.emit evt, allPassed_iff, allPassed_iff, hsince.entry.2]
    refine ⟨?_, ?_⟩
    · simp [Option.isSome_iff_ne_none]
    · intro latency hmem
      rw [Option.mem_toList] at hmem
      exact ⟨by rw [hmem, Option.toList_some], latency_fields hmem⟩
  · intro hone hdecision' hresult'
    have hall : AllPassed traceId events := by
      simp only [AllPassed, latencyStages, List.forall_mem_cons]
      exact ⟨hone ▸ Nat.one_pos, hdecision', hresult', fun _ h => absurd h List.not_mem_nil⟩
    have hpos := List.length_pos_iff.2 (recordsFor_ne_nil hall)
    omega

end Traces

/-- Two ticks and a stage of another trace before the decision and the result. -/
theorem latency_matching_twice :
    let events : List StageEvent := [⟨"a", "tick", 0⟩, ⟨"b", "order_result", 1⟩,
      ⟨"a", "order_result", 2⟩, ⟨"a", "strategy_decision", 3⟩, ⟨"b", "tick", 4⟩]
    (recordsFor "a" (latencyMatcher.output .new events)).length = 1 ∧
      recordsFor "b" (latencyMatcher.output .new events) =
        recordsFor "b"
          (latencyMatcher.output .new [⟨"b", "order_result", 1⟩, ⟨"b", "tick", 4⟩]) := by
  intro events
  obtain ⟨-, -, -, -, hone⟩ := latency_matching "a" events
  obtain ⟨hown, -⟩ := latency_matching "b" events
  exact ⟨hone (by decide) (by decide) (by decide), (hown _ (by decide)).symm⟩

/-! ### The events on the bus -/

theorem recordLatency_recentEvents (s : LogService) (recent : List LogEvent) (traceId : TraceId)
    (stage : String) (ts : DateTime) :
    LogService.recordLatency { s with recentEvents := recent } traceId stage ts =
      ({ (s.recordLatency traceId stage ts).1 with recentEvents := recent },
        (s.recordLatency traceId stage ts).2) := by
  unfold LogService.recordLatency
  dsimp only
  rw [LogService.entry_recentEvents]
  cases ((s.entry traceId).note stage ts).latency traceId <;> dsimp only

theorem handleEvent_stage (s : LogService) {evt : LogEvent} {traceId : TraceId} {stage : String}
    (htrace : evt.traceId = some traceId) (hstage : evt.stage = some stage) :
    s.handleEvent evt =
      ({ (s.recordLatency traceId stage evt.ts).1 with
          recentEvents := keepLast 1000 (s.recentEvents ++ [evt]) },
        (s.recordLatency traceId stage evt.ts).2 ++ [.event evt]) := by
  unfold LogService.handleEvent
  rw [htrace, hstage]
  dsimp only
  rw [recordLatency_recentEvents]

theorem recordLatency_latencyOnly (s : LogService) (traceId : TraceId) (stage : String)
    (ts : DateTime) :
    (s.recordLatency traceId stage ts).2.filterMap LogOutput.latencyOnly =
      (s.recordLatency traceId stage ts).2 := by
  unfold LogService.recordLatency
  dsimp only
  split <;> rfl

/-- **The log service** feeds `record_latency` with the stages of the events it handles: it writes
the same records. -/
theorem logService_project (s : LogService) (events : List LogEvent) :
    latencyMatcher.output { s with recentEvents := [] } (events.filterMap LogEvent.stageEvent) =
      (logService.output s events).filterMap LogOutput.latencyOnly := by
  refine (logService.project latencyMatcher (fun s => { s with recentEvents := [] })
    LogEvent.stageEvent LogOutput.latencyOnly ?_ ?_ s events).2
  · intro s evt stageEvt hstage
    unfold LogEvent.stageEvent at hstage
    split at hstage
    case h_1 traceId stage htrace hstage' =>
      rw [Option.some.injEq] at hstage
      subst hstage
      simp only [Machine.next, Machine.emit, latencyMatcher, logService,
        handleEvent_stage s htrace hstage', recordLatency_recentEvents]
      rw [List.filterMap_append, recordLatency_latencyOnly]
      exact ⟨trivial, (List.append_nil _).symm⟩
    case h_2 => cases hstage
  · intro s evt hstage
    unfold Machine.next Machine.emit logService LogService.handleEvent
    dsimp only
    split
    case h_1 traceId stage htrace hstage' =>
      simp [LogEvent.stageEvent, htrace, hstage'] at hstage
    case h_2 => exact ⟨rfl, rfl⟩

end W2uos
