import Mathlib.Data.Finmap
import W2uos.Log.Types
import W2uos.System.Machine

/-!
# Latencies

The log service looks for a trace and a stage in every event.  It keeps the times at which a trace
has passed the stages tick, strategy decision and order result, and once it has all three it writes
a latency record and forgets the trace.

* `recordsOf_run` : a trace with at most one tick has one record if it has passed all stages, and no
  record otherwise.
-/

namespace W2uos

/-- The times at which a trace has passed the stages. -/
structure PartialLatencyState where
  tsStartTick : Option DateTime
  tsStrategyDecision : Option DateTime
  tsOrderResult : Option DateTime
  deriving DecidableEq

/-- The time from a tick to the result of an order. -/
structure LatencyRecord where
  traceId : TraceId
  tsStartTick : DateTime
  tsStrategyDecision : DateTime
  tsOrderResult : DateTime
  tickToStrategyMs : ℤ
  strategyToExecMs : ℤ
  tickToResultMs : ℤ
  deriving DecidableEq

/-- `TimeDelta::num_milliseconds`. -/
def numMilliseconds (delta : ℤ) : ℤ := delta.tdiv 1000000

/-- The log service; the connection to the bus and the storage are left out. -/
structure LogService where
  recentEvents : List LogEvent
  latencyState : Finmap fun _ : TraceId => PartialLatencyState
  latencyRecords : List LatencyRecord

/-- What the service writes to its storage. -/
inductive LogOutput
  | latency (latency : LatencyRecord)
  | event (evt : LogEvent)
  deriving DecidableEq

/-- The last `n` elements of a list. -/
def keepLast {α : Type} (n : ℕ) (l : List α) : List α := l.drop (l.length - n)

namespace PartialLatencyState

/-- A trace that has not passed any stage. -/
def default : PartialLatencyState := ⟨none, none, none⟩

/-- A stage is passed. -/
def note (entry : PartialLatencyState) (stage : String) (ts : DateTime) : PartialLatencyState :=
  if stage = "tick" then { entry with tsStartTick := some ts }
  else if stage = "strategy_decision" then { entry with tsStrategyDecision := some ts }
  else if stage = "order_result" then { entry with tsOrderResult := some ts }
  else entry

/-- The record of a trace that has passed all stages. -/
def latency (entry : PartialLatencyState) (traceId : TraceId) : Option LatencyRecord :=
  match entry.tsStartTick, entry.tsStrategyDecision, entry.tsOrderResult with
  | some start, some decision, some result =>
    some
      { traceId := traceId
        tsStartTick := start
        tsStrategyDecision := decision
        tsOrderResult := result
        tickToStrategyMs := numMilliseconds (decision - start)
        strategyToExecMs := numMilliseconds (result - decision)
        tickToResultMs := numMilliseconds (result - start) }
  | _, _, _ => none

end PartialLatencyState

/-- The stage in the fields of an event. -/
def LogEvent.stage (evt : LogEvent) : Option String :=
  match evt.fields.lookup "stage" with
  | some (.text stage) => some stage
  | _ => none

namespace LogService

/-- A new service. -/
def new : LogService := ⟨[], ∅, []⟩

/-- What the service knows of a trace. -/
def entry (s : LogService) (traceId : TraceId) : PartialLatencyState :=
  (s.latencyState.lookup traceId).getD .default

/-- A trace passes a stage. -/
def recordLatency (s : LogService) (traceId : TraceId) (stage : String) (ts : DateTime) :
    LogService × List LogOutput :=
  let entry := (s.entry traceId).note stage ts
  match entry.latency traceId with
  | some latency =>
    ({ s with
        latencyState := s.latencyState.erase traceId
        latencyRecords := keepLast 2000 (s.latencyRecords ++ [latency]) }, [.latency latency])
  | none => ({ s with latencyState := s.latencyState.insert traceId entry }, [])

/-- Handle an event. -/
def handleEvent (s : LogService) (event : LogEvent) : LogService × List LogOutput :=
  let s := { s with recentEvents := keepLast 1000 (s.recentEvents ++ [event]) }
  match event.traceId, event.stage with
  | some traceId, some stage =>
    let (s, outs) := s.recordLatency traceId stage event.ts
    (s, outs ++ [.event event])
  | _, _ => (s, [.event event])

end LogService

/-- The log service, on the messages of `log.event`. -/
def logService : Machine LogService LogEvent LogOutput where
  step := LogService.handleEvent

/-- The events written. -/
def LogOutput.events (outs : List LogOutput) : List LogEvent :=
  outs.filterMap fun
    | .event evt => some evt
    | .latency _ => none

/-- How often a trace has passed a stage. -/
def marks (traceId : TraceId) (stage : String) (events : List LogEvent) : ℕ :=
  events.countP fun evt => evt.traceId = some traceId ∧ evt.stage = some stage

/-- How many records of a trace have been written. -/
def recordsOf (traceId : TraceId) (outs : List LogOutput) : ℕ :=
  outs.countP fun
    | .latency latency => latency.traceId = traceId
    | .event _ => false

/-! ### One event -/

theorem marks_concat (traceId : TraceId) (stage : String) (events : List LogEvent)
    (evt : LogEvent) :
    marks traceId stage (events ++ [evt]) = marks traceId stage events +
      if evt.traceId = some traceId ∧ evt.stage = some stage then 1 else 0 := by
  simp [marks, List.countP_append, List.countP_cons]

theorem marks_pos {traceId : TraceId} {stage : String} {events : List LogEvent} {evt : LogEvent}
    (hmem : evt ∈ events) (htrace : evt.traceId = some traceId) (hstage : evt.stage = some stage) :
    0 < marks traceId stage events :=
  List.countP_pos_iff.2 ⟨evt, hmem, by simp [htrace, hstage]⟩

theorem marks_eq_zero {stage other : String} {events : List LogEvent}
    (h : ∀ evt ∈ events, evt.stage = some stage) (hne : stage ≠ other) (traceId : TraceId) :
    marks traceId other events = 0 := by
  refine List.countP_eq_zero.2 fun evt hevt hmark => hne ?_
  have hstage := (of_decide_eq_true hmark).2
  rwa [h evt hevt, Option.some.injEq] at hstage

namespace PartialLatencyState

theorem latency_isSome_iff (entry : PartialLatencyState) (traceId : TraceId) :
    (entry.latency traceId).isSome ↔ entry.tsStartTick.isSome ∧
      entry.tsStrategyDecision.isSome ∧ entry.tsOrderResult.isSome := by
  unfold latency
  cases entry.tsStartTick <;> cases entry.tsStrategyDecision <;> cases entry.tsOrderResult <;> simp

theorem latency_traceId {entry : PartialLatencyState} {traceId : TraceId} {latency : LatencyRecord}
    (h : entry.latency traceId = some latency) : latency.traceId = traceId := by
  unfold PartialLatencyState.latency at h
  split at h
  · cases h
    rfl
  · cases h

section Note

variable (entry : PartialLatencyState) (stage : String) (ts : DateTime)

theorem note_tick :
    (entry.note stage ts).tsStartTick.isSome ↔ stage = "tick" ∨ entry.tsStartTick.isSome := by
  unfold note
  split_ifs with htick hdecision hresult <;> simp_all

theorem note_decision : (entry.note stage ts).tsStrategyDecision.isSome ↔
    stage = "strategy_decision" ∨ entry.tsStrategyDecision.isSome := by
  unfold note
  split_ifs with htick hdecision hresult <;> simp_all

theorem note_result : (entry.note stage ts).tsOrderResult.isSome ↔
    stage = "order_result" ∨ entry.tsOrderResult.isSome := by
  unfold note
  split_ifs with htick hdecision hresult <;> simp_all

end Note

end PartialLatencyState

namespace LogService

@[simp] theorem recordsOf_event (traceId : TraceId) (evt : LogEvent) :
    recordsOf traceId [.event evt] = 0 := by
  simp [recordsOf]

theorem entry_recentEvents (s : LogService) (recent : List LogEvent) (traceId : TraceId) :
    LogService.entry { s with recentEvents := recent } traceId = s.entry traceId := rfl

/-- **What an event does**: it is kept and written; if it says that a trace passes a stage, the
entry of the trace is updated, or it gives way to a record. -/
theorem handleEvent_cases (s : LogService) (evt : LogEvent) :
    let recent := keepLast 1000 (s.recentEvents ++ [evt])
    ((∀ traceId, evt.traceId = some traceId → evt.stage = none) ∧
      s.handleEvent evt = ({ s with recentEvents := recent }, [.event evt])) ∨
    ∃ traceId stage, evt.traceId = some traceId ∧ evt.stage = some stage ∧
      let entry := (s.entry traceId).note stage evt.ts
      (entry.latency traceId = none ∧
        s.handleEvent evt =
          ({ s with
              recentEvents := recent
              latencyState := s.latencyState.insert traceId entry }, [.event evt])) ∨
      ∃ latency, entry.latency traceId = some latency ∧
        s.handleEvent evt =
          ({ recentEvents := recent
             latencyState := s.latencyState.erase traceId
             latencyRecords := keepLast 2000 (s.latencyRecords ++ [latency]) },
            [.latency latency, .event evt]) := by
  unfold handleEvent
  generalize keepLast 1000 (s.recentEvents ++ [evt]) = recent
  dsimp only
  cases htrace : evt.traceId with
  | none =>
    refine Or.inl ⟨?_, rfl⟩
    rintro traceId ⟨⟩
  | some traceId =>
    cases hstage : evt.stage with
    | none => exact Or.inl ⟨fun _ _ => rfl, rfl⟩
    | some stage =>
      refine Or.inr ⟨traceId, stage, rfl, rfl, ?_⟩
      unfold recordLatency
      dsimp only
      rw [entry_recentEvents s recent traceId]
      cases hlatency : ((s.entry traceId).note stage evt.ts).latency traceId with
      | none => exact Or.inl ⟨rfl, rfl⟩
      | some latency => exact Or.inr ⟨latency, rfl, rfl⟩

/-- An event that does not say that the trace passes a stage leaves it alone. -/
theorem handleEvent_other (s : LogService) {evt : LogEvent} {traceId : TraceId}
    (h : evt.traceId = some traceId → evt.stage = none) :
    (s.handleEvent evt).1.entry traceId = s.entry traceId ∧
      recordsOf traceId (s.handleEvent evt).2 = 0 := by
  obtain ⟨-, heq⟩ | ⟨other, stage, htrace, hstage, hcases⟩ := s.handleEvent_cases evt
  · rw [heq]
    exact ⟨entry_recentEvents s _ traceId, recordsOf_event traceId evt⟩
  · have hne : traceId ≠ other := by
      rintro rfl
      rw [h htrace] at hstage
      cases hstage
    obtain ⟨-, heq⟩ | ⟨latency, hlatency, heq⟩ := hcases
    · rw [heq]
      refine ⟨?_, recordsOf_event traceId evt⟩
      rw [entry, Finmap.lookup_insert_of_ne _ hne]
      rfl
    · rw [heq]
      refine ⟨?_, ?_⟩
      · rw [entry, Finmap.lookup_erase_ne hne]
        rfl
      · simp [recordsOf, PartialLatencyState.latency_traceId hlatency, Ne.symm hne]

/-- An event that says that the trace passes a stage notes it; if that was the last one, a record is
written, and the trace is forgotten. -/
theorem handleEvent_own (s : LogService) {evt : LogEvent} {traceId : TraceId} {stage : String}
    (htrace : evt.traceId = some traceId) (hstage : evt.stage = some stage) :
    let entry := (s.entry traceId).note stage evt.ts
    (s.handleEvent evt).1.entry traceId =
        (if (entry.latency traceId).isSome then .default else entry) ∧
      recordsOf traceId (s.handleEvent evt).2 =
        if (entry.latency traceId).isSome then 1 else 0 := by
  obtain ⟨hnone, -⟩ | ⟨traceId', stage', htrace', hstage', hcases⟩ := s.handleEvent_cases evt
  · have hnone' := hnone traceId htrace
    rw [hstage] at hnone'
    cases hnone'
  · rw [htrace, Option.some.injEq] at htrace'
    rw [hstage, Option.some.injEq] at hstage'
    subst htrace' hstage'
    obtain ⟨hlatency, heq⟩ | ⟨latency, hlatency, heq⟩ := hcases <;> dsimp only <;>
      rw [heq, hlatency]
    · refine ⟨?_, recordsOf_event traceId evt⟩
      rw [entry, Finmap.lookup_insert]
      rfl
    · refine ⟨?_, ?_⟩
      · rw [entry, Finmap.lookup_erase]
        rfl
      · simp [recordsOf, PartialLatencyState.latency_traceId hlatency]

end LogService

theorem LogService.events_emit (s : LogService) (evt : LogEvent) :
    LogOutput.events (logService.emit s evt) = [evt] := by
  show LogOutput.events (s.handleEvent evt).2 = [evt]
  obtain ⟨-, heq⟩ | ⟨_, _, _, _, ⟨-, heq⟩ | ⟨_, -, heq⟩⟩ := s.handleEvent_cases evt <;>
  · rw [heq]
    rfl

/-! ### All events -/

/-- What the service knows of a trace with at most one tick after some events, and how many records
of it have been written. -/
structure Measured (traceId : TraceId) (events : List LogEvent) (s : LogService) (n : ℕ) :
    Prop where
  tick : (s.entry traceId).tsStartTick.isSome ↔ n < marks traceId "tick" events
  decision : n = 0 → ((s.entry traceId).tsStrategyDecision.isSome ↔
    0 < marks traceId "strategy_decision" events)
  result : n = 0 → ((s.entry traceId).tsOrderResult.isSome ↔
    0 < marks traceId "order_result" events)
  waiting : n = 0 → ¬ ((s.entry traceId).latency traceId).isSome
  written : 0 < n → marks traceId "tick" events = 1 ∧
    0 < marks traceId "strategy_decision" events ∧ 0 < marks traceId "order_result" events ∧ n = 1

variable {traceId : TraceId} {events : List LogEvent} {s : LogService} {n : ℕ} {evt : LogEvent}
  {stage : String}

theorem marks_own (htrace : evt.traceId = some traceId) (hstage : evt.stage = some stage)
    (events : List LogEvent) (other : String) :
    marks traceId other (events ++ [evt]) =
      marks traceId other events + if stage = other then 1 else 0 := by
  simp [marks_concat, htrace, hstage]

theorem Measured.first (h : Measured traceId events s n) (htrace : evt.traceId = some traceId)
    (hstage : evt.stage = some stage) (htick : marks traceId "tick" (events ++ [evt]) ≤ 1)
    (hfirst : stage = "tick") : n = 0 := by
  rw [marks_own htrace hstage, if_pos hfirst] at htick
  by_contra hn
  have hone := (h.written (Nat.pos_of_ne_zero hn)).1
  omega

theorem Measured.complete (h : Measured traceId events s n) (htrace : evt.traceId = some traceId)
    (hstage : evt.stage = some stage) (htick : marks traceId "tick" (events ++ [evt]) ≤ 1)
    (hall : (((s.entry traceId).note stage evt.ts).latency traceId).isSome) :
    Measured traceId (events ++ [evt]) (logService.next s evt)
      (n + recordsOf traceId (logService.emit s evt)) := by
  obtain ⟨hentry, hrecords⟩ := s.handleEvent_own htrace hstage
  have hnext : (logService.next s evt).entry traceId = _ := hentry
  have hemit : recordsOf traceId (logService.emit s evt) = _ := hrecords
  have hmarks := marks_own htrace hstage events
  have hfirst := h.first htrace hstage htick
  have hstages := (PartialLatencyState.latency_isSome_iff _ traceId).1 hall
  rw [PartialLatencyState.note_tick, PartialLatencyState.note_decision,
    PartialLatencyState.note_result, h.tick] at hstages
  obtain ⟨htick', hdecision', hresult'⟩ := hstages
  rw [if_pos hall] at hnext hemit
  rw [hmarks] at htick
  have hzero : n = 0 := by
    rcases htick' with htick' | htick'
    · exact hfirst htick'
    · split_ifs at htick <;> omega
  rw [hemit]
  refine ⟨?_, fun h => absurd h (Nat.succ_ne_zero n), fun h => absurd h (Nat.succ_ne_zero n),
    fun h => absurd h (Nat.succ_ne_zero n), fun _ => ⟨?_, ?_, ?_, by omega⟩⟩
  · rw [hnext, hmarks]
    simp only [PartialLatencyState.default, Option.isSome_none, Bool.false_eq_true, false_iff]
    omega
  · rw [hmarks]
    rcases htick' with htick' | htick'
    · rw [if_pos htick'] at htick ⊢
      omega
    · omega
  · rw [hmarks]
    rcases hdecision' with hdecision' | hdecision'
    · rw [if_pos hdecision']
      omega
    · have hpos := (h.decision hzero).1 hdecision'
      omega
  · rw [hmarks]
    rcases hresult' with hresult' | hresult'
    · rw [if_pos hresult']
      omega
    · have hpos := (h.result hzero).1 hresult'
      omega

theorem Measured.wait (h : Measured traceId events s n) (htrace : evt.traceId = some traceId)
    (hstage : evt.stage = some stage) (htick : marks traceId "tick" (events ++ [evt]) ≤ 1)
    (hall : ¬ (((s.entry traceId).note stage evt.ts).latency traceId).isSome) :
    Measured traceId (events ++ [evt]) (logService.next s evt)
      (n + recordsOf traceId (logService.emit s evt)) := by
  obtain ⟨hentry, hrecords⟩ := s.handleEvent_own htrace hstage
  have hnext : (logService.next s evt).entry traceId = _ := hentry
  have hemit : recordsOf traceId (logService.emit s evt) = _ := hrecords
  have hmarks := marks_own htrace hstage events
  have hfirst := h.first htrace hstage htick
  rw [if_neg hall] at hnext hemit
  rw [hemit, Nat.add_zero]
  refine ⟨?_, ?_, ?_, ?_, ?_⟩
  · rw [hnext, hmarks, PartialLatencyState.note_tick, h.tick]
    split_ifs with hstage'
    · have hzero := hfirst hstage'
      simp only [hstage', true_or, true_iff]
      omega
    · simp [hstage']
  · intro hn
    rw [hnext, hmarks, PartialLatencyState.note_decision, h.decision hn]
    split_ifs with hstage' <;> simp [hstage']
  · intro hn
    rw [hnext, hmarks, PartialLatencyState.note_result, h.result hn]
    split_ifs with hstage' <;> simp [hstage']
  · rw [hnext]
    exact fun _ => hall
  · intro hn
    obtain ⟨hone, hdecision, hresult, hn1⟩ := h.written hn
    rw [hmarks, hmarks, hmarks]
    have htick' : stage ≠ "tick" := fun heq => by
      have hzero := hfirst heq
      omega
    rw [if_neg htick']
    omega

theorem Measured.other (h : Measured traceId events s n)
    (hother : evt.traceId = some traceId → evt.stage = none) :
    Measured traceId (events ++ [evt]) (logService.next s evt)
      (n + recordsOf traceId (logService.emit s evt)) := by
  obtain ⟨hentry, hrecords⟩ := s.handleEvent_other hother
  have hmarks : ∀ stage, marks traceId stage (events ++ [evt]) = marks traceId stage events := by
    intro stage
    have hnone : ¬ (evt.traceId = some traceId ∧ evt.stage = some stage) := by
      rintro ⟨htrace, hstage⟩
      rw [hother htrace] at hstage
      cases hstage
    rw [marks_concat, if_neg hnone, Nat.add_zero]
  have hemit : recordsOf traceId (logService.emit s evt) = 0 := hrecords
  have hnext : (logService.next s evt).entry traceId = s.entry traceId := hentry
  rw [hemit, Nat.add_zero]
  refine ⟨?_, ?_, ?_, ?_, ?_⟩
  · rw [hnext, hmarks]
    exact h.tick
  · rw [hnext, hmarks]
    exact h.decision
  · rw [hnext, hmarks]
    exact h.result
  · rw [hnext]
    exact h.waiting
  · rw [hmarks, hmarks, hmarks]
    exact h.written

/-- **The step lemma of the records.** -/
theorem Measured.step (h : Measured traceId events s n) (evt : LogEvent)
    (htick : marks traceId "tick" (events ++ [evt]) ≤ 1) :
    Measured traceId (events ++ [evt]) (logService.next s evt)
      (n + recordsOf traceId (logService.emit s evt)) := by
  by_cases hown : ∃ stage, evt.traceId = some traceId ∧ evt.stage = some stage
  · obtain ⟨stage, htrace, hstage⟩ := hown
    by_cases hall : (((s.entry traceId).note stage evt.ts).latency traceId).isSome
    · exact h.complete htrace hstage htick hall
    · exact h.wait htrace hstage htick hall
  · refine h.other fun htrace => ?_
    cases hstage : evt.stage with
    | none => rfl
    | some stage => exact absurd ⟨stage, htrace, hstage⟩ hown

/-- **The records of a trace** with at most one tick: one if it has passed all stages, in whatever
order and however often the others, and none otherwise. -/
theorem recordsOf_run (traceId : TraceId) (events : List LogEvent)
    (htick : marks traceId "tick" events ≤ 1) :
    recordsOf traceId (logService.output .new events) =
      if 0 < marks traceId "tick" events ∧ 0 < marks traceId "strategy_decision" events ∧
        0 < marks traceId "order_result" events then 1 else 0 := by
  have hmeasured : ∀ pre, pre <+: events → Measured traceId pre (logService.run .new pre)
      (recordsOf traceId (logService.output .new pre)) := by
    intro pre
    induction pre using List.reverseRecOn with
    | nil =>
      intro _
      constructor <;> simp [LogService.entry, LogService.new, PartialLatencyState.default, marks,
        recordsOf, PartialLatencyState.latency]
    | append_singleton pre evt ih =>
      intro hpre
      have hmono : marks traceId "tick" (pre ++ [evt]) ≤ marks traceId "tick" events :=
        hpre.sublist.countP_le
      rw [Machine.run_concat, Machine.output_concat, recordsOf, List.countP_append]
      exact (ih ((List.prefix_append pre [evt]).trans hpre)).step evt (hmono.trans htick)
  obtain ⟨hstart, hdecision, hresult, hwaiting, hwritten⟩ := hmeasured events List.prefix_rfl
  split_ifs with hall
  · by_contra hne
    have hzero : recordsOf traceId (logService.output .new events) = 0 := by
      by_contra hpos
      exact hne (hwritten (Nat.pos_of_ne_zero hpos)).2.2.2
    refine hwaiting hzero ((PartialLatencyState.latency_isSome_iff _ _).2 ⟨hstart.2 ?_,
      (hdecision hzero).2 hall.2.1, (hresult hzero).2 hall.2.2⟩)
    rw [hzero]
    exact hall.1
  · by_contra hpos
    obtain ⟨hone, hdecision', hresult', -⟩ := hwritten (Nat.pos_of_ne_zero hpos)
    exact hall ⟨by omega, hdecision', hresult'⟩

end W2uos
