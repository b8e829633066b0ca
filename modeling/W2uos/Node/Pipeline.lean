import W2uos.Data.Feeds
import W2uos.Exec.Service
import W2uos.Log.Latency
import W2uos.Strategy.Decisions

/-!
# From ticks to latencies

A snapshot is published by a market feed, handled by the strategy host, which publishes orders for
it, and the execution service publishes their results.  Each of the three writes an event about it,
and the log service measures from them how long that took.

A service publishes its messages one at a time, so those of others may come in between; what it has
still to publish is in an outbox, and what another service has still to read in a queue.

* `flow_run` : ticks, decisions and results are announced, and nothing is lost on the way to the log
  service;
* `latency_iff` : the latency of a snapshot with a result is recorded exactly if the feed is the
  simulated one.
-/

namespace W2uos

/-! ### The services -/

/-- What happens in the services. -/
inductive PipelineNote
  /-- A snapshot is published. -/
  | snapshot (snap : MarketSnapshot)
  | host (e : HostEvent)
  /-- A result is published. -/
  | result (result : OrderResult)
  /-- The log service writes something to its storage. -/
  | log (out : LogOutput)
  deriving DecidableEq

namespace PipelineNote

/-- The snapshots published. -/
def snapshots (notes : List PipelineNote) : List MarketSnapshot :=
  notes.filterMap fun
    | snapshot snap => some snap
    | _ => none

/-- What the log service has written. -/
def outputs (notes : List PipelineNote) : List LogOutput :=
  notes.filterMap fun
    | log out => some out
    | _ => none

end PipelineNote

/-- The events among the messages of the execution service. -/
def ExecOutput.events (os : List ExecOutput) : List LogEvent :=
  os.filterMap fun
    | .log evt => some evt
    | _ => none

/-- The services between a tick and its latency, and what is under way between them. -/
structure Pipeline (σ : Type) where
  priceState : PriceState
  /-- What the feed has still to publish. -/
  feed : List FeedOutput
  host : TrackedHost σ
  /-- The queue of `orders.command`. -/
  commands : List OrderCommand
  exec : ExecutionService
  /-- What the execution service has still to publish. -/
  results : List ExecOutput
  /-- The queue of `log.event`. -/
  events : List LogEvent
  log : LogService

/-- Services that have just been started. -/
def Pipeline.start {σ : Type} (engine : σ) (subscriptions : List StrategySubscription)
    (exec : ExecutionService) : Pipeline σ where
  priceState := ∅
  feed := []
  host := .start engine subscriptions
  commands := []
  exec := exec
  results := []
  events := []
  log := .new

/-- What the services react to. -/
inductive PipelineInput
  /-- The simulated feed begins a round. -/
  | round (subs : List MarketDataSubscription) (stamp : ℕ → Stamp)
  /-- The OKX feed receives a text. -/
  | text (txt : String) (stamp : ℕ → Stamp)
  /-- The feed publishes its next message. -/
  | publishFeed
  /-- An input of the strategy host. -/
  | host (i : HostInput)
  /-- The execution service takes the next command. -/
  | take (now : DateTime) (exchange : OkxOrderRequest → Transmission)
  /-- Any other input of the execution service. -/
  | exec (i : ExecInput)
  /-- The execution service publishes its next message. -/
  | publishExec
  /-- The private stream of the exchange publishes an order update. -/
  | update (data : OkxOrderData) (ts : DateTime)
  /-- Another component writes an event. -/
  | other (evt : LogEvent)
  /-- The log service handles the next event. -/
  | handleEvent

/-! ### What the feeds announce -/

/-- The snapshots with a trace. -/
def traced (traceId : TraceId) (snaps : List MarketSnapshot) : ℕ :=
  snaps.countP fun snap => snap.traceId = some traceId

/-- If a feed gives its events the stage tick, there is one for every snapshot, and otherwise there
is none. -/
theorem Announces.marks_tick [CaseTable] {tick : MarketSnapshot → LogEvent}
    {outs : List FeedOutput} (h : Announces tick outs) (stage : Option String)
    (hstage : ∀ snap, (tick snap).stage = stage)
    (htrace : ∀ snap, (tick snap).traceId = snap.traceId) (traceId : TraceId) :
    marks traceId "tick" (FeedOutput.events outs) =
      if stage = some "tick" then traced traceId (FeedOutput.snapshots outs) else 0 := by
  induction h with
  | nil => simp [FeedOutput.events, FeedOutput.snapshots, marks, traced]
  | cons snap hsome houts ih =>
    have hevents : ∀ outs, FeedOutput.events
        (.market snap.subject snap :: .log (tick snap) :: outs) =
          tick snap :: FeedOutput.events outs := fun _ => rfl
    have hsnapshots : ∀ outs, FeedOutput.snapshots
        (.market snap.subject snap :: .log (tick snap) :: outs) =
          snap :: FeedOutput.snapshots outs := fun _ => rfl
    rw [hevents, hsnapshots, marks, List.countP_cons, ← marks, ih, traced, traced, List.countP_cons]
    by_cases htick : stage = some "tick" <;> simp [hstage, htrace, htick]

theorem runSimulated_marks [CaseTable] (priceState : PriceState)
    (subs : List MarketDataSubscription) (stamp : ℕ → Stamp) (traceId : TraceId) :
    let outs := (runSimulated priceState subs stamp).2
    marks traceId "tick" (FeedOutput.events outs) = traced traceId (FeedOutput.snapshots outs) := by
  exact (runSimulated_announces priceState subs stamp).marks_tick (some "tick")
    (fun _ => rfl) (fun _ => rfl) traceId

theorem handleText_marks [CaseTable] [TickerChannel] (txt : String) (stamp : ℕ → Stamp)
    (traceId : TraceId) :
    marks traceId "tick" (FeedOutput.events (OkxMarketStream.handleText txt stamp).1) = 0 := by
  exact (OkxMarketStream.handleText_announces txt stamp).marks_tick none
    (fun _ => rfl) (fun _ => rfl) traceId

/-! ### What the execution service announces -/

/-- After every result comes its event, and no event is a tick. -/
def Reporting : List ExecOutput → Prop
  | [] => True
  | .result result :: outs => (∃ cmd, .log (result.logEvent cmd) ∈ outs) ∧ Reporting outs
  | .log evt :: outs => evt.stage ≠ some "tick" ∧ Reporting outs
  | .submit _ :: outs | .trade _ :: outs => Reporting outs

theorem OrderResult.logEvent_stage (result : OrderResult) (cmd : OrderCommand) :
    (result.logEvent cmd).stage = some "order_result" := rfl

theorem emit_reporting [CaseTable] [Reqwest] (s : ExecutionService) (i : ExecInput) :
    Reporting (executionService.emit s i) := by
  cases i with
  | command msg now exchange =>
    cases msg with
    -- an event without a stage
    | error err => exact ⟨(Option.some_ne_none "tick").symm, trivial⟩
    | ok cmd =>
      show Reporting ((s.handleCommand cmd now exchange).submitted.map .submit ++
        (s.handleCommand cmd now exchange).messages cmd now)
      induction (s.handleCommand cmd now exchange).submitted with
      | cons request requests ih => exact ih
      | nil =>
        rw [List.map_nil, List.nil_append, Handled.messages]
        cases (s.handleCommand cmd now exchange).result with
        | error err => exact ⟨(Option.some_ne_none "tick").symm, trivial⟩
        | ok result =>
          exact ⟨⟨cmd, List.mem_cons_self⟩, by simp [result.logEvent_stage cmd], trivial⟩
  | configUpdate msg => cases msg <;> trivial
  | blockNewOrders => trivial
  | resetCircuit => trivial

theorem Reporting.marks_tick {outs : List ExecOutput} (h : Reporting outs) (traceId : TraceId) :
    marks traceId "tick" (ExecOutput.events outs) = 0 := by
  induction outs with
  | nil => rfl
  | cons out outs ih =>
    cases out with
    | log evt =>
      have hevents : ExecOutput.events (.log evt :: outs) = evt :: ExecOutput.events outs := rfl
      rw [hevents, marks, List.countP_cons, ← marks, ih h.2]
      simp [h.1]
    | result result => exact ih h.2
    | submit request => exact ih h
    | trade record => exact ih h

/-! ### The machine -/

section Pipeline

variable [CaseTable] [Reqwest] [TickerChannel] {σ : Type} (engine : StrategyEngine σ)

/-- The services in a data mode.  A feed publishes all messages of a round or a text before the
next, and the execution service all messages of a command; a flag that is set in between has its
effect on the next command only.  Only the feeds, the host and the execution service write events
with a stage. -/
def pipeline (mode : DataMode) : Machine (Pipeline σ) PipelineInput PipelineNote where
  step p
    | .round subs stamp =>
      if mode = .simulated ∧ p.feed = [] then
        let (priceState, outs) := runSimulated p.priceState subs stamp
        ({ p with priceState := priceState, feed := outs }, [])
      else (p, [])
    | .text txt stamp =>
      if mode = .liveOkx ∧ p.feed = [] then
        ({ p with feed := (OkxMarketStream.handleText txt stamp).1 }, [])
      else (p, [])
    | .publishFeed =>
      match p.feed with
      | [] => (p, [])
      -- the subject is the one the host compares with
      | .market _ snap :: feed =>
        ({ p with feed := feed, host := (trackedHost engine).next p.host (.deliver snap) },
          [.snapshot snap])
      | .log evt :: feed => ({ p with feed := feed, events := p.events ++ [evt] }, [])
    | .host i =>
      let outs := (strategyHost engine).emit p.host.host i
      ({ p with
          host := (trackedHost engine).next p.host i
          commands := p.commands ++ HostOutput.orders outs
          events := p.events ++ HostOutput.events outs },
        ((trackedHost engine).emit p.host i).map .host)
    | .take now exchange =>
      match p.results, p.commands with
      | [], cmd :: commands =>
        let (exec, outs) := executionService.step p.exec (.command (.ok cmd) now exchange)
        ({ p with commands := commands, exec := exec, results := outs }, [])
      | _, _ => (p, [])
    | .exec i =>
      if p.results = [] then
        let (exec, outs) := executionService.step p.exec i
        ({ p with exec := exec, results := outs }, [])
      else (p, [])
    | .publishExec =>
      match p.results with
      | [] => (p, [])
      | .result result :: results => ({ p with results := results }, [.result result])
      | .log evt :: results => ({ p with results := results, events := p.events ++ [evt] }, [])
      | .submit _ :: results | .trade _ :: results => ({ p with results := results }, [])
    | .update data ts =>
      match data.result ts with
      | .ok result => (p, [.result result])
      | .error _ => (p, [])
    | .other evt =>
      if evt.stage = none then ({ p with events := p.events ++ [evt] }, []) else (p, [])
    | .handleEvent =>
      match p.events with
      | [] => (p, [])
      | evt :: events =>
        ({ p with events := events, log := logService.next p.log evt },
          (logService.emit p.log evt).map .log)

omit [CaseTable] [Reqwest] [TickerChannel] in
/-- The events written so far: those the log service has handled, those in its queue, and those in
the outboxes. -/
def Pipeline.announced (p : Pipeline σ) (notes : List PipelineNote) : List LogEvent :=
  LogOutput.events (PipelineNote.outputs notes) ++ p.events ++ FeedOutput.events p.feed ++
    pendingDecisions p.host.host.tasks ++ ExecOutput.events p.results

omit [CaseTable] [Reqwest] [TickerChannel] in
/-- The snapshots made so far: those published, and those in the outbox of the feed. -/
def Pipeline.made (p : Pipeline σ) (notes : List PipelineNote) : List MarketSnapshot :=
  PipelineNote.snapshots notes ++ FeedOutput.snapshots p.feed

omit [CaseTable] [Reqwest] [TickerChannel] in
/-- Everything is published, and all events are handled. -/
structure Pipeline.Settled (p : Pipeline σ) : Prop where
  feed : p.feed = []
  host : ∀ task ∈ p.host.host.tasks, task.outbox = []
  results : p.results = []
  events : p.events = []

omit [CaseTable] [Reqwest] [TickerChannel] in
/-- The snapshot is published with the trace, an order for it is published, and so is the result of
the order: it has its identifier and its trace. -/
def HasResult (notes : List PipelineNote) (snap : MarketSnapshot) (traceId : TraceId) : Prop :=
  .snapshot snap ∈ notes ∧ snap.traceId = some traceId ∧
    ∃ pair idx cmd result, .host (.published pair snap idx cmd) ∈ notes ∧
      .result result ∈ notes ∧ result.commandId = cmd.id ∧ result.traceId = cmd.traceId

/-! ### The flow of the events -/

omit [CaseTable] [Reqwest] [TickerChannel] in
/-- What holds of the services at any time, about one trace. -/
structure Flow (mode : DataMode) (traceId : TraceId) (p : Pipeline σ) (notes : List PipelineNote) :
    Prop where
  /-- The log service has handled the events it has written. -/
  log : p.log = logService.run .new (LogOutput.events (PipelineNote.outputs notes))
  outputs : PipelineNote.outputs notes =
    logService.output .new (LogOutput.events (PipelineNote.outputs notes))
  /-- The simulated feed announces every snapshot, and nobody announces another one. -/
  ticks : marks traceId "tick" (p.announced notes) =
    if mode = .simulated then traced traceId (p.made notes) else 0
  deciding : p.host.Deciding
  reporting : Reporting p.results
  /-- A published command has the trace of its snapshot, and its decision is announced. -/
  decided : ∀ pair snap idx cmd, .host (.published pair snap idx cmd) ∈ notes →
    snap.traceId = some traceId → cmd.traceId = some traceId ∧
      0 < marks traceId "strategy_decision" (p.announced notes)
  /-- A published result is announced. -/
  resulted : ∀ result, .result result ∈ notes → result.traceId = some traceId →
    0 < marks traceId "order_result" (p.announced notes)

variable {engine} {mode : DataMode} {traceId : TraceId} {p p' : Pipeline σ}
  {notes new : List PipelineNote}

omit [CaseTable] [Reqwest] [TickerChannel] in
theorem Flow.move (hf : Flow mode traceId p notes) (added : List LogEvent)
    (snaps : List MarketSnapshot)
    (hannounced : (p'.announced (notes ++ new)).Perm (p.announced notes ++ added))
    (hmade : (p'.made (notes ++ new)).Perm (p.made notes ++ snaps))
    (hticks : marks traceId "tick" added =
      if mode = .simulated then traced traceId snaps else 0)
    (hlog : p'.log = logService.run p.log (LogOutput.events (PipelineNote.outputs new)))
    (houtputs : PipelineNote.outputs new =
      logService.output p.log (LogOutput.events (PipelineNote.outputs new)))
    (hdeciding : p'.host.Deciding) (hreporting : Reporting p'.results)
    (hdecided : ∀ pair snap idx cmd, .host (.published pair snap idx cmd) ∈ new →
      snap.traceId = some traceId → cmd.traceId = some traceId ∧
        0 < marks traceId "strategy_decision" (p'.announced (notes ++ new)))
    (hresulted : ∀ result, .result result ∈ new → result.traceId = some traceId →
      0 < marks traceId "order_result" (p'.announced (notes ++ new))) :
    Flow mode traceId p' (notes ++ new) := by
  have hmarks : ∀ stage, marks traceId stage (p'.announced (notes ++ new)) =
      marks traceId stage (p.announced notes) + marks traceId stage added := by
    intro stage
    rw [marks, hannounced.countP_eq, List.countP_append, ← marks, ← marks]
  have hevents : LogOutput.events (PipelineNote.outputs (notes ++ new)) =
      LogOutput.events (PipelineNote.outputs notes) ++
        LogOutput.events (PipelineNote.outputs new) := by
    simp [LogOutput.events, PipelineNote.outputs]
  refine ⟨?_, ?_, ?_, hdeciding, hreporting, ?_, ?_⟩
  · rw [hevents, Machine.run_append, ← hf.log, hlog]
  · rw [hevents, Machine.output_append, ← hf.log, ← hf.outputs, ← houtputs]
    exact List.filterMap_append
  · have htraced : traced traceId (p'.made (notes ++ new)) =
        traced traceId (p.made notes) + traced traceId snaps := by
      rw [traced, hmade.countP_eq, List.countP_append, ← traced, ← traced]
    rw [hmarks, hf.ticks, hticks, htraced]
    split_ifs <;> rfl
  · intro pair snap idx cmd hmem htrace
    rcases List.mem_append.1 hmem with hmem | hmem
    · obtain ⟨hcmd, hpos⟩ := hf.decided pair snap idx cmd hmem htrace
      refine ⟨hcmd, ?_⟩
      rw [hmarks]
      exact Nat.add_pos_left hpos _
    · exact hdecided pair snap idx cmd hmem htrace
  · intro result hmem htrace
    rcases List.mem_append.1 hmem with hmem | hmem
    · rw [hmarks]
      exact Nat.add_pos_left (hf.resulted result hmem htrace) _
    · exact hresulted result hmem htrace

omit [CaseTable] [Reqwest] [TickerChannel] in
theorem Flow.silent (hf : Flow mode traceId p notes) (added : List LogEvent)
    (snaps : List MarketSnapshot)
    (hannounced : (p'.announced notes).Perm (p.announced notes ++ added))
    (hmade : (p'.made notes).Perm (p.made notes ++ snaps))
    (hticks : marks traceId "tick" added =
      if mode = .simulated then traced traceId snaps else 0)
    (hlog : p'.log = p.log) (hdeciding : p'.host.Deciding) (hreporting : Reporting p'.results) :
    Flow mode traceId p' (notes ++ []) := by
  exact hf.move added snaps (by rwa [List.append_nil]) (by rwa [List.append_nil]) hticks hlog rfl
    hdeciding hreporting (by simp) (by simp)

omit [CaseTable] [Reqwest] [TickerChannel] in
theorem Flow.make (hf : Flow mode traceId p notes) (hidle : p.feed = []) {outs : List FeedOutput}
    (hticks : marks traceId "tick" (FeedOutput.events outs) =
      if mode = .simulated then traced traceId (FeedOutput.snapshots outs) else 0)
    (priceState : PriceState) :
    Flow mode traceId { p with priceState := priceState, feed := outs } (notes ++ []) := by
  refine hf.silent (FeedOutput.events outs) (FeedOutput.snapshots outs) ?_ ?_ hticks rfl
    hf.deciding hf.reporting
  · refine List.perm_iff_count.2 fun evt => ?_
    simp [Pipeline.announced, hidle, FeedOutput.events]
    omega
  · simp [Pipeline.made, hidle, FeedOutput.snapshots]

theorem Flow.publishFeed (hf : Flow mode traceId p notes) :
    Flow mode traceId ((pipeline engine mode).next p .publishFeed)
      (notes ++ (pipeline engine mode).emit p .publishFeed) := by
  unfold Machine.next Machine.emit pipeline
  cases hfeed : p.feed with
  | nil =>
    simp only [hfeed, List.append_nil]
    exact hf
  | cons out feed =>
    cases out with
    | market subject snap =>
      simp only [hfeed]
      obtain ⟨hdeciding, ⟨added, hconserved, hstages⟩, -⟩ :=
        (hf.deciding.step (.deliver snap) : Decides _ _ ((strategyHost engine).emit _ _) _)
      refine hf.move added [] ?_ ?_ ?_ rfl rfl hdeciding hf.reporting (by simp) (by simp)
      · refine List.perm_iff_count.2 fun evt => ?_
        have hcount := hconserved.count_eq evt
        simp [Pipeline.announced, hfeed, FeedOutput.events, PipelineNote.outputs, strategyHost,
          Machine.emit, HostOutput.events] at hcount ⊢
        omega
      · refine List.Perm.of_eq ?_
        simp [Pipeline.made, hfeed, FeedOutput.snapshots, PipelineNote.snapshots]
      · rw [marks_eq_zero hstages (by decide)]
        simp [traced]
    | log evt =>
      simp only [hfeed]
      refine hf.silent [] [] (List.Perm.of_eq ?_) (List.Perm.of_eq ?_) (by simp [marks, traced]) rfl
        hf.deciding hf.reporting
      · simp [Pipeline.announced, hfeed, FeedOutput.events]
      · simp [Pipeline.made, hfeed, FeedOutput.snapshots]

theorem Flow.host (hf : Flow mode traceId p notes) (i : HostInput) :
    Flow mode traceId ((pipeline engine mode).next p (.host i))
      (notes ++ (pipeline engine mode).emit p (.host i)) := by
  obtain ⟨hdeciding, ⟨added, hconserved, hstages⟩, hpublished⟩ :=
    (hf.deciding.step i : Decides _ ((trackedHost engine).next p.host i) _ _)
  have houtputs : PipelineNote.outputs (((trackedHost engine).emit p.host i).map .host) = [] := by
    simp [PipelineNote.outputs, List.filterMap_map]
  have hannounced : (((pipeline engine mode).next p (.host i)).announced
      (notes ++ (pipeline engine mode).emit p (.host i))).Perm (p.announced notes ++ added) := by
    refine List.perm_iff_count.2 fun evt => ?_
    have hcount := hconserved.count_eq evt
    simp only [Pipeline.announced, PipelineNote.outputs, pipeline, Machine.next, Machine.emit,
      List.filterMap_append, List.count_append] at hcount houtputs ⊢
    rw [houtputs, List.append_nil]
    omega
  refine hf.move added [] hannounced ?_ ?_ ?_ ?_ hdeciding hf.reporting ?_ ?_
  · refine List.Perm.of_eq ?_
    simp [Pipeline.made, PipelineNote.snapshots, pipeline, Machine.next, Machine.emit,
      List.filterMap_map]
  · rw [marks_eq_zero hstages (by decide)]
    simp [traced]
  · show p.log = _
    rw [show PipelineNote.outputs ((pipeline engine mode).emit p (.host i)) = [] from houtputs]
    rfl
  · rw [show PipelineNote.outputs ((pipeline engine mode).emit p (.host i)) = [] from houtputs]
    rfl
  · intro pair snap idx cmd hmem htrace
    obtain ⟨e, he, heq⟩ := List.mem_map.1 hmem
    cases heq
    obtain ⟨hcmd, evt, hevt, hown, hstage⟩ := hpublished pair snap idx cmd traceId he htrace
    refine ⟨hcmd, marks_pos ?_ hown hstage⟩
    exact List.mem_append_left _ (List.mem_append_right _ hevt)
  · intro result hmem
    obtain ⟨e, -, heq⟩ := List.mem_map.1 hmem
    cases heq

omit [TickerChannel] in
theorem Flow.exec (hf : Flow mode traceId p notes) (hidle : p.results = []) (i : ExecInput)
    (commands : List OrderCommand) :
    Flow mode traceId
      { p with
        commands := commands
        exec := executionService.next p.exec i
        results := executionService.emit p.exec i } (notes ++ []) := by
  have hreporting := emit_reporting p.exec i
  refine hf.silent (ExecOutput.events (executionService.emit p.exec i)) [] ?_ ?_ ?_ rfl
    hf.deciding hreporting
  · simp [Pipeline.announced, hidle, ExecOutput.events]
  · simp [Pipeline.made]
  · rw [hreporting.marks_tick]
    simp [traced]

theorem Flow.publishExec (hf : Flow mode traceId p notes) :
    Flow mode traceId ((pipeline engine mode).next p .publishExec)
      (notes ++ (pipeline engine mode).emit p .publishExec) := by
  have hreporting := hf.reporting
  unfold Machine.next Machine.emit pipeline
  cases hresults : p.results with
  | nil =>
    simp only [hresults, List.append_nil]
    exact hf
  | cons out results =>
    rw [hresults] at hreporting
    -- a message that is neither an event nor a result
    have hskip : Reporting results →
        ExecOutput.events (out :: results) = ExecOutput.events results →
        Flow mode traceId { p with results := results } (notes ++ []) := by
      intro hreporting hevents
      refine hf.silent [] [] (List.Perm.of_eq ?_) (List.Perm.of_eq ?_) (by simp [marks, traced]) rfl
        hf.deciding hreporting
      · rw [List.append_nil, Pipeline.announced, Pipeline.announced, hresults, hevents]
      · rw [List.append_nil, Pipeline.made, Pipeline.made]
    cases out with
    | submit request =>
      simp only [hresults]
      exact hskip hreporting rfl
    | trade record =>
      simp only [hresults]
      exact hskip hreporting rfl
    | log evt =>
      simp only [hresults]
      refine hf.silent [] [] ?_ (List.Perm.of_eq ?_) (by simp [marks, traced]) rfl
        hf.deciding hreporting.2
      · refine List.perm_iff_count.2 fun evt' => ?_
        simp [Pipeline.announced, hresults, ExecOutput.events, List.count_cons]
        omega
      · rw [List.append_nil, Pipeline.made, Pipeline.made]
    | result result =>
      simp only [hresults]
      obtain ⟨⟨cmd, hmem⟩, hrest⟩ := hreporting
      refine hf.move [] [] (List.Perm.of_eq ?_) (List.Perm.of_eq ?_) (by simp [marks, traced]) rfl
        rfl hf.deciding hrest (by simp) ?_
      · simp [Pipeline.announced, hresults, ExecOutput.events, PipelineNote.outputs]
      · simp [Pipeline.made, PipelineNote.snapshots]
      · intro result' hresult' htrace
        cases List.mem_singleton.1 hresult'
        refine marks_pos (List.mem_append_right _ ?_) htrace (result.logEvent_stage cmd)
        exact List.mem_filterMap.2 ⟨_, hmem, rfl⟩

theorem Flow.handleEvent (hf : Flow mode traceId p notes) :
    Flow mode traceId ((pipeline engine mode).next p .handleEvent)
      (notes ++ (pipeline engine mode).emit p .handleEvent) := by
  unfold Machine.next Machine.emit pipeline
  cases hevents : p.events with
  | nil =>
    simp only [hevents, List.append_nil]
    exact hf
  | cons evt events =>
    simp only [hevents]
    have houtputs : PipelineNote.outputs ((logService.emit p.log evt).map .log) =
        logService.emit p.log evt := by
      simp [PipelineNote.outputs, List.filterMap_map]
    have hwritten := LogService.events_emit p.log evt
    refine hf.move [] [] ?_ (List.Perm.of_eq ?_) (by simp [marks, traced]) ?_ ?_ hf.deciding
      hf.reporting ?_ ?_
    · have hall : LogOutput.events (PipelineNote.outputs
          (notes ++ (logService.emit p.log evt).map .log)) =
            LogOutput.events (PipelineNote.outputs notes) ++ [evt] := by
        rw [← hwritten, ← houtputs]
        simp [LogOutput.events, PipelineNote.outputs]
      refine List.Perm.of_eq ?_
      simp [Pipeline.announced, hall, hevents]
    · simp [Pipeline.made, PipelineNote.snapshots, List.filterMap_map]
    · rw [houtputs, hwritten]
      rfl
    · rw [houtputs, hwritten]
      simp
    · intro pair snap idx cmd hmem
      obtain ⟨out, -, heq⟩ := List.mem_map.1 hmem
      cases heq
    · intro result hmem
      obtain ⟨out, -, heq⟩ := List.mem_map.1 hmem
      cases heq

theorem Flow.update (hf : Flow mode traceId p notes) (data : OkxOrderData) (ts : DateTime) :
    Flow mode traceId ((pipeline engine mode).next p (.update data ts))
      (notes ++ (pipeline engine mode).emit p (.update data ts)) := by
  unfold Machine.next Machine.emit pipeline
  cases hresult : data.result ts with
  | error err =>
    simp only [hresult, List.append_nil]
    exact hf
  | ok result =>
    simp only [hresult]
    refine hf.move [] [] (List.Perm.of_eq ?_) (List.Perm.of_eq ?_) (by simp [marks, traced]) rfl
      rfl hf.deciding hf.reporting (by simp) ?_
    · simp [Pipeline.announced, PipelineNote.outputs]
    · simp [Pipeline.made, PipelineNote.snapshots]
    · intro result' hmem htrace
      cases List.mem_singleton.1 hmem
      rw [OkxOrderData.result_traceId hresult] at htrace
      cases htrace

omit [CaseTable] [Reqwest] [TickerChannel] in
theorem Flow.other (hf : Flow mode traceId p notes) {evt : LogEvent} (hstage : evt.stage = none) :
    Flow mode traceId { p with events := p.events ++ [evt] } (notes ++ []) := by
  refine hf.silent [evt] [] ?_ (List.Perm.of_eq ?_) ?_ rfl hf.deciding hf.reporting
  · refine List.perm_iff_count.2 fun evt' => ?_
    simp [Pipeline.announced, List.count_cons]
    omega
  · rw [List.append_nil, Pipeline.made, Pipeline.made]
  · simp [marks, hstage, traced]

/-- **The step lemma of the flow.** -/
theorem Flow.step (hf : Flow mode traceId p notes) (i : PipelineInput) :
    Flow mode traceId ((pipeline engine mode).next p i)
      (notes ++ (pipeline engine mode).emit p i) := by
  have hsame : Flow mode traceId p (notes ++ []) := by rwa [List.append_nil]
  cases i with
  | round subs stamp =>
    unfold Machine.next Machine.emit pipeline
    by_cases hround : mode = .simulated ∧ p.feed = []
    · simp only [if_pos hround]
      refine hf.make hround.2 ?_ _
      rw [if_pos hround.1]
      exact runSimulated_marks p.priceState subs stamp traceId
    · simp only [if_neg hround]
      exact hsame
  | text txt stamp =>
    unfold Machine.next Machine.emit pipeline
    by_cases htext : mode = .liveOkx ∧ p.feed = []
    · simp only [if_pos htext]
      refine hf.make htext.2 ?_ p.priceState
      rw [if_neg (by simp [htext.1])]
      exact handleText_marks txt stamp traceId
    · simp only [if_neg htext]
      exact hsame
  | publishFeed => exact hf.publishFeed
  | host i => exact hf.host i
  | take now exchange =>
    unfold Machine.next Machine.emit pipeline
    cases hresults : p.results with
    | cons out results =>
      simp only [hresults]
      exact hsame
    | nil =>
      cases hcommands : p.commands with
      | nil =>
        simp only [hresults, hcommands]
        exact hsame
      | cons cmd commands =>
        simp only [hresults, hcommands]
        exact hf.exec hresults (.command (.ok cmd) now exchange) commands
  | exec i =>
    unfold Machine.next Machine.emit pipeline
    by_cases hidle : p.results = []
    · simp only [if_pos hidle]
      exact hf.exec hidle i p.commands
    · simp only [if_neg hidle]
      exact hsame
  | publishExec => exact hf.publishExec
  | update data ts => exact hf.update data ts
  | other evt =>
    unfold Machine.next Machine.emit pipeline
    by_cases hstage : evt.stage = none
    · simp only [if_pos hstage]
      exact hf.other hstage
    · simp only [if_neg hstage]
      exact hsame
  | handleEvent => exact hf.handleEvent

variable (engine mode)

/-- **The flow of a run**: whatever the order of the steps, what is published is announced to the
log service, and only that. -/
theorem flow_run (state : σ) (subscriptions : List StrategySubscription) (s : ExecutionService)
    (is : List PipelineInput) (traceId : TraceId) :
    Flow mode traceId ((pipeline engine mode).run (.start state subscriptions s) is)
      ((pipeline engine mode).output (.start state subscriptions s) is) := by
  refine Machine.history_induction (M := pipeline engine mode) (Q := fun _ => True)
    (P := fun _ p notes => Flow mode traceId p notes) ?_ (fun _ p notes i hf _ => hf.step i)
    (fun (i : PipelineInput) (_ : i ∈ is) => trivial)
  have houtbox : ∀ task ∈ (Pipeline.start state subscriptions s).host.host.tasks,
      task.outbox = [] := by
    intro task htask
    obtain ⟨sub, -, rfl⟩ := List.mem_map.1 htask
    rfl
  refine ⟨rfl, rfl, ?_, ?_, trivial, by simp, by simp⟩
  · have hpending : pendingDecisions (Pipeline.start state subscriptions s).host.host.tasks = [] :=
      pendingDecisions_eq_nil houtbox
    simp only [Pipeline.announced, hpending]
    simp [Pipeline.start, Pipeline.made, PipelineNote.outputs, PipelineNote.snapshots,
      LogOutput.events, FeedOutput.events, FeedOutput.snapshots, ExecOutput.events, marks, traced]
  · exact fun k task htask => Or.inl (houtbox task (List.mem_of_getElem? htask))

/-- **Which latencies are recorded**: once all is published and handled, a published snapshot with
an order that has a result has exactly one record if the feed is the simulated one, and otherwise it
has none. -/
theorem latency_iff (state : σ) (subscriptions : List StrategySubscription) (s : ExecutionService)
    (is : List PipelineInput)
    (hsettled : ((pipeline engine mode).run (.start state subscriptions s) is).Settled)
    (hfresh : ((PipelineNote.snapshots ((pipeline engine mode).output
      (.start state subscriptions s) is)).map MarketSnapshot.traceId).Nodup)
    {snap : MarketSnapshot} {traceId : TraceId}
    (hresult : HasResult ((pipeline engine mode).output (.start state subscriptions s) is) snap
      traceId) :
    recordsOf traceId (PipelineNote.outputs ((pipeline engine mode).output
      (.start state subscriptions s) is)) = 1 ↔ mode = .simulated := by
  have hf := flow_run engine mode state subscriptions s is traceId
  generalize (pipeline engine mode).run (.start state subscriptions s) is = p at *
  generalize (pipeline engine mode).output (.start state subscriptions s) is = notes at *
  obtain ⟨hpublished, htrace, pair, idx, cmd, result, horder, hresult, -, hsame⟩ := hresult
  -- all events have been handled, and all snapshots are published
  have hannounced : p.announced notes = LogOutput.events (PipelineNote.outputs notes) := by
    rw [Pipeline.announced, hsettled.events, hsettled.feed, hsettled.results,
      pendingDecisions_eq_nil hsettled.host]
    simp [FeedOutput.events, ExecOutput.events]
  have hone : traced traceId (p.made notes) = 1 := by
    have hmade : p.made notes = PipelineNote.snapshots notes := by
      rw [Pipeline.made, hsettled.feed]
      exact List.append_nil _
    have hcount : traced traceId (PipelineNote.snapshots notes) =
        ((PipelineNote.snapshots notes).map MarketSnapshot.traceId).count (some traceId) := by
      rw [List.count, List.countP_map]
      exact List.countP_congr (by simp)
    rw [hmade, hcount]
    refine List.count_eq_one_of_mem hfresh ?_
    rw [← htrace]
    exact List.mem_map_of_mem (List.mem_filterMap.2 ⟨_, hpublished, rfl⟩)
  have hticks := hf.ticks
  obtain ⟨hcmd, hdecision⟩ := hf.decided pair snap idx cmd horder htrace
  have hresulted := hf.resulted result hresult (hsame.trans hcmd)
  rw [hannounced] at hticks hdecision hresulted
  rw [hone] at hticks
  have hrecords := recordsOf_run traceId (LogOutput.events (PipelineNote.outputs notes))
    (by rw [hticks]; split_ifs <;> omega)
  rw [hf.outputs, hrecords]
  simp [hticks, hdecision, hresulted]

end Pipeline

/-! ### A tick on either feed -/

/-- A text on the ticker channel. -/
def tickerText : String :=
  "\x7b\"arg\":\x7b\"channel\":\"tickers\"\x7d,\"data\":[\x7b\"instId\":\"BTC-USDT\"," ++
    "\"last\":\"30000\",\"bidPx\":\"29998.5\",\"askPx\":\"30001.5\",\"vol24h\":\"300\"\x7d]\x7d"

/-- A parser for this text. -/
@[reducible] def oneTicker : TickerChannel where
  parseEnvelope txt :=
    if txt = tickerText then .ok [⟨"BTC-USDT", "30000", "29998.5", "30001.5", "300"⟩]
    else .error "parse okx ticker envelope"

/-- The services in a data mode, with an engine that buys. -/
abbrev samplePipeline (mode : DataMode) : Machine (Pipeline Unit) PipelineInput PipelineNote :=
  @pipeline asciiCase acceptAll oneTicker Unit buyer mode

/-- A tick is made by one of the feeds; then everything is published and handled. -/
def oneTick (made : PipelineInput) : List PipelineInput :=
  [made, .publishFeed, .publishFeed, .host (.turn 0 "" 0), .host (.turn 0 "" 0),
    .host (.turn 0 "" 0), .take 0 fun _ => .unsent "unreachable", .publishExec, .publishExec,
    .publishExec, .handleEvent, .handleEvent, .handleEvent]

/-- The tick of the simulated feed. -/
def simulatedTick : List PipelineInput :=
  oneTick (.round [⟨.okx, ⟨"BTC", "USDT"⟩, ""⟩] fun _ => ⟨0, "trace"⟩)

/-- The tick of the OKX feed. -/
def okxTick : List PipelineInput := oneTick (.text tickerText fun _ => ⟨0, "trace"⟩)

/-- The snapshot either of them makes. -/
def tickSnapshot : MarketSnapshot where
  ts := 0
  exchange := .okx
  symbol := ⟨"BTC", "USDT"⟩
  last := 30000
  bid := 30000 - 3 / 2
  ask := 30000 + 3 / 2
  volume24h := 300
  traceId := some "trace"

/-- The order for it. -/
def tickOrder : OrderCommand where
  id := "0-0"
  exchange := .okx
  symbol := ⟨"BTC", "USDT"⟩
  side := .buy
  orderType := .market
  sizeQuote := 10
  limitPrice := none
  traceId := some "trace"

/-- Everything is published and handled, the order for the tick and its result among it. -/
abbrev TickDone (p : Pipeline Unit) (notes : List PipelineNote) : Prop :=
  (p.feed = [] ∧ (∀ task ∈ p.host.host.tasks, task.outbox = []) ∧ p.results = [] ∧
      p.events = []) ∧
    .snapshot tickSnapshot ∈ notes ∧
    .host (.published ⟨.okx, ⟨"BTC", "USDT"⟩⟩ tickSnapshot 0 tickOrder) ∈ notes ∧
    .result (tickOrder.result .filled 10 30010 0) ∈ notes

theorem TickDone.settled {p : Pipeline Unit} {notes : List PipelineNote} (h : TickDone p notes) :
    p.Settled :=
  ⟨h.1.1, h.1.2.1, h.1.2.2.1, h.1.2.2.2⟩

theorem TickDone.hasResult {p : Pipeline Unit} {notes : List PipelineNote} (h : TickDone p notes) :
    HasResult notes tickSnapshot "trace" :=
  ⟨h.2.1, rfl, _, 0, tickOrder, _, h.2.2.1, h.2.2.2, rfl, rfl⟩

theorem latency_iff_simulated :
    ∃ s, @ExecutionService.new ℚ acceptAll _ .default = .ok s ∧
      recordsOf "trace" (PipelineNote.outputs
        ((samplePipeline .simulated).output (.start () twoMarkets s) simulatedTick)) = 1 := by
  let services := samplePipeline .simulated
  obtain ⟨s, hs, hdone, hfresh⟩ : ∃ s, @ExecutionService.new ℚ acceptAll _ .default = .ok s ∧
      TickDone (services.run (.start () twoMarkets s) simulatedTick)
        (services.output (.start () twoMarkets s) simulatedTick) ∧
      ((PipelineNote.snapshots (services.output (.start () twoMarkets s) simulatedTick)).map
        MarketSnapshot.traceId).Nodup := ⟨_, rfl, by decide +kernel⟩
  exact ⟨s, hs, (@latency_iff asciiCase acceptAll oneTicker Unit buyer .simulated () twoMarkets s
    simulatedTick hdone.settled hfresh tickSnapshot "trace" hdone.hasResult).2 rfl⟩

/-- **No latency on OKX**: everything is published and handled, and there is no record. -/
theorem not_latency :
    ∃ s, @ExecutionService.new ℚ acceptAll _ .default = .ok s ∧
      let services := samplePipeline .liveOkx
      (services.run (.start () twoMarkets s) okxTick).Settled ∧
      HasResult (services.output (.start () twoMarkets s) okxTick) tickSnapshot "trace" ∧
      recordsOf "trace" (PipelineNote.outputs
        (services.output (.start () twoMarkets s) okxTick)) = 0 := by
  let services := samplePipeline .liveOkx
  obtain ⟨s, hs, hdone, hnone⟩ : ∃ s, @ExecutionService.new ℚ acceptAll _ .default = .ok s ∧
      TickDone (services.run (.start () twoMarkets s) okxTick)
        (services.output (.start () twoMarkets s) okxTick) ∧
      recordsOf "trace" (PipelineNote.outputs
        (services.output (.start () twoMarkets s) okxTick)) = 0 := ⟨_, rfl, by decide +kernel⟩
  exact ⟨s, hs, hdone.settled, hdone.hasResult, hnone⟩

end W2uos
