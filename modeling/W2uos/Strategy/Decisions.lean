import W2uos.Log.Latency
import W2uos.Strategy.Orders
import W2uos.System.Tasks

/-!
# Decisions

For every snapshot it is not paused for, the host publishes the orders of the plan and then an event
that says what was decided.  All of them have the trace of the snapshot, if it has one.

* `pendingDecisions` : the events in the outboxes;
* `TrackedHost.Deciding` : what the tasks have still to publish;
* `TrackedHost.Deciding.step` : no event is lost, and after a command comes the decision.
-/

namespace W2uos

/-- The events among the messages of the host. -/
def HostOutput.events (os : List HostOutput) : List LogEvent :=
  os.filterMap fun
    | .log evt => some evt
    | .order _ => none

section Decisions

variable {σ : Type}

/-- The events in the outboxes of the host. -/
def pendingDecisions (tasks : List HostTask) : List LogEvent :=
  tasks.flatMap fun task => HostOutput.events task.outbox

theorem pendingDecisions_eq_nil {tasks : List HostTask} (h : ∀ task ∈ tasks, task.outbox = []) :
    pendingDecisions tasks = [] := by
  refine List.flatMap_eq_nil_iff.2 ?_
  intro task htask
  rw [h task htask]
  rfl

/-- A task has nothing to publish, or orders for the noted snapshot and then the decision; all of
them have the trace of the snapshot. -/
def HostTask.Deciding (task : HostTask) (noted : Option (MarketSnapshot × ℕ)) : Prop :=
  task.outbox = [] ∨ ∃ snap idx evt, ∃ cmds : List OrderCommand, noted = some (snap, idx) ∧
    task.outbox = cmds.map .order ++ [.log evt] ∧ evt.stage = some "strategy_decision" ∧
    ∀ traceId, snap.traceId = some traceId →
      evt.traceId = some traceId ∧ ∀ cmd ∈ cmds, cmd.traceId = some traceId

/-- All tasks do. -/
def TrackedHost.Deciding (t : TrackedHost σ) : Prop :=
  ∀ (k : ℕ) (task : HostTask), t.host.tasks[k]? = some task → task.Deciding (t.current k)

theorem handleSnapshot_deciding (engine : StrategyEngine σ) (state : σ) (paused : Bool)
    (pair : PairId) (snap : MarketSnapshot) (fresh : TraceId) (utc : DateTime)
    (queue : List MarketSnapshot) :
    HostTask.Deciding
      { pair := pair
        queue := queue
        outbox := (handleSnapshot engine state paused pair snap fresh utc).2 }
      (some (snap, 0)) := by
  unfold handleSnapshot
  split_ifs
  · exact Or.inl rfl
  · refine Or.inr ⟨snap, 0, _, _, rfl, rfl, rfl, ?_⟩
    intro traceId htrace
    refine ⟨?_, ?_⟩
    · rw [StrategyOutcome.decision, htrace, Option.getD_some]
    · intro cmd hcmd
      obtain ⟨⟨planned, idx⟩, -, rfl⟩ := List.mem_map.1 hcmd
      simp [PlannedOrder.command, htrace]

/-- What a step of the host does to its events: they stay in the outboxes or are published, new ones
are decisions, and the decision for a published command comes later. -/
structure Decides (t t' : TrackedHost σ) (outs : List HostOutput) (es : List HostEvent) : Prop where
  deciding : t'.Deciding
  conserved : ∃ added, (HostOutput.events outs ++ pendingDecisions t'.host.tasks).Perm
    (pendingDecisions t.host.tasks ++ added) ∧
      ∀ evt ∈ added, evt.stage = some "strategy_decision"
  published : ∀ pair snap idx cmd traceId, .published pair snap idx cmd ∈ es →
    snap.traceId = some traceId → cmd.traceId = some traceId ∧
      ∃ evt ∈ pendingDecisions t'.host.tasks,
        evt.traceId = some traceId ∧ evt.stage = some "strategy_decision"

variable {engine : StrategyEngine σ} {t t' : TrackedHost σ} {k : ℕ} {task : HostTask}

theorem TrackedHost.Deciding.frame (ht : t.Deciding)
    (houtbox : t'.host.tasks.map HostTask.outbox = t.host.tasks.map HostTask.outbox)
    (hcurrent : t'.current = t.current) : Decides t t' [] [] := by
  refine ⟨?_, ⟨[], ?_, by simp⟩, by simp⟩
  · intro k task' htask'
    have hsame : (t'.host.tasks.map HostTask.outbox)[k]? = some task'.outbox := by
      rw [List.getElem?_map, htask', Option.map_some]
    rw [houtbox, List.getElem?_map, Option.map_eq_some_iff] at hsame
    obtain ⟨task, htask, heq⟩ := hsame
    rw [HostTask.Deciding, ← heq, hcurrent]
    exact ht k task htask
  · have hpending : ∀ tasks : List HostTask, pendingDecisions tasks =
        (tasks.map HostTask.outbox).flatMap HostOutput.events := by
      intro tasks
      rw [pendingDecisions, List.flatMap_map]
    rw [hpending, hpending, houtbox, List.append_nil]
    exact List.Perm.refl _

theorem TrackedHost.Deciding.set (ht : t.Deciding) {task' : HostTask}
    {noted : Option (MarketSnapshot × ℕ)} (htasks : t'.host.tasks = t.host.tasks.set k task')
    (hcurrent : t'.current = Function.update t.current k noted) (htask' : task'.Deciding noted) :
    t'.Deciding := by
  intro j task hj
  rw [htasks] at hj
  by_cases hjk : j = k
  · subst hjk
    rw [List.getElem?_set, if_pos rfl] at hj
    split_ifs at hj
    cases hj
    rw [hcurrent, Function.update_self]
    exact htask'
  · rw [List.getElem?_set_ne (Ne.symm hjk)] at hj
    rw [hcurrent, Function.update_of_ne hjk]
    exact ht j task hj

variable [CaseTable]

theorem TrackedHost.Deciding.publish_order (ht : t.Deciding) (htask : t.host.tasks[k]? = some task)
    {cmd : OrderCommand} {outbox : List HostOutput} (houtbox : task.outbox = .order cmd :: outbox)
    (fresh : TraceId) (utc : DateTime) :
    Decides t ((trackedHost engine).next t (.turn k fresh utc))
      ((strategyHost engine).emit t.host (.turn k fresh utc))
      ((trackedHost engine).emit t (.turn k fresh utc)) := by
  have hk := (List.getElem?_eq_some_iff.1 htask).1
  obtain ⟨snap, idx, evt, cmds, hnoted, hout, hstage, htrace⟩ :=
    (ht k task htask).resolve_left (by simp [houtbox])
  cases cmds with
  | nil => simp [houtbox] at hout
  | cons first cmds =>
    rw [houtbox, List.map_cons, List.cons_append, List.cons.injEq] at hout
    obtain ⟨hfirst, hrest⟩ := hout
    cases hfirst
    have hstep : (trackedHost engine).step t (.turn k fresh utc) =
        ({ host := { t.host with tasks := t.host.tasks.set k { task with outbox := outbox } }
           current := Function.update t.current k (some (snap, idx + 1)) },
          [.published task.pair snap idx cmd]) :=
      trackedHost_order engine t fresh utc htask houtbox hnoted
    have hemit : (strategyHost engine).emit t.host (.turn k fresh utc) = [.order cmd] := by
      simp only [strategyHost, Machine.emit, t.host.step_publish engine fresh utc htask houtbox,
        Option.toList_some]
    rw [hemit, Machine.next, Machine.emit, hstep]
    refine ⟨?_, ⟨[], ?_, by simp⟩, ?_⟩
    · refine ht.set rfl rfl (Or.inr ⟨snap, idx + 1, evt, cmds, rfl, hrest, hstage, ?_⟩)
      intro traceId hsnap
      exact ⟨(htrace traceId hsnap).1, fun c hc =>
        (htrace traceId hsnap).2 c (List.mem_cons_of_mem _ hc)⟩
    · have hset := Tasks.flatMap_set_perm htask (fun task => HostOutput.events task.outbox)
        { task with outbox := outbox }
      have hsame : HostOutput.events task.outbox = HostOutput.events outbox := by
        rw [houtbox]
        rfl
      rw [hsame] at hset
      rw [List.append_nil]
      exact (List.perm_append_right_iff _).1 hset
    · intro pair snap' idx' cmd' traceId hmem hsnap
      cases List.mem_singleton.1 hmem
      refine ⟨(htrace traceId hsnap).2 cmd List.mem_cons_self, evt, ?_, (htrace traceId hsnap).1,
        hstage⟩
      refine List.mem_flatMap.2 ⟨_, List.mem_set hk _, ?_⟩
      rw [hrest]
      simp [HostOutput.events]

theorem TrackedHost.Deciding.publish_log (ht : t.Deciding) (htask : t.host.tasks[k]? = some task)
    {evt : LogEvent} {outbox : List HostOutput} (houtbox : task.outbox = .log evt :: outbox)
    (fresh : TraceId) (utc : DateTime) :
    Decides t ((trackedHost engine).next t (.turn k fresh utc))
      ((strategyHost engine).emit t.host (.turn k fresh utc))
      ((trackedHost engine).emit t (.turn k fresh utc)) := by
  obtain ⟨snap, idx, evt', cmds, hnoted, hout, hstage, htrace⟩ :=
    (ht k task htask).resolve_left (by simp [houtbox])
  cases cmds with
  | cons first cmds => simp [houtbox] at hout
  | nil =>
    rw [houtbox, List.map_nil, List.nil_append, List.cons.injEq] at hout
    obtain ⟨-, hrest⟩ := hout
    have hstep : (trackedHost engine).step t (.turn k fresh utc) =
        ({ host := { t.host with tasks := t.host.tasks.set k { task with outbox := outbox } }
           current := t.current }, []) :=
      trackedHost_log engine t fresh utc htask houtbox
    have hemit : (strategyHost engine).emit t.host (.turn k fresh utc) = [.log evt] := by
      simp only [strategyHost, Machine.emit, t.host.step_publish engine fresh utc htask houtbox,
        Option.toList_some]
    rw [hemit, Machine.next, Machine.emit, hstep]
    refine ⟨?_, ⟨[], ?_, by simp⟩, by simp⟩
    · exact ht.set rfl (Function.update_eq_self k t.current).symm (Or.inl hrest)
    · have hset := Tasks.flatMap_set_perm htask (fun task => HostOutput.events task.outbox)
        { task with outbox := outbox }
      have hbefore : HostOutput.events task.outbox = [evt] := by
        rw [houtbox, hrest]
        rfl
      have hafter : HostOutput.events outbox = [] := by
        rw [hrest]
        rfl
      rw [hbefore, hafter] at hset
      exact List.perm_append_comm.trans hset

theorem TrackedHost.Deciding.take (ht : t.Deciding) (htask : t.host.tasks[k]? = some task)
    (houtbox : task.outbox = []) {snap : MarketSnapshot} {queue : List MarketSnapshot}
    (hqueue : task.queue = snap :: queue) (fresh : TraceId) (utc : DateTime) :
    Decides t ((trackedHost engine).next t (.turn k fresh utc))
      ((strategyHost engine).emit t.host (.turn k fresh utc))
      ((trackedHost engine).emit t (.turn k fresh utc)) := by
  have hemit : (strategyHost engine).emit t.host (.turn k fresh utc) = [] := by
    simp only [strategyHost, Machine.emit, t.host.step_take engine fresh utc htask houtbox hqueue,
      Option.toList_none]
  have hpublished : ∀ pair snap' idx cmd, .published pair snap' idx cmd ∉
      (trackedHost engine).emit t (.turn k fresh utc) := by
    intro pair snap' idx cmd hmem
    have hmem' : .published pair snap' idx cmd ∈ (t.observe engine k).2 := hmem
    rw [t.observe_take engine htask houtbox hqueue] at hmem'
    split_ifs at hmem' <;> simp at hmem'
  let handled := handleSnapshot engine t.host.engine t.host.paused task.pair snap fresh utc
  let task' : HostTask := { task with queue := queue, outbox := handled.2 }
  have hdeciding : task'.Deciding (some (snap, 0)) :=
    handleSnapshot_deciding engine t.host.engine t.host.paused task.pair snap fresh utc queue
  have htasks : ((trackedHost engine).next t (.turn k fresh utc)).host.tasks =
      t.host.tasks.set k task' := by
    show (t.host.step engine k fresh utc).1.tasks = _
    rw [t.host.step_take engine fresh utc htask houtbox hqueue]
  have hcurrent : ((trackedHost engine).next t (.turn k fresh utc)).current =
      Function.update t.current k (some (snap, 0)) := by
    show (t.observe engine k).1 = _
    rw [t.observe_take engine htask houtbox hqueue]
  rw [hemit]
  refine ⟨ht.set htasks hcurrent hdeciding, ⟨HostOutput.events handled.2, ?_, ?_⟩, ?_⟩
  · have hset := Tasks.flatMap_set_perm htask (fun task => HostOutput.events task.outbox) task'
    have hbefore : HostOutput.events task.outbox = [] := by
      rw [houtbox]
      rfl
    rw [hbefore, List.append_nil] at hset
    rw [htasks]
    exact hset
  · intro evt hevt
    rcases hdeciding with hnil | ⟨_, _, evt', cmds, -, hout, hstage, -⟩
    · have hnil' : handled.2 = [] := hnil
      rw [hnil'] at hevt
      cases hevt
    · have hout' : handled.2 = _ := hout
      have heq : evt = evt' := by
        simpa [hout', HostOutput.events] using hevt
      rw [heq]
      exact hstage
  · intro pair snap' idx cmd traceId hmem
    exact absurd hmem (hpublished pair snap' idx cmd)

/-- **The step lemma of the host.** -/
theorem TrackedHost.Deciding.step (ht : t.Deciding) (i : HostInput) :
    Decides t ((trackedHost engine).next t i) ((strategyHost engine).emit t.host i)
      ((trackedHost engine).emit t i) := by
  cases i with
  | deliver y =>
    refine ht.frame ?_ rfl
    show (List.map _ t.host.tasks).map HostTask.outbox = _
    rw [List.map_map]
    refine List.map_congr_left ?_
    intro task _
    rw [Function.comp_apply]
    split_ifs <;> rfl
  | turn k fresh utc =>
    rcases t.host.step_cases engine fresh utc k with ⟨hnone, hstep⟩ |
      ⟨task, out, outbox, htask, houtbox, -⟩ | ⟨task, snap, queue, htask, houtbox, hqueue, -⟩
    · have hemit : (strategyHost engine).emit t.host (.turn k fresh utc) = [] := by
        simp only [strategyHost, Machine.emit, hstep, Option.toList_none]
      rw [hemit, Machine.next, Machine.emit, trackedHost_idle engine t fresh utc hnone]
      exact ht.frame rfl rfl
    · cases out with
      | order cmd => exact ht.publish_order htask houtbox fresh utc
      | log evt => exact ht.publish_log htask houtbox fresh utc
    · exact ht.take htask houtbox hqueue fresh utc
  | pause => exact ht.frame rfl rfl
  | resume => exact ht.frame rfl rfl

end Decisions

end W2uos
