import W2uos.Strategy.Orders
import W2uos.System.Tagged
import W2uos.System.Tasks

/-!
# The host and its engine

The tasks of the host share one engine, each with a channel of its own in front of it and messages
of its own still to be published behind it.  Whatever the order of their turns, the engine sees a
sequence of calls; every task makes its calls on the snapshots of its subject as they are published,
and publishes what its calls give, in order.

* `Sequential.deliver` : a published snapshot is put into the queues of its subject;
* `Sequential.turn` : the turn of a task is a message published, a call of the engine, or nothing.
-/

namespace W2uos

/-- A call of the engine: the task that makes it, with its pair, and the snapshot. -/
structure EngineCall where
  task : ℕ
  pair : PairId
  snapshot : MarketSnapshot
  fresh : TraceId
  utc : DateTime

/-- A call, or the host is paused or resumed. -/
inductive EngineInput
  | call (c : EngineCall)
  | pause (paused : Bool)

/-- The calls among the inputs. -/
def EngineInput.calls (is : List EngineInput) : List EngineCall :=
  is.filterMap fun
    | .call c => some c
    | .pause _ => none

/-- The snapshots a task has come to. -/
def EngineInput.snapshots (k : ℕ) (is : List EngineInput) : List MarketSnapshot :=
  tagged k ((calls is).map fun c => (c.task, c.snapshot))

/-- The engine without a bus: it takes one call after the other, unless it is paused, and what a
call gives to publish comes out with the number of the task. -/
def sequential {σ : Type} (engine : StrategyEngine σ) :
    Machine (σ × Bool) EngineInput (ℕ × HostOutput) where
  step
    | (state, paused), .call c =>
      let (state, outs) := handleSnapshot engine state paused c.pair c.snapshot c.fresh c.utc
      ((state, paused), outs.map (c.task, ·))
    | (state, _), .pause paused => ((state, paused), [])

section Sequential

variable [CaseTable] {σ : Type} {engine : StrategyEngine σ} {state : σ} {pairs : List PairId}
  {heard : ℕ → List MarketSnapshot} {is : List EngineInput} {sent : ℕ → List HostOutput}
  {host : StrategyHost σ}

/-- What a host has done so far, as a run of the engine: the calls were made by the tasks for their
pairs; a task has come to the first of the snapshots on its subject, of those published since it is
there, and the others are in its queue; it has published the first of the messages its calls gave,
and the others are in its outbox. -/
structure Sequential (engine : StrategyEngine σ) (state : σ) (pairs : List PairId)
    (heard : ℕ → List MarketSnapshot) (is : List EngineInput) (sent : ℕ → List HostOutput)
    (host : StrategyHost σ) : Prop where
  called : (host.engine, host.paused) = (sequential engine).run (state, false) is
  served : host.tasks.map HostTask.pair = pairs
  callers : ∀ c ∈ EngineInput.calls is, pairs[c.task]? = some c.pair
  queues : ∀ (k : ℕ) (task : HostTask), host.tasks[k]? = some task →
    EngineInput.snapshots k is ++ task.queue =
      (heard k).filter fun snap => snap.subject = task.subject
  outboxes : ∀ (k : ℕ) (task : HostTask), host.tasks[k]? = some task →
    sent k ++ task.outbox = tagged k ((sequential engine).output (state, false) is)
  /-- A task that is not there yet has done nothing. -/
  absent : ∀ k, pairs.length ≤ k → EngineInput.snapshots k is = [] ∧ sent k = [] ∧
    tagged k ((sequential engine).output (state, false) is) = []

omit [CaseTable] in
theorem EngineInput.snapshots_concat (k : ℕ) (is : List EngineInput) (c : EngineCall) :
    snapshots k (is ++ [.call c]) = snapshots k is ++ if c.task = k then [c.snapshot] else [] := by
  have hcalls : calls (is ++ [.call c]) = calls is ++ [c] := List.filterMap_append
  rw [snapshots, snapshots, hcalls, List.map_append, List.map_singleton, tagged_append]
  split_ifs with h
  · rw [← h, tagged_singleton_self]
  · rw [tagged_singleton_ne h]

omit [CaseTable] in
theorem EngineInput.calls_pause (is : List EngineInput) (paused : Bool) :
    calls (is ++ [.pause paused]) = calls is :=
  List.filterMap_append.trans (List.append_nil _)

theorem sequential_start (engine : StrategyEngine σ) (state : σ) :
    Sequential engine state [] (fun _ => []) [] (fun _ => []) (StrategyHost.start state []) where
  called := rfl
  served := rfl
  callers := List.forall_mem_nil _
  queues k task htask := by cases htask
  outboxes k task htask := by cases htask
  absent k _ := ⟨rfl, rfl, rfl⟩

theorem Sequential.subscribe (h : Sequential engine state pairs heard is sent host)
    (pair : PairId) :
    Sequential engine state (pairs ++ [pair]) (Function.update heard pairs.length []) is sent
      (host.subscribe pair) := by
  have hlength : host.tasks.length = pairs.length := by rw [← h.served, List.length_map]
  -- a task of the host is an old one, or the new one
  have hcases : ∀ {k : ℕ} {task : HostTask}, (host.subscribe pair).tasks[k]? = some task →
      (k < pairs.length ∧ host.tasks[k]? = some task) ∨
        (k = pairs.length ∧ task = ⟨pair, [], []⟩) := by
    intro k task htask
    change (host.tasks ++ [_])[k]? = some task at htask
    rcases Nat.lt_or_ge k host.tasks.length with hlt | hge
    · rw [List.getElem?_append_left hlt] at htask
      exact Or.inl ⟨hlength ▸ hlt, htask⟩
    · rw [List.getElem?_append_right hge, List.getElem?_singleton] at htask
      split_ifs at htask with hzero
      exact Or.inr ⟨by omega, (Option.some.inj htask).symm⟩
  obtain ⟨hsnapshots, hsent, htagged⟩ := h.absent pairs.length le_rfl
  refine ⟨h.called, ?_, fun c hc => ?_, fun k task htask => ?_, fun k task htask => ?_,
    fun k hk => ?_⟩
  · rw [StrategyHost.subscribe, List.map_append, h.served, List.map_singleton]
  · obtain ⟨hlt, -⟩ := List.getElem?_eq_some_iff.1 (h.callers c hc)
    rw [List.getElem?_append_left hlt]
    exact h.callers c hc
  · rcases hcases htask with ⟨hlt, hold⟩ | ⟨rfl, rfl⟩
    · rw [Function.update_of_ne hlt.ne]
      exact h.queues k task hold
    · rw [Function.update_self, hsnapshots]
      rfl
  · rcases hcases htask with ⟨-, hold⟩ | ⟨rfl, rfl⟩
    · exact h.outboxes k task hold
    · rw [hsent, htagged]
      rfl
  · rw [List.length_append] at hk
    exact h.absent k (Nat.le_of_succ_le hk)

theorem Sequential.deliver (h : Sequential engine state pairs heard is sent host)
    (snap : MarketSnapshot) :
    Sequential engine state pairs (fun k => heard k ++ [snap]) is sent (host.deliver snap) := by
  have hbefore : ∀ {k : ℕ} {task' : HostTask}, (host.deliver snap).tasks[k]? = some task' →
      ∃ task, host.tasks[k]? = some task ∧ task' =
        if task.subject = snap.subject then { task with queue := task.queue ++ [snap] }
        else task := by
    intro k task' hk
    rw [StrategyHost.deliver, List.getElem?_map, Option.map_eq_some_iff] at hk
    obtain ⟨task, hk, heq⟩ := hk
    exact ⟨task, hk, heq.symm⟩
  refine ⟨h.called, ?_, h.callers, ?_, ?_, h.absent⟩
  · rw [← h.served, StrategyHost.deliver, List.map_map]
    refine List.map_congr_left fun task _ => ?_
    rw [Function.comp_apply]
    split_ifs <;> rfl
  · intro k task' hk
    obtain ⟨task, htask, rfl⟩ := hbefore hk
    have hqueue := h.queues k task htask
    rw [List.filter_append]
    split_ifs with hsubject
    · -- the new queue ends in the snapshot
      have hsame : HostTask.subject { task with queue := task.queue ++ [snap] } = task.subject :=
        rfl
      rw [hsame, ← hqueue, ← List.append_assoc]
      simp [hsubject]
    · rw [← hqueue]
      simp [Ne.symm hsubject]
  · intro k task' hk
    obtain ⟨task, htask, rfl⟩ := hbefore hk
    rw [← h.outboxes k task htask]
    split_ifs <;> rfl

theorem Sequential.ne_of_absent (h : Sequential engine state pairs heard is sent host) {j k : ℕ}
    {task : HostTask} (htask : host.tasks[k]? = some task) (hj : pairs.length ≤ j) : j ≠ k := by
  rintro rfl
  obtain ⟨hlt, -⟩ := List.getElem?_eq_some_iff.1 htask
  rw [← h.served, List.length_map] at hj
  exact absurd hlt (not_lt.2 hj)

theorem Sequential.publish (h : Sequential engine state pairs heard is sent host) {k : ℕ}
    {task : HostTask} {out : HostOutput} {outbox : List HostOutput}
    (htask : host.tasks[k]? = some task) (houtbox : task.outbox = out :: outbox) :
    Sequential engine state pairs heard is
      (Function.update sent k (sent k ++ [out]))
      { host with tasks := host.tasks.set k { task with outbox := outbox } } := by
  refine ⟨h.called, ?_, h.callers, ?_, ?_, fun j hj => ?_⟩
  · rw [← h.served]
    exact Tasks.map_set htask rfl
  · intro j task' hj
    rcases Tasks.getElem?_set_cases hj with ⟨rfl, rfl, -⟩ | ⟨-, hj⟩
    · exact h.queues j task htask
    · exact h.queues j task' hj
  · intro j task' hj
    rcases Tasks.getElem?_set_cases hj with ⟨rfl, rfl, -⟩ | ⟨hne, hj⟩
    · rw [Function.update_self, ← h.outboxes j task htask, houtbox, List.append_assoc,
        List.singleton_append]
    · rw [Function.update_of_ne hne]
      exact h.outboxes j task' hj
  · rw [Function.update_of_ne (h.ne_of_absent htask hj)]
    exact h.absent j hj

theorem Sequential.take (h : Sequential engine state pairs heard is sent host) {k : ℕ}
    {task : HostTask} {snap : MarketSnapshot} {queue : List MarketSnapshot}
    (htask : host.tasks[k]? = some task) (houtbox : task.outbox = [])
    (hqueue : task.queue = snap :: queue) (fresh : TraceId) (utc : DateTime) :
    let handled := handleSnapshot engine host.engine host.paused task.pair snap fresh utc
    Sequential engine state pairs heard
      (is ++ [.call ⟨k, task.pair, snap, fresh, utc⟩]) sent
      { host with
        engine := handled.1
        tasks := host.tasks.set k { task with queue := queue, outbox := handled.2 } } := by
  intro handled
  set c : EngineCall := ⟨k, task.pair, snap, fresh, utc⟩
  have hemit : (sequential engine).emit ((sequential engine).run (state, false) is) (.call c) =
      handled.2.map (k, ·) := by
    rw [← h.called]
    rfl
  have hcalls : EngineInput.calls (is ++ [.call c]) = EngineInput.calls is ++ [c] :=
    List.filterMap_append
  refine ⟨?_, ?_, ?_, ?_, ?_, fun j hj => ?_⟩
  · rw [Machine.run_concat, ← h.called]
    rfl
  · rw [← h.served]
    exact Tasks.map_set htask rfl
  · intro c' hmem
    rw [hcalls] at hmem
    rcases List.mem_append.1 hmem with hmem | hmem
    · exact h.callers c' hmem
    · rw [List.mem_singleton.1 hmem, ← h.served, List.getElem?_map, htask]
      rfl
  · intro j task' hj
    rw [EngineInput.snapshots_concat]
    rcases Tasks.getElem?_set_cases hj with ⟨rfl, rfl, -⟩ | ⟨hne, hj⟩
    · have hold := h.queues j task htask
      rw [hqueue] at hold
      rw [if_pos rfl, List.append_assoc]
      exact hold
    · rw [if_neg (Ne.symm hne), List.append_nil]
      exact h.queues j task' hj
  · intro j task' hj
    rw [Machine.output_concat, tagged_append, hemit]
    rcases Tasks.getElem?_set_cases hj with ⟨rfl, rfl, -⟩ | ⟨hne, hj⟩
    · -- the outbox was empty, so all that the earlier calls gave is published
      have hold := h.outboxes j task htask
      rw [houtbox, List.append_nil] at hold
      rw [tagged_map_self, hold]
    · rw [tagged_map_ne (Ne.symm hne), List.append_nil]
      exact h.outboxes j task' hj
  · have hne := h.ne_of_absent htask hj
    rw [EngineInput.snapshots_concat, if_neg (Ne.symm hne), List.append_nil, Machine.output_concat,
      tagged_append, hemit, tagged_map_ne (Ne.symm hne), List.append_nil]
    exact h.absent j hj

/-- **The turn of a task** is a message published, a call of the engine, or nothing. -/
theorem Sequential.turn (h : Sequential engine state pairs heard is sent host) (k : ℕ)
    (fresh : TraceId) (utc : DateTime) :
    ∃ i : Option EngineInput,
      (∀ input ∈ i, ∃ pair snap, input = .call ⟨k, pair, snap, fresh, utc⟩) ∧
      Sequential engine state pairs heard (is ++ i.toList)
        (Function.update sent k (sent k ++ (host.step engine k fresh utc).2.toList))
        (host.step engine k fresh utc).1 := by
  have hquiet : Function.update sent k (sent k ++ []) = sent := by
    rw [List.append_nil, Function.update_eq_self]
  rcases host.step_cases engine fresh utc k with ⟨-, hstep⟩ |
    ⟨task, out, outbox, htask, houtbox, hstep⟩ |
    ⟨task, snap, queue, htask, houtbox, hqueue, hstep⟩
  · refine ⟨none, by simp, ?_⟩
    rw [hstep, Option.toList_none, Option.toList_none, List.append_nil, hquiet]
    exact h
  · refine ⟨none, by simp, ?_⟩
    rw [hstep, Option.toList_none, List.append_nil]
    exact h.publish htask houtbox
  · refine ⟨some (.call ⟨k, task.pair, snap, fresh, utc⟩), ?_, ?_⟩
    · intro input hinput
      exact ⟨task.pair, snap, (Option.mem_some_iff.1 hinput).symm⟩
    · rw [hstep]
      show Sequential engine state pairs heard _ (Function.update sent k (sent k ++ [])) _
      rw [hquiet]
      exact h.take htask houtbox hqueue fresh utc

theorem Sequential.pause (h : Sequential engine state pairs heard is sent host)
    (paused : Bool) :
    Sequential engine state pairs heard (is ++ [.pause paused]) sent
      { host with paused := paused } := by
  have hemit : (sequential engine).emit ((sequential engine).run (state, false) is)
      (.pause paused) = [] := rfl
  refine ⟨?_, h.served, ?_, ?_, ?_, fun k hk => ?_⟩
  · rw [Machine.run_concat, ← h.called]
    rfl
  · rw [EngineInput.calls_pause]
    exact h.callers
  · intro k task htask
    rw [EngineInput.snapshots, EngineInput.calls_pause]
    exact h.queues k task htask
  · rw [Machine.output_concat, hemit, List.append_nil]
    exact h.outboxes
  · rw [EngineInput.snapshots, EngineInput.calls_pause, Machine.output_concat, hemit,
      List.append_nil]
    exact h.absent k hk

end Sequential

end W2uos
