import Mathlib.Logic.Function.Basic
import W2uos.Strategy.Host
import W2uos.System.Machine
import W2uos.System.Text

/-!
# The identifiers of orders

The host names an order by the millisecond of the snapshot and the index of the order in the plan.
Neither the market nor the rest of the timestamp is in the name, so orders for two snapshots of one
millisecond have the same names.

To say which snapshot a published command is for, the host is run with a note beside it: the
snapshot every task has handled last, and how many orders of its plan are out.

* `tracked_run` : the notes change nothing, and all commands are reported;
* `distinctIds_run` : exactly when the orders of a run have different names.
-/

namespace W2uos

/-! ### The host as a machine -/

/-- What a host reacts to: a snapshot on its subject, the turn of a task, and the messages of
`control.strategy.pause_all` and `control.strategy.resume_all`. -/
inductive HostInput
  | deliver (snap : MarketSnapshot)
  | turn (k : ℕ) (fresh : TraceId) (utc : DateTime)
  | pause
  | resume

section Host

variable [CaseTable] {σ : Type}

/-- The strategy host. -/
def strategyHost (engine : StrategyEngine σ) : Machine (StrategyHost σ) HostInput HostOutput where
  step host
    | .deliver snap => (host.deliver snap, [])
    | .turn k fresh utc =>
      let (host, out) := host.step engine k fresh utc
      (host, out.toList)
    | .pause => ({ host with paused := true }, [])
    | .resume => ({ host with paused := false }, [])

omit [CaseTable] in
/-- The commands among the outputs. -/
def HostOutput.orders (os : List HostOutput) : List OrderCommand :=
  os.filterMap fun
    | .order cmd => some cmd
    | .log _ => none

end Host

/-! ### The host with notes -/

/-- What happens in a host. -/
inductive HostEvent
  /-- The engine is invoked on a snapshot. -/
  | handled (pair : PairId) (snapshot : MarketSnapshot) (outcome : StrategyOutcome)
  /-- A command is published: the order with the given index for the snapshot. -/
  | published (pair : PairId) (snapshot : MarketSnapshot) (index : ℕ) (cmd : OrderCommand)
  deriving DecidableEq

/-- The commands published. -/
def HostEvent.orders (es : List HostEvent) : List OrderCommand :=
  es.filterMap fun
    | .handled _ _ _ => none
    | .published _ _ _ cmd => some cmd

/-- A host, and for every task the snapshot it has handled last and the number of orders of it
that are published. -/
structure TrackedHost (σ : Type) where
  host : StrategyHost σ
  current : ℕ → Option (MarketSnapshot × ℕ)

/-- A started host. -/
def TrackedHost.start {σ : Type} (engine : σ) (subscriptions : List StrategySubscription) :
    TrackedHost σ where
  host := StrategyHost.start engine subscriptions
  current _ := none

section Tracked

variable [CaseTable] {σ : Type} (engine : StrategyEngine σ)

omit [CaseTable] in
/-- What the turn of a task is about, and the notes after it. -/
def TrackedHost.observe (t : TrackedHost σ) (k : ℕ) :
    (ℕ → Option (MarketSnapshot × ℕ)) × List HostEvent :=
  match t.host.tasks[k]? with
  | none => (t.current, [])
  | some task =>
    match task.outbox, task.queue with
    | .order cmd :: _, _ =>
      match t.current k with
      | some (snap, idx) =>
        (Function.update t.current k (some (snap, idx + 1)), [.published task.pair snap idx cmd])
      | none => (t.current, [])
    | .log _ :: _, _ => (t.current, [])
    | [], snap :: _ =>
      (Function.update t.current k (some (snap, 0)),
        if t.host.paused then []
        else [.handled task.pair snap
          (engine.onMarketSnapshot t.host.engine task.pair snap).1])
    | [], [] => (t.current, [])

/-- The host with its notes. -/
def trackedHost : Machine (TrackedHost σ) HostInput HostEvent where
  step t i :=
    let host := (strategyHost engine).next t.host i
    match i with
    | .turn k _ _ =>
      let (current, events) := t.observe engine k
      ({ host := host, current := current }, events)
    | _ => ({ t with host := host }, [])

omit [CaseTable] in
theorem TrackedHost.observe_idle (t : TrackedHost σ) {k : ℕ}
    (h : ∀ task, t.host.tasks[k]? = some task → task.outbox = [] ∧ task.queue = []) :
    t.observe engine k = (t.current, []) := by
  unfold observe
  cases htask : t.host.tasks[k]? with
  | none => rfl
  | some task =>
    obtain ⟨houtbox, hqueue⟩ := h task htask
    simp only [houtbox, hqueue]

section Turns

variable (t : TrackedHost σ) {k : ℕ} {task : HostTask} (htask : t.host.tasks[k]? = some task)
include htask

omit [CaseTable] in
theorem TrackedHost.observe_order {cmd : OrderCommand} {outbox : List HostOutput}
    (houtbox : task.outbox = .order cmd :: outbox) {snap : MarketSnapshot} {idx : ℕ}
    (hnoted : t.current k = some (snap, idx)) :
    t.observe engine k = (Function.update t.current k (some (snap, idx + 1)),
      [.published task.pair snap idx cmd]) := by
  simp only [observe, htask, houtbox, hnoted]

omit [CaseTable] in
theorem TrackedHost.observe_log {evt : LogEvent} {outbox : List HostOutput}
    (houtbox : task.outbox = .log evt :: outbox) : t.observe engine k = (t.current, []) := by
  simp only [observe, htask, houtbox]

omit [CaseTable] in
/-- A task that takes a snapshot notes it, and gives it to the engine unless the host is paused. -/
theorem TrackedHost.observe_take (houtbox : task.outbox = []) {snap : MarketSnapshot}
    {queue : List MarketSnapshot} (hqueue : task.queue = snap :: queue) :
    t.observe engine k = (Function.update t.current k (some (snap, 0)),
      if t.host.paused then []
      else [.handled task.pair snap
        (engine.onMarketSnapshot t.host.engine task.pair snap).1]) := by
  simp only [observe, htask, houtbox, hqueue]

omit [CaseTable] in
theorem TrackedHost.not_handled_of_publish {out : HostOutput} {outbox : List HostOutput}
    (houtbox : task.outbox = out :: outbox) (pair : PairId) (snap : MarketSnapshot)
    (outcome : StrategyOutcome) : .handled pair snap outcome ∉ (t.observe engine k).2 := by
  cases out with
  | log evt => simp [t.observe_log engine htask houtbox]
  | order cmd =>
    cases hcurrent : t.current k with
    | none => simp [observe, htask, houtbox, hcurrent]
    | some note => simp [t.observe_order engine htask houtbox hcurrent]

end Turns

theorem trackedHost_idle (t : TrackedHost σ) {k : ℕ} (fresh : TraceId) (utc : DateTime)
    (h : ∀ task, t.host.tasks[k]? = some task → task.outbox = [] ∧ task.queue = []) :
    (trackedHost engine).step t (.turn k fresh utc) = (t, []) := by
  simp only [trackedHost, strategyHost, Machine.next, t.observe_idle engine h,
    t.host.step_idle engine fresh utc h]

theorem trackedHost_order (t : TrackedHost σ) {k : ℕ} {task : HostTask} (fresh : TraceId)
    (utc : DateTime) (htask : t.host.tasks[k]? = some task) {cmd : OrderCommand}
    {outbox : List HostOutput} (houtbox : task.outbox = .order cmd :: outbox)
    {snap : MarketSnapshot} {idx : ℕ} (hnoted : t.current k = some (snap, idx)) :
    (trackedHost engine).step t (.turn k fresh utc) =
      ({ host := { t.host with tasks := t.host.tasks.set k { task with outbox := outbox } }
         current := Function.update t.current k (some (snap, idx + 1)) },
        [.published task.pair snap idx cmd]) := by
  simp only [trackedHost, strategyHost, Machine.next,
    t.observe_order engine htask houtbox hnoted,
    t.host.step_publish engine fresh utc htask houtbox]

theorem trackedHost_log (t : TrackedHost σ) {k : ℕ} {task : HostTask} (fresh : TraceId)
    (utc : DateTime) (htask : t.host.tasks[k]? = some task) {evt : LogEvent}
    {outbox : List HostOutput} (houtbox : task.outbox = .log evt :: outbox) :
    (trackedHost engine).step t (.turn k fresh utc) =
      ({ host := { t.host with tasks := t.host.tasks.set k { task with outbox := outbox } }
         current := t.current }, []) := by
  simp only [trackedHost, strategyHost, Machine.next, t.observe_log engine htask houtbox,
    t.host.step_publish engine fresh utc htask houtbox]

/-! ### What a task has in its outbox -/

omit [CaseTable] in
/-- The outbox of a task holds what is left of a plan: of the orders for the snapshot in its notes
those from the noted index on, and then the log event. -/
structure Busy (es : List HostEvent) (t : TrackedHost σ) (k : ℕ) (pair : PairId)
    (snap : MarketSnapshot) (outcome : StrategyOutcome) (idx : ℕ) : Prop where
  noted : t.current k = some (snap, idx)
  le_length : idx ≤ outcome.plannedOrders.length
  outbox : ∃ task traceId evt, t.host.tasks[k]? = some task ∧ task.pair = pair ∧
    task.outbox = ((outcome.commands pair snap traceId).drop idx).map .order ++ [.log evt]
  published : ∀ j < idx, ∃ cmd, .published pair snap j cmd ∈ es

omit [CaseTable] in
/-- The notes of a run are right. -/
structure Tracks (es : List HostEvent) (t : TrackedHost σ) : Prop where
  /-- A task is busy with a snapshot that has been handled, or its outbox is empty. -/
  tasks : ∀ k task, t.host.tasks[k]? = some task → task.outbox = [] ∨
    ∃ snap outcome idx, Busy es t k task.pair snap outcome idx ∧
      .handled task.pair snap outcome ∈ es
  /-- A published command is an order of a handled snapshot. -/
  published : ∀ pair snap idx cmd, .published pair snap idx cmd ∈ es →
    cmd.id = toString (timestampMillis snap.ts) ++ "-" ++ toString idx ∧
      ∃ outcome, .handled pair snap outcome ∈ es ∧ idx < outcome.plannedOrders.length
  /-- All orders of a handled snapshot have been published, or some task is busy with them. -/
  handled : ∀ pair snap outcome, .handled pair snap outcome ∈ es →
    (∀ j < outcome.plannedOrders.length, ∃ cmd, .published pair snap j cmd ∈ es) ∨
      ∃ k idx, Busy es t k pair snap outcome idx

omit [CaseTable] in
theorem tracks_start (engine : σ) (subscriptions : List StrategySubscription) :
    Tracks [] (TrackedHost.start engine subscriptions) := by
  refine ⟨?_, ?_, ?_⟩
  · intro k task htask
    refine Or.inl ?_
    obtain ⟨sub, -, rfl⟩ := List.mem_map.1 (List.mem_of_getElem? htask)
    rfl
  · intro pair snap idx cmd h
    cases h
  · intro pair snap outcome h
    cases h

variable {engine} {es fs : List HostEvent} {t t' : TrackedHost σ} {k : ℕ}

omit [CaseTable] in
/-- The part of a task the notes are about. -/
def HostTask.work (task : HostTask) : PairId × List HostOutput := (task.pair, task.outbox)

omit [CaseTable] in
theorem HostTask.exists_of_work {old new : Option HostTask} {task : HostTask}
    (hwork : new.map HostTask.work = old.map HostTask.work) (hnew : new = some task) :
    ∃ task', old = some task' ∧ task'.pair = task.pair ∧ task'.outbox = task.outbox := by
  rw [hnew, Option.map_some, eq_comm, Option.map_eq_some_iff] at hwork
  obtain ⟨task', hold, hsame⟩ := hwork
  exact ⟨task', hold, congrArg Prod.fst hsame, congrArg Prod.snd hsame⟩

omit [CaseTable] in
theorem Busy.pair_eq {pair : PairId} {snap : MarketSnapshot} {outcome : StrategyOutcome} {idx : ℕ}
    (hb : Busy es t k pair snap outcome idx) {task : HostTask}
    (htask : t.host.tasks[k]? = some task) : pair = task.pair ∧ task.outbox ≠ [] := by
  obtain ⟨task', traceId, evt, htask', hpair, houtbox⟩ := hb.outbox
  rw [htask, Option.some.injEq] at htask'
  rw [htask', houtbox]
  exact ⟨hpair.symm, List.append_ne_nil_of_right_ne_nil _ (List.cons_ne_nil _ _)⟩

omit [CaseTable] in
theorem Busy.mono {pair : PairId} {snap : MarketSnapshot} {outcome : StrategyOutcome} {idx : ℕ}
    (hwork : t'.host.tasks[k]?.map HostTask.work = t.host.tasks[k]?.map HostTask.work)
    (hcurrent : t'.current k = t.current k) (hes : es ⊆ fs)
    (hb : Busy es t k pair snap outcome idx) : Busy fs t' k pair snap outcome idx := by
  obtain ⟨task, traceId, evt, htask, hpair, houtbox⟩ := hb.outbox
  obtain ⟨task', htask', hpair', houtbox'⟩ := HostTask.exists_of_work hwork.symm htask
  refine ⟨hcurrent.trans hb.noted, hb.le_length, ?_, ?_⟩
  · exact ⟨task', traceId, evt, htask', hpair'.trans hpair, houtbox'.trans houtbox⟩
  · intro j hj
    obtain ⟨cmd, hcmd⟩ := hb.published j hj
    exact ⟨cmd, hes hcmd⟩

omit [CaseTable] in
/-- A step of one task keeps the notes right if it does so for this task. -/
theorem Tracks.move (ht : Tracks es t) {old new : HostTask} (hk : t.host.tasks[k]? = some old)
    (htasks : t'.host.tasks = t.host.tasks.set k new)
    (hcurrent : ∀ l, l ≠ k → t'.current l = t.current l)
    (htask : new.outbox = [] ∨ ∃ snap outcome idx, Busy (es ++ fs) t' k new.pair snap outcome idx ∧
      .handled new.pair snap outcome ∈ es ++ fs)
    (hpublished : ∀ pair snap idx cmd, .published pair snap idx cmd ∈ fs →
      cmd.id = toString (timestampMillis snap.ts) ++ "-" ++ toString idx ∧
        ∃ outcome, .handled pair snap outcome ∈ es ∧ idx < outcome.plannedOrders.length)
    (hhandled : ∀ pair snap outcome, .handled pair snap outcome ∈ fs →
      ∃ idx, Busy (es ++ fs) t' k pair snap outcome idx)
    (hbusy : ∀ pair snap outcome idx, Busy es t k pair snap outcome idx →
      (∀ j < outcome.plannedOrders.length, ∃ cmd, .published pair snap j cmd ∈ es ++ fs) ∨
        ∃ idx, Busy (es ++ fs) t' k pair snap outcome idx) :
    Tracks (es ++ fs) t' := by
  have hes : es ⊆ es ++ fs := List.subset_append_left es fs
  have hnew : t'.host.tasks[k]? = some new := by
    rw [htasks]
    exact List.getElem?_set_self (List.getElem?_eq_some_iff.1 hk).1
  -- the other tasks are as they were
  have hothers : ∀ l, l ≠ k →
      t'.host.tasks[l]?.map HostTask.work = t.host.tasks[l]?.map HostTask.work := by
    intro l hl
    rw [htasks, List.getElem?_set_ne (Ne.symm hl)]
  refine ⟨?_, ?_, ?_⟩
  · intro l task hl
    by_cases hlk : l = k
    · subst hlk
      rw [hnew, Option.some.injEq] at hl
      exact hl ▸ htask
    · obtain ⟨old, hold, hpair, houtbox⟩ := HostTask.exists_of_work (hothers l hlk) hl
      rw [← hpair, ← houtbox]
      refine (ht.tasks l old hold).imp id ?_
      rintro ⟨snap, outcome, idx, hb, hmem⟩
      exact ⟨snap, outcome, idx, hb.mono (hothers l hlk) (hcurrent l hlk) hes, hes hmem⟩
  · intro pair snap idx cmd h
    rcases List.mem_append.1 h with h | h
    · obtain ⟨hid, outcome, hmem, hidx⟩ := ht.published pair snap idx cmd h
      exact ⟨hid, outcome, hes hmem, hidx⟩
    · obtain ⟨hid, outcome, hmem, hidx⟩ := hpublished pair snap idx cmd h
      exact ⟨hid, outcome, hes hmem, hidx⟩
  · intro pair snap outcome h
    rcases List.mem_append.1 h with h | h
    · rcases ht.handled pair snap outcome h with hall | ⟨l, idx, hb⟩
      · refine Or.inl ?_
        intro j hj
        obtain ⟨cmd, hcmd⟩ := hall j hj
        exact ⟨cmd, hes hcmd⟩
      · by_cases hlk : l = k
        · subst hlk
          exact (hbusy pair snap outcome idx hb).imp id fun hb => ⟨l, hb⟩
        · exact Or.inr ⟨l, idx, hb.mono (hothers l hlk) (hcurrent l hlk) hes⟩
    · exact Or.inr ⟨k, hhandled pair snap outcome h⟩

omit [CaseTable] in
theorem Tracks.frame (ht : Tracks es t)
    (hwork : ∀ l : ℕ,
      t'.host.tasks[l]?.map HostTask.work = t.host.tasks[l]?.map HostTask.work)
    (hcurrent : t'.current = t.current) : Tracks es t' := by
  have hsame : ∀ l, t'.current l = t.current l := fun l => congrFun hcurrent l
  refine ⟨?_, ht.published, ?_⟩
  · intro l task hl
    obtain ⟨old, hold, hpair, houtbox⟩ := HostTask.exists_of_work (hwork l) hl
    rw [← hpair, ← houtbox]
    refine (ht.tasks l old hold).imp id ?_
    rintro ⟨snap, outcome, idx, hb, hmem⟩
    exact ⟨snap, outcome, idx, hb.mono (hwork l) (hsame l) (List.Subset.refl es), hmem⟩
  · intro pair snap outcome h
    refine (ht.handled pair snap outcome h).imp id ?_
    rintro ⟨l, idx, hb⟩
    exact ⟨l, idx, hb.mono (hwork l) (hsame l) (List.Subset.refl es)⟩

omit [CaseTable] in
@[simp] theorem StrategyOutcome.length_commands (outcome : StrategyOutcome) (pair : PairId)
    (snap : MarketSnapshot) (traceId : TraceId) :
    (outcome.commands pair snap traceId).length = outcome.plannedOrders.length := by
  simp [commands]

omit [CaseTable] in
/-- What is at the head of the outbox of a busy task: the next order under its name, or the log
event that comes last. -/
theorem Busy.head {pair : PairId} {snap : MarketSnapshot} {outcome : StrategyOutcome} {idx : ℕ}
    (hb : Busy es t k pair snap outcome idx) {task : HostTask}
    (htask : t.host.tasks[k]? = some task) {out : HostOutput} {outbox : List HostOutput}
    (houtbox : task.outbox = out :: outbox) :
    (∃ cmd traceId evt, out = .order cmd ∧ idx < outcome.plannedOrders.length ∧
        cmd.id = toString (timestampMillis snap.ts) ++ "-" ++ toString idx ∧
        outbox = ((outcome.commands pair snap traceId).drop (idx + 1)).map .order ++ [.log evt]) ∨
      (idx = outcome.plannedOrders.length ∧ (∃ evt, out = .log evt) ∧ outbox = []) := by
  obtain ⟨task', traceId, evt, htask', hpair, hout⟩ := hb.outbox
  rw [htask, Option.some.injEq] at htask'
  subst htask'
  rw [houtbox] at hout
  rcases hb.le_length.lt_or_eq with hlt | heq
  · have hlen : idx < (outcome.commands pair snap traceId).length := by
      rwa [outcome.length_commands]
    rw [List.drop_eq_getElem_cons hlen, List.map_cons, List.cons_append, List.cons.injEq] at hout
    refine Or.inl ⟨_, traceId, evt, hout.1, hlt, ?_, hout.2⟩
    simp [StrategyOutcome.commands, PlannedOrder.command]
  · rw [heq, ← outcome.length_commands pair snap traceId, List.drop_length, List.map_nil,
      List.nil_append, List.cons.injEq] at hout
    exact Or.inr ⟨heq, ⟨evt, hout.1⟩, hout.2⟩

/-- A task publishes an order: the noted one. -/
theorem Tracks.publish (ht : Tracks es t) {task : HostTask}
    (htask : t.host.tasks[k]? = some task) {cmd : OrderCommand} {outbox : List HostOutput}
    (houtbox : task.outbox = .order cmd :: outbox) (fresh : TraceId) (utc : DateTime) :
    Tracks (es ++ (trackedHost engine).emit t (.turn k fresh utc))
      ((trackedHost engine).next t (.turn k fresh utc)) := by
  obtain ⟨snap, outcome, idx, hb, hmem⟩ :=
    (ht.tasks k task htask).resolve_left (by rw [houtbox]; exact List.cons_ne_nil _ _)
  have hk : k < t.host.tasks.length := (List.getElem?_eq_some_iff.1 htask).1
  have hstep : (trackedHost engine).step t (.turn k fresh utc) =
      ({ host := { t.host with tasks := t.host.tasks.set k { task with outbox := outbox } }
         current := Function.update t.current k (some (snap, idx + 1)) },
        [.published task.pair snap idx cmd]) :=
    trackedHost_order engine t fresh utc htask houtbox hb.noted
  unfold Machine.emit Machine.next
  rw [hstep]
  have hset : (t.host.tasks.set k { task with outbox := outbox })[k]? =
      some { task with outbox := outbox } := List.getElem?_set_self hk
  -- whoever is busy with this outbox is one order further
  have hnext : ∀ snap' outcome' idx', Busy es t k task.pair snap' outcome' idx' →
      snap' = snap ∧ idx' = idx ∧ idx < outcome'.plannedOrders.length ∧
        cmd.id = toString (timestampMillis snap.ts) ++ "-" ++ toString idx ∧
        Busy (es ++ [.published task.pair snap idx cmd])
          { host := { t.host with tasks := t.host.tasks.set k { task with outbox := outbox } }
            current := Function.update t.current k (some (snap, idx + 1)) }
          k task.pair snap outcome' (idx + 1) := by
    intro snap' outcome' idx' hb'
    have hsame := hb'.noted.symm.trans hb.noted
    rw [Option.some.injEq, Prod.mk.injEq] at hsame
    obtain ⟨rfl, rfl⟩ := hsame
    rcases hb'.head htask houtbox with ⟨cmd', traceId, evt, heq, hlt, hid, hrest⟩ |
      ⟨-, ⟨evt, hevt⟩, -⟩
    · cases heq
      refine ⟨rfl, rfl, hlt, hid, ⟨Function.update_self _ _ _, hlt, ?_, ?_⟩⟩
      · exact ⟨_, traceId, evt, hset, rfl, hrest⟩
      · intro j hj
        rcases Nat.lt_succ_iff_lt_or_eq.1 hj with hj | rfl
        · obtain ⟨cmd', hcmd'⟩ := hb'.published j hj
          exact ⟨cmd', List.mem_append_left _ hcmd'⟩
        · exact ⟨cmd, by simp⟩
    · cases hevt
  obtain ⟨-, -, hlt, hid, hb'⟩ := hnext snap outcome idx hb
  refine ht.move htask rfl (fun l hl => Function.update_of_ne hl _ _) ?_ ?_ ?_ ?_
  · exact Or.inr ⟨snap, outcome, idx + 1, hb', List.mem_append_left _ hmem⟩
  · intro pair' snap' idx' cmd' h
    rw [List.mem_singleton] at h
    cases h
    exact ⟨hid, outcome, hmem, hlt⟩
  · intro pair' snap' outcome' h
    rw [List.mem_singleton] at h
    cases h
  · intro pair' snap' outcome' idx' hold
    obtain ⟨rfl, -⟩ := hold.pair_eq htask
    obtain ⟨rfl, rfl, -, -, hnew⟩ := hnext snap' outcome' idx' hold
    exact Or.inr ⟨_, hnew⟩

/-- A task publishes its log event, which comes last: all orders are out. -/
theorem Tracks.report (ht : Tracks es t) {task : HostTask}
    (htask : t.host.tasks[k]? = some task) {evt : LogEvent} {outbox : List HostOutput}
    (houtbox : task.outbox = .log evt :: outbox) (fresh : TraceId) (utc : DateTime) :
    Tracks (es ++ (trackedHost engine).emit t (.turn k fresh utc))
      ((trackedHost engine).next t (.turn k fresh utc)) := by
  obtain ⟨snap, outcome, idx, hb, hmem⟩ :=
    (ht.tasks k task htask).resolve_left (by rw [houtbox]; exact List.cons_ne_nil _ _)
  have hstep : (trackedHost engine).step t (.turn k fresh utc) =
      ({ t with host :=
          { t.host with tasks := t.host.tasks.set k { task with outbox := outbox } } }, []) :=
    trackedHost_log engine t fresh utc htask houtbox
  unfold Machine.emit Machine.next
  rw [hstep]
  have hdone : ∀ snap' outcome' idx', Busy es t k task.pair snap' outcome' idx' →
      idx' = outcome'.plannedOrders.length ∧ outbox = [] := by
    intro snap' outcome' idx' hb'
    rcases hb'.head htask houtbox with ⟨_, _, _, heq, -⟩ | ⟨hidx, -, hrest⟩
    · cases heq
    · exact ⟨hidx, hrest⟩
  refine ht.move htask rfl (fun _ _ => rfl) ?_ ?_ ?_ ?_
  · exact Or.inl (hdone snap outcome idx hb).2
  · intro pair' snap' idx' cmd' h
    cases h
  · intro pair' snap' outcome' h
    cases h
  · intro pair' snap' outcome' idx' hold
    obtain ⟨rfl, -⟩ := hold.pair_eq htask
    refine Or.inl ?_
    intro j hj
    rw [← (hdone snap' outcome' idx' hold).1] at hj
    obtain ⟨cmd, hcmd⟩ := hold.published j hj
    exact ⟨cmd, List.mem_append_left _ hcmd⟩

/-- While the host is paused, a task that takes a snapshot is done with it. -/
theorem Tracks.skip (ht : Tracks es t) {task : HostTask}
    (htask : t.host.tasks[k]? = some task) (houtbox : task.outbox = [])
    {snap : MarketSnapshot} {queue : List MarketSnapshot} (hqueue : task.queue = snap :: queue)
    (hpaused : t.host.paused = true) (fresh : TraceId) (utc : DateTime) :
    Tracks (es ++ (trackedHost engine).emit t (.turn k fresh utc))
      ((trackedHost engine).next t (.turn k fresh utc)) := by
  have hstep : (trackedHost engine).step t (.turn k fresh utc) =
      ({ host := { t.host with
           tasks := t.host.tasks.set k { task with queue := queue, outbox := [] } }
         current := Function.update t.current k (some (snap, 0)) }, []) := by
    simp [trackedHost, strategyHost, Machine.next, t.observe_take engine htask houtbox hqueue,
      t.host.step_take engine fresh utc htask houtbox hqueue, handleSnapshot, hpaused]
  unfold Machine.emit Machine.next
  rw [hstep]
  refine ht.move htask rfl (fun l hl => Function.update_of_ne hl _ _) ?_ ?_ ?_ ?_
  · exact Or.inl rfl
  · intro pair' snap' idx' cmd' h
    cases h
  · intro pair' snap' outcome' h
    cases h
  · -- nobody was busy with an empty outbox
    intro pair' snap' outcome' idx' hold
    exact absurd houtbox (hold.pair_eq htask).2

/-- A task that takes a snapshot is busy with it, unless the host is paused. -/
theorem Tracks.take (ht : Tracks es t) {task : HostTask}
    (htask : t.host.tasks[k]? = some task) (houtbox : task.outbox = [])
    {snap : MarketSnapshot} {queue : List MarketSnapshot} (hqueue : task.queue = snap :: queue)
    (hpaused : t.host.paused = false) (fresh : TraceId) (utc : DateTime) :
    Tracks (es ++ (trackedHost engine).emit t (.turn k fresh utc))
      ((trackedHost engine).next t (.turn k fresh utc)) := by
  have hk : k < t.host.tasks.length := (List.getElem?_eq_some_iff.1 htask).1
  have hset : ∀ task', (t.host.tasks.set k task')[k]? = some task' :=
    fun task' => List.getElem?_set_self hk
  let reaction := engine.onMarketSnapshot t.host.engine task.pair snap
  let traceId := snap.traceId.getD fresh
  let outs : List HostOutput := (reaction.1.commands task.pair snap traceId).map .order ++
    [.log (reaction.1.decision task.pair traceId utc)]
  have hstep : (trackedHost engine).step t (.turn k fresh utc) =
      ({ host := { t.host with
           engine := reaction.2
           tasks := t.host.tasks.set k { task with queue := queue, outbox := outs } }
         current := Function.update t.current k (some (snap, 0)) },
        [.handled task.pair snap reaction.1]) := by
    simp [trackedHost, strategyHost, Machine.next, t.observe_take engine htask houtbox hqueue,
      t.host.step_take engine fresh utc htask houtbox hqueue, handleSnapshot, hpaused, outs,
      reaction, traceId]
  unfold Machine.emit Machine.next
  rw [hstep]
  have hb : Busy (es ++ [.handled task.pair snap reaction.1])
      { host := { t.host with
          engine := reaction.2
          tasks := t.host.tasks.set k { task with queue := queue, outbox := outs } }
        current := Function.update t.current k (some (snap, 0)) }
      k task.pair snap reaction.1 0 := by
    refine ⟨Function.update_self _ _ _, Nat.zero_le _, ?_, ?_⟩
    · exact ⟨_, traceId, _, hset _, rfl, rfl⟩
    · intro j hj
      cases hj
  refine ht.move htask rfl (fun l hl => Function.update_of_ne hl _ _) ?_ ?_ ?_ ?_
  · exact Or.inr ⟨snap, reaction.1, 0, hb, by simp⟩
  · intro pair' snap' idx' cmd' h
    rw [List.mem_singleton] at h
    cases h
  · intro pair' snap' outcome' h
    rw [List.mem_singleton] at h
    cases h
    exact ⟨0, hb⟩
  · -- nobody was busy with an empty outbox
    intro pair' snap' outcome' idx' hold
    exact absurd houtbox (hold.pair_eq htask).2

/-- **The step lemma of the notes.** -/
theorem Tracks.step (ht : Tracks es t) (i : HostInput) :
    Tracks (es ++ (trackedHost engine).emit t i) ((trackedHost engine).next t i) := by
  cases i with
  | deliver snap =>
    rw [show (trackedHost engine).emit t (.deliver snap) = [] from rfl, List.append_nil]
    refine ht.frame ?_ rfl
    intro l
    show (List.map _ t.host.tasks)[l]?.map HostTask.work = _
    rw [List.getElem?_map, Option.map_map]
    refine Option.map_congr ?_
    intro task _
    simp only [Function.comp_apply]
    split_ifs <;> rfl
  | turn k fresh utc =>
    rcases t.host.step_cases engine fresh utc k with ⟨hnone, -⟩ |
      ⟨task, out, outbox, htask, houtbox, -⟩ | ⟨task, snap, queue, htask, houtbox, hqueue, -⟩
    · unfold Machine.emit Machine.next
      rw [trackedHost_idle engine t fresh utc hnone, List.append_nil]
      exact ht
    · cases out with
      | order cmd => exact ht.publish htask houtbox fresh utc
      | log evt => exact ht.report htask houtbox fresh utc
    · cases hpaused : t.host.paused with
      | true => exact ht.skip htask houtbox hqueue hpaused fresh utc
      | false => exact ht.take htask houtbox hqueue hpaused fresh utc
  | pause =>
    rw [show (trackedHost engine).emit t .pause = [] from rfl, List.append_nil]
    exact ht.frame (fun _ => rfl) rfl
  | resume =>
    rw [show (trackedHost engine).emit t .resume = [] from rfl, List.append_nil]
    exact ht.frame (fun _ => rfl) rfl

/-- **The run lemma of the notes.** -/
theorem tracks_run (engine : StrategyEngine σ) (state : σ)
    (subscriptions : List StrategySubscription) (is : List HostInput) :
    Tracks ((trackedHost engine).output (.start state subscriptions) is)
      ((trackedHost engine).run (.start state subscriptions) is) :=
  Machine.history_induction (M := trackedHost engine) (Q := fun _ => True)
    (P := fun _ t es => Tracks es t) (tracks_start state subscriptions)
    (fun _ _ _ i ht _ => ht.step i) (fun (i : HostInput) (_ : i ∈ is) => trivial)

variable (engine) in
/-- While the notes are right, a step publishes the same commands with and without them. -/
theorem Tracks.orders (ht : Tracks es t) (i : HostInput) :
    HostEvent.orders ((trackedHost engine).emit t i) =
      HostOutput.orders ((strategyHost engine).emit t.host i) := by
  cases i with
  | deliver snap => rfl
  | turn k fresh utc =>
    show HostEvent.orders (t.observe engine k).2 =
      HostOutput.orders (t.host.step engine k fresh utc).2.toList
    rcases t.host.step_cases engine fresh utc k with ⟨hnone, hstep⟩ |
      ⟨task, out, outbox, htask, houtbox, hstep⟩ |
      ⟨task, snap, queue, htask, houtbox, hqueue, hstep⟩
    · rw [hstep, t.observe_idle engine hnone]
      rfl
    · rw [hstep]
      cases out with
      | log evt =>
        rw [t.observe_log engine htask houtbox]
        rfl
      | order cmd =>
        -- a task with an order in its outbox has a note
        obtain ⟨snap, outcome, idx, hb, -⟩ :=
          (ht.tasks k task htask).resolve_left (by rw [houtbox]; exact List.cons_ne_nil _ _)
        rw [t.observe_order engine htask houtbox hb.noted]
        rfl
    · rw [hstep, t.observe_take engine htask houtbox hqueue]
      cases t.host.paused <;> rfl
  | pause => rfl
  | resume => rfl

/-- **The notes change nothing**: the tracked host runs as the host does, and the commands it
reports are those the host publishes. -/
theorem tracked_run (engine : StrategyEngine σ) (state : σ)
    (subscriptions : List StrategySubscription) (is : List HostInput) :
    ((trackedHost engine).run (.start state subscriptions) is).host =
        (strategyHost engine).run (.start state subscriptions) is ∧
      HostEvent.orders ((trackedHost engine).output (.start state subscriptions) is) =
        HostOutput.orders ((strategyHost engine).output (.start state subscriptions) is) := by
  induction is using List.reverseRecOn with
  | nil => exact ⟨rfl, rfl⟩
  | append_singleton is i ih =>
    obtain ⟨hhost, horders⟩ := ih
    have hstep := (tracks_run engine state subscriptions is).orders engine i
    refine ⟨?_, ?_⟩
    · rw [Machine.run_concat, Machine.run_concat, ← hhost]
      cases i <;> rfl
    · rw [Machine.output_concat, Machine.output_concat, HostEvent.orders, HostOutput.orders,
        List.filterMap_append, List.filterMap_append]
      rw [hhost] at hstep
      exact congrArg₂ (· ++ ·) horders hstep

/-! ### Names -/

omit [CaseTable] in
/-- Orders for different markets, snapshots or indices have different names. -/
def DistinctIds (es : List HostEvent) : Prop :=
  ∀ pair snap idx cmd pair' snap' idx' cmd', .published pair snap idx cmd ∈ es →
    .published pair' snap' idx' cmd' ∈ es → (pair, snap, idx) ≠ (pair', snap', idx') →
    cmd.id ≠ cmd'.id

omit [CaseTable] in
/-- Different markets and snapshots the engine plans orders for lie in different milliseconds. -/
def DistinctMillis (es : List HostEvent) : Prop :=
  ∀ pair snap outcome pair' snap' outcome', .handled pair snap outcome ∈ es →
    .handled pair' snap' outcome' ∈ es → outcome.plannedOrders ≠ [] →
    outcome'.plannedOrders ≠ [] → (pair, snap) ≠ (pair', snap') →
    timestampMillis snap.ts ≠ timestampMillis snap'.ts

omit [CaseTable] in
/-- Snapshots in different milliseconds have orders with different names. -/
theorem Tracks.distinctIds (ht : Tracks es t) (h : DistinctMillis es) : DistinctIds es := by
  intro pair snap idx cmd pair' snap' idx' cmd' hp hp' hne hid
  obtain ⟨hname, outcome, hmem, hidx⟩ := ht.published pair snap idx cmd hp
  obtain ⟨hname', outcome', hmem', hidx'⟩ := ht.published pair' snap' idx' cmd' hp'
  rw [hname, hname', dashed_inj] at hid
  obtain ⟨hmillis, rfl⟩ := hid
  have hplan : ∀ o : StrategyOutcome, idx < o.plannedOrders.length → o.plannedOrders ≠ [] := by
    rintro o hlt hnil
    rw [hnil] at hlt
    cases hlt
  refine h _ _ _ _ _ _ hmem hmem' (hplan _ hidx) (hplan _ hidx') ?_ hmillis
  rintro hsame
  rw [Prod.mk.injEq] at hsame
  obtain ⟨rfl, rfl⟩ := hsame
  exact hne rfl

omit [CaseTable] in
/-- Once everything is published, the first orders of two snapshots show their millisecond. -/
theorem Tracks.distinctMillis (ht : Tracks es t)
    (hdone : ∀ task ∈ t.host.tasks, task.outbox = []) (h : DistinctIds es) :
    DistinctMillis es := by
  have hall : ∀ pair snap outcome, .handled pair snap outcome ∈ es → outcome.plannedOrders ≠ [] →
      ∃ cmd, .published pair snap 0 cmd ∈ es := by
    intro pair snap outcome hmem hplan
    rcases ht.handled pair snap outcome hmem with hall | ⟨k, idx, hb⟩
    · exact hall 0 (List.length_pos_iff.2 hplan)
    · -- nobody is busy
      obtain ⟨task, _, _, htask, -, hout⟩ := hb.outbox
      rw [hdone task (List.mem_of_getElem? htask)] at hout
      simp at hout
  intro pair snap outcome pair' snap' outcome' hmem hmem' hplan hplan' hne hmillis
  obtain ⟨cmd, hcmd⟩ := hall pair snap outcome hmem hplan
  obtain ⟨cmd', hcmd'⟩ := hall pair' snap' outcome' hmem' hplan'
  refine h pair snap 0 cmd pair' snap' 0 cmd' hcmd hcmd' ?_ ?_
  · intro hsame
    simp only [Prod.mk.injEq, and_true] at hsame
    exact hne (Prod.ext hsame.1 hsame.2)
  · rw [(ht.published _ _ _ _ hcmd).1, (ht.published _ _ _ _ hcmd').1, hmillis]

/-- **When the orders of a run have different names**: if the snapshots the engine plans orders for
lie in different milliseconds; and once all orders are published, only then. -/
theorem distinctIds_run (engine : StrategyEngine σ) (state : σ)
    (subscriptions : List StrategySubscription) (is : List HostInput) :
    (DistinctMillis ((trackedHost engine).output (.start state subscriptions) is) →
        DistinctIds ((trackedHost engine).output (.start state subscriptions) is)) ∧
      ((∀ task ∈ ((trackedHost engine).run (.start state subscriptions) is).host.tasks,
          task.outbox = []) →
        (DistinctIds ((trackedHost engine).output (.start state subscriptions) is) ↔
          DistinctMillis ((trackedHost engine).output (.start state subscriptions) is))) := by
  have ht := tracks_run engine state subscriptions is
  refine ⟨ht.distinctIds, ?_⟩
  intro hdone
  exact ⟨ht.distinctMillis hdone, ht.distinctIds⟩

end Tracked

/-- The markets BTC/USDT and ETH/USDT on OKX. -/
def twoMarkets : List StrategySubscription := [⟨.okx, ⟨"BTC", "USDT"⟩⟩, ⟨.okx, ⟨"ETH", "USDT"⟩⟩]

/-- A snapshot of one of them. -/
def sampleSnapshot (base : String) (ts : DateTime) : MarketSnapshot where
  ts := ts
  exchange := .okx
  symbol := ⟨base, "USDT"⟩
  last := 100
  bid := 99
  ask := 101
  volume24h := 1000
  traceId := none

/-- Both markets are observed at the given times, and the two tasks have their turns. -/
def twoSnapshots (ts ts' : DateTime) : List HostInput :=
  [.deliver (sampleSnapshot "BTC" ts), .deliver (sampleSnapshot "ETH" ts'), .turn 0 "" 0,
    .turn 1 "" 0, .turn 0 "" 0, .turn 1 "" 0, .turn 0 "" 0, .turn 1 "" 0]

theorem distinctIds_run_sample :
    let host := @trackedHost asciiCase Unit buyer
    DistinctIds (host.output (.start () twoMarkets) (twoSnapshots 0 1000000)) ↔
      DistinctMillis (host.output (.start () twoMarkets) (twoSnapshots 0 1000000)) := by
  exact (@distinctIds_run asciiCase Unit buyer () twoMarkets (twoSnapshots 0 1000000)).2
    (by decide)

/-- **Orders are not named apart**: two markets observed in one millisecond. -/
theorem not_distinctIds :
    ¬ DistinctIds ((@trackedHost asciiCase Unit buyer).output (.start () twoMarkets)
      (twoSnapshots 0 1)) := by
  intro h
  refine h _ _ 0 _ _ _ 0 _ (List.mem_of_getElem? (i := 2) rfl) (List.mem_of_getElem? (i := 3) rfl)
    ?_ rfl
  decide

end W2uos
