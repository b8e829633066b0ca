import Mathlib.Data.List.Nodup
import W2uos.Strategy.Orders
import W2uos.System.Tasks

/-!
# Starting and stopping the strategy host

`start` spawns a task that subscribes to one market after the other and spawns a consumer for each;
only the handle of this outer task is kept.  `stop` aborts the outer task, which by then has
nothing left to do or little; the consumers are not aborted by anything.  How often the engine is
invoked on a snapshot is therefore how often its subject has ever been subscribed to.

An abort is noticed at the next await of the task, so an aborted task may still subscribe before it
is gone.

* `invocations_run` : snapshots given to the engine and pending ones add up to the published ones,
  once for every consumer;
* `pairs_run` : when calls are made between settled subscriptions, the consumers are those of all
  starts;
* `lifecycleSound_iff` : exactly when the lifecycle is sound.
-/

namespace W2uos

/-! ### The host service -/

/-- The outer task of a start. -/
structure Spawner where
  /-- The markets it has still to subscribe to. -/
  remaining : List StrategySubscription
  /-- It has been told to stop. -/
  aborted : Bool
  deriving DecidableEq

/-- The service: its configured subscriptions, its outer tasks, which one it keeps the handle of,
and the consumers. -/
structure HostService (σ : Type) where
  subscriptions : List StrategySubscription
  spawners : List Spawner
  taskHandle : Option ℕ
  tracked : TrackedHost σ

/-- A service that has just been built. -/
def HostService.new {σ : Type} (engine : σ) (subscriptions : List StrategySubscription) :
    HostService σ where
  subscriptions := subscriptions
  spawners := []
  taskHandle := none
  tracked := .start engine []

/-- What the service reacts to: the calls of `start` and `stop`, a step of an outer task (the next
subscription, or noticing that it is aborted), a message on `control.config.update.strategy`, and
what the consumers and the pause and resume tasks react to. -/
inductive LifecycleInput
  | start
  | stop
  | subscribe (j : ℕ)
  | cancel (j : ℕ)
  | configUpdate (bot : BotConfig)
  | host (i : HostInput)

/-- The consumer of a subscription. -/
def StrategySubscription.task (sub : StrategySubscription) : HostTask where
  pair := { exchange := sub.exchange, symbol := sub.symbol }
  queue := []
  outbox := []

namespace HostService

variable {σ : Type}

/-- `start`. -/
def start (s : HostService σ) : HostService σ :=
  { s with
    spawners := s.spawners ++ [{ remaining := s.subscriptions, aborted := false }]
    taskHandle := some s.spawners.length }

/-- `stop`. -/
def stop (s : HostService σ) : HostService σ :=
  match s.taskHandle with
  | none => s
  | some j =>
    { s with
      spawners := s.spawners.modify j fun spawner => { spawner with aborted := true }
      taskHandle := none }

/-- The outer task with index `j` subscribes to its next market. -/
def subscribe (s : HostService σ) (j : ℕ) : HostService σ :=
  match s.spawners[j]? with
  | some ⟨sub :: remaining, aborted⟩ =>
    { s with
      spawners := s.spawners.set j ⟨remaining, aborted⟩
      tracked := { s.tracked with host :=
        { s.tracked.host with tasks := s.tracked.host.tasks ++ [sub.task] } } }
  | _ => s

/-- The outer task with index `j` notices that it is aborted. -/
def cancel (s : HostService σ) (j : ℕ) : HostService σ :=
  match s.spawners[j]? with
  | some ⟨_, true⟩ => { s with spawners := s.spawners.set j ⟨[], true⟩ }
  | _ => s

/-- The consumers. -/
abbrev tasks (s : HostService σ) : List HostTask := s.tracked.host.tasks

/-- No outer task has anything left to do. -/
def Settled (s : HostService σ) : Prop := ∀ spawner ∈ s.spawners, spawner.remaining = []

end HostService

section Lifecycle

variable [CaseTable] {σ : Type} (engine : StrategyEngine σ)

/-- The service as a machine.  The tasks that listen to the control subjects are spawned by
`start`, so before the first start their messages are lost. -/
def hostService : Machine (HostService σ) LifecycleInput HostEvent where
  step s
    | .start => (s.start, [])
    | .stop => (s.stop, [])
    | .subscribe j => (s.subscribe j, [])
    | .cancel j => (s.cancel j, [])
    | .configUpdate bot =>
      (if s.spawners = [] then s
        else { s with subscriptions := bot.pairs.map StrategySubscription.ofPair }, [])
    | .host i =>
      if s.spawners = [] then (s, [])
      else
        let (tracked, events) := (trackedHost engine).step s.tracked i
        ({ s with tracked := tracked }, events)

/-! ### Counting -/

omit [CaseTable] in
/-- A snapshot arrives, or a task takes its turn. -/
def HostInput.IsTraffic : HostInput → Prop
  | .deliver _ | .turn _ _ _ => True
  | .pause | .resume => False

omit [CaseTable] in
/-- How often the engine has been invoked on a snapshot. -/
def invocations (x : MarketSnapshot) (es : List HostEvent) : ℕ :=
  es.countP fun
    | .handled _ snap _ => snap = x
    | .published _ _ _ _ => false

omit [CaseTable] in
/-- How often a snapshot has been published. -/
def deliveries (x : MarketSnapshot) (is : List HostInput) : ℕ :=
  is.countP fun
    | .deliver snap => snap = x
    | _ => false

omit [CaseTable] in
/-- How often a snapshot stands in the queues. -/
def pending (x : MarketSnapshot) (tasks : List HostTask) : ℕ :=
  (tasks.map fun task => task.queue.count x).sum

/-- How many consumers a subject has. -/
def consumers (subject : String) (tasks : List HostTask) : ℕ :=
  (tasks.map HostTask.subject).count subject

/-- A published snapshot stands once more in the queue of every consumer of its subject. -/
theorem pending_deliver (x y : MarketSnapshot) (tasks : List HostTask) :
    pending x (tasks.map fun task =>
        if task.subject = y.subject then { task with queue := task.queue ++ [y] } else task) =
      pending x tasks + if y = x then consumers x.subject tasks else 0 := by
  induction tasks with
  | nil => simp [pending, consumers]
  | cons task tasks ih =>
    unfold pending consumers at ih ⊢
    simp only [List.map_cons, List.sum_cons, ih, List.count_cons]
    by_cases hyx : y = x
    · subst hyx
      by_cases hsubject : task.subject = y.subject
      · simp [hsubject]
        omega
      · simp [hsubject]
        omega
    · by_cases hsubject : task.subject = y.subject
      · simp [hsubject, hyx]
      · simp [hsubject, hyx]

variable {engine} {t : TrackedHost σ}

theorem pairs_step (t : TrackedHost σ) (i : HostInput) :
    ((trackedHost engine).next t i).host.tasks.map HostTask.pair =
      t.host.tasks.map HostTask.pair := by
  cases i with
  | deliver y =>
    show (List.map _ t.host.tasks).map HostTask.pair = _
    rw [List.map_map]
    refine List.map_congr_left ?_
    intro task _
    simp only [Function.comp_apply]
    split_ifs <;> rfl
  | turn k fresh utc =>
    show (t.host.step engine k fresh utc).1.tasks.map HostTask.pair = _
    rcases t.host.step_cases engine fresh utc k with ⟨-, hstep⟩ | ⟨task, _, _, htask, -, hstep⟩ |
      ⟨task, _, _, htask, -, -, hstep⟩
    · rw [hstep]
    · rw [hstep]
      exact Tasks.map_set htask rfl
    · rw [hstep]
      exact Tasks.map_set htask rfl
  | pause => rfl
  | resume => rfl

theorem consumers_congr {tasks tasks' : List HostTask}
    (h : tasks'.map HostTask.pair = tasks.map HostTask.pair) (subject : String) :
    consumers subject tasks' = consumers subject tasks := by
  have hsubject : ∀ ts : List HostTask, ts.map HostTask.subject =
      (ts.map HostTask.pair).map fun pair => marketSubject pair.exchange pair.symbol := by
    intro ts
    rw [List.map_map]
    rfl
  rw [consumers, consumers, hsubject, hsubject, h]

variable (engine) in
omit [CaseTable] in
/-- A turn takes a snapshot from a queue exactly if it gives it to the engine. -/
theorem turn_count (x : MarketSnapshot) (hpaused : t.host.paused = false) (k : ℕ)
    (fresh : TraceId) (utc : DateTime) :
    let host := (t.host.step engine k fresh utc).1
    host.paused = false ∧
      invocations x (t.observe engine k).2 + pending x host.tasks = pending x t.host.tasks := by
  rcases t.host.step_cases engine fresh utc k with ⟨hnone, hstep⟩ |
    ⟨task, out, outbox, htask, houtbox, hstep⟩ |
    ⟨task, snap, queue, htask, houtbox, hqueue, hstep⟩
  · rw [hstep, t.observe_idle engine hnone]
    exact ⟨hpaused, by simp [invocations]⟩
  · -- publishing leaves the queues alone
    rw [hstep]
    refine ⟨hpaused, ?_⟩
    have hset := Tasks.sum_map_set htask (fun task => task.queue.count x)
      { task with outbox := outbox }
    have hnone : invocations x (t.observe engine k).2 = 0 := by
      refine List.countP_eq_zero.2 ?_
      intro event hevent
      cases event with
      | handled pair snap outcome =>
        exact absurd hevent (t.not_handled_of_publish engine htask houtbox pair snap outcome)
      | published pair snap idx cmd => simp
    rw [hnone]
    unfold pending
    dsimp only at hset ⊢
    omega
  · rw [hstep]
    refine ⟨hpaused, ?_⟩
    have hset := Tasks.sum_map_set htask (fun task => task.queue.count x)
      { task with
        queue := queue
        outbox := (handleSnapshot engine t.host.engine t.host.paused task.pair snap fresh utc).2 }
    have hone : invocations x (t.observe engine k).2 = if snap = x then 1 else 0 := by
      simp [t.observe_take engine htask houtbox hqueue, hpaused, invocations, List.countP_cons]
    rw [hone]
    unfold pending
    dsimp only at hset ⊢
    rw [hqueue, List.count_cons] at hset
    by_cases hx : snap = x
    · simp only [hx, beq_self_eq_true, ↓reduceIte] at hset ⊢
      omega
    · simp only [beq_iff_eq, hx, ↓reduceIte] at hset ⊢
      omega

variable (engine) in
/-- **The step lemma of the counts.** -/
theorem traffic_step (x : MarketSnapshot) (hpaused : t.host.paused = false) {i : HostInput}
    (hi : i.IsTraffic) :
    let t' := (trackedHost engine).next t i
    t'.host.paused = false ∧
      invocations x ((trackedHost engine).emit t i) + pending x t'.host.tasks =
        pending x t.host.tasks + consumers x.subject t.host.tasks * deliveries x [i] := by
  cases i with
  | deliver y =>
    refine ⟨hpaused, ?_⟩
    show 0 + pending x (t.host.deliver y).tasks = _
    rw [zero_add, StrategyHost.deliver, pending_deliver]
    by_cases hyx : y = x <;> simp [deliveries, hyx]
  | turn k fresh utc =>
    obtain ⟨hrun, hcount⟩ := turn_count engine x hpaused k fresh utc
    refine ⟨hrun, ?_⟩
    rw [show deliveries x [.turn k fresh utc] = 0 from rfl, mul_zero, add_zero]
    exact hcount
  | pause => cases hi
  | resume => cases hi

variable (engine) in
/-- **Snapshots are conserved**: what has been given to the engine and what is pending add up to
what was pending and what has been published, once for every consumer of its subject. -/
theorem invocations_run (x : MarketSnapshot) (hpaused : t.host.paused = false)
    {is : List HostInput} (his : ∀ i ∈ is, i.IsTraffic) :
    let t' := (trackedHost engine).run t is
    t'.host.paused = false ∧
      t'.host.tasks.map HostTask.pair = t.host.tasks.map HostTask.pair ∧
      invocations x ((trackedHost engine).output t is) + pending x t'.host.tasks =
        pending x t.host.tasks + consumers x.subject t.host.tasks * deliveries x is := by
  refine Machine.history_induction (M := trackedHost engine) (Q := HostInput.IsTraffic)
    (P := fun h t' es => t'.host.paused = false ∧
      t'.host.tasks.map HostTask.pair = t.host.tasks.map HostTask.pair ∧
      invocations x es + pending x t'.host.tasks =
        pending x t.host.tasks + consumers x.subject t.host.tasks * deliveries x h)
    ⟨hpaused, rfl, by simp [invocations, deliveries]⟩ ?_ his
  rintro h t' es i ⟨hp, hpairs, hcount⟩ hi
  obtain ⟨hp', hcount'⟩ := traffic_step engine x hp hi
  refine ⟨hp', (pairs_step t' i).trans hpairs, ?_⟩
  have hsame := consumers_congr hpairs x.subject
  have hdeliveries : deliveries x (h ++ [i]) = deliveries x h + deliveries x [i] :=
    List.countP_append
  have hinvocations : ∀ fs, invocations x (es ++ fs) = invocations x es + invocations x fs :=
    fun fs => List.countP_append
  rw [hinvocations, hdeliveries, mul_add]
  rw [hsame] at hcount'
  omega

/-! ### Draining the queues -/

omit [CaseTable] in
/-- All snapshots in the queues. -/
def queued (tasks : List HostTask) : ℕ := (tasks.map fun task => task.queue.length).sum

variable (engine) in
theorem exists_drained (t : TrackedHost σ) :
    ∃ bs : List HostInput, (∀ i ∈ bs, i.IsTraffic) ∧ (∀ x, deliveries x bs = 0) ∧
      ∀ task ∈ ((trackedHost engine).run t bs).host.tasks, task.queue = [] := by
  -- on the snapshots in the queues, and then on the outbox of the task whose turn it is
  induction hn : queued t.host.tasks using Nat.strong_induction_on generalizing t with
  | _ n ih =>
    by_cases hdone : ∀ task ∈ t.host.tasks, task.queue = []
    · exact ⟨[], by simp, fun x => rfl, hdone⟩
    · push Not at hdone
      obtain ⟨task, htask, hqueue⟩ := hdone
      obtain ⟨k, hk⟩ := List.getElem?_of_mem htask
      clear htask
      induction hm : task.outbox.length generalizing t task with
      | zero =>
        obtain ⟨snap, queue, hsnap⟩ := List.exists_cons_of_ne_nil hqueue
        have houtbox := List.length_eq_zero_iff.1 hm
        have hstep := t.host.step_take engine "" 0 hk houtbox hsnap
        have hset := Tasks.sum_map_set hk (fun task => task.queue.length)
          { task with
            queue := queue
            outbox := (handleSnapshot engine t.host.engine t.host.paused task.pair snap "" 0).2 }
        have hless : queued ((trackedHost engine).next t (.turn k "" 0)).host.tasks < n := by
          show queued (t.host.step engine k "" 0).1.tasks < n
          rw [hstep, ← hn]
          unfold queued
          dsimp only at hset ⊢
          rw [hsnap, List.length_cons] at hset
          omega
        obtain ⟨bs, htraffic, hnone, hdrained⟩ := ih _ hless _ rfl
        refine ⟨.turn k "" 0 :: bs, ?_, hnone, hdrained⟩
        exact List.forall_mem_cons.2 ⟨trivial, htraffic⟩
      | succ m ihm =>
        obtain ⟨out, outbox, hout⟩ := List.exists_cons_of_length_eq_add_one hm
        have hstep := t.host.step_publish engine "" 0 hk hout
        have hset := Tasks.sum_map_set hk (fun task => task.queue.length)
          { task with outbox := outbox }
        have hlen : outbox.length = m := by
          rw [hout, List.length_cons] at hm
          omega
        have hsame : queued ((trackedHost engine).next t (.turn k "" 0)).host.tasks = n := by
          show queued (t.host.step engine k "" 0).1.tasks = n
          rw [hstep, ← hn]
          unfold queued
          dsimp only at hset ⊢
          omega
        have hget : ((trackedHost engine).next t (.turn k "" 0)).host.tasks[k]? =
            some { task with outbox := outbox } := by
          show (t.host.step engine k "" 0).1.tasks[k]? = _
          rw [hstep]
          exact List.getElem?_set_self (List.getElem?_eq_some_iff.1 hk).1
        obtain ⟨bs, htraffic, hnone, hdrained⟩ :=
          ihm _ hsame { task with outbox := outbox } hqueue hget hlen
        refine ⟨.turn k "" 0 :: bs, ?_, hnone, hdrained⟩
        exact List.forall_mem_cons.2 ⟨trivial, htraffic⟩

/-! ### The service -/

variable (engine) in
/-- A service after some calls, messages and steps of its tasks. -/
abbrev hostRun (state : σ) (subscriptions : List StrategySubscription)
    (is : List LifecycleInput) : HostService σ :=
  (hostService engine).run (.new state subscriptions) is

variable (engine) in
theorem tracked_idle {t : TrackedHost σ} (ht : t.host.tasks = []) (bs : List HostInput) :
    ((trackedHost engine).run t bs).host.tasks = [] ∧ (trackedHost engine).output t bs = [] := by
  refine Machine.history_induction (M := trackedHost engine) (Q := fun _ => True)
    (P := fun _ t es => t.host.tasks = [] ∧ es = []) ⟨ht, rfl⟩ ?_
    (fun (i : HostInput) (_ : i ∈ bs) => trivial)
  rintro h t es i ⟨hnil, rfl⟩ -
  cases i with
  | deliver y =>
    exact ⟨by simp [trackedHost, strategyHost, Machine.next, StrategyHost.deliver, hnil], rfl⟩
  | turn k fresh utc =>
    simp [trackedHost, strategyHost, Machine.next, Machine.emit, StrategyHost.step,
      TrackedHost.observe, hnil]
  | pause => exact ⟨hnil, rfl⟩
  | resume => exact ⟨hnil, rfl⟩

variable (engine) in
/-- While there is an outer task, or no consumer, the service handles messages as its host does. -/
theorem traffic_host {s : HostService σ} (hs : s.spawners ≠ [] ∨ s.tasks = [])
    (bs : List HostInput) :
    ((hostService engine).run s (bs.map .host)).tasks =
        ((trackedHost engine).run s.tracked bs).host.tasks ∧
      (hostService engine).output s (bs.map .host) =
        (trackedHost engine).output s.tracked bs := by
  by_cases hnil : s.spawners = []
  · -- messages are lost, and there is nobody to hear them
    have hidle : ∀ i ∈ bs.map LifecycleInput.host, (hostService engine).step s i = (s, []) := by
      intro i hi
      obtain ⟨b, -, rfl⟩ := List.mem_map.1 hi
      simp [hostService, hnil]
    have hrun : (hostService engine).run s (bs.map .host) = s := by
      refine Machine.run_invariant (M := hostService engine) (P := fun t => t = s)
        (Q := fun i => (hostService engine).step s i = (s, [])) rfl ?_ hidle
      rintro _ i rfl hi
      rw [Machine.next, hi]
    obtain ⟨htasks, hout⟩ := tracked_idle engine (hs.resolve_left (not_not.2 hnil)) bs
    rw [hrun, Machine.output_idle hidle, htasks, hout]
    exact ⟨hs.resolve_left (not_not.2 hnil), rfl⟩
  · clear hs
    induction bs generalizing s with
    | nil => exact ⟨rfl, rfl⟩
    | cons b bs ih =>
      have hstep : (hostService engine).step s (.host b) =
          ({ s with tracked := ((trackedHost engine).step s.tracked b).1 },
            ((trackedHost engine).step s.tracked b).2) := by
        simp only [hostService, if_neg hnil]
      obtain ⟨htasks, hout⟩ :=
        ih (s := { s with tracked := ((trackedHost engine).step s.tracked b).1 }) hnil
      rw [List.map_cons, Machine.run_cons, Machine.output_cons, Machine.next, Machine.emit, hstep,
        htasks, hout]
      exact ⟨rfl, rfl⟩

/-- Every snapshot that is published and worked off is given to the engine `n` times, besides the
pending ones. -/
def GivenTimes (engine : StrategyEngine σ) (s : HostService σ) (n : ℕ) (x : MarketSnapshot) :
    Prop :=
  ∀ bs : List HostInput, (∀ i ∈ bs, i.IsTraffic) →
    (∀ task ∈ ((hostService engine).run s (bs.map .host)).tasks, task.queue = []) →
      invocations x ((hostService engine).output s (bs.map .host)) =
        pending x s.tasks + n * deliveries x bs

omit [CaseTable] in
/-- The last call of `start` or `stop`, if there is one: whether it was `start`. -/
def lastCall (is : List LifecycleInput) : Option Bool :=
  (is.filterMap fun
    | .start => some true
    | .stop => some false
    | _ => none).getLast?

/-- After a start, snapshots of a subscribed subject are given to the engine once; after a stop,
none are, and no order is published. -/
def LifecycleSound (engine : StrategyEngine σ) (state : σ)
    (subscriptions : List StrategySubscription) (is : List LifecycleInput) : Prop :=
  let s := hostRun engine state subscriptions is
  match lastCall is with
  | none => True
  | some true => ∀ x, 0 < consumers x.subject s.tasks → GivenTimes engine s 1 x
  | some false => (∀ x, GivenTimes engine s 0 x) ∧
      ∀ bs : List HostInput, (∀ i ∈ bs, i.IsTraffic) →
        HostEvent.orders ((hostService engine).output s (bs.map .host)) = []

/-- Snapshots are given to the engine once for every consumer of their subject. -/
theorem givenTimes_iff {s : HostService σ} (hs : s.spawners ≠ [] ∨ s.tasks = [])
    (hpaused : s.tracked.host.paused = false) (n : ℕ) (x : MarketSnapshot) :
    GivenTimes engine s n x ↔ consumers x.subject s.tasks = n := by
  have hcount : ∀ bs : List HostInput, (∀ i ∈ bs, i.IsTraffic) →
      (∀ task ∈ ((hostService engine).run s (bs.map .host)).tasks, task.queue = []) →
      invocations x ((hostService engine).output s (bs.map .host)) =
        pending x s.tasks + consumers x.subject s.tasks * deliveries x bs := by
    intro bs hbs hdrained
    obtain ⟨htasks, hout⟩ := traffic_host engine hs bs
    obtain ⟨-, -, hsum⟩ := invocations_run engine x hpaused hbs
    have hzero : pending x ((hostService engine).run s (bs.map .host)).tasks = 0 := by
      refine List.sum_eq_zero ?_
      intro c hc
      obtain ⟨task, htask, rfl⟩ := List.mem_map.1 hc
      rw [hdrained task htask, List.count_nil]
    rw [htasks] at hzero
    rw [hzero, add_zero] at hsum
    rw [hout]
    exact hsum
  constructor
  · intro h
    -- publish the snapshot once, and work it off
    obtain ⟨bs, htraffic, hnone, hdrained⟩ := exists_drained engine
      ((trackedHost engine).next s.tracked (.deliver x))
    have hbs : ∀ i ∈ HostInput.deliver x :: bs, i.IsTraffic :=
      List.forall_mem_cons.2 ⟨trivial, htraffic⟩
    have hdrained' : ∀ task ∈ ((hostService engine).run s
        ((HostInput.deliver x :: bs).map .host)).tasks, task.queue = [] := by
      rw [(traffic_host engine hs _).1]
      exact hdrained
    have hone : deliveries x (HostInput.deliver x :: bs) = 1 := by
      have hrest := hnone x
      unfold deliveries at hrest ⊢
      rw [List.countP_cons, hrest]
      simp
    have hgiven := (h _ hbs hdrained').symm.trans (hcount _ hbs hdrained')
    rw [hone] at hgiven
    omega
  · rintro rfl bs hbs hdrained
    exact hcount bs hbs hdrained

variable (engine) in
theorem spawners_run (state : σ) (subscriptions : List StrategySubscription)
    (is : List LifecycleInput) :
    (hostRun engine state subscriptions is).spawners ≠ [] ∨
      (hostRun engine state subscriptions is).tasks = [] := by
  refine Machine.run_invariant (M := hostService engine) (Q := fun _ => True)
    (P := fun s => s.spawners ≠ [] ∨ s.tasks = []) (Or.inr rfl) ?_
    (fun (i : LifecycleInput) (_ : i ∈ is) => trivial)
  intro s i hs _
  unfold Machine.next hostService
  cases i with
  | start => exact Or.inl (List.append_ne_nil_of_right_ne_nil _ (List.cons_ne_nil _ _))
  | stop =>
    dsimp only [HostService.stop]
    cases s.taskHandle with
    | none => exact hs
    | some j => exact hs.imp (fun h => by simpa using h) id
  | subscribe j =>
    dsimp only [HostService.subscribe]
    split
    · refine Or.inl ?_
      rename_i h
      intro hnil
      rw [List.set_eq_nil_iff] at hnil
      rw [hnil] at h
      simp at h
    · exact hs
  | cancel j =>
    dsimp only [HostService.cancel]
    split
    · exact hs.imp (fun h => by simpa using h) id
    · exact hs
  | configUpdate bot =>
    dsimp only
    split_ifs <;> exact hs
  | host i =>
    dsimp only
    split_ifs with hnil
    · exact hs
    · exact Or.inl hnil

/-- **The lifecycle is a matter of the consumers**: after a start it is sound iff no subject has
two of them, after a stop iff there are none. -/
theorem lifecycleSound_consumers (state : σ) (subscriptions : List StrategySubscription)
    (is : List LifecycleInput)
    (hpaused : (hostRun engine state subscriptions is).tracked.host.paused = false) :
    LifecycleSound engine state subscriptions is ↔
      match lastCall is with
      | none => True
      | some true => ((hostRun engine state subscriptions is).tasks.map HostTask.subject).Nodup
      | some false => (hostRun engine state subscriptions is).tasks = [] := by
  have hs := spawners_run engine state subscriptions is
  unfold LifecycleSound
  generalize hostRun engine state subscriptions is = s at hpaused hs
  -- a snapshot of the market of a task
  let observed (task : HostTask) : MarketSnapshot :=
    { ts := 0, exchange := task.pair.exchange, symbol := task.pair.symbol, last := 0, bid := 0
      ask := 0, volume24h := 0, traceId := none }
  have hpos : ∀ task ∈ s.tasks, 0 < consumers (observed task).subject s.tasks := by
    intro task htask
    exact List.count_pos_iff.2 (List.mem_map_of_mem htask)
  match lastCall is with
  | none => exact Iff.rfl
  | some true =>
    simp only [givenTimes_iff hs hpaused]
    rw [List.nodup_iff_count_le_one]
    constructor
    · intro h subject
      by_cases hmem : subject ∈ s.tasks.map HostTask.subject
      · obtain ⟨task, htask, rfl⟩ := List.mem_map.1 hmem
        exact (h (observed task) (hpos task htask)).le
      · rw [List.count_eq_zero.2 hmem]
        exact Nat.zero_le 1
    · intro h x hx
      exact le_antisymm (h x.subject) hx
  | some false =>
    simp only [givenTimes_iff hs hpaused]
    constructor
    · rintro ⟨h, -⟩
      by_contra hne
      obtain ⟨task, htask⟩ := List.exists_mem_of_ne_nil _ hne
      exact (hpos task htask).ne' (h (observed task))
    · intro hnil
      refine ⟨fun x => by rw [hnil]; rfl, ?_⟩
      intro bs _
      rw [(traffic_host engine hs bs).2, (tracked_idle engine hnil bs).2]
      rfl

/-! ### All starts -/

omit [CaseTable] in
/-- What the calls and messages of a history come to: the configured subscriptions, whether the
service listens for updates of them, and the subscriptions of all starts. -/
structure Starts where
  subscriptions : List StrategySubscription
  listening : Bool
  all : List StrategySubscription

omit [CaseTable] in
/-- A start subscribes to what is configured; messages are heard from the first start on. -/
def Starts.next (r : Starts) : LifecycleInput → Starts
  | .start => { r with listening := true, all := r.all ++ r.subscriptions }
  | .configUpdate bot =>
    if r.listening then { r with subscriptions := bot.pairs.map StrategySubscription.ofPair }
    else r
  | _ => r

omit [CaseTable] in
/-- The account of a history. -/
def Starts.of (subscriptions : List StrategySubscription) (is : List LifecycleInput) : Starts :=
  is.foldl Starts.next { subscriptions := subscriptions, listening := false, all := [] }

omit [CaseTable] in
/-- The subscriptions of all starts. -/
def startedBy (subscriptions : List StrategySubscription) (is : List LifecycleInput) :
    List StrategySubscription :=
  (Starts.of subscriptions is).all

/-- Nobody calls `stop` while an outer task is still subscribing. -/
def StopsSettled (engine : StrategyEngine σ) (state : σ)
    (subscriptions : List StrategySubscription) (is : List LifecycleInput) : Prop :=
  Always (fun pre i => i = .stop → (hostRun engine state subscriptions pre).Settled) is

omit [CaseTable] in
/-- What the outer tasks have still to subscribe to. -/
def HostService.toSubscribe (s : HostService σ) : List StrategySubscription :=
  s.spawners.flatMap Spawner.remaining

omit [CaseTable] in
/-- The market of a subscription. -/
def StrategySubscription.toPair (sub : StrategySubscription) : PairId where
  exchange := sub.exchange
  symbol := sub.symbol

omit [CaseTable] in
/-- The account `r` is right about a service. -/
structure Starts.Right (r : Starts) (s : HostService σ) : Prop where
  subscriptions : s.subscriptions = r.subscriptions
  listening : s.spawners = [] ↔ r.listening = false
  /-- What has been started has a consumer or will have one. -/
  pairs : (s.tasks.map HostTask.pair ++ s.toSubscribe.map StrategySubscription.toPair).Perm
    (r.all.map StrategySubscription.toPair)
  /-- Only outer tasks that were done have been stopped. -/
  aborted : ∀ spawner ∈ s.spawners, spawner.aborted = true → spawner.remaining = []

omit [CaseTable] in
/-- An outer task that subscribes has one market less to subscribe to. -/
theorem flatMap_remaining_set {spawners : List Spawner} {j : ℕ} {sub : StrategySubscription}
    {remaining : List StrategySubscription} {aborted : Bool}
    (h : spawners[j]? = some ⟨sub :: remaining, aborted⟩) :
    (spawners.flatMap Spawner.remaining).Perm
      (sub :: (spawners.set j ⟨remaining, aborted⟩).flatMap Spawner.remaining) := by
  induction spawners generalizing j with
  | nil => simp at h
  | cons spawner spawners ih =>
    cases j with
    | zero =>
      simp only [List.getElem?_cons_zero, Option.some.injEq] at h
      subst h
      exact List.Perm.refl _
    | succ j =>
      have htail := ih (by simpa using h)
      exact (htail.append_left spawner.remaining).trans List.perm_middle

omit [CaseTable] in
theorem HostService.Settled.toSubscribe {s : HostService σ} (hs : s.Settled) :
    s.toSubscribe = [] :=
  List.flatMap_eq_nil_iff.2 hs

omit [CaseTable] in
/-- Telling an outer task to stop does not change what the tasks have to do. -/
theorem remaining_modify (spawners : List Spawner) (j : ℕ) :
    (spawners.modify j fun spawner => { spawner with aborted := true }).map Spawner.remaining =
      spawners.map Spawner.remaining :=
  Tasks.map_modify (f := Spawner.remaining)
    (g := fun spawner => { spawner with aborted := true }) (fun _ => rfl) spawners j

omit [CaseTable] in
theorem Starts.Right.stop {r : Starts} {s : HostService σ} (hr : r.Right s) (hs : s.Settled) :
    r.Right s.stop := by
  unfold HostService.stop
  cases s.taskHandle with
  | none => exact hr
  | some j =>
    have hdone : ∀ spawner ∈ s.spawners.modify j fun spawner => { spawner with aborted := true },
        spawner.remaining = [] := by
      intro spawner hmem
      have hmap := List.mem_map_of_mem (f := Spawner.remaining) hmem
      rw [remaining_modify] at hmap
      obtain ⟨old, hold, heq⟩ := List.mem_map.1 hmap
      exact heq.symm.trans (hs old hold)
    refine ⟨hr.subscriptions, ?_, ?_, ?_⟩
    · rw [← hr.listening]
      exact List.modify_eq_nil_iff
    · have hnone : s.toSubscribe = [] := hs.toSubscribe
      have hnone' := List.flatMap_eq_nil_iff.2 hdone
      have hpairs := hr.pairs
      rw [hnone] at hpairs
      rw [HostService.toSubscribe, hnone']
      exact hpairs
    · intro spawner hmem _
      exact hdone spawner hmem

omit [CaseTable] in
/-- An outer task that subscribes turns a market it has to subscribe to into a consumer. -/
theorem HostService.pairs_subscribe (s : HostService σ) (j : ℕ) :
    ((s.subscribe j).tasks.map HostTask.pair ++
        (s.subscribe j).toSubscribe.map StrategySubscription.toPair).Perm
      (s.tasks.map HostTask.pair ++ s.toSubscribe.map StrategySubscription.toPair) := by
  unfold HostService.subscribe
  split
  · rename_i sub remaining aborted hspawner
    have hperm := (flatMap_remaining_set hspawner).map StrategySubscription.toPair
    rw [List.map_append, List.append_assoc]
    exact (hperm.symm).append_left _
  · exact List.Perm.refl _

omit [CaseTable] in
theorem Starts.Right.subscribe {r : Starts} {s : HostService σ} (hr : r.Right s) (j : ℕ) :
    r.Right (s.subscribe j) := by
  have hpairs := (s.pairs_subscribe j).trans hr.pairs
  revert hpairs
  unfold HostService.subscribe
  split
  · intro hpairs
    rename_i sub remaining aborted hspawner
    refine ⟨hr.subscriptions, ?_, hpairs, ?_⟩
    · rw [← hr.listening]
      exact List.set_eq_nil_iff _ _
    · intro spawner hmem haborted
      rcases List.mem_or_eq_of_mem_set hmem with hmem | rfl
      · exact hr.aborted spawner hmem haborted
      · -- a task that still has something to subscribe to has not been stopped
        have hnil := hr.aborted _ (List.mem_of_getElem? hspawner) haborted
        cases hnil
  · intro _
    exact hr

omit [CaseTable] in
/-- An outer task notices that it has been stopped: it had been done. -/
theorem Starts.Right.cancel {r : Starts} {s : HostService σ} (hr : r.Right s) (j : ℕ) :
    r.Right (s.cancel j) := by
  unfold HostService.cancel
  split
  · rename_i remaining hspawner
    have hnil : remaining = [] := hr.aborted _ (List.mem_of_getElem? hspawner) rfl
    subst hnil
    have hsame : s.spawners.set j ⟨[], true⟩ = s.spawners := by
      obtain ⟨hlt, hget⟩ := List.getElem?_eq_some_iff.1 hspawner
      rw [← hget]
      exact List.set_getElem_self hlt
    rw [hsame]
    exact hr
  · exact hr

/-- **The step lemma of the account.** -/
theorem Starts.Right.step {r : Starts} {s : HostService σ} (hr : r.Right s)
    {i : LifecycleInput} (hi : i = .stop → s.Settled) :
    (r.next i).Right ((hostService engine).next s i) := by
  cases i with
  | start =>
    refine ⟨hr.subscriptions, ?_, ?_, ?_⟩
    · simp [hostService, Machine.next, HostService.start, Starts.next]
    · have hpairs := hr.pairs.append_right (r.subscriptions.map StrategySubscription.toPair)
      simpa [hostService, Machine.next, HostService.start, Starts.next, HostService.toSubscribe,
        hr.subscriptions] using hpairs
    · intro spawner hmem haborted
      rcases List.mem_append.1 hmem with hmem | hmem
      · exact hr.aborted spawner hmem haborted
      · rw [List.mem_singleton.1 hmem] at haborted
        cases haborted
  | stop => exact hr.stop (hi rfl)
  | subscribe j => exact hr.subscribe j
  | cancel j => exact hr.cancel j
  | configUpdate bot =>
    by_cases hnil : s.spawners = []
    · have hdeaf := hr.listening.1 hnil
      simpa [hostService, Machine.next, Starts.next, hnil, hdeaf] using hr
    · have hhears : r.listening = true := by
        rw [← Bool.not_eq_false, ← hr.listening]
        exact hnil
      have hnext : r.next (.configUpdate bot) =
          { r with subscriptions := bot.pairs.map StrategySubscription.ofPair } :=
        if_pos hhears
      have hstate : (hostService engine).next s (.configUpdate bot) =
          { s with subscriptions := bot.pairs.map StrategySubscription.ofPair } :=
        if_neg hnil
      rw [hnext, hstate]
      exact ⟨rfl, hr.listening, hr.pairs, hr.aborted⟩
  | host i =>
    by_cases hnil : s.spawners = []
    · have hstate : (hostService engine).next s (.host i) = s := by
        simp [hostService, Machine.next, hnil]
      rw [hstate]
      exact hr
    · have hstate : (hostService engine).next s (.host i) =
          { s with tracked := (trackedHost engine).next s.tracked i } := by
        simp [hostService, Machine.next, hnil]
      rw [hstate]
      refine ⟨hr.subscriptions, hr.listening, ?_, hr.aborted⟩
      show (((trackedHost engine).next s.tracked i).host.tasks.map HostTask.pair ++ _).Perm _
      rw [pairs_step]
      exact hr.pairs

variable (engine) in
theorem Starts.right_run (state : σ) (subscriptions : List StrategySubscription)
    {is : List LifecycleInput} (his : StopsSettled engine state subscriptions is) :
    (Starts.of subscriptions is).Right (hostRun engine state subscriptions is) := by
  induction is using List.reverseRecOn with
  | nil => exact ⟨rfl, by simp [Starts.of, HostService.new], List.Perm.refl _, by
      intro spawner hmem
      cases hmem⟩
  | append_singleton is i ih =>
    obtain ⟨hpre, hi⟩ := always_concat.1 his
    rw [hostRun, Machine.run_concat, Starts.of, List.foldl_concat]
    exact (ih hpre).step hi

/-- **The consumers are those of all starts**, when nobody stops while subscriptions are made. -/
theorem pairs_run (state : σ) (subscriptions : List StrategySubscription)
    {is : List LifecycleInput} (his : StopsSettled engine state subscriptions is)
    (hsettled : (hostRun engine state subscriptions is).Settled) :
    ((hostRun engine state subscriptions is).tasks.map HostTask.pair).Perm
      ((startedBy subscriptions is).map StrategySubscription.toPair) := by
  have hpairs := (Starts.right_run engine state subscriptions his).pairs
  rwa [hsettled.toSubscribe, List.map_nil, List.append_nil] at hpairs

/-! ### When the lifecycle is sound -/

/-- **When the lifecycle is sound**: once the subscriptions are settled, exactly if after a start
no subject has two consumers, and after a stop there is no consumer.  If nobody has called `stop`
while an outer task was subscribing, this means that over all starts together no subject has been
subscribed to twice, and that nothing has ever been subscribed to. -/
theorem lifecycleSound_iff (engine : StrategyEngine σ) (state : σ)
    (subscriptions : List StrategySubscription) (is : List LifecycleInput)
    (hsettled : (hostRun engine state subscriptions is).Settled)
    (hpaused : (hostRun engine state subscriptions is).tracked.host.paused = false) :
    (LifecycleSound engine state subscriptions is ↔
      match lastCall is with
      | none => True
      | some true => ((hostRun engine state subscriptions is).tasks.map HostTask.subject).Nodup
      | some false => (hostRun engine state subscriptions is).tasks = []) ∧
    (StopsSettled engine state subscriptions is →
      (LifecycleSound engine state subscriptions is ↔
        match lastCall is with
        | none => True
        | some true => ((startedBy subscriptions is).map fun sub =>
            marketSubject sub.exchange sub.symbol).Nodup
        | some false => startedBy subscriptions is = [])) := by
  have hconsumers := lifecycleSound_consumers state subscriptions is hpaused
  refine ⟨hconsumers, ?_⟩
  intro hstops
  rw [hconsumers]
  have hpairs := pairs_run state subscriptions hstops hsettled
  match lastCall is with
  | none => exact Iff.rfl
  | some true =>
    have hsubjects := hpairs.map fun pair : PairId => marketSubject pair.exchange pair.symbol
    rw [List.map_map, List.map_map] at hsubjects
    exact hsubjects.nodup_iff
  | some false =>
    have hlength := hpairs.length_eq
    rw [List.length_map, List.length_map] at hlength
    dsimp only
    rw [← List.length_eq_zero_iff, ← List.length_eq_zero_iff, hlength]

end Lifecycle

/-- A start whose outer task subscribes to both markets. -/
def startTwoMarkets : List LifecycleInput := [.start, .subscribe 0, .subscribe 0]

theorem lifecycleSound_iff_sample :
    @LifecycleSound asciiCase Unit buyer () twoMarkets startTwoMarkets := by
  have hsettled : (@hostRun asciiCase Unit buyer () twoMarkets startTwoMarkets).Settled := by
    unfold HostService.Settled
    decide
  have hstops : @StopsSettled asciiCase Unit buyer () twoMarkets startTwoMarkets := by
    rintro pre i post h rfl
    have hmem : LifecycleInput.stop ∈ startTwoMarkets := h ▸ by simp
    simp [startTwoMarkets] at hmem
  have hiff := @lifecycleSound_iff asciiCase Unit buyer () twoMarkets startTwoMarkets hsettled rfl
  refine (hiff.2 hstops).2 ?_
  show List.Nodup _
  decide

/-- **`stop` does not stop the strategy**: an order is published for a snapshot that arrives after
it.  A second start has every snapshot handled twice. -/
theorem not_lifecycleSound :
    ¬ @LifecycleSound asciiCase Unit buyer () twoMarkets (startTwoMarkets ++ [.stop]) ∧
      ¬ @LifecycleSound asciiCase Unit buyer () twoMarkets
        (startTwoMarkets ++ [.start, .subscribe 1, .subscribe 1]) := by
  constructor
  · rintro ⟨-, h⟩
    have hsilent := h [.deliver (sampleSnapshot "BTC" 0), .turn 0 "" 0, .turn 0 "" 0]
      (by simp [HostInput.IsTraffic])
    revert hsilent
    decide
  · rw [@lifecycleSound_consumers asciiCase Unit buyer () twoMarkets _ rfl]
    show ¬ List.Nodup _
    decide

end W2uos
