import W2uos.Backtest.Engine
import W2uos.Backtest.Result
import W2uos.System.Interleaving
import W2uos.System.Tasks

/-!
# The status of backtests

`main` gives one `BacktestStatus` to two services: the coordinator, which starts a backtest on
request, and the kernel service, which starts one with the node.  Every start spawns a task that
runs an engine, and all of them write the one status.  The guard of the coordinator knows its own
task only, and it is that task which resets the status, some time after the start has returned.

A task moves from one write of the status to the next.  What the store, the bus and the metrics
answer comes with its steps.

* `BacktestNode.OneRun` : what the sound steps keep;
* `status_of_one_run` : with sound steps, one engine replays, and no poll sees an earlier run;
* `BacktestNode.Flagged` : what every step keeps about the flag;
* `ended_running_iff` : exactly when a backtest that has ended is not reported as running.
-/

namespace W2uos

/-- What is reported of backtests. -/
structure BacktestStatus where
  running : Bool
  progress : ℚ
  currentTs : Option DateTime
  result : Option BacktestResult
  deriving DecidableEq

/-- `BacktestStatus::default`. -/
def BacktestStatus.default : BacktestStatus where
  running := false
  progress := 0
  currentTs := none
  result := none

/-- The service that has spawned a task. -/
inductive BacktestOwner
  | kernel
  | coordinator
  deriving DecidableEq

/-- Where a task is: spawned by the coordinator, but not at work; loading the symbols that are
left; about to publish the next snapshot, or to read the metrics; about to report the snapshot it
has published; returned from the engine; at its end. -/
inductive TaskState
  | spawned (symbols : List Symbol)
  | loading (symbols : List Symbol) (allSnaps : List MarketSnapshot)
  | replaying (snaps : List MarketSnapshot) (idx total : ℕ)
  | published (snap : MarketSnapshot) (snaps : List MarketSnapshot) (idx total : ℕ)
  | returned (result : Except String BacktestResult)
  | ended

/-- A task that runs an engine. -/
structure BacktestTask where
  owner : BacktestOwner
  state : TaskState
  /-- How many snapshots it has reported; nobody reads this. -/
  reports : ℕ

/-- The steps of a task, with what the store, the bus and the metrics answer.  A snapshot that
cannot be serialized is not published. -/
inductive TaskEvent
  | reset
  | load (answer : Except String (List MarketSnapshot))
  | sort
  | publish (answer : Except String Unit)
  | report
  | finish (result : BacktestResult)
  | settle

/-- A write of the status: by the coordinator's task before its engine runs, by an engine after a
snapshot and at its end, and by the coordinator's task when the engine has returned. -/
inductive StatusWrite
  | reset
  | report (progress : ℚ) (ts : DateTime)
  | finish (result : BacktestResult)
  | settle (result : BacktestResult)

/-- The status after a write. -/
def StatusWrite.apply (status : BacktestStatus) : StatusWrite → BacktestStatus
  | .reset => { status with running := true, progress := 0, result := none }
  | .report progress ts =>
    { status with running := true, progress := progress, currentTs := some ts }
  | .finish result => { status with running := false, progress := 1, result := some result }
  | .settle result => { status with result := some result }

namespace BacktestTask

/-- One step of a task, with its write of the status, if there is one. -/
def step (task : BacktestTask) (event : TaskEvent) : Option (BacktestTask × Option StatusWrite) :=
  match task.state, event with
  | .spawned symbols, .reset => some ({ task with state := .loading symbols [] }, some .reset)
  | .loading (_ :: symbols) allSnaps, .load (.ok snaps) =>
    some ({ task with state := .loading symbols (allSnaps ++ snaps) }, none)
  | .loading (_ :: _) _, .load (.error err) =>
    some ({ task with state := .returned (.error err) }, none)
  | .loading [] allSnaps, .sort =>
    some
      ({ task with
          state := .replaying (allSnaps.insertionSort fun a b => a.ts ≤ b.ts) 0
            (max allSnaps.length 1) }, none)
  | .replaying (snap :: snaps) idx total, .publish (.ok ()) =>
    some ({ task with state := .published snap snaps idx total }, none)
  | .replaying (_ :: _) _ _, .publish (.error err) =>
    some ({ task with state := .returned (.error err) }, none)
  | .published snap snaps idx total, .report =>
    some ({ task with state := .replaying snaps (idx + 1) total, reports := task.reports + 1 },
      some (.report ((idx + 1 : ℚ) / total) snap.ts))
  | .replaying [] _ _, .finish result =>
    some ({ task with state := .returned (.ok result) }, some (.finish result))
  | .returned (.ok result), .settle =>
    some ({ task with state := .ended },
      if task.owner = .coordinator then some (.settle result) else none)
  | .returned (.error _), .settle => some ({ task with state := .ended }, none)
  | _, _ => none

end BacktestTask

/-- The task that has last written each field of the status. -/
structure StatusWriters where
  running : Option ℕ
  progress : Option ℕ
  currentTs : Option ℕ
  result : Option ℕ

/-- The writers after a write of the task `k`. -/
def StatusWrite.note (k : ℕ) (writers : StatusWriters) : StatusWrite → StatusWriters
  | .reset => { writers with running := some k, progress := some k, result := some k }
  | .report _ _ => { writers with running := some k, progress := some k, currentTs := some k }
  | .finish _ => { writers with running := some k, progress := some k, result := some k }
  | .settle _ => { writers with result := some k }

/-- The two services with their tasks and the status they share.  The tasks are kept in the order in
which they have been spawned. -/
structure BacktestNode where
  status : BacktestStatus
  tasks : List BacktestTask
  /-- The task the coordinator has the handle of. -/
  handle : Option ℕ
  /-- Who has written the status; nobody reads this. -/
  writers : StatusWriters

/-- A node that has not started a backtest yet. -/
def BacktestNode.init : BacktestNode where
  status := BacktestStatus.default
  tasks := []
  handle := none
  writers := ⟨none, none, none, none⟩

/-- What happens in the node: a start by the kernel service, a request to the coordinator, a step of
a task, and a poll of the status. -/
inductive BacktestAction
  | kernelStart (symbols : List Symbol)
  | coordinatorStart (symbols : List Symbol)
  | task (k : ℕ) (event : TaskEvent)
  | poll

/-- The task is in the run of its engine. -/
def TaskState.replays : TaskState → Bool
  | .loading _ _ => true
  | .replaying _ _ _ => true
  | .published _ _ _ _ => true
  | _ => false

/-- The task is in the run of its engine, or comes to it. -/
def TaskState.active : TaskState → Bool
  | .spawned _ => true
  | state => state.replays

/-- The task has ended (`JoinHandle::is_finished`). -/
def TaskState.isFinished : TaskState → Bool
  | .ended => true
  | _ => false

namespace BacktestNode

/-- The task the coordinator has the handle of has not ended. -/
def busy (s : BacktestNode) : Bool :=
  (s.handle.bind fun k => s.tasks[k]?).any fun task => !task.state.isFinished

/-- One action in the node.  A request while the coordinator is busy is turned down. -/
def step (s : BacktestNode) : BacktestAction → Option BacktestNode
  | .kernelStart symbols =>
    some { s with tasks := s.tasks ++ [⟨.kernel, .loading symbols [], 0⟩] }
  | .coordinatorStart symbols =>
    if s.busy then some s
    else
      some
        { s with
          tasks := s.tasks ++ [⟨.coordinator, .spawned symbols, 0⟩]
          handle := some s.tasks.length }
  | .task k event => do
    let task ← s.tasks[k]?
    let (task, write) ← task.step event
    match write with
    | none => some { s with tasks := s.tasks.set k task }
    | some write =>
      some
        { s with
          tasks := s.tasks.set k task
          status := write.apply s.status
          writers := write.note k s.writers }
  | .poll => some s

/-- At most one engine is replaying. -/
def Exclusive (s : BacktestNode) : Prop :=
  ∀ (i j : ℕ) (task other : BacktestTask),
    s.tasks[i]? = some task → s.tasks[j]? = some other → task.state.replays = true →
    other.state.replays = true → i = j

/-- The status has the progress, the time or the result of a run before the last start of the
coordinator. -/
def Stale (s : BacktestNode) : Prop :=
  ∃ k, s.handle = some k ∧ ∃ j < k, s.writers.progress = some j ∨ s.writers.currentTs = some j ∨
    s.writers.result = some j

/-- What a step has to meet.  The kernel service starts an engine when no other is replaying or is
to; the coordinator starts one, if it does, when no engine of the kernel service is; and the status
is not polled before the last task of the coordinator has reset it, if an earlier task has written
it, nor before that task has reported a snapshot, if an earlier task has. -/
def Sound (s : BacktestNode) : BacktestAction → Prop
  | .kernelStart _ => ∀ task ∈ s.tasks, task.state.active = false
  | .coordinatorStart _ => s.busy = false →
    ∀ task ∈ s.tasks, task.owner = .kernel → task.state.active = false
  | .task _ _ => True
  | .poll => ∀ k task, s.handle = some k → s.tasks[k]? = some task →
    (∀ symbols, task.state = .spawned symbols →
      ∀ j < k, s.writers.progress ≠ some j ∧ s.writers.result ≠ some j) ∧
    (task.reports = 0 → ∀ j < k, s.writers.currentTs ≠ some j)

end BacktestNode

/-- The two services, their tasks and the polls of the status. -/
def backtests : Interleaving BacktestNode BacktestAction where
  step := BacktestNode.step

/-! ### One step of a task -/

namespace BacktestTask

variable {task task' : BacktestTask} {event : TaskEvent} {write : Option StatusWrite}

/-- **What a step of a task can do**: its owner stays, it has not ended, an engine that replays was
replaying or to replay, and no task comes back to where it was spawned. -/
theorem step_frame (h : task.step event = some (task', write)) :
    task'.owner = task.owner ∧ task.state.isFinished = false ∧
      (task'.state.active = true → task.state.active = true) ∧
      ∀ symbols, task'.state ≠ .spawned symbols := by
  unfold step at h
  split at h <;> cases h <;> simp_all [TaskState.isFinished, TaskState.active, TaskState.replays]

theorem step_write (h : task.step event = some (task', write)) (hwrite : write ≠ none) :
    task.state.active = true ∨ task.owner = .coordinator := by
  unfold step at h
  split at h <;> cases h <;> simp_all [TaskState.active, TaskState.replays]

/-- A task that has been reset, or has reported, has written that, now or before. -/
theorem step_writes (h : task.step event = some (task', write)) :
    ((∃ symbols, task.state = .spawned symbols) → write = some .reset) ∧
      (task'.reports = task.reports ∨
        task'.reports = task.reports + 1 ∧ ∃ progress ts, write = some (.report progress ts)) := by
  unfold step at h
  split at h <;> cases h <;> simp_all

end BacktestTask

/-! ### One run at a time -/

/-- The task does not write the status any more. -/
def BacktestTask.Quiet (task : BacktestTask) : Prop :=
  task.state.active = false ∧ (task.owner = .coordinator → task.state.isFinished = true)

/-- The field was last written by the task `k` or a later one. -/
def WrittenSince (k : ℕ) (writer : Option ℕ) : Prop := ∃ j, writer = some j ∧ k ≤ j

namespace BacktestNode

/-- What the sound steps keep. -/
structure OneRun (s : BacktestNode) : Prop where
  active : ∀ (i j : ℕ) (task other : BacktestTask),
    s.tasks[i]? = some task → s.tasks[j]? = some other → task.state.active = true →
    other.state.active = true → i = j
  others : ∀ (i : ℕ) (task : BacktestTask), s.tasks[i]? = some task → task.owner = .coordinator →
    s.handle ≠ some i → task.state.isFinished = true
  handle : ∀ k, s.handle = some k → ∃ task, s.tasks[k]? = some task
  quiet : ∀ k, s.handle = some k → ∀ j < k, ∀ task, s.tasks[j]? = some task → task.Quiet
  reset : ∀ k task, s.handle = some k → s.tasks[k]? = some task →
    (∀ symbols, task.state ≠ .spawned symbols) →
    WrittenSince k s.writers.progress ∧ WrittenSince k s.writers.result
  reported : ∀ k task, s.handle = some k → s.tasks[k]? = some task → 0 < task.reports →
    WrittenSince k s.writers.currentTs

theorem OneRun.init : OneRun .init := by
  constructor <;> simp [BacktestNode.init]

variable {s s' : BacktestNode}

theorem OneRun.exclusive (h : s.OneRun) : s.Exclusive := by
  intro i j task other hi hj htask hother
  have hactive : ∀ state : TaskState, state.replays = true → state.active = true := by
    intro state hstate
    cases state <;> simp_all [TaskState.active, TaskState.replays]
  exact h.active i j task other hi hj (hactive _ htask) (hactive _ hother)

theorem OneRun.poll (h : s.OneRun) (hsound : s.Sound .poll) : ¬ s.Stale := by
  rintro ⟨k, hk, j, hj, hstale⟩
  obtain ⟨task, htask⟩ := h.handle k hk
  obtain ⟨hspawned, hreports⟩ := hsound k task hk htask
  have hlate : ∀ {writer : Option ℕ}, WrittenSince k writer → writer ≠ some j := by
    rintro writer ⟨i, rfl, hi⟩ heq
    rw [Option.some.injEq] at heq
    omega
  have hstart : s.writers.progress ≠ some j ∧ s.writers.result ≠ some j := by
    by_cases hstate : ∃ symbols, task.state = .spawned symbols
    · obtain ⟨symbols, hstate⟩ := hstate
      exact hspawned symbols hstate j hj
    · obtain ⟨hprogress, hresult⟩ := h.reset k task hk htask fun symbols heq =>
        hstate ⟨symbols, heq⟩
      exact ⟨hlate hprogress, hlate hresult⟩
  rcases hstale with hstale | hstale | hstale
  · exact hstart.1 hstale
  · rcases Nat.eq_zero_or_pos task.reports with hzero | hpos
    · exact hreports hzero j hj hstale
    · exact hlate (h.reported k task hk htask hpos) hstale
  · exact hstart.2 hstale

/-- A task that is added is the only one that is active, if the others are not. -/
theorem active_concat (hidle : ∀ (i : ℕ) (task : BacktestTask), s.tasks[i]? = some task →
      task.state.active = false) (new : BacktestTask) (i j : ℕ) (task other : BacktestTask)
    (hi : (s.tasks ++ [new])[i]? = some task) (hj : (s.tasks ++ [new])[j]? = some other)
    (htask : task.state.active = true) (hother : other.state.active = true) : i = j := by
  rcases Tasks.getElem?_concat_cases hi with ⟨rfl, -⟩ | ⟨-, hi⟩
  · rcases Tasks.getElem?_concat_cases hj with ⟨rfl, -⟩ | ⟨-, hj⟩
    · rfl
    · exact absurd hother (by simp [hidle j other hj])
  · exact absurd htask (by simp [hidle i task hi])

/-- The coordinator starts a backtest only when the task it has the handle of has ended. -/
theorem finished_of_not_busy {i : ℕ} {task : BacktestTask} (hbusy : s.busy = false)
    (hhandle : s.handle = some i) (hi : s.tasks[i]? = some task) :
    task.state.isFinished = true := by
  rw [busy, hhandle, Option.bind_some, hi, Option.any_some, Bool.not_eq_false'] at hbusy
  exact hbusy

theorem OneRun.kernelStart (h : s.OneRun) {symbols : List Symbol}
    (hsound : s.Sound (.kernelStart symbols)) :
    OneRun { s with tasks := s.tasks ++ [⟨.kernel, .loading symbols [], 0⟩] } := by
  have hold : ∀ {k : ℕ}, s.handle = some k → k < s.tasks.length := by
    intro k hk
    obtain ⟨task, htask⟩ := h.handle k hk
    exact (List.getElem?_eq_some_iff.1 htask).1
  refine ⟨active_concat (fun _ _ hi => hsound _ (List.mem_of_getElem? hi)) _, ?_, ?_, ?_, ?_, ?_⟩
  · intro i task hi howner hhandle
    rcases Tasks.getElem?_concat_cases hi with ⟨-, rfl⟩ | ⟨-, hi⟩
    · cases howner
    · exact h.others i task hi howner hhandle
  · intro k hk
    obtain ⟨task, htask⟩ := h.handle k hk
    exact ⟨task, by rw [List.getElem?_append_left (hold hk), htask]⟩
  · intro k hk j hj task htask
    rcases Tasks.getElem?_concat_cases htask with ⟨rfl, -⟩ | ⟨-, htask⟩
    · exact absurd (hold hk) (by omega)
    · exact h.quiet k hk j hj task htask
  · intro k task hk htask
    rcases Tasks.getElem?_concat_cases htask with ⟨rfl, -⟩ | ⟨-, htask⟩
    · exact absurd (hold hk) (lt_irrefl _)
    · exact h.reset k task hk htask
  · intro k task hk htask
    rcases Tasks.getElem?_concat_cases htask with ⟨rfl, -⟩ | ⟨-, htask⟩
    · exact absurd (hold hk) (lt_irrefl _)
    · exact h.reported k task hk htask

theorem OneRun.coordinatorStart (h : s.OneRun) {symbols : List Symbol} (hbusy : s.busy = false)
    (hsound : s.Sound (.coordinatorStart symbols)) :
    OneRun
      { s with
        tasks := s.tasks ++ [⟨.coordinator, .spawned symbols, 0⟩]
        handle := some s.tasks.length } := by
  have hended : ∀ {i : ℕ} {task : BacktestTask}, s.tasks[i]? = some task →
      task.owner = .coordinator → task.state.isFinished = true := by
    intro i task hi howner
    by_cases hhandle : s.handle = some i
    · exact finished_of_not_busy hbusy hhandle hi
    · exact h.others i task hi howner hhandle
  have hquiet : ∀ {i : ℕ} {task : BacktestTask}, s.tasks[i]? = some task → task.Quiet := by
    intro i task hi
    refine ⟨?_, hended hi⟩
    cases howner : task.owner with
    | kernel => exact hsound hbusy task (List.mem_of_getElem? hi) howner
    | coordinator =>
      have hfinished := hended hi howner
      cases hstate : task.state <;>
        simp_all [TaskState.isFinished, TaskState.active, TaskState.replays]
  have hlast : ∀ {k : ℕ}, some s.tasks.length = some k → k = s.tasks.length :=
    fun hk => (Option.some.inj hk).symm
  refine ⟨active_concat (fun _ _ hi => (hquiet hi).1) _, ?_, ?_, ?_, ?_, ?_⟩
  · intro i task hi howner hhandle
    rcases Tasks.getElem?_concat_cases hi with ⟨rfl, -⟩ | ⟨-, hi⟩
    · exact absurd rfl hhandle
    · exact hended hi howner
  · intro k hk
    rw [hlast hk]
    exact ⟨_, List.getElem?_concat_length⟩
  · intro k hk j hj task htask
    rw [hlast hk] at hj
    rcases Tasks.getElem?_concat_cases htask with ⟨rfl, -⟩ | ⟨-, htask⟩
    · exact absurd hj (lt_irrefl _)
    · exact hquiet htask
  · intro k task hk htask hstate
    rw [hlast hk] at htask
    rcases Tasks.getElem?_concat_cases htask with ⟨-, rfl⟩ | ⟨hlt, -⟩
    · exact absurd rfl (hstate symbols)
    · exact absurd hlt (lt_irrefl _)
  · intro k task hk htask hpos
    rw [hlast hk] at htask
    rcases Tasks.getElem?_concat_cases htask with ⟨-, rfl⟩ | ⟨hlt, -⟩
    · exact absurd hpos (lt_irrefl _)
    · exact absurd hlt (lt_irrefl _)

/-- A task that is not quiet was spawned by the last start of the coordinator or later. -/
theorem OneRun.handle_le (h : s.OneRun) {k j : ℕ} {task : BacktestTask} (hk : s.handle = some k)
    (hj : s.tasks[j]? = some task) (hquiet : ¬ task.Quiet) : k ≤ j := by
  by_contra hlt
  exact hquiet (h.quiet k hk j (not_le.1 hlt) task hj)

/-- What a write of a later task leaves written since a start. -/
theorem WrittenSince.note {k j : ℕ} (hle : k ≤ j) (writers : StatusWriters) (write : StatusWrite) :
    (WrittenSince k writers.progress → WrittenSince k (write.note j writers).progress) ∧
      (WrittenSince k writers.result → WrittenSince k (write.note j writers).result) ∧
      (WrittenSince k writers.currentTs → WrittenSince k (write.note j writers).currentTs) := by
  have hnew : WrittenSince k (some j) := ⟨j, rfl, hle⟩
  cases write with
  | reset => exact ⟨fun _ => hnew, fun _ => hnew, id⟩
  | report progress ts => exact ⟨fun _ => hnew, id, fun _ => hnew⟩
  | finish result => exact ⟨fun _ => hnew, fun _ => hnew, id⟩
  | settle result => exact ⟨id, fun _ => hnew, id⟩

/-- What a step of the task `j` makes of the status. -/
def written (s : BacktestNode) (j : ℕ) (task : BacktestTask) (write : Option StatusWrite) :
    BacktestNode :=
  { s with
    tasks := s.tasks.set j task
    status := write.elim s.status fun write => write.apply s.status
    writers := write.elim s.writers fun write => write.note j s.writers }

theorem OneRun.task (h : s.OneRun) {j : ℕ} {task task' : BacktestTask} {event : TaskEvent}
    {write : Option StatusWrite} (hj : s.tasks[j]? = some task)
    (hstep : task.step event = some (task', write)) : (s.written j task' write).OneRun := by
  obtain ⟨howner, hunfinished, hactive, hspawned⟩ := BacktestTask.step_frame hstep
  obtain ⟨hreset, hreports⟩ := BacktestTask.step_writes hstep
  -- only a task since the last start writes
  have hlate : ∀ {k : ℕ}, s.handle = some k → write ≠ none → k ≤ j := by
    intro k hk hwrite
    refine h.handle_le hk hj fun hquiet => ?_
    rcases BacktestTask.step_write hstep hwrite with hact | hown
    · exact absurd hact (by simp [hquiet.1])
    · exact absurd (hquiet.2 hown) (by simp [hunfinished])
  have hkeep : ∀ {k : ℕ}, s.handle = some k →
      (WrittenSince k s.writers.progress →
        WrittenSince k (s.written j task' write).writers.progress) ∧
      (WrittenSince k s.writers.result → WrittenSince k (s.written j task' write).writers.result) ∧
      (WrittenSince k s.writers.currentTs →
        WrittenSince k (s.written j task' write).writers.currentTs) := by
    intro k hk
    cases write with
    | none => exact ⟨id, id, id⟩
    | some write => exact WrittenSince.note (hlate hk (Option.some_ne_none _)) s.writers write
  refine ⟨?_, ?_, ?_, ?_, ?_, ?_⟩
  · intro i i' t t' hi hi' ht ht'
    rcases Tasks.getElem?_set_cases hi with ⟨rfl, rfl, -⟩ | ⟨-, hold⟩ <;>
      rcases Tasks.getElem?_set_cases hi' with ⟨rfl, rfl, -⟩ | ⟨-, hold'⟩
    · rfl
    · exact h.active _ _ _ _ hj hold' (hactive ht) ht'
    · exact h.active _ _ _ _ hold hj ht (hactive ht')
    · exact h.active _ _ _ _ hold hold' ht ht'
  · intro i t hi hown hhandle
    rcases Tasks.getElem?_set_cases hi with ⟨rfl, rfl, -⟩ | ⟨-, hi⟩
    · have hfinished := h.others i task hj (howner ▸ hown) hhandle
      exact absurd hfinished (by simp [hunfinished])
    · exact h.others i t hi hown hhandle
  · intro k hk
    obtain ⟨t, ht⟩ := h.handle k hk
    have hlt : k < (s.tasks.set j task').length := by
      rw [List.length_set]
      exact (List.getElem?_eq_some_iff.1 ht).1
    exact ⟨_, List.getElem?_eq_getElem hlt⟩
  · intro k hk i hi t ht
    rcases Tasks.getElem?_set_cases ht with ⟨rfl, rfl, -⟩ | ⟨-, ht⟩
    · have hquiet := h.quiet k hk i hi task hj
      refine ⟨?_, fun hown => ?_⟩
      · by_contra hact
        exact absurd (hactive (by simpa using hact)) (by simp [hquiet.1])
      · exact absurd (hquiet.2 (howner ▸ hown)) (by simp [hunfinished])
    · exact h.quiet k hk i hi t ht
  · intro k t hk ht hstate
    rcases Tasks.getElem?_set_cases ht with ⟨rfl, rfl, -⟩ | ⟨-, ht⟩
    · by_cases hspawn : ∃ symbols, task.state = .spawned symbols
      · rw [hreset hspawn]
        exact ⟨⟨k, rfl, le_rfl⟩, ⟨k, rfl, le_rfl⟩⟩
      · obtain ⟨hprogress, hresult⟩ := h.reset k task hk hj fun symbols heq =>
          hspawn ⟨symbols, heq⟩
        exact ⟨(hkeep hk).1 hprogress, (hkeep hk).2.1 hresult⟩
    · obtain ⟨hprogress, hresult⟩ := h.reset k t hk ht hstate
      exact ⟨(hkeep hk).1 hprogress, (hkeep hk).2.1 hresult⟩
  · intro k t hk ht hpos
    rcases Tasks.getElem?_set_cases ht with ⟨rfl, rfl, -⟩ | ⟨-, ht⟩
    · rcases hreports with hsame | ⟨-, progress, ts, hreport⟩
      · exact (hkeep hk).2.2 (h.reported k task hk hj (hsame ▸ hpos))
      · rw [hreport]
        exact ⟨k, rfl, le_rfl⟩
    · exact (hkeep hk).2.2 (h.reported k t hk ht hpos)

/-- **What an action does**: the five cases. -/
theorem step_cases {action : BacktestAction} (h : s.step action = some s') :
    (∃ symbols, action = .kernelStart symbols ∧
      s' = { s with tasks := s.tasks ++ [⟨.kernel, .loading symbols [], 0⟩] }) ∨
    (∃ symbols, action = .coordinatorStart symbols ∧ s.busy = true ∧ s' = s) ∨
    (∃ symbols, action = .coordinatorStart symbols ∧ s.busy = false ∧
      s' =
        { s with
          tasks := s.tasks ++ [⟨.coordinator, .spawned symbols, 0⟩]
          handle := some s.tasks.length }) ∨
    (∃ j event task task' write, action = .task j event ∧ s.tasks[j]? = some task ∧
      task.step event = some (task', write) ∧ s' = s.written j task' write) ∨
    (action = .poll ∧ s' = s) := by
  cases action with
  | kernelStart symbols => exact Or.inl ⟨symbols, rfl, (Option.some.inj h).symm⟩
  | coordinatorStart symbols =>
    cases hbusy : s.busy with
    | true =>
      simp only [step, hbusy, if_true] at h
      exact Or.inr (Or.inl ⟨symbols, rfl, rfl, (Option.some.inj h).symm⟩)
    | false =>
      simp only [step, hbusy, Bool.false_eq_true, if_false] at h
      exact Or.inr (Or.inr (Or.inl ⟨symbols, rfl, rfl, (Option.some.inj h).symm⟩))
  | task j event =>
    obtain ⟨task, htask, h⟩ := Option.bind_eq_some_iff.1 h
    obtain ⟨⟨task', write⟩, hstep, h⟩ := Option.bind_eq_some_iff.1 h
    refine Or.inr (Or.inr (Or.inr (Or.inl ⟨j, event, task, task', write, rfl, htask, hstep, ?_⟩)))
    cases write with
    | none => exact (Option.some.inj h).symm
    | some write => exact (Option.some.inj h).symm
  | poll => exact Or.inr (Or.inr (Or.inr (Or.inr ⟨rfl, (Option.some.inj h).symm⟩)))

/-- **Sound steps keep one run at a time.** -/
theorem OneRun.step (h : s.OneRun) {action : BacktestAction} (hsound : s.Sound action)
    (hstep : s.step action = some s') : s'.OneRun := by
  rcases step_cases hstep with ⟨symbols, rfl, rfl⟩ | ⟨symbols, rfl, -, rfl⟩ |
    ⟨symbols, rfl, hbusy, rfl⟩ | ⟨j, event, task, task', write, rfl, hj, htask, rfl⟩ | ⟨rfl, rfl⟩
  · exact h.kernelStart hsound
  · exact h
  · exact h.coordinatorStart hbusy hsound
  · exact h.task hj htask
  · exact h

end BacktestNode

/-- **The status of one run.**  In every schedule whose steps are sound, at most one engine is
replaying at any time, and no poll sees the progress, the time or the result of a run before the
last start of the coordinator. -/
theorem status_of_one_run {as : List BacktestAction}
    (hsound : backtests.Throughout .init BacktestNode.Sound as) :
    (∀ pre post u, as = pre ++ post → backtests.exec .init pre = some u → u.Exclusive) ∧
      backtests.Throughout .init (fun u action => action = .poll → ¬ u.Stale) as := by
  -- the invariant holds at every point of the schedule
  have hrun : ∀ pre post u, as = pre ++ post → backtests.exec .init pre = some u → u.OneRun := by
    rintro pre post u rfl hu
    exact hsound.left.invariant BacktestNode.OneRun.init
      (fun _ _ _ hone hact hstep => hone.step hact hstep) hu
  refine ⟨fun pre post u has hu => (hrun pre post u has hu).exclusive, ?_⟩
  rintro pre action post u has hu rfl
  exact (hrun pre _ u has hu).poll (hsound pre .poll post u has hu)

/-- A backtest of the kernel service, without snapshots, and then one on request. -/
def oneAfterTheOther : List BacktestAction :=
  [.kernelStart [], .task 0 .sort, .task 0 (.finish ⟨0, 0, 0, 0⟩), .task 0 .settle,
    .coordinatorStart [], .task 1 .reset]

theorem status_of_one_run_sample :
    ∃ u, backtests.exec .init oneAfterTheOther = some u ∧ u.Exclusive ∧ ¬ u.Stale := by
  have hsound : backtests.Throughout .init BacktestNode.Sound (oneAfterTheOther ++ [.poll]) := by
    refine (Interleaving.throughout_cons rfl).2 ⟨fun _ h => absurd h List.not_mem_nil, ?_⟩
    refine (Interleaving.throughout_cons rfl).2 ⟨trivial, ?_⟩
    refine (Interleaving.throughout_cons rfl).2 ⟨trivial, ?_⟩
    refine (Interleaving.throughout_cons rfl).2 ⟨trivial, ?_⟩
    refine (Interleaving.throughout_cons rfl).2 ⟨fun _ task htask _ => ?_, ?_⟩
    · rw [List.mem_singleton.1 htask]
      rfl
    refine (Interleaving.throughout_cons rfl).2 ⟨trivial, ?_⟩
    refine (Interleaving.throughout_cons rfl).2 ⟨?_, Interleaving.throughout_nil⟩
    rintro k task hk htask
    cases hk
    cases htask
    refine ⟨fun _ h => ?_, fun _ _ _ h => ?_⟩
    · cases h
    · cases h
  obtain ⟨hexclusive, hpoll⟩ := status_of_one_run hsound
  exact ⟨_, rfl, hexclusive oneAfterTheOther [.poll] _ rfl rfl,
    hpoll oneAfterTheOther .poll [] _ rfl rfl rfl⟩

/-- A snapshot of the store. -/
def loadedSnapshot : MarketSnapshot where
  ts := 1
  exchange := .okx
  symbol := ⟨"BTC", "USDT"⟩
  last := 100
  bid := 99
  ask := 101
  volume24h := 10
  traceId := none

/-- A request while the engine of the kernel service replays; both engines load the snapshot. -/
def twoEngines : List BacktestAction :=
  [.kernelStart [⟨"BTC", "USDT"⟩], .task 0 (.load (.ok [loadedSnapshot])), .task 0 .sort,
    .coordinatorStart [⟨"BTC", "USDT"⟩], .task 1 .reset, .task 1 (.load (.ok [loadedSnapshot])),
    .task 1 .sort]

/-- A request after a backtest that has ended. -/
def secondRequest : List BacktestAction :=
  [.coordinatorStart [], .task 0 .reset, .task 0 .sort, .task 0 (.finish ⟨7, 0, 1, 1⟩),
    .task 0 .settle, .coordinatorStart []]

/-- **Two engines, and an old result**: the coordinator starts an engine while that of the kernel
service replays, and both are about to publish their first snapshot; and after its second start has
returned, the status reports the end of the first run. -/
theorem not_status_of_one_run :
    (∃ u, backtests.exec .init twoEngines = some u ∧
        u.tasks.map BacktestTask.state = [.replaying [loadedSnapshot] 0 1,
          .replaying [loadedSnapshot] 0 1] ∧ ¬ u.Exclusive) ∧
      ∃ u, backtests.exec .init secondRequest = some u ∧ u.Stale ∧ u.status.progress = 1 ∧
        u.status.result = some ⟨7, 0, 1, 1⟩ := by
  refine ⟨⟨_, rfl, rfl, fun h => ?_⟩, ⟨_, rfl, ⟨1, rfl, 0, Nat.one_pos, Or.inl rfl⟩, rfl, rfl⟩⟩
  exact absurd (h 0 1 _ _ rfl rfl rfl rfl) Nat.zero_ne_one

/-! ### Failed backtests -/

/-- The engine returns an error: a symbol does not load, or a snapshot cannot be serialized or
published. -/
def TaskEvent.Fails : TaskEvent → Prop
  | .load answer => ∃ err, answer = .error err
  | .publish answer => ∃ err, answer = .error err
  | _ => False

/-- The engine of the task `k` returns an error in the schedule. -/
def FailsIn (as : List BacktestAction) (k : ℕ) : Prop :=
  ∃ event, .task k event ∈ as ∧ event.Fails

theorem failsIn_concat_task {as : List BacktestAction} {j k : ℕ} {event : TaskEvent} :
    FailsIn (as ++ [.task j event]) k ↔ FailsIn as k ∨ (j = k ∧ event.Fails) := by
  constructor
  · rintro ⟨event', hmem, hfails⟩
    rcases List.mem_append.1 hmem with hmem | hmem
    · exact Or.inl ⟨event', hmem, hfails⟩
    · cases List.mem_singleton.1 hmem
      exact Or.inr ⟨rfl, hfails⟩
  · rintro (⟨event', hmem, hfails⟩ | ⟨rfl, hfails⟩)
    · exact ⟨event', List.mem_append_left _ hmem, hfails⟩
    · exact ⟨event, List.mem_append_right _ (List.mem_singleton_self _), hfails⟩

theorem failsIn_concat_other {as : List BacktestAction} {k : ℕ} {action : BacktestAction}
    (h : ∀ j event, action ≠ .task j event) : FailsIn (as ++ [action]) k ↔ FailsIn as k := by
  constructor
  · rintro ⟨event, hmem, hfails⟩
    rcases List.mem_append.1 hmem with hmem | hmem
    · exact ⟨event, hmem, hfails⟩
    · exact absurd (List.mem_singleton.1 hmem).symm (h k event)
  · rintro ⟨event, hmem, hfails⟩
    exact ⟨event, List.mem_append_left _ hmem, hfails⟩

/-- The flag a write leaves, if it writes the flag. -/
def StatusWrite.flag : StatusWrite → Option Bool
  | .reset => some true
  | .report _ _ => some true
  | .finish _ => some false
  | .settle _ => none

theorem StatusWrite.running_apply (write : StatusWrite) (status : BacktestStatus) :
    (write.apply status).running = write.flag.getD status.running := by
  cases write <;> rfl

theorem StatusWrite.running_note (write : StatusWrite) (j : ℕ) (writers : StatusWriters) :
    (write.note j writers).running = if write.flag.isSome then some j else writers.running := by
  cases write <;> rfl

/-- **The flag and the steps of a task**: a step that writes the flag is one of an active task, does
not fail, and sets the flag exactly if the task replays after it; a step that does not, starts from
no spawned task, and ends the replay exactly if it fails. -/
theorem BacktestTask.step_flag {task task' : BacktestTask} {event : TaskEvent}
    {write : Option StatusWrite} (h : task.step event = some (task', write)) :
    (∀ flag, write.bind StatusWrite.flag = some flag →
      flag = task'.state.replays ∧ ¬ event.Fails ∧ task.state.active = true) ∧
    (write.bind StatusWrite.flag = none →
      (∀ symbols, task.state ≠ .spawned symbols) ∧
      (task.state.replays = true ↔ task'.state.replays = true ∨ event.Fails)) := by
  unfold step at h
  split at h <;> cases h <;>
    simp_all [TaskEvent.Fails, StatusWrite.flag, TaskState.replays, TaskState.active]
  split_ifs <;> simp [StatusWrite.flag]

theorem BacktestTask.step_fails {task task' : BacktestTask} {event : TaskEvent}
    {write : Option StatusWrite} (h : task.step event = some (task', write))
    (hfails : event.Fails) : task'.state.active = false := by
  unfold step at h
  split at h <;> cases h <;> simp_all [TaskEvent.Fails, TaskState.active, TaskState.replays]

namespace BacktestNode

variable {as : List BacktestAction} {s s' : BacktestNode}

/-- The kernel service does not start an engine in the schedule. -/
def NoKernel (as : List BacktestAction) : Prop :=
  ∀ symbols, .kernelStart symbols ∉ as

theorem NoKernel.of_concat {action : BacktestAction} (h : NoKernel (as ++ [action])) :
    NoKernel as :=
  fun symbols hmem => h symbols (List.mem_append_left _ hmem)

/-- What the schedule so far says about the flag.  An engine that has returned an error does not
replay any more; the flag is set exactly if the engine that has written it last replays, or has
returned an error; and the coordinator's last task, which is the only one to move if the kernel
service has none, has written it when it is past its start. -/
structure Flagged (as : List BacktestAction) (s : BacktestNode) : Prop where
  failed : ∀ k, FailsIn as k → ∃ task, s.tasks[k]? = some task ∧ task.state.active = false
  writer : ∀ k, s.writers.running = some k → ∃ task, s.tasks[k]? = some task ∧
    (∀ symbols, task.state ≠ .spawned symbols) ∧
    (s.status.running = true ↔ task.state.replays = true ∨ FailsIn as k)
  handle : ∀ k, s.handle = some k → ∃ task, s.tasks[k]? = some task
  reset : ∀ k task, s.handle = some k → s.tasks[k]? = some task →
    (∀ symbols, task.state ≠ .spawned symbols) →
    ∃ j, s.writers.running = some j ∧ (NoKernel as → j = k)
  others : NoKernel as → ∀ (i : ℕ) (task : BacktestTask), s.tasks[i]? = some task →
    s.handle ≠ some i → task.state.isFinished = true

theorem Flagged.init : Flagged [] .init := by
  constructor <;> simp [BacktestNode.init, FailsIn]

theorem Flagged.not_failed (h : Flagged as s) {j : ℕ} {task : BacktestTask}
    (hj : s.tasks[j]? = some task) (hactive : task.state.active = true) : ¬ FailsIn as j := by
  intro hfailed
  obtain ⟨t, ht, hidle⟩ := h.failed j hfailed
  rw [hj, Option.some.injEq] at ht
  rw [ht, hidle] at hactive
  exact Bool.false_ne_true hactive

theorem Flagged.still (h : Flagged as s) {action : BacktestAction}
    (haction : ∀ j event, action ≠ .task j event) : Flagged (as ++ [action]) s := by
  refine ⟨?_, ?_, h.handle, ?_, ?_⟩
  · intro k hfails
    exact h.failed k ((failsIn_concat_other haction).1 hfails)
  · intro k hk
    obtain ⟨task, htask, hspawned, hrunning⟩ := h.writer k hk
    exact ⟨task, htask, hspawned, by rw [failsIn_concat_other haction, hrunning]⟩
  · intro k task hk htask hspawned
    obtain ⟨j, hj, honly⟩ := h.reset k task hk htask hspawned
    exact ⟨j, hj, fun hnone => honly hnone.of_concat⟩
  · exact fun hnone => h.others hnone.of_concat

theorem Flagged.spawn (h : Flagged as s) {action : BacktestAction} {task : BacktestTask}
    {handle : Option ℕ} (haction : ∀ j event, action ≠ .task j event)
    (hhandle : handle = s.handle ∨
      handle = some s.tasks.length ∧ ∃ symbols, task.state = .spawned symbols)
    (hothers : NoKernel (as ++ [action]) → handle = some s.tasks.length ∧ s.busy = false) :
    Flagged (as ++ [action]) { s with tasks := s.tasks ++ [task], handle := handle } := by
  have hkeep : ∀ {k : ℕ} {t : BacktestTask}, s.tasks[k]? = some t →
      (s.tasks ++ [task])[k]? = some t := by
    intro k t ht
    rw [List.getElem?_append_left (List.getElem?_eq_some_iff.1 ht).1, ht]
  refine ⟨?_, ?_, ?_, ?_, ?_⟩
  · intro k hfails
    obtain ⟨t, ht, hactive⟩ := h.failed k ((failsIn_concat_other haction).1 hfails)
    exact ⟨t, hkeep ht, hactive⟩
  · intro k hk
    obtain ⟨t, ht, hspawned, hrunning⟩ := h.writer k hk
    exact ⟨t, hkeep ht, hspawned, by rw [failsIn_concat_other haction, hrunning]⟩
  · intro k hk
    rcases hhandle with rfl | ⟨rfl, -⟩
    · obtain ⟨t, ht⟩ := h.handle k hk
      exact ⟨t, hkeep ht⟩
    · rw [← Option.some.inj hk]
      exact ⟨task, List.getElem?_concat_length⟩
  · intro k t hk ht hspawned
    rcases hhandle with rfl | ⟨rfl, symbols, hstate⟩
    · -- the handle is that of an old task
      obtain ⟨old, hold⟩ := h.handle k hk
      rw [hkeep hold, Option.some.injEq] at ht
      obtain ⟨j, hj, honly⟩ := h.reset k t hk (ht ▸ hold) hspawned
      exact ⟨j, hj, fun hnone => honly hnone.of_concat⟩
    · rw [← Option.some.inj hk, List.getElem?_concat_length, Option.some.injEq] at ht
      exact absurd (ht ▸ hstate) (hspawned symbols)
  · intro hnone i t hi hne
    obtain ⟨rfl, hbusy⟩ := hothers hnone
    rcases Tasks.getElem?_concat_cases hi with ⟨rfl, -⟩ | ⟨-, hi⟩
    · exact absurd rfl hne
    · by_cases hold : s.handle = some i
      · exact finished_of_not_busy hbusy hold hi
      · exact h.others hnone.of_concat i t hi hold

/-- What a step of the task `j` makes of the flag and of its last writer. -/
theorem written_running (s : BacktestNode) (j : ℕ) (task : BacktestTask)
    (write : Option StatusWrite) :
    (s.written j task write).status.running =
        (write.bind StatusWrite.flag).getD s.status.running ∧
      (s.written j task write).writers.running =
        if (write.bind StatusWrite.flag).isSome then some j else s.writers.running := by
  cases write with
  | none => exact ⟨rfl, rfl⟩
  | some write =>
    exact ⟨StatusWrite.running_apply write s.status, StatusWrite.running_note write j s.writers⟩

section TaskStep

variable {j : ℕ} {old new : BacktestTask} {event : TaskEvent} {write : Option StatusWrite}

theorem written_self (hj : s.tasks[j]? = some old) :
    (s.written j new write).tasks[j]? = some new :=
  List.getElem?_set_self (List.getElem?_eq_some_iff.1 hj).1

theorem written_other {k : ℕ} (hjk : j ≠ k) :
    (s.written j new write).tasks[k]? = s.tasks[k]? :=
  List.getElem?_set_ne hjk

theorem Flagged.failed_task (h : Flagged as s) (hj : s.tasks[j]? = some old)
    (hstep : old.step event = some (new, write)) {k : ℕ}
    (hfails : FailsIn (as ++ [.task j event]) k) :
    ∃ t, (s.written j new write).tasks[k]? = some t ∧ t.state.active = false := by
  obtain ⟨-, -, hactive, -⟩ := BacktestTask.step_frame hstep
  rcases failsIn_concat_task.1 hfails with hbefore | ⟨rfl, hfailed⟩
  · by_cases hjk : j = k
    · subst hjk
      refine ⟨new, written_self hj, ?_⟩
      by_contra hact
      exact h.not_failed hj (hactive (by simpa using hact)) hbefore
    · obtain ⟨t, ht, hidle⟩ := h.failed k hbefore
      exact ⟨t, by rw [written_other hjk, ht], hidle⟩
  · exact ⟨new, written_self hj, BacktestTask.step_fails hstep hfailed⟩

theorem Flagged.writer_task (h : Flagged as s) (hj : s.tasks[j]? = some old)
    (hstep : old.step event = some (new, write)) {k : ℕ}
    (hk : (s.written j new write).writers.running = some k) :
    ∃ t, (s.written j new write).tasks[k]? = some t ∧
      (∀ symbols, t.state ≠ .spawned symbols) ∧
      ((s.written j new write).status.running = true ↔
        t.state.replays = true ∨ FailsIn (as ++ [.task j event]) k) := by
  obtain ⟨-, -, -, hspawned'⟩ := BacktestTask.step_frame hstep
  obtain ⟨hflag, hnoflag⟩ := BacktestTask.step_flag hstep
  obtain ⟨hrunning, hwriter⟩ := written_running s j new write
  rw [hwriter] at hk
  rw [hrunning]
  cases hwrite : write.bind StatusWrite.flag with
  | some flag =>
    -- the task writes the flag now, and has not failed
    rw [hwrite, Option.isSome_some, if_pos rfl, Option.some.injEq] at hk
    subst hk
    obtain ⟨hvalue, hfails, hact⟩ := hflag flag hwrite
    refine ⟨new, written_self hj, hspawned', ?_⟩
    rw [failsIn_concat_task, Option.getD_some, hvalue]
    simp [h.not_failed hj hact, hfails]
  | none =>
    rw [hwrite, Option.isSome_none, if_neg Bool.false_ne_true] at hk
    obtain ⟨t, ht, hspawned, hold⟩ := h.writer k hk
    rw [Option.getD_none, failsIn_concat_task]
    by_cases hjk : j = k
    · subst hjk
      rw [hj, Option.some.injEq] at ht
      subst ht
      refine ⟨new, written_self hj, hspawned', ?_⟩
      rw [hold, (hnoflag hwrite).2, or_right_comm, or_assoc]
      simp only [true_and]
    · refine ⟨t, by rw [written_other hjk, ht], hspawned, ?_⟩
      rw [hold]
      simp [hjk]

theorem Flagged.reset_task (h : Flagged as s) (hj : s.tasks[j]? = some old)
    (hstep : old.step event = some (new, write)) {k : ℕ} {t : BacktestTask}
    (hk : s.handle = some k) (ht : (s.written j new write).tasks[k]? = some t)
    (hspawned : ∀ symbols, t.state ≠ .spawned symbols) :
    ∃ i, (s.written j new write).writers.running = some i ∧
      (NoKernel (as ++ [.task j event]) → i = k) := by
  obtain ⟨-, hunfinished, -, -⟩ := BacktestTask.step_frame hstep
  rw [(written_running s j new write).2]
  have honly : NoKernel (as ++ [.task j event]) → j = k := by
    intro hnone
    by_contra hne
    have hfinished := h.others hnone.of_concat j old hj fun heq =>
      hne (Option.some.inj (heq.symm.trans hk))
    exact absurd hfinished (by simp [hunfinished])
  cases hwrite : write.bind StatusWrite.flag with
  | some flag => exact ⟨j, by simp, honly⟩
  | none =>
    rw [Option.isSome_none, if_neg Bool.false_ne_true]
    by_cases hjk : j = k
    · subst hjk
      obtain ⟨i, hi, hlast⟩ := h.reset j old hk hj ((BacktestTask.step_flag hstep).2 hwrite).1
      exact ⟨i, hi, fun hnone => hlast hnone.of_concat⟩
    · rw [written_other hjk] at ht
      obtain ⟨i, hi, hlast⟩ := h.reset k t hk ht hspawned
      exact ⟨i, hi, fun hnone => hlast hnone.of_concat⟩

theorem Flagged.task (h : Flagged as s) (hj : s.tasks[j]? = some old)
    (hstep : old.step event = some (new, write)) :
    Flagged (as ++ [.task j event]) (s.written j new write) := by
  refine ⟨fun k => h.failed_task hj hstep, fun k => h.writer_task hj hstep, ?_,
    fun k t => h.reset_task hj hstep, ?_⟩
  · intro k hk
    by_cases hjk : j = k
    · subst hjk
      exact ⟨new, written_self hj⟩
    · rw [written_other hjk]
      exact h.handle k hk
  · intro hnone i t hi hne
    by_cases hji : j = i
    · subst hji
      obtain ⟨-, hunfinished, -, -⟩ := BacktestTask.step_frame hstep
      exact absurd (h.others hnone.of_concat j old hj hne) (by simp [hunfinished])
    · rw [written_other hji] at hi
      exact h.others hnone.of_concat i t hi hne

end TaskStep

theorem Flagged.step (h : Flagged as s) {action : BacktestAction}
    (hstep : s.step action = some s') : Flagged (as ++ [action]) s' := by
  rcases step_cases hstep with ⟨symbols, rfl, rfl⟩ | ⟨symbols, rfl, -, rfl⟩ |
    ⟨symbols, rfl, hbusy, rfl⟩ | ⟨j, event, task, task', write, rfl, hj, htask, rfl⟩ | ⟨rfl, rfl⟩
  · refine h.spawn (fun _ _ => by simp) (Or.inl rfl) fun hnone => ?_
    exact absurd (List.mem_append_right _ (List.mem_singleton_self _)) (hnone symbols)
  · exact h.still fun _ _ => by simp
  · exact h.spawn (fun _ _ => by simp) (Or.inr ⟨rfl, symbols, rfl⟩) fun _ => ⟨rfl, hbusy⟩
  · exact h.task hj htask
  · exact h.still fun _ _ => by simp

end BacktestNode

open BacktestNode in
/-- **A failed backtest stays reported as running.**  When the task of the coordinator's last start
has ended, some engine has written the flag last, and the flag is clear exactly if that engine is
not replaying and has not returned an error.  Without engines of the kernel service it is the engine
of that task: the flag is clear exactly if its engine has not returned an error. -/
theorem ended_running_iff {as : List BacktestAction} {u : BacktestNode} {k : ℕ}
    {task : BacktestTask} (hexec : backtests.exec .init as = some u) (hhandle : u.handle = some k)
    (htask : u.tasks[k]? = some task) (hended : task.state = .ended) :
    (∃ j other, u.writers.running = some j ∧ u.tasks[j]? = some other ∧
      (u.status.running = false ↔ other.state.replays = false ∧ ¬ FailsIn as j)) ∧
    ((∀ symbols, .kernelStart symbols ∉ as) →
      (u.status.running = false ↔ ¬ FailsIn as k)) := by
  have hflagged : Flagged as u :=
    Interleaving.exec_history (M := backtests) (P := Flagged) Flagged.init
      (fun _ _ _ _ h hstep => h.step hstep) hexec
  obtain ⟨j, hj, honly⟩ := hflagged.reset k task hhandle htask fun symbols heq => by
    rw [hended] at heq
    cases heq
  obtain ⟨other, hother, -, hrunning⟩ := hflagged.writer j hj
  have hclear : u.status.running = false ↔ other.state.replays = false ∧ ¬ FailsIn as j := by
    rw [← Bool.not_eq_true, hrunning, not_or, Bool.not_eq_true]
  refine ⟨⟨j, other, hj, hother, hclear⟩, fun hnone => ?_⟩
  -- the last writer is the task that has ended
  have hjk := honly hnone
  subst hjk
  rw [htask, Option.some.injEq] at hother
  rw [hclear, ← hother, hended]
  exact and_iff_right rfl

/-- A backtest on request, without snapshots. -/
def backtestWithout : List BacktestAction :=
  [.coordinatorStart [], .task 0 .reset, .task 0 .sort, .task 0 (.finish ⟨0, 0, 0, 0⟩),
    .task 0 .settle]

theorem ended_running_iff_without :
    ∃ u, backtests.exec .init backtestWithout = some u ∧ u.status.running = false ∧
      ¬ FailsIn backtestWithout 0 := by
  obtain ⟨-, hrunning⟩ :=
    @ended_running_iff backtestWithout _ 0 _ rfl rfl rfl rfl
  have hclear := hrunning fun symbols hmem => by simp [backtestWithout] at hmem
  exact ⟨_, rfl, rfl, hclear.1 rfl⟩

/-- A backtest on request whose first symbol does not load. -/
def backtestFails : List BacktestAction :=
  [.coordinatorStart [⟨"BTC", "USDT"⟩], .task 0 .reset, .task 0 (.load (.error "no such table")),
    .task 0 .settle]

/-- **A failed backtest is reported as running**, and its task has ended. -/
theorem not_ended_running :
    ∃ u task, backtests.exec .init backtestFails = some u ∧ u.handle = some 0 ∧
      u.tasks[0]? = some task ∧ task.state = .ended ∧ FailsIn backtestFails 0 ∧
      u.status.running = true := by
  refine ⟨_, _, rfl, rfl, rfl, rfl, ⟨.load (.error "no such table"), ?_, "no such table", rfl⟩, rfl⟩
  simp [backtestFails]

end W2uos
