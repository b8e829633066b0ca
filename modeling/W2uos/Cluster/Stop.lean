import W2uos.Cluster.Service

/-!
# Stopping the cluster service

`stop` notifies the tasks that wait at the time, and aborts the worker.  A task that is not waiting,
because it has not got there yet or because it is at work on a heartbeat, does not hear of it and
goes on for good; and a task that has heard of it may still take a tick or a message that is ready
at the same time, and forget the notification.

* `recv_asleep_run`, `send_asleep_run` : a task that has been woken or is done does nothing more;
* `stopFinal_of_clean` : stops are final in runs of such steps.
-/

namespace W2uos

/-! ### Effects -/

/-- What the tasks do to the map and the bus. -/
inductive Effect
  | record (k : ℕ)
  | store (k : ℕ)
  | publish (k : ℕ)
  deriving DecidableEq

/-- The effect of a step. -/
def ClusterAction.effect : ClusterAction → Option Effect
  | .record k => some (.record k)
  | .store k => some (.store k)
  | .publish k => some (.publish k)
  | _ => none

/-- The effects of a receive task along a schedule. -/
def recvEffects (k : ℕ) (as : List ClusterAction) : List Effect :=
  (as.filterMap ClusterAction.effect).filter fun e => e = .record k

/-- The effects of a send task along a schedule. -/
def sendEffects (k : ℕ) (as : List ClusterAction) : List Effect :=
  (as.filterMap ClusterAction.effect).filter fun e => e = .store k ∨ e = .publish k

/-- What a receive task has still to do for the heartbeat it is at work on. -/
def RecvTask.due (k : ℕ) : RecvTask → List Effect
  | .recording _ _ _ => [.record k]
  | .spawned | .waiting _ _ | .done => []

/-- What a send task has still to do for the heartbeat it is at work on. -/
def SendTask.due (k : ℕ) : SendTask → List Effect
  | .stamped _ => [.store k, .publish k]
  | .stored _ => [.publish k]
  | .spawned | .waiting _ | .publishing | .done => []

/-- The send task is there, and has not left its loop. -/
def Cluster.SenderAlive (s : Cluster) (k : ℕ) : Prop :=
  ∃ task, s.sends[k]? = some task ∧ task ≠ .done

/-- What the tasks do after a stop was due at the time, and without another start no tasks are
spawned; there is never more than one send task. -/
structure StopFinal (s₀ : Cluster) (as : List ClusterAction) : Prop where
  recvs : ∀ pre post s, as = pre ++ .stop :: post → cluster.exec s₀ (pre ++ [.stop]) = some s →
    ∀ k task, s.recvs[k]? = some task → recvEffects k post <+: task.due k
  sends : ∀ pre post s, as = pre ++ .stop :: post → cluster.exec s₀ (pre ++ [.stop]) = some s →
    ∀ k task, s.sends[k]? = some task → sendEffects k post <+: task.due k
  spawns : ∀ pre post, as = pre ++ .stop :: post → .start ∉ post → ∀ j, .spawn j ∉ post
  single : ∀ pre post s, as = pre ++ post → cluster.exec s₀ pre = some s →
    ∀ i j, s.SenderAlive i → s.SenderAlive j → i = j

/-! ### Clean steps -/

/-- The receive task waits, or has left its loop. -/
def RecvTask.atRest : RecvTask → Bool
  | .waiting _ _ | .done => true
  | .spawned | .recording _ _ _ => false

/-- The send task waits, or has left its loop. -/
def SendTask.atRest : SendTask → Bool
  | .waiting _ | .done => true
  | .spawned | .stamped _ | .stored _ | .publishing => false

/-- A notification has reached the receive task. -/
def RecvTask.isWoken : RecvTask → Bool
  | .waiting _ woken => woken
  | .spawned | .recording _ _ _ | .done => false

/-- A notification has reached the send task. -/
def SendTask.isWoken : SendTask → Bool
  | .waiting woken => woken
  | .spawned | .stamped _ | .stored _ | .publishing | .done => false

/-- The step loses no notification: a stop finds all tasks at rest, and a task that has been woken
takes its notification first.  And a worker spawns its tasks when the woken send tasks are gone. -/
def Cluster.StopsCleanly (s : Cluster) : ClusterAction → Prop
  | .stop => (∀ task ∈ s.recvs, task.atRest = true) ∧ ∀ task ∈ s.sends, task.atRest = true
  | .take k => (s.recvs[k]?).any RecvTask.isWoken = false
  | .tick k _ => (s.sends[k]?).any SendTask.isWoken = false
  | .spawn _ => ∀ task ∈ s.sends, task.isWoken = false
  | _ => True

instance (s : Cluster) (a : ClusterAction) : Decidable (s.StopsCleanly a) :=
  match a with
  | .stop => inferInstanceAs
    (Decidable ((∀ task ∈ s.recvs, task.atRest = true) ∧ ∀ task ∈ s.sends, task.atRest = true))
  | .take k => inferInstanceAs (Decidable ((s.recvs[k]?).any RecvTask.isWoken = false))
  | .tick k _ => inferInstanceAs (Decidable ((s.sends[k]?).any SendTask.isWoken = false))
  | .spawn _ => inferInstanceAs (Decidable (∀ task ∈ s.sends, task.isWoken = false))
  | .start | .subscribe _ | .recvNotified _ | .record _ | .sendNotified _ | .store _ | .publish _
  | .send _ | .finish _ | .other _ => inferInstanceAs (Decidable True)

/-- The receive task has been woken, or has left its loop. -/
def RecvTask.Asleep (task : RecvTask) : Prop := task = .done ∨ task.isWoken = true

/-- The send task has been woken, or has left its loop. -/
def SendTask.Asleep (task : SendTask) : Prop := task = .done ∨ task.isWoken = true

variable {s t : Cluster} {a : ClusterAction} {as : List ClusterAction} {k : ℕ}

theorem RecvTask.asleep_notify {task : RecvTask} (h : task.atRest = true) :
    task.notify.Asleep := by
  cases task with
  | waiting receiver woken => exact Or.inr rfl
  | done => exact Or.inl rfl
  | spawned => cases h
  | recording receiver publisher hb => cases h

theorem SendTask.asleep_notify {task : SendTask} (h : task.atRest = true) :
    task.notify.Asleep := by
  cases task with
  | waiting woken => exact Or.inr rfl
  | done => exact Or.inl rfl
  | spawned => cases h
  | stamped hb => cases h
  | stored hb => cases h
  | publishing => cases h

theorem RecvTask.Asleep.atRest {task : RecvTask} (h : task.Asleep) : task.atRest = true := by
  cases task <;> simp [Asleep, isWoken, RecvTask.atRest] at h ⊢

theorem SendTask.Asleep.atRest {task : SendTask} (h : task.Asleep) : task.atRest = true := by
  cases task <;> simp [Asleep, isWoken, SendTask.atRest] at h ⊢

/-! ### Tasks that are asleep -/

theorem Cluster.StopsCleanly.recv_asleep {task : RecvTask} (h : s.StopsCleanly .stop)
    (hk : s.stop.recvs[k]? = some task) : task.Asleep := by
  obtain ⟨old, hold, rfl⟩ := Cluster.stop_getElem?_recvs_iff.1 hk
  exact RecvTask.asleep_notify (h.1 old (List.mem_of_getElem? hold))

theorem Cluster.StopsCleanly.send_asleep {task : SendTask} (h : s.StopsCleanly .stop)
    (hk : s.stop.sends[k]? = some task) : task.Asleep := by
  obtain ⟨old, hold, rfl⟩ := Cluster.stop_getElem?_sends_iff.1 hk
  exact SendTask.asleep_notify (h.2 old (List.mem_of_getElem? hold))

/-- A task of a list that is asleep is another one than a task that is not. -/
theorem ne_of_getElem? {α : Type} {l : List α} {j : ℕ} {b c : α} {P : α → Prop}
    (hj : l[j]? = some b) (hk : l[k]? = some c) (hb : ¬ P b) (hc : P c) : j ≠ k := by
  rintro rfl
  rw [hj, Option.some.injEq] at hk
  exact hb (hk ▸ hc)

theorem RecvTask.Asleep.not_taken {task : RecvTask} (htask : task.Asleep)
    (hclean : s.StopsCleanly (.take k)) (hk : s.recvs[k]? = some task) {receiver : ℕ}
    {woken : Bool} : s.recvs[k]? ≠ some (.waiting receiver woken) := by
  intro hwaiting
  have hwoken : (s.recvs[k]?).any RecvTask.isWoken = false := hclean
  rw [hwaiting, Option.some.injEq] at hk
  rw [hwaiting, Option.any_some] at hwoken
  subst hk
  obtain htask | htask := htask
  · cases htask
  · rw [htask] at hwoken
    cases hwoken

/-- **The step lemma of a sleeping receive task.** -/
theorem recv_asleep_step (h : s.Moves a t) (hclean : s.StopsCleanly a) {task : RecvTask}
    (hk : s.recvs[k]? = some task) (htask : task.Asleep) :
    a.effect ≠ some (.record k) ∧ ∃ task', t.recvs[k]? = some task' ∧ task'.Asleep := by
  cases h with
  | stop =>
    exact ⟨by simp [ClusterAction.effect], task.notify,
      Cluster.stop_getElem?_recvs_iff.2 ⟨task, hk, rfl⟩, RecvTask.asleep_notify htask.atRest⟩
  | spawn hworker =>
    refine ⟨by simp [ClusterAction.effect], task, ?_, htask⟩
    exact List.getElem?_append_left (List.getElem?_eq_some_iff.1 hk).1 ▸ hk
  | @subscribe j bus hj hbus =>
    have hne : j ≠ k := ne_of_getElem? hj hk (by simp [RecvTask.Asleep, RecvTask.isWoken]) htask
    exact ⟨by simp [ClusterAction.effect], task, (List.getElem?_set_ne hne).trans hk, htask⟩
  | @recvNotified j receiver bus hj hbus =>
    refine ⟨by simp [ClusterAction.effect], ?_⟩
    by_cases hjk : j = k
    · subst hjk
      exact ⟨.done, List.getElem?_set_self (List.getElem?_eq_some_iff.1 hj).1, Or.inl rfl⟩
    · exact ⟨task, (List.getElem?_set_ne hjk).trans hk, htask⟩
  | @take j receiver publisher woken hb bus ch queue hj hch hqueue hbus =>
    have hne : j ≠ k := by
      rintro rfl
      exact htask.not_taken hclean hk hj
    exact ⟨by simp [ClusterAction.effect], task, (List.getElem?_set_ne hne).trans hk, htask⟩
  | @skip j receiver publisher woken bus ch queue hj hch hqueue hbus =>
    have hne : j ≠ k := by
      rintro rfl
      exact htask.not_taken hclean hk hj
    exact ⟨by simp [ClusterAction.effect], task, (List.getElem?_set_ne hne).trans hk, htask⟩
  | @record j receiver publisher hb hj =>
    have hne : j ≠ k := ne_of_getElem? hj hk (by simp [RecvTask.Asleep, RecvTask.isWoken]) htask
    exact ⟨by simpa [ClusterAction.effect] using hne, task,
      (List.getElem?_set_ne hne).trans hk, htask⟩
  | _ => exact ⟨by simp [ClusterAction.effect], task, hk, htask⟩

/-- **The step lemma of a sleeping send task.** -/
theorem send_asleep_step (h : s.Moves a t) (hclean : s.StopsCleanly a) {task : SendTask}
    (hk : s.sends[k]? = some task) (htask : task.Asleep) :
    (a.effect ≠ some (.store k) ∧ a.effect ≠ some (.publish k)) ∧
      ∃ task', t.sends[k]? = some task' ∧ task'.Asleep := by
  cases h with
  | stop =>
    exact ⟨by simp [ClusterAction.effect], task.notify,
      Cluster.stop_getElem?_sends_iff.2 ⟨task, hk, rfl⟩, SendTask.asleep_notify htask.atRest⟩
  | spawn hworker =>
    refine ⟨by simp [ClusterAction.effect], task, ?_, htask⟩
    exact List.getElem?_append_left (List.getElem?_eq_some_iff.1 hk).1 ▸ hk
  | @sendNotified j hj =>
    refine ⟨by simp [ClusterAction.effect], ?_⟩
    by_cases hjk : j = k
    · subst hjk
      exact ⟨.done, List.getElem?_set_self (List.getElem?_eq_some_iff.1 hj).1, Or.inl rfl⟩
    · exact ⟨task, (List.getElem?_set_ne hjk).trans hk, htask⟩
  | @tick j now task₀ hj htick =>
    have hne : j ≠ k := by
      rintro rfl
      have hwoken : (s.sends[j]?).any SendTask.isWoken = false := hclean
      rw [hj, Option.some.injEq] at hk
      rw [hj, Option.any_some, hk] at hwoken
      obtain rfl | htask := htask
      · simp [hk] at htick
      · rw [htask] at hwoken
        cases hwoken
    exact ⟨by simp [ClusterAction.effect], task, (List.getElem?_set_ne hne).trans hk, htask⟩
  | @store j hb hj =>
    have hne : j ≠ k := ne_of_getElem? hj hk (by simp [SendTask.Asleep, SendTask.isWoken]) htask
    exact ⟨by simpa [ClusterAction.effect] using hne, task,
      (List.getElem?_set_ne hne).trans hk, htask⟩
  | @publish j hb bus hj hbus =>
    have hne : j ≠ k := ne_of_getElem? hj hk (by simp [SendTask.Asleep, SendTask.isWoken]) htask
    exact ⟨by simpa [ClusterAction.effect] using hne, task,
      (List.getElem?_set_ne hne).trans hk, htask⟩
  | @finish j bus hj hbus =>
    have hne : j ≠ k := ne_of_getElem? hj hk (by simp [SendTask.Asleep, SendTask.isWoken]) htask
    exact ⟨by simp [ClusterAction.effect], task, (List.getElem?_set_ne hne).trans hk, htask⟩
  | _ => exact ⟨by simp [ClusterAction.effect], task, hk, htask⟩

/-- What clean steps preserve, and what keeps a step from having some effects, keeps a clean run
from having them. -/
theorem effects_eq_nil {P : Cluster → Prop} {mine : Effect → Bool}
    (hstep : ∀ s a t, s.Moves a t → s.StopsCleanly a → P s →
      (∀ e, a.effect = some e → mine e = false) ∧ P t)
    (hs : P s) (h : cluster.exec s as = some t)
    (hclean : cluster.Throughout s Cluster.StopsCleanly as) :
    (as.filterMap ClusterAction.effect).filter mine = [] := by
  induction as generalizing s with
  | nil => rfl
  | cons a as ih =>
    obtain ⟨u, hu, hrest⟩ := Option.bind_eq_some_iff.1 h
    obtain ⟨ha, hclean⟩ := (Interleaving.throughout_cons hu).1 hclean
    obtain ⟨heffect, hP⟩ := hstep s a u (Cluster.moves hu) ha hs
    have hlater := ih hP hrest hclean
    cases hnow : a.effect with
    | none => rwa [List.filterMap_cons_none hnow]
    | some e =>
      rw [List.filterMap_cons_some hnow, List.filter_cons_of_neg (by simp [heffect e hnow]),
        hlater]

/-- **The run lemma of a sleeping receive task.** -/
theorem recv_asleep_run (h : cluster.exec s as = some t)
    (hclean : cluster.Throughout s Cluster.StopsCleanly as) {task : RecvTask}
    (hk : s.recvs[k]? = some task) (htask : task.Asleep) : recvEffects k as = [] := by
  refine effects_eq_nil (P := fun s => ∃ task, s.recvs[k]? = some task ∧ task.Asleep) ?_
    ⟨task, hk, htask⟩ h hclean
  rintro s a t hmoves ha ⟨task, hk, htask⟩
  obtain ⟨heffect, hsleeps⟩ := recv_asleep_step hmoves ha hk htask
  refine ⟨?_, hsleeps⟩
  intro e he
  rw [he, Ne, Option.some.injEq] at heffect
  exact decide_eq_false heffect

/-- **The run lemma of a sleeping send task.** -/
theorem send_asleep_run (h : cluster.exec s as = some t)
    (hclean : cluster.Throughout s Cluster.StopsCleanly as) {task : SendTask}
    (hk : s.sends[k]? = some task) (htask : task.Asleep) : sendEffects k as = [] := by
  refine effects_eq_nil (P := fun s => ∃ task, s.sends[k]? = some task ∧ task.Asleep) ?_
    ⟨task, hk, htask⟩ h hclean
  rintro s a t hmoves ha ⟨task, hk, htask⟩
  obtain ⟨⟨hstore, hpublish⟩, hsleeps⟩ := send_asleep_step hmoves ha hk htask
  refine ⟨?_, hsleeps⟩
  intro e he
  rw [he, Ne, Option.some.injEq] at hstore hpublish
  exact decide_eq_false (not_or.2 ⟨hstore, hpublish⟩)

/-! ### Workers and their send tasks -/

/-- What holds of the workers: those that are still to spawn their tasks are the current one. -/
def Cluster.WorkersKnown (s : Cluster) : Prop :=
  ∀ j, s.workers[j]? = some .spawned → s.worker = some j

/-- **The step lemma of the workers.** -/
theorem workersKnown_step (h : s.Moves a t) (hs : s.WorkersKnown) : t.WorkersKnown := by
  intro j hj
  cases h with
  | start hworker =>
    obtain ⟨rfl, -⟩ | ⟨-, hj⟩ := Tasks.getElem?_concat_cases hj
    · rfl
    · have hnone := hs j hj
      rw [hworker] at hnone
      cases hnone
  | stop =>
    rw [Cluster.stop_workers] at hj
    cases hworker : s.worker with
    | none =>
      rw [hworker] at hj
      have hsome := hs j hj
      rw [hworker] at hsome
      cases hsome
    | some i =>
      rw [hworker] at hj
      obtain ⟨-, hj, -⟩ | ⟨hne, hj⟩ := Tasks.getElem?_set_cases hj
      · cases hj
      · have hsome := hs j hj
        rw [hworker, Option.some.injEq] at hsome
        exact absurd hsome.symm hne
  | spawn hworker =>
    obtain ⟨-, hj, -⟩ | ⟨-, hj⟩ := Tasks.getElem?_set_cases hj
    · cases hj
    · exact hs j hj
  | _ => exact hs j hj

theorem workersKnown_exec {nodeId : String} {role : NodeRole}
    (h : cluster.exec (.new nodeId role) as = some s) : s.WorkersKnown := by
  refine Interleaving.exec_invariant (P := Cluster.WorkersKnown) ?_ ?_ h
  · intro j hj
    cases hj
  · intro u a v hu hstep
    exact workersKnown_step (Cluster.moves hstep) hu

/-- When no worker is still to spawn its tasks, only a start changes that. -/
theorem spawn_notMem (hs : s.worker = none) (hknown : s.WorkersKnown)
    (h : cluster.exec s as = some t) (hstart : .start ∉ as) (j : ℕ) : .spawn j ∉ as := by
  induction as generalizing s with
  | nil => simp
  | cons a as ih =>
    obtain ⟨u, hstep, hrest⟩ := Option.bind_eq_some_iff.1 h
    rw [List.mem_cons, not_or] at hstart ⊢
    have hmoves := Cluster.moves hstep
    have hfirst : ∀ i, a ≠ .spawn i := by
      rintro i rfl
      cases hmoves with
      | spawn hworker =>
        have hsome := hknown i hworker
        rw [hs] at hsome
        cases hsome
    refine ⟨(hfirst j).symm, ih ?_ (workersKnown_step hmoves hknown) hrest hstart.2⟩
    cases hmoves with
    | startAgain hworker => exact absurd rfl hstart.1
    | start hworker => exact absurd rfl hstart.1
    | stop => exact s.stop_worker
    | spawn hworker => exact absurd rfl (hfirst _)
    | _ => exact hs

/-- The current worker has not spawned its tasks, if there is one. -/
def Cluster.Unspawned (s : Cluster) : Prop :=
  ∀ j, s.worker = some j → s.workers[j]? = some .spawned

/-- There is one send task that is alive, and without a worker that has spawned its tasks all are
asleep. -/
structure Cluster.OneSender (s : Cluster) : Prop where
  single : ∀ i j, s.SenderAlive i → s.SenderAlive j → i = j
  asleep : s.Unspawned → ∀ (k : ℕ) (task : SendTask), s.sends[k]? = some task → task.Asleep

/-- But for the tasks that a worker spawns, no send task comes to life. -/
theorem senderAlive_step (h : s.Moves a t) (ha : ∀ j, a ≠ .spawn j) (hk : t.SenderAlive k) :
    s.SenderAlive k := by
  obtain ⟨task, hk, hdone⟩ := hk
  cases h with
  | stop =>
    obtain ⟨old, hold, rfl⟩ := Cluster.stop_getElem?_sends_iff.1 hk
    refine ⟨old, hold, ?_⟩
    rintro rfl
    exact hdone rfl
  | spawn hworker => exact absurd rfl (ha _)
  | sendNotified hj =>
    obtain ⟨-, rfl, -⟩ | ⟨-, hk⟩ := Tasks.getElem?_set_cases hk
    · exact absurd rfl hdone
    · exact ⟨task, hk, hdone⟩
  | tick hj htick =>
    obtain ⟨rfl, -, -⟩ | ⟨-, hk⟩ := Tasks.getElem?_set_cases hk
    · refine ⟨_, hj, ?_⟩
      rintro rfl
      simp at htick
    · exact ⟨task, hk, hdone⟩
  | store hj =>
    obtain ⟨rfl, -, -⟩ | ⟨-, hk⟩ := Tasks.getElem?_set_cases hk
    · exact ⟨_, hj, by simp⟩
    · exact ⟨task, hk, hdone⟩
  | publish hj hbus =>
    obtain ⟨rfl, -, -⟩ | ⟨-, hk⟩ := Tasks.getElem?_set_cases hk
    · exact ⟨_, hj, by simp⟩
    · exact ⟨task, hk, hdone⟩
  | finish hj hbus =>
    obtain ⟨rfl, -, -⟩ | ⟨-, hk⟩ := Tasks.getElem?_set_cases hk
    · exact ⟨_, hj, by simp⟩
    · exact ⟨task, hk, hdone⟩
  | _ => exact ⟨task, hk, hdone⟩

theorem sends_length_step (h : s.Moves a t) (ha : ∀ j, a ≠ .spawn j) :
    t.sends.length = s.sends.length := by
  cases h with
  | stop => rw [Cluster.stop_sends, List.length_map]
  | spawn hworker => exact absurd rfl (ha _)
  | sendNotified hj => exact List.length_set
  | tick hj htick => exact List.length_set
  | store hj => exact List.length_set
  | publish hj hbus => exact List.length_set
  | finish hj hbus => exact List.length_set
  | _ => rfl

/-- But for stops and the work of a worker, a worker that has not spawned its tasks has not done so
before. -/
theorem unspawned_step (h : s.Moves a t) (hspawn : ∀ j, a ≠ .spawn j) (hstop : a ≠ .stop)
    (ht : t.Unspawned) : s.Unspawned := by
  cases h with
  | start hworker =>
    intro j hj
    rw [hworker] at hj
    cases hj
  | stop => exact absurd rfl hstop
  | spawn hworker => exact absurd rfl (hspawn _)
  | _ => exact ht

/-- **The step lemma of the send tasks.** -/
theorem oneSender_step (h : s.Moves a t) (hclean : s.StopsCleanly a) (hknown : s.WorkersKnown)
    (hs : s.OneSender) : t.OneSender := by
  by_cases hspawn : ∃ j, a = .spawn j
  · obtain ⟨j, rfl⟩ := hspawn
    cases h with
    | spawn hworker =>
      -- the tasks of former workers are asleep, and have not just been woken
      have hcurrent := hknown j hworker
      have hdone : ∀ k, ¬ s.SenderAlive k := by
        rintro k ⟨task, hk, htask⟩
        have hunspawned : s.Unspawned := by
          intro i hi
          rw [hcurrent, Option.some.injEq] at hi
          exact hi ▸ hworker
        obtain rfl | hwoken := hs.asleep hunspawned k task hk
        · exact htask rfl
        · have hgone := hclean task (List.mem_of_getElem? hk)
          rw [hwoken] at hgone
          cases hgone
      have hnew : ∀ k, Cluster.SenderAlive { s with
          workers := s.workers.set j .running
          recvs := s.recvs ++ [.spawned]
          sends := s.sends ++ [.spawned] } k → k = s.sends.length := by
        rintro k ⟨task, hk, htask⟩
        obtain ⟨hlast, -⟩ | ⟨-, hk⟩ := Tasks.getElem?_concat_cases hk
        · exact hlast
        · exact absurd ⟨task, hk, htask⟩ (hdone k)
      refine ⟨fun i i' hi hi' => (hnew i hi).trans (hnew i' hi').symm, ?_⟩
      intro hunspawned
      have hrunning := hunspawned j hcurrent
      rw [List.getElem?_set_self (List.getElem?_eq_some_iff.1 hworker).1] at hrunning
      cases hrunning
  · push Not at hspawn
    refine ⟨fun i i' hi hi' => hs.single i i' (senderAlive_step h hspawn hi)
      (senderAlive_step h hspawn hi'), ?_⟩
    intro hunspawned k task hk
    by_cases hstop : a = .stop
    · -- it finds all tasks at rest
      subst hstop
      cases h with
      | stop => exact hclean.send_asleep hk
    · have hold := hs.asleep (unspawned_step h hspawn hstop hunspawned)
      have hlt := (List.getElem?_eq_some_iff.1 hk).1
      rw [sends_length_step h hspawn] at hlt
      obtain ⟨-, task', hk', htask'⟩ := send_asleep_step h hclean (List.getElem?_eq_getElem hlt)
        (hold k _ (List.getElem?_eq_getElem hlt))
      rw [hk, Option.some.injEq] at hk'
      exact hk' ▸ htask'

theorem oneSender_exec {nodeId : String} {role : NodeRole} {as : List ClusterAction}
    (hclean : cluster.Throughout (.new nodeId role) Cluster.StopsCleanly as)
    (h : cluster.exec (.new nodeId role) as = some s) : s.OneSender := by
  have hone : s.WorkersKnown ∧ s.OneSender := by
    refine hclean.invariant (Q := fun s => s.WorkersKnown ∧ s.OneSender) ?_ ?_ h
    · refine ⟨?_, ?_, ?_⟩
      · intro j hj
        cases hj
      · rintro i j ⟨task, hi, -⟩
        cases hi
      · intro _ k task hk
        cases hk
    · rintro u a v ⟨hknown, hu⟩ ha hstep
      exact ⟨workersKnown_step (Cluster.moves hstep) hknown,
        oneSender_step (Cluster.moves hstep) ha hknown hu⟩
  exact hone.2

/-! ### Stops are final -/

/-- **Clean runs stop for good**: if every stop of a run finds all tasks at rest, woken tasks take
their notification first, and a worker spawns its tasks when the woken send tasks are gone, then
stops are final in the run, and there is never more than one send task. -/
theorem stopFinal_of_clean (nodeId : String) (role : NodeRole) {as : List ClusterAction}
    {t : Cluster} (h : cluster.exec (.new nodeId role) as = some t)
    (hclean : cluster.Throughout (.new nodeId role) Cluster.StopsCleanly as) :
    StopFinal (.new nodeId role) as := by
  have hstopped : ∀ pre post s, as = pre ++ .stop :: post →
      cluster.exec (.new nodeId role) (pre ++ [.stop]) = some s →
      ∃ u : Cluster, s = u.stop ∧ u.StopsCleanly .stop ∧ u.WorkersKnown ∧
        cluster.exec s post = some t ∧ cluster.Throughout s Cluster.StopsCleanly post := by
    rintro pre post s rfl hs
    obtain ⟨u, hu, hstop⟩ := cluster.exec_concat_iff.1 hs
    have heq : pre ++ .stop :: post = (pre ++ [.stop]) ++ post := by simp
    refine ⟨u, (Option.some.inj hstop).symm, hclean pre .stop post u rfl hu,
      workersKnown_exec hu, ?_, ?_⟩
    · rw [heq, cluster.exec_append, hs] at h
      exact h
    · rw [heq] at hclean
      exact hclean.right hs
  refine ⟨?_, ?_, ?_, ?_⟩
  · intro pre post s heq hs k task hk
    obtain ⟨u, rfl, hrest, -, hpost, hcleanPost⟩ := hstopped pre post s heq hs
    rw [recv_asleep_run hpost hcleanPost hk (hrest.recv_asleep hk)]
    exact List.nil_prefix
  · intro pre post s heq hs k task hk
    obtain ⟨u, rfl, hrest, -, hpost, hcleanPost⟩ := hstopped pre post s heq hs
    rw [send_asleep_run hpost hcleanPost hk (hrest.send_asleep hk)]
    exact List.nil_prefix
  · rintro pre post rfl hstart
    have hsplit : cluster.exec (.new nodeId role) (pre ++ .stop :: post) = some t := h
    rw [cluster.exec_append] at hsplit
    obtain ⟨u, hu, hrest⟩ := Option.bind_eq_some_iff.1 hsplit
    obtain ⟨v, hv, hpost⟩ := Option.bind_eq_some_iff.1 hrest
    have hknown := workersKnown_step (Cluster.moves hv) (workersKnown_exec hu)
    have hnone : v.worker = none := Option.some.inj hv ▸ u.stop_worker
    exact spawn_notMem hnone hknown hpost hstart
  · rintro pre post s rfl hs
    exact (oneSender_exec hclean.left hs).single

/-- A service that is started, publishes a heartbeat, is stopped and started again. -/
def stopAndStart : List ClusterAction :=
  [.start, .spawn 0, .subscribe 0, .tick 0 0, .store 0, .publish 0, .send 0, .finish 0, .take 0,
    .record 0, .stop, .sendNotified 0, .start, .spawn 1, .recvNotified 0]

theorem stopFinal_of_clean_sample : StopFinal (.new "a" .allInOne) stopAndStart := by
  have hruns : (cluster.exec (.new "a" .allInOne) stopAndStart).isSome = true := by decide
  obtain ⟨t, ht⟩ := Option.isSome_iff_exists.1 hruns
  exact stopFinal_of_clean "a" .allInOne ht (by decide)

/-- A service that is stopped while its send task is at work on a heartbeat, and started again. -/
def stopAtWork : List ClusterAction :=
  [.start, .spawn 0, .subscribe 0, .tick 0 0, .stop, .store 0, .publish 0, .send 0, .finish 0,
    .tick 0 1, .store 0, .start, .spawn 1]

/-- **A stop that finds the send task at work does not stop it**: it stores the next heartbeat too,
and lives on beside the one of the next start. -/
theorem not_stopFinal :
    (∃ s, cluster.exec (.new "a" .allInOne) stopAtWork = some s ∧
      s.SenderAlive 0 ∧ s.SenderAlive 1) ∧
      ¬ StopFinal (.new "a" .allInOne) stopAtWork := by
  have hend : (cluster.exec (.new "a" .allInOne) stopAtWork).map (·.sends) =
      some [.stored ⟨"a", .allInOne, 1, 0, 0, 0⟩, .spawned] := by decide
  have hstopped : (cluster.exec (.new "a" .allInOne)
      [.start, .spawn 0, .subscribe 0, .tick 0 0, .stop]).map (·.sends) =
        some [.stamped ⟨"a", .allInOne, 0, 0, 0, 0⟩] := by decide
  constructor
  · obtain ⟨s, hs, hsends⟩ := Option.map_eq_some_iff.1 hend
    refine ⟨s, hs, ⟨_, congrArg (·[0]?) hsends, by simp⟩, ⟨_, congrArg (·[1]?) hsends, by simp⟩⟩
  · intro h
    obtain ⟨s, hs, hsends⟩ := Option.map_eq_some_iff.1 hstopped
    have hdue := h.sends [.start, .spawn 0, .subscribe 0, .tick 0 0] _ s rfl hs 0 _
      (congrArg (·[0]?) hsends)
    revert hdue
    decide

end W2uos
