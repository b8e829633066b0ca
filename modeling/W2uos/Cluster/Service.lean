import W2uos.Bus.Delivery
import W2uos.Node.Environment
import W2uos.System.Tasks

/-!
# The cluster service

A worker of `ClusterService` spawns two tasks and waits for them.  The send task stores a heartbeat
of the node in the map and publishes it, at every tick; the receive task stores what arrives on
`cluster.heartbeat`, the node's own heartbeats among it.  Both wait in a `select!` for a
notification of `stop` as well.  The notification reaches only tasks that are waiting at the time,
and when something else is ready too, a task that has been reached may take that first and forget
the notification.  `stop` then aborts the worker, and with it nothing but the waiting for the tasks.

Steps lie between the awaits.  The send task with index `k` is publisher `2 * k` of the bus; the
other publishers have odd numbers.  The first tick is due at once, in the first step of the task.

* `Cluster.moves` : what the steps do.
-/

namespace W2uos

/-- A heartbeat of a node. -/
structure NodeHeartbeat where
  nodeId : String
  role : NodeRole
  timestamp : DateTime
  cpuLoadPct : ℚ
  memLoadPct : ℚ
  strategyCount : ℕ
  deriving DecidableEq

/-- The subject of the heartbeats. -/
def heartbeatSubject : String := "cluster.heartbeat"

/-- The task that `start` spawns. -/
inductive Worker
  | spawned
  /-- It has spawned the two tasks and waits for them. -/
  | running
  | aborted
  deriving DecidableEq

/-- The receive task. -/
inductive RecvTask
  | spawned
  /-- It waits, with a subscription; it has been woken by a notification, or not. -/
  | waiting (receiver : ℕ) (woken : Bool)
  /-- It has decoded a message of a publisher and is about to write the map. -/
  | recording (receiver publisher : ℕ) (hb : NodeHeartbeat)
  | done
  deriving DecidableEq

/-- The send task. -/
inductive SendTask
  | spawned
  | waiting (woken : Bool)
  /-- It has made a heartbeat and is about to write the map. -/
  | stamped (hb : NodeHeartbeat)
  /-- It is about to publish. -/
  | stored (hb : NodeHeartbeat)
  | publishing
  | done
  deriving DecidableEq

/-- The subscription of a receive task. -/
def RecvTask.receiver : RecvTask → Option ℕ
  | .waiting receiver _ => some receiver
  | .recording receiver _ _ => some receiver
  | .spawned | .done => none

/-- `notify_waiters` reaches tasks that wait. -/
def RecvTask.notify : RecvTask → RecvTask
  | .waiting receiver _ => .waiting receiver true
  | task => task

/-- `notify_waiters` reaches tasks that wait. -/
def SendTask.notify : SendTask → SendTask
  | .waiting _ => .waiting true
  | task => task

/-- How a heartbeat comes into the map: a send task stores it, or a receive task that has got it
from a publisher. -/
inductive Way
  | direct (k : ℕ)
  | received (k publisher : ℕ)
  deriving DecidableEq

/-- The service, its tasks, and the bus.  A message is what its payload decodes to.  What has been
stored, and on which way, is kept for the statements. -/
structure Cluster where
  nodeId : String
  role : NodeRole
  bus : LocalBus (Option NodeHeartbeat)
  heartbeats : Finmap fun _ : String => NodeHeartbeat
  /-- The worker whose handle is kept. -/
  worker : Option ℕ
  workers : List Worker
  recvs : List RecvTask
  sends : List SendTask
  stored : List (Way × NodeHeartbeat)

/-- The steps of the service and of the others on the bus. -/
inductive ClusterAction
  | start
  | stop
  /-- A worker spawns its tasks. -/
  | spawn (j : ℕ)
  /-- A receive task subscribes. -/
  | subscribe (k : ℕ)
  /-- A receive task takes its notification. -/
  | recvNotified (k : ℕ)
  /-- A receive task takes a message. -/
  | take (k : ℕ)
  /-- A receive task writes the map. -/
  | record (k : ℕ)
  /-- A send task takes its notification. -/
  | sendNotified (k : ℕ)
  /-- A send task takes a tick. -/
  | tick (k : ℕ) (now : DateTime)
  /-- A send task writes the map. -/
  | store (k : ℕ)
  /-- A send task calls `publish`; a send of the call; its return. -/
  | publish (k : ℕ)
  | send (k : ℕ)
  | finish (k : ℕ)
  /-- Others use the bus. -/
  | other (a : BusAction (Option NodeHeartbeat))

namespace Cluster

/-- `ClusterService::new`. -/
def new (nodeId : String) (role : NodeRole) : Cluster where
  nodeId := nodeId
  role := role
  bus := .new
  heartbeats := ∅
  worker := none
  workers := []
  recvs := []
  sends := []
  stored := []

/-- The heartbeat of the node. -/
def heartbeat (s : Cluster) (now : DateTime) : NodeHeartbeat where
  nodeId := s.nodeId
  role := s.role
  timestamp := now
  cpuLoadPct := 0
  memLoadPct := 0
  strategyCount := 0

/-- Write the map. -/
def insertHeartbeat (s : Cluster) (way : Way) (hb : NodeHeartbeat) : Cluster :=
  { s with
    heartbeats := s.heartbeats.insert hb.nodeId hb
    stored := s.stored ++ [(way, hb)] }

/-- `start`. -/
def start (s : Cluster) : Cluster :=
  match s.worker with
  | some _ => s
  | none =>
    { s with workers := s.workers ++ [.spawned], worker := some s.workers.length }

/-- `stop`. -/
def stop (s : Cluster) : Cluster :=
  let notified : Cluster :=
    { s with recvs := s.recvs.map RecvTask.notify, sends := s.sends.map SendTask.notify }
  match s.worker with
  | none => notified
  | some j => { notified with workers := s.workers.set j .aborted, worker := none }

/-- A worker that has not been aborted spawns its tasks. -/
def spawn (s : Cluster) (j : ℕ) : Option Cluster :=
  match s.workers[j]? with
  | some .spawned => some
    { s with
      workers := s.workers.set j .running
      recvs := s.recvs ++ [.spawned]
      sends := s.sends ++ [.spawned] }
  | _ => none

/-- A receive task subscribes, and waits. -/
def subscribe (s : Cluster) (k : ℕ) : Option Cluster :=
  match s.recvs[k]? with
  | some .spawned =>
    (s.bus.subscribe heartbeatSubject).map fun bus =>
      { s with bus := bus, recvs := s.recvs.set k (.waiting s.bus.next false) }
  | _ => none

/-- A receive task that has been woken leaves its loop and drops its subscription. -/
def recvNotified (s : Cluster) (k : ℕ) : Option Cluster :=
  match s.recvs[k]? with
  | some (.waiting receiver true) =>
    (s.bus.drop receiver).map fun bus => { s with bus := bus, recvs := s.recvs.set k .done }
  | _ => none

/-- A receive task takes a message, and waits for the next one if it cannot be decoded. -/
def take (s : Cluster) (k : ℕ) : Option Cluster :=
  match s.recvs[k]? with
  | some (.waiting receiver _) =>
    match s.bus.channels.lookup receiver with
    | some ⟨_, _, ⟨publisher, msg⟩ :: _, _⟩ =>
      (s.bus.recv receiver).map fun bus =>
        { s with
          bus := bus
          recvs := s.recvs.set k (match msg with
            | some hb => .recording receiver publisher hb
            | none => .waiting receiver false) }
    | _ => none
  | _ => none

/-- A receive task stores the heartbeat it has taken, and waits. -/
def record (s : Cluster) (k : ℕ) : Option Cluster :=
  match s.recvs[k]? with
  | some (.recording receiver publisher hb) => some
    { s.insertHeartbeat (.received k publisher) hb with
      recvs := s.recvs.set k (.waiting receiver false) }
  | _ => none

/-- A send task that has been woken leaves its loop. -/
def sendNotified (s : Cluster) (k : ℕ) : Option Cluster :=
  match s.sends[k]? with
  | some (.waiting true) => some { s with sends := s.sends.set k .done }
  | _ => none

/-- A send task makes a heartbeat. -/
def tick (s : Cluster) (k : ℕ) (now : DateTime) : Option Cluster :=
  match s.sends[k]? with
  | some .spawned | some (.waiting _) => some
    { s with sends := s.sends.set k (.stamped (s.heartbeat now)) }
  | _ => none

/-- A send task stores its heartbeat. -/
def store (s : Cluster) (k : ℕ) : Option Cluster :=
  match s.sends[k]? with
  | some (.stamped hb) => some
    { s.insertHeartbeat (.direct k) hb with sends := s.sends.set k (.stored hb) }
  | _ => none

/-- A send task calls `publish`. -/
def publish (s : Cluster) (k : ℕ) : Option Cluster :=
  match s.sends[k]? with
  | some (.stored hb) =>
    (s.bus.publish (2 * k) heartbeatSubject (some hb)).map fun bus =>
      { s with bus := bus, sends := s.sends.set k .publishing }
  | _ => none

/-- The call of a send task goes on. -/
def send (s : Cluster) (k : ℕ) : Option Cluster :=
  match s.sends[k]? with
  | some .publishing => (s.bus.send (2 * k)).map fun bus => { s with bus := bus }
  | _ => none

/-- The call of a send task returns, and the task waits. -/
def finish (s : Cluster) (k : ℕ) : Option Cluster :=
  match s.sends[k]? with
  | some .publishing =>
    (s.bus.finish (2 * k)).map fun bus =>
      { s with bus := bus, sends := s.sends.set k (.waiting false) }
  | _ => none

/-- Others publish under odd numbers, and do not use the subscriptions of the service. -/
def IsOther (s : Cluster) : BusAction (Option NodeHeartbeat) → Prop
  | .publish p _ _ | .send p | .finish p => p % 2 = 1
  | .subscribe _ => True
  | .recv r | .drop r => some r ∉ s.recvs.map RecvTask.receiver

instance (s : Cluster) : DecidablePred s.IsOther
  | .publish p _ _ => inferInstanceAs (Decidable (p % 2 = 1))
  | .send p => inferInstanceAs (Decidable (p % 2 = 1))
  | .finish p => inferInstanceAs (Decidable (p % 2 = 1))
  | .subscribe _ => inferInstanceAs (Decidable True)
  | .recv r => inferInstanceAs (Decidable (some r ∉ s.recvs.map RecvTask.receiver))
  | .drop r => inferInstanceAs (Decidable (some r ∉ s.recvs.map RecvTask.receiver))

/-- Others use the bus. -/
def other (s : Cluster) (a : BusAction (Option NodeHeartbeat)) : Option Cluster :=
  if s.IsOther a then ((localBus _).step s.bus a).map fun bus => { s with bus := bus } else none

end Cluster

/-- The service on a bus with others. -/
def cluster : Interleaving Cluster ClusterAction where
  step s
    | .start => some s.start
    | .stop => some s.stop
    | .spawn j => s.spawn j
    | .subscribe k => s.subscribe k
    | .recvNotified k => s.recvNotified k
    | .take k => s.take k
    | .record k => s.record k
    | .sendNotified k => s.sendNotified k
    | .tick k now => s.tick k now
    | .store k => s.store k
    | .publish k => s.publish k
    | .send k => s.send k
    | .finish k => s.finish k
    | .other a => s.other a

namespace Cluster

/-- What the steps do. -/
inductive Moves (s : Cluster) : ClusterAction → Cluster → Prop
  | startAgain {j : ℕ} (h : s.worker = some j) : Moves s .start s
  | start (h : s.worker = none) :
    Moves s .start { s with workers := s.workers ++ [.spawned], worker := some s.workers.length }
  | stop : Moves s .stop s.stop
  | spawn {j : ℕ} (h : s.workers[j]? = some .spawned) :
    Moves s (.spawn j)
      { s with
        workers := s.workers.set j .running
        recvs := s.recvs ++ [.spawned]
        sends := s.sends ++ [.spawned] }
  | subscribe {k : ℕ} {bus : LocalBus (Option NodeHeartbeat)} (h : s.recvs[k]? = some .spawned)
      (hbus : s.bus.subscribe heartbeatSubject = some bus) :
    Moves s (.subscribe k)
      { s with bus := bus, recvs := s.recvs.set k (.waiting s.bus.next false) }
  | recvNotified {k receiver : ℕ} {bus : LocalBus (Option NodeHeartbeat)}
      (h : s.recvs[k]? = some (.waiting receiver true))
      (hbus : s.bus.drop receiver = some bus) :
    Moves s (.recvNotified k) { s with bus := bus, recvs := s.recvs.set k .done }
  | take {k receiver publisher : ℕ} {woken : Bool} {hb : NodeHeartbeat}
      {bus : LocalBus (Option NodeHeartbeat)} {ch : Channel (Option NodeHeartbeat)}
      {queue : List (Sent (Option NodeHeartbeat))}
      (h : s.recvs[k]? = some (.waiting receiver woken))
      (hch : s.bus.channels.lookup receiver = some ch)
      (hqueue : ch.queue = ⟨publisher, some hb⟩ :: queue)
      (hbus : s.bus.recv receiver = some bus) :
    Moves s (.take k)
      { s with bus := bus, recvs := s.recvs.set k (.recording receiver publisher hb) }
  | skip {k receiver publisher : ℕ} {woken : Bool}
      {bus : LocalBus (Option NodeHeartbeat)} {ch : Channel (Option NodeHeartbeat)}
      {queue : List (Sent (Option NodeHeartbeat))}
      (h : s.recvs[k]? = some (.waiting receiver woken))
      (hch : s.bus.channels.lookup receiver = some ch)
      (hqueue : ch.queue = ⟨publisher, none⟩ :: queue)
      (hbus : s.bus.recv receiver = some bus) :
    Moves s (.take k) { s with bus := bus, recvs := s.recvs.set k (.waiting receiver false) }
  | record {k receiver publisher : ℕ} {hb : NodeHeartbeat}
      (h : s.recvs[k]? = some (.recording receiver publisher hb)) :
    Moves s (.record k)
      { s.insertHeartbeat (.received k publisher) hb with
        recvs := s.recvs.set k (.waiting receiver false) }
  | sendNotified {k : ℕ} (h : s.sends[k]? = some (.waiting true)) :
    Moves s (.sendNotified k) { s with sends := s.sends.set k .done }
  | tick {k : ℕ} {now : DateTime} {task : SendTask} (h : s.sends[k]? = some task)
      (htask : task = .spawned ∨ ∃ woken, task = .waiting woken) :
    Moves s (.tick k now) { s with sends := s.sends.set k (.stamped (s.heartbeat now)) }
  | store {k : ℕ} {hb : NodeHeartbeat} (h : s.sends[k]? = some (.stamped hb)) :
    Moves s (.store k)
      { s.insertHeartbeat (.direct k) hb with sends := s.sends.set k (.stored hb) }
  | publish {k : ℕ} {hb : NodeHeartbeat} {bus : LocalBus (Option NodeHeartbeat)}
      (h : s.sends[k]? = some (.stored hb))
      (hbus : s.bus.publish (2 * k) heartbeatSubject (some hb) = some bus) :
    Moves s (.publish k) { s with bus := bus, sends := s.sends.set k .publishing }
  | send {k : ℕ} {bus : LocalBus (Option NodeHeartbeat)} (h : s.sends[k]? = some .publishing)
      (hbus : s.bus.send (2 * k) = some bus) : Moves s (.send k) { s with bus := bus }
  | finish {k : ℕ} {bus : LocalBus (Option NodeHeartbeat)} (h : s.sends[k]? = some .publishing)
      (hbus : s.bus.finish (2 * k) = some bus) :
    Moves s (.finish k) { s with bus := bus, sends := s.sends.set k (.waiting false) }
  | other {a : BusAction (Option NodeHeartbeat)} {bus : LocalBus (Option NodeHeartbeat)}
      (ha : s.IsOther a) (hbus : (localBus _).step s.bus a = some bus) :
    Moves s (.other a) { s with bus := bus }

section Moves

variable {s t : Cluster} {k : ℕ}

theorem start_moves (s : Cluster) : s.Moves .start s.start := by
  unfold Cluster.start
  cases hworker : s.worker with
  | none => exact .start hworker
  | some j => exact .startAgain hworker

theorem spawn_moves {j : ℕ} (h : s.spawn j = some t) : s.Moves (.spawn j) t := by
  unfold spawn at h
  split at h
  · rename_i hworker
    rw [Option.some.injEq] at h
    exact h ▸ .spawn hworker
  · cases h

theorem subscribe_moves (h : s.subscribe k = some t) : s.Moves (.subscribe k) t := by
  unfold subscribe at h
  split at h
  · rename_i hrecv
    obtain ⟨bus, hbus, rfl⟩ := Option.map_eq_some_iff.1 h
    exact .subscribe hrecv hbus
  · cases h

theorem recvNotified_moves (h : s.recvNotified k = some t) : s.Moves (.recvNotified k) t := by
  unfold recvNotified at h
  split at h
  · rename_i hrecv
    obtain ⟨bus, hbus, rfl⟩ := Option.map_eq_some_iff.1 h
    exact .recvNotified hrecv hbus
  · cases h

theorem take_moves (h : s.take k = some t) : s.Moves (.take k) t := by
  unfold take at h
  split at h
  · rename_i receiver woken hrecv
    split at h
    · rename_i publisher msg queue received hch
      obtain ⟨bus, hbus, rfl⟩ := Option.map_eq_some_iff.1 h
      cases msg with
      | none => exact .skip hrecv hch rfl hbus
      | some hb => exact .take hrecv hch rfl hbus
    · cases h
  · cases h

theorem record_moves (h : s.record k = some t) : s.Moves (.record k) t := by
  unfold record at h
  split at h
  · rename_i hrecv
    rw [Option.some.injEq] at h
    exact h ▸ .record hrecv
  · cases h

theorem sendNotified_moves (h : s.sendNotified k = some t) : s.Moves (.sendNotified k) t := by
  unfold sendNotified at h
  split at h
  · rename_i hsend
    rw [Option.some.injEq] at h
    exact h ▸ .sendNotified hsend
  · cases h

theorem tick_moves {now : DateTime} (h : s.tick k now = some t) : s.Moves (.tick k now) t := by
  unfold tick at h
  split at h
  · rename_i hsend
    rw [Option.some.injEq] at h
    exact h ▸ .tick hsend (Or.inl rfl)
  · rename_i woken hsend
    rw [Option.some.injEq] at h
    exact h ▸ .tick hsend (Or.inr ⟨woken, rfl⟩)
  · cases h

theorem store_moves (h : s.store k = some t) : s.Moves (.store k) t := by
  unfold store at h
  split at h
  · rename_i hsend
    rw [Option.some.injEq] at h
    exact h ▸ .store hsend
  · cases h

theorem publish_moves (h : s.publish k = some t) : s.Moves (.publish k) t := by
  unfold publish at h
  split at h
  · rename_i hsend
    obtain ⟨bus, hbus, rfl⟩ := Option.map_eq_some_iff.1 h
    exact .publish hsend hbus
  · cases h

theorem send_moves (h : s.send k = some t) : s.Moves (.send k) t := by
  unfold send at h
  split at h
  · rename_i hsend
    obtain ⟨bus, hbus, rfl⟩ := Option.map_eq_some_iff.1 h
    exact .send hsend hbus
  · cases h

theorem finish_moves (h : s.finish k = some t) : s.Moves (.finish k) t := by
  unfold finish at h
  split at h
  · rename_i hsend
    obtain ⟨bus, hbus, rfl⟩ := Option.map_eq_some_iff.1 h
    exact .finish hsend hbus
  · cases h

theorem other_moves {a : BusAction (Option NodeHeartbeat)} (h : s.other a = some t) :
    s.Moves (.other a) t := by
  unfold other at h
  split_ifs at h with ha
  obtain ⟨bus, hbus, rfl⟩ := Option.map_eq_some_iff.1 h
  exact .other ha hbus

/-- **What the steps do.** -/
theorem moves {a : ClusterAction} (h : cluster.step s a = some t) : s.Moves a t := by
  cases a with
  | start => exact Option.some.inj h ▸ s.start_moves
  | stop => exact Option.some.inj h ▸ .stop
  | spawn j => exact spawn_moves h
  | subscribe k => exact subscribe_moves h
  | recvNotified k => exact recvNotified_moves h
  | take k => exact take_moves h
  | record k => exact record_moves h
  | sendNotified k => exact sendNotified_moves h
  | tick k now => exact tick_moves h
  | store k => exact store_moves h
  | publish k => exact publish_moves h
  | send k => exact send_moves h
  | finish k => exact finish_moves h
  | other a => exact other_moves h

end Moves

/-! ### Stopping -/

@[simp] theorem stop_recvs (s : Cluster) :
    s.stop.recvs = s.recvs.map RecvTask.notify := by
  unfold stop
  cases s.worker <;> rfl

@[simp] theorem stop_sends (s : Cluster) :
    s.stop.sends = s.sends.map SendTask.notify := by
  unfold stop
  cases s.worker <;> rfl

theorem stop_getElem?_recvs_iff {s : Cluster} {k : ℕ} {task : RecvTask} :
    s.stop.recvs[k]? = some task ↔ ∃ old, s.recvs[k]? = some old ∧ old.notify = task := by
  rw [stop_recvs, List.getElem?_map, Option.map_eq_some_iff]

theorem stop_getElem?_sends_iff {s : Cluster} {k : ℕ} {task : SendTask} :
    s.stop.sends[k]? = some task ↔ ∃ old, s.sends[k]? = some old ∧ old.notify = task := by
  rw [stop_sends, List.getElem?_map, Option.map_eq_some_iff]

@[simp] theorem stop_bus (s : Cluster) : s.stop.bus = s.bus := by
  unfold stop
  cases s.worker <;> rfl

@[simp] theorem stop_heartbeats (s : Cluster) : s.stop.heartbeats = s.heartbeats := by
  unfold stop
  cases s.worker <;> rfl

@[simp] theorem stop_stored (s : Cluster) : s.stop.stored = s.stored := by
  unfold stop
  cases s.worker <;> rfl

@[simp] theorem stop_heartbeat (s : Cluster) : s.stop.heartbeat = s.heartbeat := by
  unfold stop
  cases s.worker <;> rfl

@[simp] theorem stop_worker (s : Cluster) : s.stop.worker = none := by
  unfold stop
  cases s.worker <;> rfl

theorem stop_workers (s : Cluster) :
    s.stop.workers = match s.worker with
      | none => s.workers
      | some j => s.workers.set j .aborted := by
  unfold stop
  cases s.worker <;> rfl

end Cluster

end W2uos
