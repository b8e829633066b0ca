import Mathlib.Data.List.ReduceOption
import W2uos.Cluster.Service

/-!
# The map of heartbeats

A heartbeat of the node comes into the map twice: the send task stores it, and the receive task
stores it again when it comes back over the bus.  Writes replace what is there.  On one way the
heartbeats keep their order, since the bus does; but on the way over the bus one may be overtaken
by the next one that is stored directly.

* `tracks_exec` : what the send tasks store and publish are their ticks;
* `receives_exec` : what the receive tasks store is what they have received;
* `timestamp_le` : on one way the heartbeats come in order;
* `heartbeatsForward_iff` : exactly when the map does not go back.
-/

namespace W2uos

/-! ### Publishers -/

/-- The times at which a send task takes its ticks. -/
def ticks (k : ℕ) (as : List ClusterAction) : List DateTime :=
  as.filterMap fun
    | .tick j now => if j = k then some now else none
    | _ => none

/-- The heartbeats that another publisher publishes. -/
def heartbeatsOf (p : ℕ) (as : List ClusterAction) : List NodeHeartbeat :=
  as.filterMap fun
    | .other (.publish q subject msg) =>
      if q = p ∧ subject = heartbeatSubject then msg else none
    | _ => none

/-- Later heartbeats are not older. -/
def InTime (hbs : List NodeHeartbeat) : Prop :=
  hbs.Pairwise fun hb hb' => hb.timestamp ≤ hb'.timestamp

/-- The timestamps of every publisher increase. -/
structure Increasing (as : List ClusterAction) : Prop where
  own : ∀ k, (ticks k as).Pairwise (· ≤ ·)
  others : ∀ p, InTime (heartbeatsOf p as)

theorem ticks_append (k : ℕ) (as bs : List ClusterAction) :
    ticks k (as ++ bs) = ticks k as ++ ticks k bs := List.filterMap_append

theorem ticks_tick (j k : ℕ) (now : DateTime) :
    ticks j [.tick k now] = if k = j then [now] else [] := by
  unfold ticks
  by_cases hkj : k = j <;> simp [hkj]

theorem heartbeatsOf_append (p : ℕ) (as bs : List ClusterAction) :
    heartbeatsOf p (as ++ bs) = heartbeatsOf p as ++ heartbeatsOf p bs := List.filterMap_append

/-! ### What the send tasks do -/

/-- What a send task is about to store. -/
def SendTask.toStore : SendTask → List NodeHeartbeat
  | .stamped hb => [hb]
  | .spawned | .waiting _ | .stored _ | .publishing | .done => []

/-- What a send task is about to publish. -/
def SendTask.toPublish : SendTask → List NodeHeartbeat
  | .stamped hb | .stored hb => [hb]
  | .spawned | .waiting _ | .publishing | .done => []

namespace Cluster

variable {s t : Cluster} {a : ClusterAction} {as : List ClusterAction}
  {bs cs : List (BusAction (Option NodeHeartbeat))}

/-- What has been stored on a way. -/
def storedOn (s : Cluster) (way : Way) : List NodeHeartbeat :=
  (s.stored.filter fun x => x.1 = way).map Prod.snd

@[simp] theorem storedOn_insertHeartbeat (s : Cluster) (way way' : Way) (hb : NodeHeartbeat) :
    (s.insertHeartbeat way hb).storedOn way' =
      s.storedOn way' ++ if way = way' then [hb] else [] := by
  unfold storedOn insertHeartbeat
  by_cases hway : way = way' <;> simp [hway]

theorem storedOn_insertHeartbeat_of_ne (s : Cluster) {way way' : Way} (hway : way ≠ way')
    (hb : NodeHeartbeat) : (s.insertHeartbeat way hb).storedOn way' = s.storedOn way' := by
  rw [storedOn_insertHeartbeat, if_neg hway, List.append_nil]

@[simp] theorem storedOn_stop (s : Cluster) (way : Way) : s.stop.storedOn way = s.storedOn way := by
  rw [storedOn, stop_stored, storedOn]

/-- A schedule of the bus that leads to the same state of it; in the two schedules everybody
publishes the same.  What the send tasks have stored and published are their ticks. -/
structure Tracks (as : List ClusterAction) (bs : List (BusAction (Option NodeHeartbeat)))
    (s : Cluster) : Prop where
  exec : (localBus _).exec .new bs = some s.bus
  direct : ∀ k, s.storedOn (.direct k) ++ Tasks.holding SendTask.toStore s.sends k =
    (ticks k as).map s.heartbeat
  own : ∀ k, (published (2 * k) heartbeatSubject bs).reduceOption ++
    Tasks.holding SendTask.toPublish s.sends k = (ticks k as).map s.heartbeat
  others : ∀ p, p % 2 = 1 →
    (published p heartbeatSubject bs).reduceOption = heartbeatsOf p as

theorem Tracks.keep (h : Tracks as bs s) (hbus : (localBus _).exec s.bus cs = some t.bus)
    (hsilent : ∀ p, published p heartbeatSubject cs = [])
    (hstore : ∀ k, Tasks.holding SendTask.toStore t.sends k =
      Tasks.holding SendTask.toStore s.sends k)
    (hpublish : ∀ k, Tasks.holding SendTask.toPublish t.sends k =
      Tasks.holding SendTask.toPublish s.sends k)
    (hstored : ∀ k, t.storedOn (.direct k) = s.storedOn (.direct k))
    (hheartbeat : t.heartbeat = s.heartbeat) (hticks : ∀ k, ticks k [a] = [])
    (hothers : ∀ p, heartbeatsOf p [a] = []) : Tracks (as ++ [a]) (bs ++ cs) t where
  exec := Interleaving.exec_trans h.exec hbus
  direct k := by
    rw [hstored, hstore, hheartbeat, ticks_append, hticks, List.append_nil]
    exact h.direct k
  own k := by
    rw [published_append, hsilent, List.append_nil, hpublish, hheartbeat, ticks_append, hticks,
      List.append_nil]
    exact h.own k
  others p hp := by
    rw [published_append, hsilent, List.append_nil, heartbeatsOf_append, hothers, List.append_nil]
    exact h.others p hp

/-- Steps of the receive tasks, and others that use the bus without publishing. -/
theorem Tracks.bus {b : BusAction (Option NodeHeartbeat)} (h : Tracks as bs s)
    (hbus : (localBus _).step s.bus b = some t.bus)
    (hsilent : ∀ p, published p heartbeatSubject [b] = []) (hsends : t.sends = s.sends)
    (hstored : t.stored = s.stored) (hheartbeat : t.heartbeat = s.heartbeat)
    (hticks : ∀ k, ticks k [a] = []) (hothers : ∀ p, heartbeatsOf p [a] = []) :
    Tracks (as ++ [a]) (bs ++ [b]) t := by
  refine h.keep (Interleaving.exec_cons_of_step hbus []) hsilent ?_ ?_ ?_ hheartbeat hticks hothers
  · intro k
    rw [hsends]
  · intro k
    rw [hsends]
  · intro k
    rw [storedOn, hstored, storedOn]

theorem published_of_isOther {b : BusAction (Option NodeHeartbeat)} (hb : s.IsOther b) (k : ℕ) :
    published (2 * k) heartbeatSubject [b] = [] := by
  cases b with
  | publish q subject msg =>
    have hodd : q % 2 = 1 := hb
    have hne : q ≠ 2 * k := by omega
    simp [published, hne]
  | _ => rfl

theorem reduceOption_published (p : ℕ) (b : BusAction (Option NodeHeartbeat)) :
    (published p heartbeatSubject [b]).reduceOption = heartbeatsOf p [.other b] := by
  cases b with
  | publish q subject msg =>
    by_cases hq : q = p ∧ subject = heartbeatSubject
    · cases msg <;> simp [published, heartbeatsOf, hq, List.reduceOption]
    · simp [published, heartbeatsOf, hq, List.reduceOption]
  | _ => rfl

/-- A send task takes a tick: it is about to store and publish a heartbeat, and nothing is left of
the one before. -/
theorem Tracks.tick (h : Tracks as bs s) {k : ℕ} {now : DateTime} {task : SendTask}
    (hk : s.sends[k]? = some task) (htask : task = .spawned ∨ ∃ woken, task = .waiting woken) :
    Tracks (as ++ [.tick k now]) bs
      { s with sends := s.sends.set k (.stamped (s.heartbeat now)) } := by
  have hnone : task.toStore = [] ∧ task.toPublish = [] := by
    obtain rfl | ⟨woken, rfl⟩ := htask <;> exact ⟨rfl, rfl⟩
  -- what has gone before is the earlier ticks
  have hticks : ∀ {f : SendTask → List NodeHeartbeat} {done : List NodeHeartbeat} (j : ℕ),
      f task = [] → f (.stamped (s.heartbeat now)) = [s.heartbeat now] →
      done ++ Tasks.holding f s.sends j = (ticks j as).map s.heartbeat →
        done ++ Tasks.holding f (s.sends.set k (.stamped (s.heartbeat now))) j =
          (ticks j (as ++ [.tick k now])).map s.heartbeat := by
    intro f done j hbefore hafter heq
    rw [ticks_append, ticks_tick, List.map_append]
    by_cases hjk : k = j
    · subst hjk
      rw [Tasks.holding_of_getElem? hk, hbefore, List.append_nil] at heq
      rw [Tasks.holding_set_self hk, hafter, if_pos rfl, heq]
      rfl
    · rw [Tasks.holding_set_of_ne hjk, if_neg hjk, List.map_nil, List.append_nil]
      exact heq
  refine ⟨h.exec, ?_, ?_, ?_⟩
  · intro j
    exact hticks j hnone.1 rfl (h.direct j)
  · intro j
    exact hticks j hnone.2 rfl (h.own j)
  · intro p hp
    rw [heartbeatsOf_append, show heartbeatsOf p [.tick k now] = [] from rfl, List.append_nil]
    exact h.others p hp

theorem Tracks.store (h : Tracks as bs s) {k : ℕ} {hb : NodeHeartbeat}
    (hk : s.sends[k]? = some (.stamped hb)) :
    Tracks (as ++ [.store k]) bs
      { s.insertHeartbeat (.direct k) hb with sends := s.sends.set k (.stored hb) } := by
  refine ⟨h.exec, ?_, ?_, ?_⟩
  · intro j
    rw [ticks_append, show ticks j [.store k] = [] from rfl, List.append_nil]
    refine Eq.trans ?_ (h.direct j)
    show (s.insertHeartbeat (.direct k) hb).storedOn (.direct j) ++ _ = _
    rw [storedOn_insertHeartbeat]
    by_cases hjk : k = j
    · subst hjk
      rw [Tasks.holding_set_self hk, Tasks.holding_of_getElem? hk, if_pos rfl]
      exact List.append_nil _
    · rw [Tasks.holding_set_of_ne hjk, if_neg (by simpa using hjk), List.append_nil]
  · intro j
    rw [ticks_append, show ticks j [.store k] = [] from rfl, List.append_nil]
    have hsame := Tasks.holding_set_of_eq (f := SendTask.toPublish) (b := .stored hb) hk rfl j
    exact (congrArg _ hsame).trans (h.own j)
  · intro p hp
    rw [heartbeatsOf_append, show heartbeatsOf p [.store k] = [] from rfl, List.append_nil]
    exact h.others p hp

theorem Tracks.publish (h : Tracks as bs s) {k : ℕ} {hb : NodeHeartbeat}
    {bus : LocalBus (Option NodeHeartbeat)} (hk : s.sends[k]? = some (.stored hb))
    (hbus : s.bus.publish (2 * k) heartbeatSubject (some hb) = some bus) :
    Tracks (as ++ [.publish k]) (bs ++ [.publish (2 * k) heartbeatSubject (some hb)])
      { s with bus := bus, sends := s.sends.set k .publishing } := by
  have hstep : (localBus _).step s.bus (.publish (2 * k) heartbeatSubject (some hb)) =
      some bus := hbus
  refine ⟨Interleaving.exec_trans h.exec (Interleaving.exec_cons_of_step hstep []), ?_, ?_, ?_⟩
  · intro j
    rw [ticks_append, show ticks j [.publish k] = [] from rfl, List.append_nil]
    have hsame := Tasks.holding_set_of_eq (f := SendTask.toStore) (b := .publishing) hk rfl j
    exact (congrArg _ hsame).trans (h.direct j)
  · intro j
    rw [ticks_append, show ticks j [.publish k] = [] from rfl, List.append_nil]
    refine Eq.trans ?_ (h.own j)
    rw [published_append, List.reduceOption_append, published_publish]
    by_cases hjk : k = j
    · subst hjk
      rw [Tasks.holding_set_self hk, Tasks.holding_of_getElem? hk, if_pos ⟨rfl, rfl⟩]
      exact List.append_nil _
    · rw [Tasks.holding_set_of_ne hjk, if_neg (by omega), List.reduceOption_nil, List.append_nil]
  · intro p hp
    have hne : ¬ (2 * k = p ∧ heartbeatSubject = heartbeatSubject) := by omega
    rw [published_append, published_publish, if_neg hne, List.append_nil, heartbeatsOf_append,
      show heartbeatsOf p [.publish k] = [] from rfl, List.append_nil]
    exact h.others p hp

/-- **The step lemma of the send tasks.** -/
theorem Tracks.step (h : Tracks as bs s) (hmoves : s.Moves a t) :
    ∃ bs', Tracks (as ++ [a]) bs' t := by
  cases hmoves with
  | startAgain hworker =>
    exact ⟨bs ++ [], h.keep rfl (fun _ => rfl) (fun _ => rfl) (fun _ => rfl) (fun _ => rfl) rfl
      (fun _ => rfl) fun _ => rfl⟩
  | start hworker =>
    exact ⟨bs ++ [], h.keep rfl (fun _ => rfl) (fun _ => rfl) (fun _ => rfl) (fun _ => rfl) rfl
      (fun _ => rfl) fun _ => rfl⟩
  | stop =>
    refine ⟨bs ++ [], h.keep ?_ (fun _ => rfl) ?_ ?_ ?_ ?_ (fun _ => rfl) fun _ => rfl⟩
    · rw [stop_bus]
      rfl
    · rw [stop_sends]
      exact Tasks.holding_map (fun task => by cases task <;> rfl) s.sends
    · rw [stop_sends]
      exact Tasks.holding_map (fun task => by cases task <;> rfl) s.sends
    · exact fun k => storedOn_stop s _
    · exact stop_heartbeat s
  | spawn hworker =>
    exact ⟨bs ++ [], h.keep rfl (fun _ => rfl) (Tasks.holding_concat rfl s.sends)
      (Tasks.holding_concat rfl s.sends) (fun _ => rfl) rfl (fun _ => rfl) fun _ => rfl⟩
  | subscribe hk hbus =>
    exact ⟨_, h.bus (b := .subscribe heartbeatSubject) hbus (fun _ => rfl) rfl rfl rfl
      (fun _ => rfl) fun _ => rfl⟩
  | @recvNotified k receiver bus hk hbus =>
    exact ⟨_, h.bus (b := .drop receiver) hbus (fun _ => rfl) rfl rfl rfl (fun _ => rfl)
      fun _ => rfl⟩
  | @take k receiver publisher woken hb bus ch queue hk hch hqueue hbus =>
    exact ⟨_, h.bus (b := .recv receiver) hbus (fun _ => rfl) rfl rfl rfl (fun _ => rfl)
      fun _ => rfl⟩
  | @skip k receiver publisher woken bus ch queue hk hch hqueue hbus =>
    exact ⟨_, h.bus (b := .recv receiver) hbus (fun _ => rfl) rfl rfl rfl (fun _ => rfl)
      fun _ => rfl⟩
  | @record k receiver publisher hb hk =>
    refine ⟨bs ++ [], h.keep rfl (fun _ => rfl) (fun _ => rfl) (fun _ => rfl) ?_ rfl
      (fun _ => rfl) fun _ => rfl⟩
    intro j
    exact storedOn_insertHeartbeat_of_ne s (by simp) hb
  | @sendNotified k hk =>
    exact ⟨bs ++ [], h.keep rfl (fun _ => rfl) (Tasks.holding_set_of_eq hk rfl)
      (Tasks.holding_set_of_eq hk rfl) (fun _ => rfl) rfl (fun _ => rfl) fun _ => rfl⟩
  | tick hk htask => exact ⟨bs, h.tick hk htask⟩
  | store hk => exact ⟨bs, h.store hk⟩
  | publish hk hbus => exact ⟨_, h.publish hk hbus⟩
  | @send k bus hk hbus =>
    exact ⟨_, h.bus (b := .send (2 * k)) hbus (fun _ => rfl) rfl rfl rfl (fun _ => rfl)
      fun _ => rfl⟩
  | @finish k bus hk hbus =>
    exact ⟨bs ++ [.finish (2 * k)], h.keep (Interleaving.exec_cons_of_step hbus []) (fun _ => rfl)
      (Tasks.holding_set_of_eq hk rfl) (Tasks.holding_set_of_eq hk rfl) (fun _ => rfl) rfl
      (fun _ => rfl) fun _ => rfl⟩
  | @other b bus hb hbus =>
    refine ⟨bs ++ [b], Interleaving.exec_trans h.exec (Interleaving.exec_cons_of_step hbus []),
      ?_, ?_, ?_⟩
    · intro k
      rw [ticks_append, show ticks k [.other b] = [] from rfl, List.append_nil]
      exact h.direct k
    · intro k
      rw [published_append, published_of_isOther hb, List.append_nil, ticks_append,
        show ticks k [.other b] = [] from rfl, List.append_nil]
      exact h.own k
    · intro p hp
      rw [published_append, List.reduceOption_append, reduceOption_published,
        heartbeatsOf_append, h.others p hp]

/-- What the send tasks store and publish are their ticks, at any time. -/
theorem tracks_exec {nodeId : String} {role : NodeRole}
    (h : cluster.exec (.new nodeId role) as = some s) : ∃ bs, Tracks as bs s := by
  refine Interleaving.exec_history (P := fun as s => ∃ bs, Tracks as bs s) ?_ ?_ h
  · exact ⟨[], rfl, fun _ => rfl, fun _ => rfl, fun _ _ => rfl⟩
  · rintro as u a v ⟨bs, hu⟩ hstep
    exact hu.step (moves hstep)

end Cluster

/-! ### What the receive tasks do -/

/-- What a receive task has got from a publisher and is about to store. -/
def RecvTask.toRecord (p : ℕ) : RecvTask → List NodeHeartbeat
  | .recording _ publisher hb => if publisher = p then [hb] else []
  | .spawned | .waiting _ _ | .done => []

namespace Cluster

variable {s t : Cluster} {a : ClusterAction} {as : List ClusterAction} {k r : ℕ}

/-- The subscription of the receive task with a number. -/
def receiver (s : Cluster) (k : ℕ) : Option ℕ := (s.recvs[k]?).bind RecvTask.receiver

/-- The account of the channel of a receive task: what it has received from every publisher has
been stored or is about to be. -/
def Accounted (s : Cluster) (k : ℕ) (ch : Channel (Option NodeHeartbeat)) : Prop :=
  ch.subject = heartbeatSubject ∧ ∀ p, s.storedOn (.received k p) ++
    Tasks.holding (RecvTask.toRecord p) s.recvs k = (messagesOf p ch.received).reduceOption

/-- There is no receive task with the number, or it has not subscribed yet. -/
def Fresh (s : Cluster) (k : ℕ) : Prop := s.recvs[k]? = none ∨ s.recvs[k]? = some .spawned

/-- What the receive tasks have received: every one has a channel of its own, for heartbeats, and
has stored what it has received there. -/
structure Receives (s : Cluster) : Prop where
  wf : s.bus.Wf
  channel : ∀ k r, s.receiver k = some r →
    ∃ ch, s.bus.channels.lookup r = some ch ∧ s.Accounted k ch
  fresh : ∀ k p, s.Fresh k → s.storedOn (.received k p) = []
  distinct : ∀ j k r, s.receiver j = some r → s.receiver k = some r → j = k

/-- Steps of the bus, but for receives of the tasks, change nothing of it. -/
theorem Receives.bus {b : BusAction (Option NodeHeartbeat)} {bus : LocalBus (Option NodeHeartbeat)}
    (h : s.Receives) (hbus : (localBus _).step s.bus b = some bus)
    (hb : ∀ k r, s.receiver k = some r → b ≠ .recv r) :
    Receives { s with bus := bus } where
  wf := h.wf.step hbus
  channel k r hk := by
    obtain ⟨ch, hch, hsubject, haccount⟩ := h.channel k r hk
    obtain ⟨ch', hch', hsubject', hreceived⟩ :=
      LocalBus.received_step h.wf hbus (hb k r hk) hch
    refine ⟨ch', hch', hsubject'.trans hsubject, ?_⟩
    rw [hreceived]
    exact haccount
  fresh := h.fresh
  distinct := h.distinct

/-- The same when the receive tasks and what they have stored is as before. -/
theorem Receives.congr (h : s.Receives) (hbus : t.bus = s.bus)
    (hreceiver : ∀ k, t.receiver k = s.receiver k)
    (hfresh : ∀ k, t.Fresh k → s.Fresh k)
    (hrecord : ∀ k p, Tasks.holding (RecvTask.toRecord p) t.recvs k =
      Tasks.holding (RecvTask.toRecord p) s.recvs k)
    (hstored : ∀ k p, t.storedOn (.received k p) = s.storedOn (.received k p)) : t.Receives where
  wf := hbus ▸ h.wf
  channel k r hk := by
    rw [hreceiver] at hk
    obtain ⟨ch, hch, hsubject, haccount⟩ := h.channel k r hk
    refine ⟨ch, hbus ▸ hch, hsubject, ?_⟩
    intro p
    rw [hstored, hrecord]
    exact haccount p
  fresh k p hk := by
    rw [hstored]
    exact h.fresh k p (hfresh k hk)
  distinct j k r hj hk := by
    rw [hreceiver] at hj hk
    exact h.distinct j k r hj hk

/-- A receive task that was there has a subscription, or is fresh, or done. -/
theorem receiver_of_getElem? {task : RecvTask} (h : s.recvs[k]? = some task) :
    s.receiver k = task.receiver := by
  rw [receiver, h, Option.bind_some]

/-- A step of a receive task gives it the subscription of what it becomes. -/
theorem receiver_set_self {old new : RecvTask} (hk : s.recvs[k]? = some old)
    (hrecvs : t.recvs = s.recvs.set k new) : t.receiver k = new.receiver := by
  rw [receiver, hrecvs, List.getElem?_set_self (List.getElem?_eq_some_iff.1 hk).1,
    Option.bind_some]

theorem receiver_set_of_ne {j : ℕ} {new : RecvTask} (hrecvs : t.recvs = s.recvs.set k new)
    (hjk : k ≠ j) : t.receiver j = s.receiver j := by
  rw [receiver, hrecvs, List.getElem?_set_ne hjk, receiver]

theorem fresh_of_set {j : ℕ} {new : RecvTask} (hrecvs : t.recvs = s.recvs.set k new)
    (hk : s.recvs[k]? = some .spawned ∨ ∃ old, s.recvs[k]? = some old ∧ new ≠ .spawned)
    (hj : t.Fresh j) : s.Fresh j := by
  unfold Fresh at hj ⊢
  by_cases hjk : k = j
  · subst hjk
    obtain hk | ⟨old, hk, hnew⟩ := hk
    · exact Or.inr hk
    · rw [hrecvs, List.getElem?_set_self (List.getElem?_eq_some_iff.1 hk).1] at hj
      simp [hnew] at hj
  · rwa [hrecvs, List.getElem?_set_ne hjk] at hj

/-- A step of a receive task that has a subscription and keeps it: it has received, stored, and is
about to store what it should. -/
theorem Receives.set (h : s.Receives) {old new : RecvTask} (hk : s.recvs[k]? = some old)
    (hr : old.receiver = some r) (hnew : new.receiver = some r)
    {ch : Channel (Option NodeHeartbeat)} {bus : LocalBus (Option NodeHeartbeat)}
    (hwf : bus.Wf) (hch : bus.channels.lookup r = some ch)
    (hothers : ∀ r', r' ≠ r → bus.channels.lookup r' = s.bus.channels.lookup r')
    (hbus : t.bus = bus) (hrecvs : t.recvs = s.recvs.set k new)
    (hstored : ∀ j p, j ≠ k → t.storedOn (.received j p) = s.storedOn (.received j p))
    (haccount : t.Accounted k ch) : t.Receives := by
  have hself : s.receiver k = some r := (receiver_of_getElem? hk).trans hr
  have hreceiver : ∀ j, t.receiver j = s.receiver j := by
    intro j
    by_cases hjk : k = j
    · subst hjk
      rw [receiver_set_self hk hrecvs, hnew, hself]
    · exact receiver_set_of_ne hrecvs hjk
  have hspawned : new ≠ .spawned := by
    rintro rfl
    cases hnew
  refine ⟨hbus ▸ hwf, ?_, ?_, ?_⟩
  · intro j r' hj
    rw [hreceiver] at hj
    by_cases hjk : j = k
    · subst hjk
      rw [hself, Option.some.injEq] at hj
      subst hj
      exact ⟨ch, hbus ▸ hch, haccount⟩
    · have hne : r' ≠ r := by
        rintro rfl
        exact hjk (h.distinct j k r' hj hself)
      obtain ⟨ch', hch', hsubject, haccount'⟩ := h.channel j r' hj
      refine ⟨ch', ?_, hsubject, ?_⟩
      · rw [hbus, hothers r' hne]
        exact hch'
      · intro p
        rw [hstored j p hjk, hrecvs, Tasks.holding_set_of_ne (Ne.symm hjk)]
        exact haccount' p
  · intro j p hj
    have hold := fresh_of_set hrecvs (Or.inr ⟨old, hk, hspawned⟩) hj
    have hjk : j ≠ k := by
      rintro rfl
      rw [Fresh, hk, Option.some.injEq] at hold
      obtain hold | rfl := hold
      · cases hold
      · cases hr
    rw [hstored j p hjk]
    exact h.fresh j p hold
  · intro i j r' hi hj
    rw [hreceiver] at hi hj
    exact h.distinct i j r' hi hj

theorem Receives.done (h : s.Receives) {old : RecvTask} (hk : s.recvs[k]? = some old) :
    Receives { s with recvs := s.recvs.set k .done } := by
  have hsame : ∀ j r, receiver { s with recvs := s.recvs.set k .done } j = some r →
      k ≠ j ∧ s.receiver j = some r := by
    intro j r hj
    have hjk : k ≠ j := by
      rintro rfl
      rw [receiver_set_self hk rfl] at hj
      cases hj
    exact ⟨hjk, (receiver_set_of_ne rfl hjk).symm.trans hj⟩
  refine ⟨h.wf, ?_, ?_, ?_⟩
  · intro j r hj
    obtain ⟨hjk, hj⟩ := hsame j r hj
    obtain ⟨ch, hch, hsubject, haccount⟩ := h.channel j r hj
    refine ⟨ch, hch, hsubject, ?_⟩
    intro p
    rw [Tasks.holding_set_of_ne hjk]
    exact haccount p
  · intro j p hj
    exact h.fresh j p (fresh_of_set rfl (Or.inr ⟨old, hk, by simp⟩) hj)
  · intro i j r hi hj
    exact h.distinct i j r (hsame i r hi).2 (hsame j r hj).2

theorem Receives.subscribe (h : s.Receives) (hk : s.recvs[k]? = some .spawned)
    {bus : LocalBus (Option NodeHeartbeat)}
    (hbus : s.bus.subscribe heartbeatSubject = some bus) :
    Receives { s with bus := bus, recvs := s.recvs.set k (.waiting s.bus.next false) } := by
  have hs := h.bus (b := .subscribe heartbeatSubject) hbus (by simp)
  obtain ⟨-, hspec⟩ := LocalBus.subscribe_spec hbus
  -- the number of the subscription is new
  have hnew : ∀ j r, s.receiver j = some r → r ≠ s.bus.next := by
    intro j r hj
    obtain ⟨ch, hch, -⟩ := h.channel j r hj
    exact (h.wf.numbered r ch hch).ne
  have hcases : ∀ j r, receiver { s with
      bus := bus, recvs := s.recvs.set k (.waiting s.bus.next false) } j = some r →
        (k = j ∧ r = s.bus.next) ∨ (k ≠ j ∧ s.receiver j = some r) := by
    intro j r hj
    by_cases hjk : k = j
    · subst hjk
      rw [receiver_set_self hk rfl] at hj
      exact Or.inl ⟨rfl, (Option.some.inj hj).symm⟩
    · exact Or.inr ⟨hjk, (receiver_set_of_ne rfl hjk).symm.trans hj⟩
  refine ⟨hs.wf, ?_, ?_, ?_⟩
  · intro j r hj
    obtain ⟨rfl, rfl⟩ | ⟨hjk, hj⟩ := hcases j r hj
    · refine ⟨⟨heartbeatSubject, true, [], []⟩, ?_, rfl, ?_⟩
      · rw [hspec]
        exact Finmap.lookup_insert _
      · intro p
        rw [Tasks.holding_set_self hk]
        exact (List.append_nil _).trans (h.fresh k p (Or.inr hk))
    · obtain ⟨ch, hch, hsubject, haccount⟩ := hs.channel j r hj
      refine ⟨ch, hch, hsubject, ?_⟩
      intro p
      rw [Tasks.holding_set_of_ne hjk]
      exact haccount p
  · intro j p hj
    exact h.fresh j p (fresh_of_set rfl (Or.inl hk) hj)
  · intro i j r hi hj
    obtain ⟨rfl, rfl⟩ | ⟨-, hi⟩ := hcases i r hi
    · obtain ⟨rfl, -⟩ | ⟨-, hj⟩ := hcases j _ hj
      · rfl
      · exact absurd rfl (hnew j _ hj)
    · obtain ⟨-, rfl⟩ | ⟨-, hj⟩ := hcases j r hj
      · exact absurd rfl (hnew i _ hi)
      · exact h.distinct i j r hi hj

/-- A receive task takes a message: what it decodes to is what the task is about to store. -/
theorem Receives.take (h : s.Receives) {woken : Bool} (hk : s.recvs[k]? = some (.waiting r woken))
    {ch : Channel (Option NodeHeartbeat)} (hch : s.bus.channels.lookup r = some ch)
    {m : Sent (Option NodeHeartbeat)} {queue : List (Sent (Option NodeHeartbeat))}
    (hqueue : ch.queue = m :: queue) {bus : LocalBus (Option NodeHeartbeat)}
    (hbus : s.bus.recv r = some bus) {new : RecvTask} (hnew : new.receiver = some r)
    (hrecord : ∀ p, new.toRecord p = (messagesOf p [m]).reduceOption) :
    Receives { s with bus := bus, recvs := s.recvs.set k new } := by
  obtain ⟨ch', m', queue', hch', -, hqueue', hspec⟩ := LocalBus.recv_spec hbus
  rw [hch, Option.some.injEq] at hch'
  subst hch'
  rw [hqueue, List.cons.injEq] at hqueue'
  obtain ⟨rfl, rfl⟩ := hqueue'
  have hreceived : bus.channels.lookup r =
      some { ch with queue := queue, received := ch.received ++ [m] } := by
    rw [hspec]
    exact Finmap.lookup_insert _
  refine h.set hk rfl hnew (LocalBus.Wf.step (a := .recv r) h.wf hbus) hreceived ?_ rfl rfl
    (fun _ _ _ => rfl) ?_
  · intro r' hr'
    rw [hspec]
    exact Finmap.lookup_insert_of_ne _ hr'
  · obtain ⟨old, hold, hsubject, haccount⟩ := h.channel k r (receiver_of_getElem? hk)
    rw [hch, Option.some.injEq] at hold
    subst hold
    refine ⟨hsubject, ?_⟩
    intro p
    have hbefore := haccount p
    rw [Tasks.holding_of_getElem? hk] at hbefore
    rw [Tasks.holding_set_self hk, messagesOf_append, List.reduceOption_append, ← hrecord,
      ← hbefore]
    exact congrArg (· ++ new.toRecord p) (List.append_nil _).symm

theorem Receives.record (h : s.Receives) {publisher : ℕ} {hb : NodeHeartbeat}
    (hk : s.recvs[k]? = some (.recording r publisher hb)) :
    Receives { s.insertHeartbeat (.received k publisher) hb with
      recvs := s.recvs.set k (.waiting r false) } := by
  obtain ⟨ch, hch, hsubject, haccount⟩ := h.channel k r (receiver_of_getElem? hk)
  refine h.set hk rfl rfl h.wf hch (fun _ _ => rfl) rfl rfl ?_ ⟨hsubject, ?_⟩
  · intro j p hj
    refine storedOn_insertHeartbeat_of_ne s ?_ hb
    simpa using fun hkj => absurd hkj.symm hj
  · intro p
    have hbefore := haccount p
    rw [Tasks.holding_of_getElem? hk] at hbefore
    rw [← hbefore, Tasks.holding_set_self hk]
    show (s.insertHeartbeat (.received k publisher) hb).storedOn (.received k p) ++ [] = _
    rw [storedOn_insertHeartbeat, List.append_nil]
    unfold RecvTask.toRecord
    by_cases hp : publisher = p <;> simp [hp]

/-- **The step lemma of the receive tasks.** -/
theorem Receives.step (h : s.Receives) (hmoves : s.Moves a t) : t.Receives := by
  cases hmoves with
  | stop =>
    refine h.congr s.stop_bus ?_ ?_ ?_ ?_
    · intro k
      rw [receiver, stop_recvs, List.getElem?_map, receiver]
      cases s.recvs[k]? with
      | none => rfl
      | some task => cases task <;> rfl
    · intro k hk
      unfold Fresh at hk ⊢
      rw [stop_recvs, List.getElem?_map] at hk
      cases htask : s.recvs[k]? with
      | none => exact Or.inl rfl
      | some task =>
        rw [htask] at hk
        cases task <;> simp [RecvTask.notify] at hk ⊢
    · intro k p
      rw [stop_recvs]
      exact Tasks.holding_map (fun task => by cases task <;> rfl) s.recvs k
    · exact fun k p => storedOn_stop s _
  | spawn hworker =>
    refine h.congr rfl ?_ ?_ (fun k p => Tasks.holding_concat rfl s.recvs k) fun _ _ => rfl
    · intro k
      rw [receiver, receiver, List.getElem?_append]
      split_ifs with hk
      · rfl
      · rw [List.getElem?_eq_none (not_lt.1 hk)]
        cases hi : [RecvTask.spawned][k - s.recvs.length]? with
        | none => rfl
        | some task =>
          rw [List.mem_singleton.1 (List.mem_of_getElem? hi)]
          rfl
    · intro k hk
      by_cases hlt : k < s.recvs.length
      · unfold Fresh at hk ⊢
        rwa [List.getElem?_append_left hlt] at hk
      · exact Or.inl (List.getElem?_eq_none (not_lt.1 hlt))
  | subscribe hk hbus => exact h.subscribe hk hbus
  | @recvNotified k r bus hk hbus => exact (h.bus (b := .drop r) hbus (by simp)).done hk
  | @take k r publisher woken hb bus ch queue hk hch hqueue hbus =>
    refine h.take hk hch hqueue hbus rfl ?_
    intro p
    rw [messagesOf_singleton]
    by_cases hp : publisher = p <;> simp [RecvTask.toRecord, hp, List.reduceOption]
  | @skip k r publisher woken bus ch queue hk hch hqueue hbus =>
    refine h.take hk hch hqueue hbus rfl ?_
    intro p
    rw [messagesOf_singleton]
    split_ifs <;> rfl
  | record hk => exact h.record hk
  | @store k hb hk =>
    refine h.congr rfl (fun _ => rfl) (fun _ hj => hj) (fun _ _ => rfl) ?_
    intro j p
    exact storedOn_insertHeartbeat_of_ne s (by simp) hb
  | @publish k hb bus hk hbus =>
    exact (h.bus (b := .publish (2 * k) heartbeatSubject (some hb)) hbus (by simp)).congr rfl
      (fun _ => rfl) (fun _ hj => hj) (fun _ _ => rfl) fun _ _ => rfl
  | @send k bus hk hbus => exact h.bus (b := .send (2 * k)) hbus (by simp)
  | @finish k bus hk hbus =>
    exact (h.bus (b := .finish (2 * k)) hbus (by simp)).congr rfl
      (fun _ => rfl) (fun _ hj => hj) (fun _ _ => rfl) fun _ _ => rfl
  | @other b bus hb hbus =>
    refine h.bus hbus ?_
    rintro k r hk rfl
    obtain ⟨task, htask, hr⟩ := Option.bind_eq_some_iff.1 hk
    exact hb (hr ▸ List.mem_map_of_mem (List.mem_of_getElem? htask))
  | _ =>
    exact h.congr rfl (fun _ => rfl) (fun _ hj => hj) (fun _ _ => rfl) fun _ _ => rfl

theorem receives_exec {nodeId : String} {role : NodeRole}
    (h : cluster.exec (.new nodeId role) as = some s) : s.Receives := by
  refine Interleaving.exec_invariant (P := Receives) ?_ ?_ h
  · refine ⟨LocalBus.wf_new, ?_, fun _ _ _ => rfl, ?_⟩
    · intro k r hk
      cases hk
    · intro j k r hj
      cases hj
  · intro u a v hu hstep
    exact hu.step (moves hstep)

/-! ### Order on one way -/

/-- The write of the map that a step is, if it is one. -/
def storing (s : Cluster) : ClusterAction → Option (Way × NodeHeartbeat)
  | .record k =>
    match s.recvs[k]? with
    | some (.recording _ publisher hb) => some (.received k publisher, hb)
    | _ => none
  | .store k =>
    match s.sends[k]? with
    | some (.stamped hb) => some (.direct k, hb)
    | _ => none
  | _ => none

theorem storing_cases (h : s.Moves a t) :
    (s.storing a = none ∧ t.heartbeats = s.heartbeats ∧ t.stored = s.stored) ∨
      ∃ way hb, s.storing a = some (way, hb) ∧
        t.heartbeats = s.heartbeats.insert hb.nodeId hb ∧ t.stored = s.stored ++ [(way, hb)] := by
  cases h with
  | stop => exact Or.inl ⟨rfl, s.stop_heartbeats, s.stop_stored⟩
  | @record k r publisher hb hk =>
    refine Or.inr ⟨.received k publisher, hb, ?_, rfl, rfl⟩
    simp only [storing, hk]
  | @store k hb hk =>
    refine Or.inr ⟨.direct k, hb, ?_, rfl, rfl⟩
    simp only [storing, hk]
  | _ => exact Or.inl ⟨rfl, rfl, rfl⟩

end Cluster

theorem inTime_concat {hbs : List NodeHeartbeat} {hb : NodeHeartbeat} (h : InTime (hbs ++ [hb])) :
    ∀ hb' ∈ hbs, hb'.timestamp ≤ hb.timestamp := by
  intro hb' hmem
  exact (List.pairwise_append.1 h).2.2 hb' hmem hb (List.mem_singleton.2 rfl)

theorem Increasing.left {as bs : List ClusterAction} (h : Increasing (as ++ bs)) :
    Increasing as where
  own k := (List.pairwise_append.1 (ticks_append k as bs ▸ h.own k)).1
  others p := (List.pairwise_append.1 (heartbeatsOf_append p as bs ▸ h.others p)).1

namespace Cluster

variable {s t : Cluster} {a : ClusterAction} {as : List ClusterAction} {k r : ℕ}

theorem inTime_ticks (hinc : Increasing as) (s : Cluster) (k : ℕ) :
    InTime ((ticks k as).map s.heartbeat) :=
  List.Pairwise.map s.heartbeat (fun _ _ hle => hle) (hinc.own k)

theorem Tracks.inTime {bs : List (BusAction (Option NodeHeartbeat))} (h : Tracks as bs s)
    (hinc : Increasing as) (p : ℕ) :
    InTime (published p heartbeatSubject bs).reduceOption := by
  obtain ⟨k, rfl | rfl⟩ := Nat.even_or_odd' p
  · have hall := inTime_ticks hinc s k
    rw [← h.own k] at hall
    exact (List.pairwise_append.1 hall).1
  · rw [h.others _ (by omega)]
    exact hinc.others _

/-- **Order on one way**: a heartbeat that is stored is not older than those that have been stored
on the same way. -/
theorem timestamp_le {nodeId : String} {role : NodeRole}
    (h : cluster.exec (.new nodeId role) as = some s) (hinc : Increasing as) {way : Way}
    {hb : NodeHeartbeat} (hstoring : s.storing a = some (way, hb)) :
    ∀ hb' ∈ s.storedOn way, hb'.timestamp ≤ hb.timestamp := by
  obtain ⟨bs, htracks⟩ := tracks_exec h
  refine inTime_concat ?_
  unfold storing at hstoring
  split at hstoring
  · rename_i k
    split at hstoring
    · rename_i r publisher hb' hk
      simp only [Option.some.injEq, Prod.mk.injEq] at hstoring
      obtain ⟨rfl, rfl⟩ := hstoring
      -- what the task has received comes from the bus in the order in which it was published
      obtain ⟨ch, hch, hsubject, haccount⟩ :=
        (receives_exec h).channel k r (receiver_of_getElem? hk)
      have hreceived := haccount publisher
      rw [Tasks.holding_of_getElem? hk, RecvTask.toRecord, if_pos rfl] at hreceived
      have hsub := LocalBus.got_sublist htracks.exec hch publisher
      rw [hsubject, Channel.log, messagesOf_append] at hsub
      have hpublished := htracks.inTime hinc publisher
      rw [hreceived]
      exact hpublished.sublist (((List.sublist_append_left _ _).trans hsub).filterMap id)
    · cases hstoring
  · rename_i k
    split at hstoring
    · rename_i hb' hk
      simp only [Option.some.injEq, Prod.mk.injEq] at hstoring
      obtain ⟨rfl, rfl⟩ := hstoring
      have hdirect := htracks.direct k
      rw [Tasks.holding_of_getElem? hk] at hdirect
      have hticks := inTime_ticks hinc s k
      rwa [← hdirect] at hticks
    · cases hstoring
  · cases hstoring

/-! ### The map -/

/-- An entry of the map is a heartbeat of its node that has been stored. -/
theorem mem_stored_exec {nodeId : String} {role : NodeRole}
    (h : cluster.exec (.new nodeId role) as = some s) {id : String} {hb : NodeHeartbeat}
    (hentry : s.heartbeats.lookup id = some hb) :
    hb.nodeId = id ∧ ∃ way, (way, hb) ∈ s.stored := by
  revert id hb
  refine Interleaving.exec_invariant (M := cluster)
    (P := fun s => ∀ {id hb}, s.heartbeats.lookup id = some hb →
      hb.nodeId = id ∧ ∃ way, (way, hb) ∈ s.stored) ?_ ?_ h
  · intro id hb hentry
    cases hentry
  · intro u a v hu hstep id hb hentry
    obtain ⟨-, hheartbeats, hstored⟩ | ⟨way, new, -, hheartbeats, hstored⟩ :=
      storing_cases (moves hstep)
    · rw [hheartbeats] at hentry
      rw [hstored]
      exact hu hentry
    · rw [hheartbeats] at hentry
      rw [hstored]
      by_cases hid : id = new.nodeId
      · subst hid
        rw [Finmap.lookup_insert, Option.some.injEq] at hentry
        subst hentry
        exact ⟨rfl, way, List.mem_append_right _ (List.mem_singleton.2 rfl)⟩
      · rw [Finmap.lookup_insert_of_ne _ hid] at hentry
        obtain ⟨heq, way', hmem⟩ := hu hentry
        exact ⟨heq, way', List.mem_append_left _ hmem⟩

/-- No entry of the map goes back in time. -/
def Forward (s t : Cluster) : Prop :=
  ∀ id hb, s.heartbeats.lookup id = some hb →
    ∃ hb', t.heartbeats.lookup id = some hb' ∧ hb.timestamp ≤ hb'.timestamp

/-- A newer heartbeat of the node has been stored, and came on another way. -/
def Overtaken (s : Cluster) (way : Way) (hb : NodeHeartbeat) : Prop :=
  ∃ x ∈ s.stored, x.1 ≠ way ∧ x.2.nodeId = hb.nodeId ∧ hb.timestamp < x.2.timestamp

/-- The step does not store a heartbeat that has been overtaken. -/
def StoresInOrder (s : Cluster) (a : ClusterAction) : Prop :=
  ∀ x ∈ s.storing a, ¬ s.Overtaken x.1 x.2

instance (s : Cluster) (way : Way) (hb : NodeHeartbeat) : Decidable (s.Overtaken way hb) :=
  inferInstanceAs (Decidable (∃ x ∈ s.stored, _))

instance (s : Cluster) (a : ClusterAction) : Decidable (s.StoresInOrder a) :=
  inferInstanceAs (Decidable (∀ x ∈ s.storing a, _))

/-- Every stored heartbeat is at most as new as the entry of its node. -/
def Newest (s : Cluster) : Prop :=
  ∀ way hb, (way, hb) ∈ s.stored →
    ∃ entry, s.heartbeats.lookup hb.nodeId = some entry ∧ hb.timestamp ≤ entry.timestamp

theorem Newest.step (hs : s.Newest) (hmoves : s.Moves a t) (hforward : s.Forward t) :
    t.Newest := by
  have hold : ∀ way hb, (way, hb) ∈ s.stored →
      ∃ entry, t.heartbeats.lookup hb.nodeId = some entry ∧ hb.timestamp ≤ entry.timestamp := by
    intro way hb hmem
    obtain ⟨entry, hentry, hle⟩ := hs way hb hmem
    obtain ⟨entry', hentry', hle'⟩ := hforward hb.nodeId entry hentry
    exact ⟨entry', hentry', hle.trans hle'⟩
  obtain ⟨-, -, hstored⟩ | ⟨way, new, -, hheartbeats, hstored⟩ := storing_cases hmoves
  · intro way hb hmem
    rw [hstored] at hmem
    exact hold way hb hmem
  · intro way' hb hmem
    rw [hstored, List.mem_append, List.mem_singleton] at hmem
    obtain hmem | hmem := hmem
    · exact hold way' hb hmem
    · cases hmem
      exact ⟨new, hheartbeats ▸ Finmap.lookup_insert _, le_rfl⟩

end Cluster

/-- No step of the run puts an entry of the map back in time. -/
def HeartbeatsForward (s₀ : Cluster) (as : List ClusterAction) : Prop :=
  cluster.Throughout s₀ (fun s a => ∀ t, cluster.step s a = some t → s.Forward t) as

/-- **When the map does not go back**: when the timestamps of every publisher increase, exactly if
no heartbeat is stored after a newer one of its node that came on another way. -/
theorem heartbeatsForward_iff (nodeId : String) (role : NodeRole) {as : List ClusterAction}
    {t : Cluster} (h : cluster.exec (.new nodeId role) as = some t) (hinc : Increasing as) :
    HeartbeatsForward (.new nodeId role) as ↔
      cluster.Throughout (.new nodeId role) Cluster.StoresInOrder as := by
  constructor
  · rintro hforward pre a post u rfl hu ⟨way, hb⟩ hstoring ⟨⟨way', newer⟩, hmem, -, hid, hlt⟩
    dsimp only at hid hlt
    have hnewest : u.Newest := by
      refine hforward.left.invariant (Q := Cluster.Newest) ?_ ?_ hu
      · intro way hb hmem
        cases hmem
      · intro v b w hv hb hstep
        exact hv.step (Cluster.moves hstep) (hb w hstep)
    rw [cluster.exec_append, hu, Option.bind_some] at h
    obtain ⟨v, hstep, -⟩ := Option.bind_eq_some_iff.1 h
    obtain ⟨entry, hentry, hle⟩ := hnewest way' newer hmem
    obtain ⟨entry', hentry', hle'⟩ := hforward pre a post u rfl hu v hstep newer.nodeId entry hentry
    -- the entry is replaced by the older heartbeat
    obtain ⟨hnone, -⟩ | ⟨way'', hb', hstoring', hheartbeats, -⟩ :=
      Cluster.storing_cases (Cluster.moves hstep)
    · rw [Option.mem_def, hnone] at hstoring
      cases hstoring
    · rw [Option.mem_def, hstoring'] at hstoring
      cases hstoring
      rw [hheartbeats, hid, Finmap.lookup_insert, Option.some.injEq] at hentry'
      subst hentry'
      exact absurd (hle.trans hle') (not_le.2 hlt)
  · rintro horder pre a post u rfl hu v hstep id entry hentry
    obtain ⟨-, hheartbeats, -⟩ | ⟨way, hb, hstoring, hheartbeats, -⟩ :=
      Cluster.storing_cases (Cluster.moves hstep)
    · exact ⟨entry, hheartbeats ▸ hentry, le_rfl⟩
    · by_cases hid : id = hb.nodeId
      · subst hid
        refine ⟨hb, hheartbeats ▸ Finmap.lookup_insert _, ?_⟩
        obtain ⟨hnode, way', hmem⟩ := Cluster.mem_stored_exec hu hentry
        by_cases hway : way' = way
        · subst hway
          refine Cluster.timestamp_le hu hinc.left hstoring entry ?_
          exact List.mem_map.2 ⟨(way', entry), List.mem_filter.2 ⟨hmem, by simp⟩, rfl⟩
        · by_contra hle
          exact horder pre a post u rfl hu (way, hb) hstoring
            ⟨(way', entry), hmem, hway, hnode, not_le.1 hle⟩
      · exact ⟨entry, hheartbeats ▸ (Finmap.lookup_insert_of_ne _ hid).trans hentry, le_rfl⟩

/-- The first heartbeats of a node: they come back over the bus in time. -/
def heartbeatsInTime : List ClusterAction :=
  [.start, .spawn 0, .subscribe 0, .tick 0 1, .store 0, .publish 0, .send 0, .finish 0, .take 0,
    .record 0, .tick 0 2, .store 0]

theorem heartbeatsForward_iff_sample :
    HeartbeatsForward (.new "a" .allInOne) heartbeatsInTime := by
  have hruns : (cluster.exec (.new "a" .allInOne) heartbeatsInTime).isSome = true := by decide
  obtain ⟨t, ht⟩ := Option.isSome_iff_exists.1 hruns
  have hinc : Increasing heartbeatsInTime := by
    refine ⟨?_, fun _ => List.Pairwise.nil⟩
    intro k
    by_cases hk : 0 = k <;> simp [ticks, heartbeatsInTime, hk]
  exact (heartbeatsForward_iff "a" .allInOne ht hinc).2 (by decide)

/-- The first heartbeat of a node has been taken, and is recorded when the second one has been
stored. -/
def heartbeatDelayed : List ClusterAction :=
  [.start, .spawn 0, .subscribe 0, .tick 0 1, .store 0, .publish 0, .send 0, .finish 0, .take 0,
    .tick 0 2, .store 0]

/-- **A delayed heartbeat puts the entry of the node itself back**, from the time 2 to the time
1. -/
theorem not_heartbeatsForward :
    let as := heartbeatDelayed ++ [.record 0]
    Increasing as ∧ (∃ u v, cluster.exec (.new "a" .allInOne) heartbeatDelayed = some u ∧
        cluster.exec (.new "a" .allInOne) as = some v ∧
        u.heartbeats.lookup "a" = some ⟨"a", .allInOne, 2, 0, 0, 0⟩ ∧
        v.heartbeats.lookup "a" = some ⟨"a", .allInOne, 1, 0, 0, 0⟩) ∧
      ¬ HeartbeatsForward (.new "a" .allInOne) as := by
  intro as
  have hbefore : (cluster.exec (.new "a" .allInOne) heartbeatDelayed).bind
      (·.heartbeats.lookup "a") = some ⟨"a", .allInOne, 2, 0, 0, 0⟩ := by decide
  have hafter : (cluster.exec (.new "a" .allInOne) (heartbeatDelayed ++ [.record 0])).bind
      (·.heartbeats.lookup "a") = some ⟨"a", .allInOne, 1, 0, 0, 0⟩ := by decide
  obtain ⟨v, hv, hentry'⟩ := Option.bind_eq_some_iff.1 hafter
  obtain ⟨u, hu, hstep⟩ := cluster.exec_concat_iff.1 hv
  rw [hu, Option.bind_some] at hbefore
  have hinc : Increasing (heartbeatDelayed ++ [.record 0]) := by
    refine ⟨?_, fun _ => List.Pairwise.nil⟩
    intro k
    by_cases hk : 0 = k <;> simp [ticks, heartbeatDelayed, hk]
  refine ⟨hinc, ⟨u, v, hu, hv, hbefore, hentry'⟩, fun h => ?_⟩
  obtain ⟨hb, hentry, hle⟩ := h heartbeatDelayed (.record 0) [] u rfl hu v hstep "a" _ hbefore
  rw [hentry', Option.some.injEq] at hentry
  subst hentry
  exact absurd hle (by decide)

end W2uos
