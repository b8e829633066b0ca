import W2uos.Bus.Lock
import W2uos.Risk.Breaker

/-!
# The supervisor on the bus

The run task of the supervisor makes three subscriptions, and then takes one message after the
other out of their channels.  When the breaker trips, it publishes three messages before it takes
the next one.  Everything else on the bus happens in between: other tasks ask for the lock, publish
and subscribe, are aborted, and receive from channels of their own.

* `RiskSupervisorService.Trips` : an input trips the breaker;
* `SupervisedBus`, `supervisedBus` : the bus, its lock, and the run task of a supervisor among
  arbitrary other tasks;
* `mem_emit_subject` : the loop publishes exactly when the breaker trips;
* `SupervisedBus.Wf.step` : whoever waits or is in a call for the run task does so for what the task
  wants.
-/

namespace W2uos

/-! ### When the breaker trips -/

/-- The subject of what the supervisor publishes. -/
def RiskOutput.subject : RiskOutput → String
  | signal subject => subject
  | log _ => "log.event"

/-- The subjects on which the breaker publishes when it trips, in order. -/
def alarm : List String := announcement ++ ["log.event"]

section Trips

variable [CaseTable]

/-- The input is evaluated, and exceeds a limit while the breaker is not active. -/
def RiskSupervisorService.Trips (s : RiskSupervisorService) (i : RiskInput) : Prop :=
  s.status.circuitBreakerActive = false ∧
    ∃ clock, i.evaluated = some clock ∧ (s.intake i).Exceeds clock.now

/-- **The loop publishes exactly when the breaker trips.** -/
theorem mem_emit_subject {s : RiskSupervisorService} {i : RiskInput} {subject : String} :
    subject ∈ (riskSupervisor.emit s i).map RiskOutput.subject ↔ s.Trips i ∧ subject ∈ alarm := by
  unfold RiskSupervisorService.Trips Machine.emit
  rw [riskSupervisor_step]
  cases hi : i.evaluated with
  | none => simp
  | some clock =>
    have hflag : (s.intake i).status.circuitBreakerActive = s.status.circuitBreakerActive :=
      (intake_frame s i).2
    cases hactive : s.status.circuitBreakerActive with
    | true => simp [evaluate_active (hflag.trans hactive)]
    | false =>
      obtain ⟨htrips, hquiet⟩ := evaluate_eq (hflag.trans hactive) clock
      by_cases hex : (s.intake i).Exceeds clock.now
      · obtain ⟨s', reason, hs', heq⟩ := htrips hex
        have hsubjects : (s'.triggerBreaker reason clock.utc).2.map RiskOutput.subject = alarm := by
          rw [RiskSupervisorService.triggerBreaker, if_neg (by simp [hs'])]
          rfl
        simp [heq, hsubjects, hex]
      · obtain ⟨s', -, heq⟩ := hquiet hex
        simp [heq, hex]

end Trips

/-! ### The run task on the bus -/

/-- A message on the bus, by what its payload decodes to as each of the kinds the supervisor
reads. -/
structure BusMessage where
  order : Option OrderResult
  log : Option LogEvent
  risk : Option GlobalRiskConfig
  deriving DecidableEq

namespace BusMessage

/-- The empty payload decodes to nothing. -/
def empty : BusMessage := ⟨none, none, none⟩

/-- The payload of an order result. -/
def ofOrder (result : OrderResult) : BusMessage := ⟨some result, none, none⟩

/-- The payload of an event. -/
def ofLog (evt : LogEvent) : BusMessage := ⟨none, some evt, none⟩

end BusMessage

/-- The message itself. -/
def RiskOutput.message : RiskOutput → BusMessage
  | signal _ => .empty
  | log evt => .ofLog evt

/-- The subjects the run task subscribes to, in order. -/
def riskSubjects : List String := ["orders.result", "log.event", "control.config.update.risk"]

/-- What a message of the subscription with index `k` is to the loop. -/
def riskInput (k : ℕ) (msg : BusMessage) (recorded : Instant) (clock : Clocks) : RiskInput :=
  match k with
  | 0 => .orderResult msg.order clock
  | 1 => .logEvent msg.log recorded clock
  | _ => .configUpdate msg.risk

/-- The number of the run task; the other tasks have other numbers. -/
def runTask : ℕ := 0

/-- The bus with its lock, and the run task. -/
structure SupervisedBus where
  locked : LockedBus BusMessage
  service : RiskSupervisorService
  /-- The receivers of the subscriptions made so far. -/
  subs : List ℕ
  /-- What the task has still to publish, the first of it being published. -/
  outbox : List RiskOutput

/-- An empty bus, and a run task that has made no subscription. -/
def SupervisedBus.start (cfg : GlobalRiskConfig) : SupervisedBus where
  locked := { bus := .new, waiting := [] }
  service := .new cfg
  subs := []
  outbox := []

/-- What happens: somebody takes a step on the bus, the run task takes a message from one of its
subscriptions, or its ticker fires. -/
inductive SupervisedAction
  | locked (a : LockedAction BusMessage)
  | take (k : ℕ) (recorded : Instant) (clock : Clocks)
  | tick (clock : Clocks)

/-- Some task is aborted. -/
def SupervisedAction.IsAbort : SupervisedAction → Prop
  | .locked (.abort _) => True
  | _ => False

theorem SupervisedAction.isAbort_iff (a : SupervisedAction) :
    a.IsAbort ↔ ∃ task, a = .locked (.abort task) := by
  unfold IsAbort
  split <;> simp_all

namespace SupervisedBus

/-- The bus itself. -/
abbrev bus (u : SupervisedBus) : LocalBus BusMessage := u.locked.bus

/-- What the run task needs the lock for: its next subscription, or its next message. -/
def wants (u : SupervisedBus) : Option (LockRequest BusMessage) :=
  match riskSubjects[u.subs.length]? with
  | some subject => some (.subscribe runTask subject)
  | none =>
    match u.outbox with
    | [] => none
    | out :: _ => some (.publish runTask out.subject out.message)

/-- The run task is in its `select`. -/
def Listening (u : SupervisedBus) : Prop := u.wants = none

instance (u : SupervisedBus) : Decidable u.Listening := inferInstanceAs (Decidable (_ = _))

/-- The run task asks for what it wants and is not aborted, and nobody else receives from its
channels. -/
def Allows (u : SupervisedBus) : LockedAction BusMessage → Prop
  | .ask request => request.task = runTask → u.wants = some request
  | .abort task => task ≠ runTask
  | .recv r => r ∉ u.subs
  | .drop r => r ∉ u.subs
  | .grant => True
  | .send _ => True
  | .finish _ => True

instance (u : SupervisedBus) : (a : LockedAction BusMessage) → Decidable (u.Allows a)
  | .ask _ => inferInstanceAs (Decidable (_ → _))
  | .abort _ => inferInstanceAs (Decidable (_ ≠ _))
  | .recv _ => inferInstanceAs (Decidable (_ ∉ _))
  | .drop _ => inferInstanceAs (Decidable (_ ∉ _))
  | .grant => inferInstanceAs (Decidable True)
  | .send _ => inferInstanceAs (Decidable True)
  | .finish _ => inferInstanceAs (Decidable True)

/-- The subscriptions after a step on the bus. -/
def subsAfter (u : SupervisedBus) (a : LockedAction BusMessage) : List ℕ :=
  match a, u.locked.waiting with
  | .grant, .subscribe task _ :: _ => if task = runTask then u.subs ++ [u.bus.next] else u.subs
  | _, _ => u.subs

/-- What the run task has still to publish after a step on the bus. -/
def outboxAfter (u : SupervisedBus) (a : LockedAction BusMessage) : List RiskOutput :=
  match a with
  | .finish task => if task = runTask then u.outbox.tail else u.outbox
  | _ => u.outbox

/-- The oldest message of a subscription, as an input of the loop. -/
def input (u : SupervisedBus) (k : ℕ) (recorded : Instant) (clock : Clocks) :
    Option (ℕ × RiskInput) := do
  let r ← u.subs[k]?
  let ch ← u.bus.channels.lookup r
  let m ← ch.queue.head?
  return (r, riskInput k m.msg recorded clock)

section Steps

variable [CaseTable]

/-- The loop handles an input. -/
def handle (u : SupervisedBus) (i : RiskInput) : SupervisedBus :=
  { u with
    service := riskSupervisor.next u.service i
    outbox := riskSupervisor.emit u.service i }

/-- One step. -/
def step (u : SupervisedBus) : SupervisedAction → Option SupervisedBus
  | .locked a =>
    if u.Allows a then
      ((lockedBus BusMessage).step u.locked a).map fun locked =>
        { u with locked := locked, subs := u.subsAfter a, outbox := u.outboxAfter a }
    else none
  | .take k recorded clock =>
    if u.Listening then
      (u.input k recorded clock).bind fun (r, i) =>
        (u.bus.recv r).map fun bus => { u with locked := { u.locked with bus := bus } }.handle i
    else none
  | .tick clock => if u.Listening then some (u.handle (.tick clock)) else none

end Steps

end SupervisedBus

/-- The run task of a supervisor among other tasks. -/
def supervisedBus [CaseTable] : Interleaving SupervisedBus SupervisedAction where
  step := SupervisedBus.step

namespace SupervisedBus

/-- The run task waits for the lock. -/
def WaitsForLock (u : SupervisedBus) : Prop := runTask ∈ u.locked.waiting.map LockRequest.task

/-! ### The steps -/

section Steps

variable [CaseTable] {u v : SupervisedBus}

omit [CaseTable] in
/-- Whoever waits or is in a call for the run task does so for what the task wants. -/
structure Wf (u : SupervisedBus) : Prop where
  locked : u.locked.Wf
  asked : ∀ q ∈ u.locked.waiting, q.task = runTask → u.wants = some q
  calling : runTask ∈ u.bus.calls → riskSubjects[u.subs.length]? = none ∧ u.outbox ≠ []

omit [CaseTable] in
theorem wf_start (cfg : GlobalRiskConfig) : (start cfg).Wf where
  locked := LockedBus.wf_new
  asked q hq := by cases hq
  calling h := absurd h Finmap.notMem_empty

theorem step_locked {a : LockedAction BusMessage} (h : u.step (.locked a) = some v) :
    u.Allows a ∧ ∃ locked, (lockedBus BusMessage).step u.locked a = some locked ∧
      v = { u with locked := locked, subs := u.subsAfter a, outbox := u.outboxAfter a } := by
  change (if u.Allows a then (Option.map _ _) else none) = some v at h
  split_ifs at h with hallows
  obtain ⟨locked, hlocked, rfl⟩ := Option.map_eq_some_iff.1 h
  exact ⟨hallows, locked, hlocked, rfl⟩

/-- Whatever is possible on the bus is possible if the run task has no part in it, or wants it. -/
theorem exists_step {a : LockedAction BusMessage} {locked : LockedBus BusMessage}
    (hallows : u.Allows a) (h : (lockedBus BusMessage).step u.locked a = some locked) :
    ∃ v, u.step (.locked a) = some v := by
  refine ⟨{ u with locked := locked, subs := u.subsAfter a, outbox := u.outboxAfter a }, ?_⟩
  show (if u.Allows a then Option.map _ _ else none) = _
  rw [if_pos hallows, h]
  rfl

theorem step_take {k : ℕ} {recorded : Instant} {clock : Clocks}
    (h : u.step (.take k recorded clock) = some v) :
    u.Listening ∧ ∃ r i bus, u.input k recorded clock = some (r, i) ∧ u.bus.recv r = some bus ∧
      v = { u with locked := { u.locked with bus := bus } }.handle i := by
  change (if u.Listening then (Option.bind _ _) else none) = some v at h
  split_ifs at h with hlistening
  obtain ⟨⟨r, i⟩, hinput, h⟩ := Option.bind_eq_some_iff.1 h
  obtain ⟨bus, hbus, rfl⟩ := Option.map_eq_some_iff.1 h
  exact ⟨hlistening, r, i, bus, hinput, hbus, rfl⟩

theorem step_tick {clock : Clocks} (h : u.step (.tick clock) = some v) :
    u.Listening ∧ v = u.handle (.tick clock) := by
  change (if u.Listening then some _ else none) = some v at h
  split_ifs at h with hlistening
  cases h
  exact ⟨hlistening, rfl⟩

omit [CaseTable] in
/-- A run task in its `select` has nothing to do with the lock, and nothing to publish. -/
theorem Wf.idle (hu : u.Wf) (h : u.Listening) :
    runTask ∉ u.bus.calls ∧ ¬ u.WaitsForLock ∧ u.outbox = [] ∧
      riskSubjects[u.subs.length]? = none := by
  unfold Listening wants at h
  cases hsubs : riskSubjects[u.subs.length]? with
  | some subject =>
    rw [hsubs] at h
    cases h
  | none =>
    rw [hsubs] at h
    cases houtbox : u.outbox with
    | cons out outbox =>
      rw [houtbox] at h
      cases h
    | nil =>
      refine ⟨fun hcall => (hu.calling hcall).2 houtbox, ?_, rfl, rfl⟩
      intro hwaits
      obtain ⟨q, hq, htask⟩ := List.mem_map.1 hwaits
      have hwants := hu.asked q hq htask
      unfold wants at hwants
      rw [hsubs, houtbox] at hwants
      cases hwants

omit [CaseTable] in
theorem wants_publish {task : ℕ} {subject : String} {msg : BusMessage}
    (h : u.wants = some (.publish task subject msg)) :
    riskSubjects[u.subs.length]? = none ∧
      ∃ out outbox, u.outbox = out :: outbox ∧ subject = out.subject := by
  unfold wants at h
  cases hsubs : riskSubjects[u.subs.length]? with
  | some subject =>
    rw [hsubs] at h
    cases h
  | none =>
    rw [hsubs] at h
    cases houtbox : u.outbox with
    | nil =>
      rw [houtbox] at h
      cases h
    | cons out outbox =>
      rw [houtbox] at h
      cases h
      exact ⟨rfl, out, outbox, rfl, rfl⟩

omit [CaseTable] in
theorem Wf.ask (hu : u.Wf) {q : LockRequest BusMessage} {locked : LockedBus BusMessage}
    (hallows : u.Allows (.ask q))
    (h : (lockedBus BusMessage).step u.locked (.ask q) = some locked) :
    Wf { u with locked := locked } := by
  have hwf := hu.locked.step h
  obtain ⟨-, rfl⟩ := LockedBus.ask_spec h
  refine ⟨hwf, ?_, hu.calling⟩
  intro q' hq' htask
  rcases List.mem_append.1 hq' with hq' | hq'
  · exact hu.asked q' hq' htask
  · rw [List.mem_singleton.1 hq'] at htask ⊢
    exact hallows htask

omit [CaseTable] in
theorem Wf.grant (hu : u.Wf) {locked : LockedBus BusMessage}
    (h : (lockedBus BusMessage).step u.locked .grant = some locked) :
    Wf { u with locked := locked, subs := u.subsAfter .grant } := by
  have hwf := hu.locked.step h
  obtain ⟨q, waiting, bus, hwaiting, hbus, rfl⟩ := LockedBus.grant_spec h
  have hasked : ∀ q' ∈ q :: waiting, q'.task = runTask → u.wants = some q' :=
    fun q' hq' => hu.asked q' (hwaiting ▸ hq')
  cases q with
  | publish task subject msg =>
    have hsubs : u.subsAfter .grant = u.subs := by simp [subsAfter, hwaiting]
    rw [hsubs]
    refine ⟨hwf, ?_, ?_⟩
    · exact fun q' hq' => hasked q' (List.mem_cons_of_mem _ hq')
    · intro hcall
      rcases (LocalBus.mem_calls_publish hbus).1 hcall with rfl | hcall
      · -- the message granted is the one at the head of the outbox
        obtain ⟨hnone, out, outbox, houtbox, -⟩ :=
          wants_publish (hasked _ List.mem_cons_self rfl)
        exact ⟨hnone, by simp [houtbox]⟩
      · exact hu.calling hcall
  | subscribe task subject =>
    refine ⟨hwf, ?_, ?_⟩
    · intro q' hq' htask
      -- the run task waits once, so it is not the one that subscribes
      have hne : task ≠ runTask := by
        intro heq
        have hmem := List.mem_map_of_mem (f := LockRequest.task) hq'
        rw [htask, ← heq] at hmem
        exact hu.locked.head_not_mem hwaiting hmem
      have hsubs : u.subsAfter .grant = u.subs := by simp [subsAfter, hwaiting, hne]
      rw [hsubs]
      exact hasked q' (List.mem_cons_of_mem _ hq') htask
    · intro hcall
      exact absurd hcall (LocalBus.not_mem_calls_of_subscribe hbus).2

omit [CaseTable] in
theorem Wf.finish (hu : u.Wf) {task : ℕ} {locked : LockedBus BusMessage}
    (h : (lockedBus BusMessage).step u.locked (.finish task) = some locked) :
    Wf { u with locked := locked, outbox := u.outboxAfter (.finish task) } := by
  have hwf := hu.locked.step h
  obtain ⟨bus, hbus, rfl⟩ := Option.map_eq_some_iff.1 h
  obtain ⟨hmem, hcalls⟩ : task ∈ u.bus.calls ∧
      (runTask ∈ bus.calls ↔ runTask ≠ task ∧ runTask ∈ u.bus.calls) :=
    LocalBus.mem_calls_finish hbus
  by_cases heq : task = runTask
  · -- it was in a call, so it does not wait
    refine ⟨hwf, ?_, ?_⟩
    · intro q hq htask
      have hnone := hu.locked.free q hq
      rw [htask, ← heq] at hnone
      exact absurd hmem (Finmap.lookup_eq_none.1 hnone)
    · intro hcall
      exact absurd heq.symm (hcalls.1 hcall).1
  · have houtbox : u.outboxAfter (.finish task) = u.outbox := by simp [outboxAfter, heq]
    rw [houtbox]
    exact ⟨hwf, hu.asked, fun hcall => hu.calling (hcalls.1 hcall).2⟩

/-- After a step of the loop itself the task has nothing to do with the lock. -/
theorem Wf.handle (hu : u.Wf) (hlistening : u.Listening) {bus : LocalBus BusMessage} {i : RiskInput}
    (hbus : LockedBus.Wf { u.locked with bus := bus }) (hcalls : bus.calls = u.bus.calls) :
    ({ u with locked := { u.locked with bus := bus } }.handle i).Wf := by
  obtain ⟨hcall, hwaits, -, -⟩ := hu.idle hlistening
  refine ⟨hbus, ?_, ?_⟩
  · intro q hq htask
    have hmem := List.mem_map_of_mem (f := LockRequest.task) hq
    rw [htask] at hmem
    exact absurd hmem hwaits
  · intro hmem
    exact absurd (hcalls ▸ hmem) hcall

/-- **Every step keeps the run task's bookkeeping.** -/
theorem Wf.step (hu : u.Wf) {a : SupervisedAction} (h : u.step a = some v) : v.Wf := by
  cases a with
  | take k recorded clock =>
    obtain ⟨hlistening, r, i, bus, -, hbus, rfl⟩ := step_take h
    refine hu.handle hlistening (hu.locked.step (a := .recv r) ?_) ?_
    · exact congrArg (Option.map _) hbus
    · obtain ⟨ch, m, queue, -, -, -, rfl⟩ := LocalBus.recv_spec hbus
      rfl
  | tick clock =>
    obtain ⟨hlistening, rfl⟩ := step_tick h
    exact hu.handle hlistening hu.locked rfl
  | locked a =>
    obtain ⟨hallows, locked, hlocked, rfl⟩ := step_locked h
    cases a with
    | ask q => exact hu.ask hallows hlocked
    | grant => exact hu.grant hlocked
    | finish task => exact hu.finish hlocked
    | send task =>
      have hwf := hu.locked.step hlocked
      obtain ⟨bus, hbus, rfl⟩ := Option.map_eq_some_iff.1 hlocked
      exact ⟨hwf, hu.asked, fun hcall => hu.calling ((LocalBus.mem_calls_send hbus).1 hcall)⟩
    | abort task =>
      have hwf := hu.locked.step hlocked
      obtain ⟨-, rfl⟩ := LockedBus.abort_spec hlocked
      refine ⟨hwf, fun q hq => hu.asked q (List.mem_filter.1 hq).1, ?_⟩
      exact fun hcall => hu.calling (Finmap.mem_erase.1 hcall).2
    | recv r =>
      have hwf := hu.locked.step hlocked
      obtain ⟨bus, hbus, rfl⟩ := Option.map_eq_some_iff.1 hlocked
      obtain ⟨ch, m, queue, -, -, -, rfl⟩ := LocalBus.recv_spec hbus
      exact ⟨hwf, hu.asked, hu.calling⟩
    | drop r =>
      have hwf := hu.locked.step hlocked
      obtain ⟨bus, hbus, rfl⟩ := Option.map_eq_some_iff.1 hlocked
      obtain ⟨ch, -, -, rfl⟩ := LocalBus.drop_spec hbus
      exact ⟨hwf, hu.asked, hu.calling⟩

end Steps

end SupervisedBus

end W2uos
