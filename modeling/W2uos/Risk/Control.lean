import W2uos.Bus.Local
import W2uos.Risk.Supervisor

/-!
# The control messages of the breaker

A trigger of the breaker sets its flag and then publishes `pause_all` and `block_new_orders`; a
reset clears the flag and publishes `reset_circuit` and `resume_all`.  Each of the four subjects has
a queue and a task of its own: two of them write `block_new_orders` of the execution service, two
write `paused` of the strategy host.  A reset keeps the lock of the risk state until both its
messages are published; a trigger takes the lock to look at the flag and to set it, and publishes
without it.

Messages on one subject stay in order, but `block_new_orders` and `reset_circuit` (and `pause_all`
and `resume_all`) may overtake each other.  The services follow the breaker exactly as long as no
message is taken after the one that belongs to the last change of the flag.

* `inTime_step`, `late_step` : what is preserved until the flag changes again;
* `agrees_iff` : exactly when the services follow the breaker;
* `not_agrees` : a run that leaves trading enabled while the breaker is active.
-/

namespace W2uos

/-- The services that follow the breaker. -/
inductive ControlTarget
  | execution
  | strategy
  deriving DecidableEq

/-- A control message: the value it gives to the flag of a service.  The messages themselves are
empty; what they mean is said by their subject. -/
structure Control where
  target : ControlTarget
  value : Bool
  deriving DecidableEq

/-- The subject of a control message. -/
def Control.subject : Control → String
  | ⟨.execution, true⟩ => "control.exec.block_new_orders"
  | ⟨.execution, false⟩ => "control.exec.reset_circuit"
  | ⟨.strategy, true⟩ => "control.strategy.pause_all"
  | ⟨.strategy, false⟩ => "control.strategy.resume_all"

/-- What a trigger publishes, in order. -/
def triggerMessages : List Control := [⟨.strategy, true⟩, ⟨.execution, true⟩]

/-- What a reset publishes, in order. -/
def resetMessages : List Control := [⟨.execution, false⟩, ⟨.strategy, false⟩]

theorem triggerMessages_signals {s : RiskSupervisorService}
    (h : s.status.circuitBreakerActive = false) (reason : String) (utc : DateTime) :
    RiskOutput.signals (s.triggerBreaker reason utc).2 =
      triggerMessages.map Control.subject := by
  rw [RiskSupervisorService.triggerBreaker, if_neg (by simp [h])]
  rfl

theorem resetMessages_signals (s : RiskSupervisorService) :
    RiskOutput.signals s.resetCircuit.2 = resetMessages.map Control.subject := rfl

/-- The risk state, the tasks that change it, the four queues, and the flags of the services. -/
structure ControlState where
  /-- The flag `circuit_breaker_active`. -/
  active : Bool
  /-- The trigger has found the flag cleared and is about to set it. -/
  checked : Bool
  /-- What the trigger has still to publish. -/
  triggering : List Control
  /-- What the reset has still to publish; it holds the lock until there is nothing left. -/
  resetting : List Control
  /-- The number of messages in the queue of each subject. -/
  queued : Control → ℕ
  /-- The flags `block_new_orders` of the execution service and `paused` of the strategy host. -/
  flag : ControlTarget → Bool

/-- Nothing has happened. -/
def ControlState.initial : ControlState where
  active := false
  checked := false
  triggering := []
  resetting := []
  queued _ := 0
  flag _ := false

/-- The steps of the tasks. -/
inductive ControlAction
  /-- `trigger_breaker` looks at the flag. -/
  | check
  /-- `trigger_breaker` sets the flag. -/
  | set
  /-- `trigger_breaker` publishes its next message. -/
  | publishTrigger
  /-- `reset_circuit` takes the lock and clears the flag. -/
  | clear
  /-- `reset_circuit` publishes its next message. -/
  | publishReset
  /-- The task of a subject takes a message and writes the flag of its service. -/
  | deliver (msg : Control)
  deriving DecidableEq

namespace ControlState

/-- Put a message into the queue of its subject, if there is room. -/
def enqueue (s : ControlState) (c : Control) : Option ControlState :=
  if s.queued c < channelCapacity then
    some { s with queued := Function.update s.queued c (s.queued c + 1) }
  else none

/-- One step of one task. -/
def step (s : ControlState) : ControlAction → Option ControlState
  | .check =>
    if s.resetting = [] ∧ s.checked = false ∧ s.triggering = [] then
      some { s with checked := !s.active }
    else none
  | .set =>
    if s.resetting = [] ∧ s.checked = true then
      some { s with active := true, checked := false, triggering := triggerMessages }
    else none
  | .publishTrigger =>
    match s.triggering with
    | [] => none
    | c :: cs => { s with triggering := cs }.enqueue c
  | .clear =>
    if s.resetting = [] then some { s with active := false, resetting := resetMessages } else none
  | .publishReset =>
    match s.resetting with
    | [] => none
    | c :: cs => { s with resetting := cs }.enqueue c
  | .deliver c =>
    if 0 < s.queued c then
      some { s with
        queued := Function.update s.queued c (s.queued c - 1)
        flag := Function.update s.flag c.target c.value }
    else none

/-- The number of messages on the way to the task of a subject, published or not. -/
def pending (s : ControlState) (c : Control) : ℕ :=
  s.queued c + s.triggering.count c + s.resetting.count c

/-- All control messages have been consumed. -/
def Quiescent (s : ControlState) : Prop := ∀ c, s.pending c = 0

/-- `block_new_orders`, `paused` and `circuit_breaker_active` are equal. -/
def Agrees (s : ControlState) : Prop :=
  s.flag .execution = s.flag .strategy ∧ s.flag .strategy = s.active

end ControlState

/-- The breaker and the services that follow it. -/
def controlPlane : Interleaving ControlState ControlAction where
  step := ControlState.step

/-- The action changes the flag of the breaker. -/
def ControlAction.ChangesFlag (a : ControlAction) : Prop := a = .set ∨ a = .clear

/-- A task of the service `target` takes a message against the flag of the breaker only while the
message of the flag's last change is still on its way to the service. -/
def ControlState.InTime (target : ControlTarget) (s : ControlState) (a : ControlAction) : Prop :=
  a = .deliver ⟨target, !s.active⟩ → 0 < s.pending ⟨target, s.active⟩

/-! ### What a step does -/

namespace ControlState

variable {s t : ControlState} {a : ControlAction} {c : Control}

/-- A message that is put into its queue is as much on its way as before. -/
theorem pending_enqueue (h : s.enqueue c = some t) :
    t.active = s.active ∧ t.flag = s.flag ∧
      ∀ d, t.pending d = s.pending d + if d = c then 1 else 0 := by
  unfold enqueue at h
  split_ifs at h with hroom
  cases h
  refine ⟨rfl, rfl, ?_⟩
  intro d
  by_cases hd : d = c
  · subst hd
    simp only [pending, Function.update_self, if_true]
    omega
  · simp only [pending, Function.update_of_ne hd, if_neg hd, Nat.add_zero]

/-- **What a step does**: it changes the flag of the breaker and sets out a message to each service
with the new value, or delivers a message, or nothing that matters here. -/
theorem step_cases (h : s.step a = some t) :
    (a.ChangesFlag ∧ ∀ target, 0 < t.pending ⟨target, t.active⟩) ∨
      (∃ c, a = .deliver c ∧ 0 < s.pending c ∧ t.active = s.active ∧
        t.flag = Function.update s.flag c.target c.value ∧
        ∀ d, d ≠ c → t.pending d = s.pending d) ∨
      (¬ a.ChangesFlag ∧ (∀ c, a ≠ .deliver c) ∧ t.active = s.active ∧ t.flag = s.flag ∧
        ∀ d, t.pending d = s.pending d) := by
  cases a with
  | check =>
    simp only [step] at h
    split_ifs at h
    cases h
    exact Or.inr (Or.inr ⟨by simp [ControlAction.ChangesFlag], by simp, rfl, rfl, fun _ => rfl⟩)
  | set =>
    simp only [step] at h
    split_ifs at h
    cases h
    refine Or.inl ⟨Or.inl rfl, ?_⟩
    intro target
    have hcount : 0 < triggerMessages.count ⟨target, true⟩ := by cases target <;> decide
    show 0 < s.queued _ + triggerMessages.count ⟨target, true⟩ + s.resetting.count _
    omega
  | clear =>
    simp only [step] at h
    split_ifs at h
    cases h
    refine Or.inl ⟨Or.inr rfl, ?_⟩
    intro target
    have hcount : 0 < resetMessages.count ⟨target, false⟩ := by cases target <;> decide
    show 0 < s.queued _ + s.triggering.count _ + resetMessages.count ⟨target, false⟩
    omega
  | publishTrigger =>
    simp only [step] at h
    cases hlist : s.triggering with
    | nil => simp [hlist] at h
    | cons c cs =>
      rw [hlist] at h
      obtain ⟨hactive, hflag, hpending⟩ := pending_enqueue h
      refine Or.inr (Or.inr ⟨by simp [ControlAction.ChangesFlag], by simp, hactive, hflag,
        fun d => ?_⟩)
      rw [hpending]
      simp only [pending, hlist, List.count_cons, beq_iff_eq, eq_comm (a := c)]
      omega
  | publishReset =>
    simp only [step] at h
    cases hlist : s.resetting with
    | nil => simp [hlist] at h
    | cons c cs =>
      rw [hlist] at h
      obtain ⟨hactive, hflag, hpending⟩ := pending_enqueue h
      refine Or.inr (Or.inr ⟨by simp [ControlAction.ChangesFlag], by simp, hactive, hflag,
        fun d => ?_⟩)
      rw [hpending]
      simp only [pending, hlist, List.count_cons, beq_iff_eq, eq_comm (a := c)]
      omega
  | deliver c =>
    simp only [step] at h
    split_ifs at h with hqueued
    cases h
    refine Or.inr (Or.inl ⟨c, rfl, by unfold pending; omega, rfl, rfl, ?_⟩)
    intro d hd
    simp only [pending, Function.update_of_ne hd]

/-- The service follows the breaker, unless a message is on its way that will make it. -/
def Follows (target : ControlTarget) (s : ControlState) : Prop :=
  s.pending ⟨target, s.active⟩ = 0 → s.flag target = s.active

/-- The service does not follow the breaker, and no message is on its way that will make it. -/
def Lost (target : ControlTarget) (s : ControlState) : Prop :=
  s.pending ⟨target, s.active⟩ = 0 ∧ s.flag target ≠ s.active

theorem follows_of_changesFlag (h : s.step a = some t) (ha : a.ChangesFlag)
    (target : ControlTarget) : t.Follows target := by
  rcases step_cases h with ⟨-, hset⟩ | ⟨c, rfl, -⟩ | ⟨hno, -⟩
  · exact fun hnone => absurd hnone (hset target).ne'
  · simp [ControlAction.ChangesFlag] at ha
  · exact absurd ha hno

/-- **A step in time keeps a service following.** -/
theorem inTime_step {target : ControlTarget} (h : s.step a = some t) (hs : s.Follows target)
    (ha : s.InTime target a) : t.Follows target := by
  rcases step_cases h with ⟨-, hset⟩ | ⟨c, rfl, -, hactive, hflag, hother⟩ |
    ⟨-, -, hactive, hflag, hsame⟩
  · exact fun hnone => absurd hnone (hset target).ne'
  · intro hnone
    rw [hactive] at hnone ⊢
    rw [hflag]
    by_cases htarget : c.target = target
    · subst htarget
      rw [Function.update_self]
      by_contra hvalue
      -- the message is against the flag, so one in favour is still on its way
      have hagainst : c = ⟨c.target, !s.active⟩ := by
        cases c
        simpa [Bool.eq_not] using hvalue
      have hne : (⟨c.target, s.active⟩ : Control) ≠ c := by
        intro heq
        exact hvalue (congrArg Control.value heq).symm
      have hpos := ha (congrArg ControlAction.deliver hagainst)
      rw [hother _ hne] at hnone
      omega
    · -- a message to the other service is not seen here
      have hne : (⟨target, s.active⟩ : Control) ≠ c := by
        rintro rfl
        exact htarget rfl
      rw [hother _ hne] at hnone
      rw [Function.update_of_ne (Ne.symm htarget)]
      exact hs hnone
  · intro hnone
    rw [hactive, hsame] at hnone
    rw [hactive, hflag]
    exact hs hnone

/-- **A late step loses the service.** -/
theorem late_step {target : ControlTarget} (h : s.step a = some t) (ha : ¬ s.InTime target a) :
    t.Lost target := by
  unfold InTime at ha
  push Not at ha
  obtain ⟨rfl, hnone⟩ := ha
  rcases step_cases h with ⟨hchange, -⟩ | ⟨c, hc, -, hactive, hflag, hother⟩ | ⟨-, hno, -⟩
  · simp [ControlAction.ChangesFlag] at hchange
  · obtain rfl := ControlAction.deliver.inj hc
    have hne : (⟨target, s.active⟩ : Control) ≠ ⟨target, !s.active⟩ := by simp
    refine ⟨by rw [hactive, hother _ hne]; omega, ?_⟩
    rw [hactive, hflag, Function.update_self]
    simp
  · exact absurd rfl (hno _)

/-- **A lost service stays lost** until the flag changes. -/
theorem lost_step {target : ControlTarget} (h : s.step a = some t) (hs : s.Lost target)
    (ha : ¬ a.ChangesFlag) : t.Lost target := by
  obtain ⟨hnone, hwrong⟩ := hs
  rcases step_cases h with ⟨hchange, -⟩ | ⟨c, rfl, hpos, hactive, hflag, hother⟩ |
    ⟨-, -, hactive, hflag, hsame⟩
  · exact absurd hchange ha
  · have hne : (⟨target, s.active⟩ : Control) ≠ c := by
      rintro rfl
      omega
    refine ⟨by rw [hactive, hother _ hne, hnone], ?_⟩
    rw [hactive, hflag]
    by_cases htarget : target = c.target
    · subst htarget
      rw [Function.update_self]
      exact fun heq => hne (by cases c; simp_all)
    · rw [Function.update_of_ne htarget]
      exact hwrong
  · exact ⟨by rw [hactive, hsame, hnone], by rw [hactive, hflag]; exact hwrong⟩

end ControlState

/-! ### Runs -/

section Runs

variable {as : List ControlAction} {t : ControlState}

/-- Since the last change of the flag, no message was delivered to the service too late. -/
def DeliveredInTime (target : ControlTarget) (as : List ControlAction) : Prop :=
  controlPlane.SinceLast .initial ControlAction.ChangesFlag (ControlState.InTime target) as

/-- **The run lemma**: what the order of the deliveries since the last change of the flag says
about a service. -/
theorem follows_run (target : ControlTarget) (h : controlPlane.exec .initial as = some t) :
    (DeliveredInTime target as → t.Follows target) ∧
      (¬ DeliveredInTime target as → t.Lost target) := by
  have hrun := Interleaving.exec_history (M := controlPlane) (s := .initial)
    (P := fun as t => controlPlane.exec .initial as = some t ∧
      (DeliveredInTime target as → t.Follows target) ∧
      (¬ DeliveredInTime target as → t.Lost target))
    ⟨rfl, fun _ _ => rfl, fun hlate => absurd Interleaving.sinceLast_nil hlate⟩ ?_ h
  · exact hrun.2
  · rintro as s a s' ⟨hs, hintime, hlate⟩ hstep
    have hconcat : DeliveredInTime target (as ++ [a]) ↔
        a.ChangesFlag ∨ (DeliveredInTime target as ∧ s.InTime target a) :=
      Interleaving.sinceLast_concat hs
    refine ⟨controlPlane.exec_concat_iff.2 ⟨s, hs, hstep⟩, fun hall => ?_, fun hnot => ?_⟩
    · rcases hconcat.1 hall with hmark | ⟨hbefore, hnow⟩
      · exact ControlState.follows_of_changesFlag hstep hmark target
      · exact ControlState.inTime_step hstep (hintime hbefore) hnow
    · have hmark : ¬ a.ChangesFlag := fun hmark => hnot (hconcat.2 (Or.inl hmark))
      by_cases hbefore : DeliveredInTime target as
      · exact ControlState.late_step hstep fun hnow => hnot (hconcat.2 (Or.inr ⟨hbefore, hnow⟩))
      · exact ControlState.lost_step hstep (hlate hbefore) hmark

/-- **Exactly when the services follow the breaker.**  In a state where every control message has
been consumed, `block_new_orders`, `paused` and `circuit_breaker_active` are equal iff, since the
last change of the flag, neither service was given a message against the flag after the message of
that change. -/
theorem agrees_iff (h : controlPlane.exec .initial as = some t) (hq : t.Quiescent) :
    t.Agrees ↔ ∀ target, DeliveredInTime target as := by
  constructor
  · rintro ⟨hexec, hstrategy⟩ target
    by_contra hlate
    obtain ⟨-, hwrong⟩ := (follows_run target h).2 hlate
    cases target with
    | execution => exact hwrong (hexec.trans hstrategy)
    | strategy => exact hwrong hstrategy
  · intro hall
    have hflag : ∀ target, t.flag target = t.active := fun target =>
      (follows_run target h).1 (hall target) (hq _)
    exact ⟨(hflag .execution).trans (hflag .strategy).symm, hflag .strategy⟩

end Runs

/-- The breaker trips, and its two messages are published. -/
def tripped : List ControlAction := [.check, .set, .publishTrigger, .publishTrigger]

/-- The breaker trips, is reset, and trips again. -/
def trippedTwice : List ControlAction :=
  tripped ++ [.clear, .publishReset, .publishReset] ++ tripped

/-- Both tasks of the trigger have been served before those of the reset. -/
def overtaken : List ControlAction :=
  trippedTwice ++ [.deliver ⟨.execution, true⟩, .deliver ⟨.execution, true⟩,
    .deliver ⟨.execution, false⟩, .deliver ⟨.strategy, true⟩, .deliver ⟨.strategy, true⟩,
    .deliver ⟨.strategy, false⟩]

theorem agrees_iff_sample :
    ∃ t, controlPlane.exec .initial overtaken = some t ∧ t.Quiescent ∧
      (t.Agrees ↔ ∀ target, DeliveredInTime target overtaken) := by
  refine ⟨_, rfl, ?_, agrees_iff rfl ?_⟩ <;> rintro ⟨_ | _, _ | _⟩ <;> rfl

/-- **Trading stays enabled while the breaker is active**: the breaker trips, is reset and trips
again, and the messages of the reset are the last to be taken. -/
theorem not_agrees :
    ∃ t, controlPlane.exec .initial overtaken = some t ∧ t.Quiescent ∧ ¬ t.Agrees ∧
      t.active = true ∧ t.flag .execution = false ∧ t.flag .strategy = false := by
  refine ⟨_, rfl, ?_, ?_, rfl, rfl, rfl⟩
  · rintro ⟨_ | _, _ | _⟩ <;> rfl
  · rintro ⟨-, hstrategy⟩
    cases hstrategy

end W2uos
