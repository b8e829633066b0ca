import W2uos.Node.Live

/-!
# A node whose backtests are apart

A backtest of a live node replays snapshots on the bus of the node.  Where none of them is on the
subject of a market the node subscribes to, no message of it gets into a channel of the strategy
host or of the execution service, and the node without its backtests takes the same steps.

* `LiveNode.Apart.next` : the invariant of such a node.
* `LiveNode.live_step` : what is seen of its steps without the backtests.
-/

namespace W2uos

section Isolation

variable [CaseTable] {σ : Type} {ps : List PairId}

/-! ### A bus on which a backtest is not heard -/

/-- The channel may be subscribed to the subject. -/
def NodeChannel.Serves (ps : List PairId) : NodeChannel → String → Prop
  | market _, subject => ∃ pair ∈ ps, marketSubject pair.exchange pair.symbol = subject
  | commands, subject => ordersCommand = subject
  | config, subject => "control.config.update.execution" = subject
  | metrics _, subject => "orders.result" = subject
  | other _, _ => True

/-- The channel is of somebody else. -/
def NodeChannel.IsOther (c : NodeChannel) : Prop := ∃ n, c = other n

/-- A request that keeps the backtest apart: it publishes where no channel of the node listens, and
every channel is opened by its own task for its own subject. -/
def Lawful (ps : List PairId) : NodeRequest → Prop
  | .publish task subject _ => task = .backtest → ∀ c, NodeChannel.Serves ps c subject → c.IsOther
  | .subscribe task c subject => task.isLive = c.isLive ∧ c.Serves ps subject

/-- Nothing of a backtest gets into the channels of the node. -/
structure BusApart (ps : List PairId) (b : NodeBus) : Prop where
  wf : b.Wf
  lawful : ∀ q ∈ b.waiting, Lawful ps q
  opened : ∀ c ∈ b.opened, c.1.Serves ps c.2
  calls : ∀ call ∈ b.calls, call.task = .backtest → ∀ c ∈ call.remaining, c.IsOther
  queues : ∀ c queue, b.queue c = some queue → ¬ c.IsOther → ∀ m ∈ queue, m.1 ≠ .backtest

variable {b b' : NodeBus}

theorem BusApart.setQueue (hb : BusApart ps b) {c : NodeChannel}
    {queue : Option (List (NodeParty × BusPayload))}
    (h : ∀ new, queue = some new → ¬ c.IsOther → ∀ m ∈ new, m.1 ≠ .backtest) :
    BusApart ps (b.setQueue c queue) where
  wf := hb.wf.setQueue _
  lawful := hb.lawful
  opened := hb.opened
  calls := hb.calls
  queues c' old hold hc := by
    by_cases heq : c' = c
    · rw [heq, Broker.queue_setQueue_self] at hold
      exact h old hold (heq ▸ hc)
    · rw [Broker.queue_setQueue_ne _ heq] at hold
      exact hb.queues c' old hold hc

theorem BusApart.setCall (hb : BusApart ps b) {task : NodeParty} {subject : String}
    {msg : BusPayload} {c : NodeChannel} {remaining : List NodeChannel}
    (hcall : b.callOf task = some ⟨task, subject, msg, c :: remaining⟩) :
    BusApart ps (b.setCall task remaining) where
  wf := hb.wf.setCall (hb.wf.remaining _ (List.mem_of_find?_eq_some hcall)).of_cons
  lawful := hb.lawful
  opened := hb.opened
  calls call hmem htask c' hc' := by
    obtain ⟨old, hold, rfl⟩ := List.mem_map.1 hmem
    split_ifs at htask hc' with heq
    · have hfirst := List.mem_of_find?_eq_some hcall
      exact hb.calls _ hfirst (heq.symm.trans htask) c' (List.mem_cons_of_mem _ hc')
    · exact hb.calls old hold htask c' hc'
  queues := hb.queues

theorem BusApart.grant (hb : BusApart ps b) {task : NodeParty} (hwf : b'.Wf)
    (h : b.grant task = some b') : BusApart ps b' := by
  obtain ⟨subject, msg, waiting, hwaiting, rfl⟩ | ⟨c, subject, waiting, hwaiting, -, -, rfl⟩ :=
    Broker.grant_spec h
  · have hlawful := hb.lawful (.publish task subject msg) (hwaiting ▸ List.mem_cons_self)
    refine ⟨hwf, fun q hq => hb.lawful q (hwaiting ▸ List.mem_cons_of_mem _ hq), hb.opened, ?_,
      hb.queues⟩
    intro call hcall htask c hc
    rcases List.mem_append.1 hcall with hcall | hcall
    · exact hb.calls call hcall htask c hc
    · obtain rfl := List.mem_singleton.1 hcall
      obtain ⟨⟨c, subject'⟩, hopened, rfl⟩ := List.mem_map.1 hc
      obtain ⟨hopened, hsubject⟩ := List.mem_filter.1 hopened
      have hserves := hb.opened _ hopened
      rw [of_decide_eq_true hsubject] at hserves
      exact hlawful htask c hserves
  · have hlawful := hb.lawful (.subscribe task c subject) (hwaiting ▸ List.mem_cons_self)
    refine ⟨hwf, fun q hq => hb.lawful q (hwaiting ▸ List.mem_cons_of_mem _ hq), ?_, hb.calls, ?_⟩
    · intro c' hc'
      rcases List.mem_append.1 hc' with hc' | hc'
      · exact hb.opened c' hc'
      · rw [List.mem_singleton.1 hc']
        exact hlawful.2
    · intro c' queue hqueue hc' m hm
      change Function.update b.queue c (some []) c' = some queue at hqueue
      by_cases heq : c' = c
      · rw [heq, Function.update_self, Option.some.injEq] at hqueue
        rw [← hqueue] at hm
        cases hm
      · rw [Function.update_of_ne heq] at hqueue
        exact hb.queues c' queue hqueue hc' m hm

/-- **Every step of a bus keeps the backtest apart**, if all that is asked for does. -/
theorem BusApart.step (hb : BusApart ps b) {capacity : ℕ}
    {a : Broker.Action NodeParty NodeChannel String BusPayload}
    (hask : ∀ q, a = .ask q → Lawful ps q) (h : b.step capacity a = some b') :
    BusApart ps b' := by
  have hwf := hb.wf.step h
  cases a with
  | ask q =>
    obtain ⟨-, rfl⟩ := Broker.ask_spec h
    refine ⟨hwf, fun q' hq' => ?_, hb.opened, hb.calls, hb.queues⟩
    rcases List.mem_append.1 hq' with hq' | hq'
    · exact hb.lawful q' hq'
    · rw [List.mem_singleton.1 hq']
      exact hask q rfl
  | grant task => exact hb.grant hwf h
  | send task =>
    obtain ⟨subject, msg, c, remaining, hcall, ⟨-, rfl⟩ | ⟨queue, hqueue, -, rfl⟩⟩ :=
      Broker.send_spec h
    · exact hb.setCall hcall
    · refine (hb.setCall hcall).setQueue ?_
      rintro new rfl' hc m hm
      obtain rfl := Option.some.inj rfl'
      rcases List.mem_append.1 hm with hm | hm
      · exact hb.queues c queue hqueue hc m hm
      · rw [List.mem_singleton.1 hm]
        intro htask
        exact hc (hb.calls _ (List.mem_of_find?_eq_some hcall) htask c List.mem_cons_self)
  | finish task =>
    obtain ⟨-, rfl⟩ := Broker.finish_spec h
    exact ⟨hwf, hb.lawful, hb.opened, fun call hcall => hb.calls call (List.mem_filter.1 hcall).1,
      hb.queues⟩
  | abort task =>
    obtain ⟨-, rfl⟩ := Broker.abort_spec h
    exact ⟨hwf, fun q hq => hb.lawful q (List.mem_filter.1 hq).1, hb.opened,
      fun call hcall => hb.calls call (List.mem_filter.1 hcall).1, hb.queues⟩
  | recv c =>
    obtain ⟨m, queue, hqueue, rfl⟩ := Broker.recv_spec h
    refine hb.setQueue ?_
    rintro new hnew hc m' hm'
    obtain rfl := Option.some.inj hnew
    exact hb.queues c _ hqueue hc m' (List.mem_cons_of_mem _ hm')
  | close c =>
    obtain ⟨-, rfl⟩ := Broker.close_spec h
    exact hb.setQueue fun new hnew => by cases hnew

/-- The requests that wait are of live tasks for live channels, or of hidden ones for hidden
ones. -/
theorem BusApart.fits (hb : BusApart ps b) :
    ∀ q ∈ b.waiting, q.Fits NodeParty.isLive NodeChannel.isLive := by
  intro q hq
  have hlawful := hb.lawful q hq
  cases q with
  | publish task subject msg => trivial
  | subscribe task c subject => exact hlawful.1

/-! ### A node whose backtests are not heard -/

/-- Nothing the backtest replays has the subject of one of the markets. -/
def Unheard (ps : List PairId) (snaps : List MarketSnapshot) : Prop :=
  ∀ pair ∈ ps, ∀ snap ∈ snaps, marketSubject pair.exchange pair.symbol ≠ snap.subject

/-- The backtests of the node are apart from its tasks. -/
structure LiveNode.Apart (ps : List PairId) (node : LiveNode σ) : Prop where
  bus : BusApart ps node.bus
  pairs : ∀ pair ∈ node.pairs, pair ∈ ps
  startup : ∀ q ∈ node.startup, q.task = .exec ∧ Lawful ps q
  backtest : ∀ task, node.backtest = some task → Unheard ps task.snaps

omit [CaseTable] in
theorem marketSubject_ne_of_head [CaseTable] (exchange : ExchangeId) (symbol : Symbol)
    {text : String} (h : text.toList.head? ≠ some 'm') : marketSubject exchange symbol ≠ text := by
  rintro rfl
  exact h (by simp [marketSubject])

namespace LiveNode

variable {node node' : LiveNode σ}

theorem Apart.start (cfg : NodeConfig) (init : σ) (exec : ExecutionService) (event : LogEvent) :
    (LiveNode.start cfg init exec event).Apart cfg.startBot.pairs where
  bus :=
    { wf := Broker.wf_new
      lawful := fun q hq => by cases hq
      opened := fun c hc => by cases hc
      calls := fun call hcall => by cases hcall
      queues := fun c queue hqueue => by cases hqueue }
  pairs _ h := h
  startup q hq := by
    simp only [LiveNode.start, execStartup, List.mem_cons, List.not_mem_nil, or_false] at hq
    rcases hq with rfl | rfl | rfl
    · exact ⟨rfl, fun h => by cases h⟩
    · exact ⟨rfl, rfl, rfl⟩
    · exact ⟨rfl, rfl, rfl⟩
  backtest task h := by cases h

/-- A snapshot that is not heard is published where no channel of the node listens. -/
theorem isOther_of_unheard {snaps : List MarketSnapshot} (h : Unheard ps snaps)
    {snap : MarketSnapshot} (hsnap : snap ∈ snaps) (c : NodeChannel)
    (hserves : c.Serves ps snap.subject) : c.IsOther := by
  have hmarket : ∀ {text : String}, text.toList.head? ≠ some 'm' → text ≠ snap.subject :=
    fun htext heq => marketSubject_ne_of_head snap.exchange snap.symbol htext heq.symm
  cases c with
  | market k =>
    obtain ⟨pair, hpair, hsubject⟩ := hserves
    exact absurd hsubject (h pair hpair snap hsnap)
  | commands => exact absurd hserves (hmarket (by decide))
  | config => exact absurd hserves (hmarket (by decide))
  | metrics n => exact absurd hserves (hmarket (by decide))
  | other n => exact ⟨n, rfl⟩

theorem Apart.wants (h : node.Apart ps) {task : NodeParty} {q : NodeRequest}
    (hwants : node.wants task = some q) : Lawful ps q := by
  cases task with
  | host =>
    obtain ⟨pair, hpair, rfl⟩ := Option.map_eq_some_iff.1 hwants
    exact ⟨rfl, pair, h.pairs pair (List.mem_of_mem_head? hpair), rfl⟩
  | strategy k =>
    obtain ⟨task, -, hout⟩ := Option.bind_eq_some_iff.1 hwants
    obtain ⟨out, -, hq⟩ := Option.bind_eq_some_iff.1 hout
    cases hq
    exact fun htask => by cases htask
  | exec =>
    unfold LiveNode.wants at hwants
    dsimp only at hwants
    split at hwants
    · rename_i request startup hstartup
      obtain rfl := Option.some.inj hwants
      exact (h.startup _ (hstartup ▸ List.mem_cons_self)).2
    · obtain ⟨pub, -, rfl⟩ := Option.map_eq_some_iff.1 hwants
      exact fun htask => by cases htask
  | backtest =>
    obtain ⟨task, htask, hwants⟩ := Option.bind_eq_some_iff.1 hwants
    unfold RunningBacktest.wants at hwants
    split_ifs at hwants
    · obtain ⟨snap, hsnap, rfl⟩ := Option.map_eq_some_iff.1 hwants
      exact fun _ c hc =>
        isOther_of_unheard (h.backtest task htask) (List.mem_of_mem_head? hsnap) c hc
    · obtain rfl := Option.some.inj hwants
      exact ⟨rfl, rfl⟩
  | other n => cases hwants

theorem Apart.allows (h : node.Apart ps) {q : NodeRequest} (hallows : node.allows (.ask q) = true) :
    Lawful ps q := by
  rcases Bool.or_eq_true_iff.1 hallows with hother | hwants
  · cases q with
    | publish task subject msg =>
      cases task with
      | other n => exact fun htask => by cases htask
      | _ => cases hother
    | subscribe task c subject =>
      cases task with
      | other n =>
        cases c with
        | other m => exact ⟨rfl, trivial⟩
        | _ => cases hother
      | _ => cases hother
  · exact h.wants (of_decide_eq_true hwants)

theorem Apart.done (h : node.Apart ps) (task : NodeParty) : (node.done task).Apart ps := by
  cases task with
  | host =>
    exact ⟨h.bus, fun pair hpair => h.pairs pair (List.mem_of_mem_tail hpair), h.startup,
      h.backtest⟩
  | strategy k => exact ⟨h.bus, h.pairs, h.startup, h.backtest⟩
  | exec =>
    unfold LiveNode.done
    dsimp only
    split
    · rename_i request startup hstartup
      exact ⟨h.bus, h.pairs, fun q hq => h.startup q (hstartup ▸ List.mem_cons_of_mem _ hq),
        h.backtest⟩
    · exact ⟨h.bus, h.pairs, h.startup, h.backtest⟩
  | backtest =>
    refine ⟨h.bus, h.pairs, h.startup, fun task htask => ?_⟩
    obtain ⟨old, hold, rfl⟩ := Option.map_eq_some_iff.1 htask
    intro pair hpair snap hsnap
    refine h.backtest old hold pair hpair snap ?_
    unfold RunningBacktest.done at hsnap
    split_ifs at hsnap
    · exact List.mem_of_mem_tail hsnap
    · exact hsnap
  | other n => exact h

theorem Apart.after (h : node.Apart ps)
    (a : Broker.Action NodeParty NodeChannel String BusPayload) : (node.after a).Apart ps := by
  unfold LiveNode.after
  split
  · split
    · exact h.done _
    · exact h
  · exact h.done _
  · exact h

omit [CaseTable] in
theorem receive_spec {c : NodeChannel} {payload : BusPayload}
    (h : node.receive c = some (payload, node')) :
    ∃ sender queue bus, node.bus.queue c = some ((sender, payload) :: queue) ∧
      node.bus.recv c = some bus ∧ node' = { node with bus := bus } := by
  obtain ⟨queue, hqueue, h⟩ := Option.bind_eq_some_iff.1 h
  obtain ⟨⟨sender, payload'⟩, hhead, h⟩ := Option.bind_eq_some_iff.1 h
  obtain ⟨bus, hbus, h⟩ := Option.bind_eq_some_iff.1 h
  cases h
  obtain ⟨rest, rfl⟩ := List.head?_eq_some_iff.1 hhead
  exact ⟨sender, rest, bus, hqueue, hbus, rfl⟩

theorem Apart.receive (h : node.Apart ps) {c : NodeChannel} {payload : BusPayload}
    (hreceive : node.receive c = some (payload, node')) : node'.Apart ps := by
  obtain ⟨sender, queue, bus, -, hbus, rfl⟩ := receive_spec hreceive
  have hstep : node.bus.step channelCapacity (.recv c) = some bus := hbus
  exact ⟨h.bus.step (fun q hq => by cases hq) hstep, h.pairs, h.startup, h.backtest⟩

theorem Apart.busStep (h : node.Apart ps)
    {a : Broker.Action NodeParty NodeChannel String BusPayload}
    (hstep : node.busStep a = some node') : node'.Apart ps := by
  unfold LiveNode.busStep at hstep
  split_ifs at hstep with hallows
  obtain ⟨bus, hbus, rfl⟩ := Option.map_eq_some_iff.1 hstep
  have hafter := h.after a
  exact ⟨h.bus.step (fun q hq => h.allows (hq ▸ hallows)) hbus, hafter.pairs, hafter.startup,
    hafter.backtest⟩

omit [CaseTable] in
theorem handleMessage_eq (engine : StrategyEngine σ) (node : LiveNode σ) (k : ℕ) (task : MarketTask)
    (payload : BusPayload) (fresh : TraceId) (utc : DateTime) :
    ∃ state tasks, node.handleMessage engine k task payload fresh utc =
      { node with engine := state, tasks := tasks } := by
  unfold LiveNode.handleMessage
  split
  · exact ⟨_, _, rfl⟩
  · exact ⟨node.engine, node.tasks, rfl⟩

theorem Apart.take (h : node.Apart ps) {engine : StrategyEngine σ} {k : ℕ} {fresh : TraceId}
    {utc : DateTime} (hstep : node.take engine k fresh utc = some node') : node'.Apart ps := by
  unfold LiveNode.take at hstep
  obtain ⟨task, -, hstep⟩ := Option.bind_eq_some_iff.1 hstep
  split_ifs at hstep
  obtain ⟨⟨payload, u⟩, hreceive, hstep⟩ := Option.bind_eq_some_iff.1 hstep
  have hu := h.receive hreceive
  obtain ⟨state, tasks, heq⟩ := handleMessage_eq engine u k task payload fresh utc
  cases hstep
  rw [heq]
  exact ⟨hu.bus, hu.pairs, hu.startup, hu.backtest⟩

/-- What a step of the node may be. -/
def Unobtrusive (ps : List PairId) : NodeAction → Prop
  | .startBacktest config store => Unheard ps (config.replay store)
  | _ => True

/-- **Every step keeps the backtest apart**, if no backtest is started that is heard. -/
theorem Apart.next [Reqwest] {engine : StrategyEngine σ} (h : node.Apart ps) {a : NodeAction}
    (ha : Unobtrusive ps a) (hstep : (liveNode engine).step node a = some node') :
    node'.Apart ps := by
  cases a with
  | bus a => exact h.busStep hstep
  | take k fresh utc => exact h.take hstep
  | pause paused =>
    cases hstep
    exact ⟨h.bus, h.pairs, h.startup, h.backtest⟩
  | execute now exchange =>
    simp only [liveNode] at hstep
    split_ifs at hstep
    obtain ⟨⟨payload, u⟩, hreceive, rfl⟩ := Option.map_eq_some_iff.1 hstep
    have hu := h.receive hreceive
    exact ⟨hu.bus, hu.pairs, hu.startup, hu.backtest⟩
  | configure =>
    simp only [liveNode] at hstep
    split_ifs at hstep
    obtain ⟨⟨payload, u⟩, hreceive, rfl⟩ := Option.map_eq_some_iff.1 hstep
    have hu := h.receive hreceive
    exact ⟨hu.bus, hu.pairs, hu.startup, hu.backtest⟩
  | block value =>
    cases hstep
    exact ⟨h.bus, h.pairs, h.startup, h.backtest⟩
  | startBacktest config store =>
    simp only [liveNode, LiveNode.startBacktest] at hstep
    split at hstep
    · cases hstep
    · cases hstep
      refine ⟨h.bus, h.pairs, h.startup, fun task htask => ?_⟩
      obtain ⟨snaps, hload, rfl⟩ := Option.map_eq_some_iff.1 htask
      have hreplay : config.replay store = snaps := by rw [BacktestConfig.replay, hload]; rfl
      exact hreplay ▸ ha
  | endBacktest =>
    simp only [liveNode, LiveNode.endBacktest] at hstep
    split at hstep
    · cases hstep
      exact ⟨h.bus, h.pairs, h.startup, fun task htask => by cases htask⟩
    · cases hstep

/-! ### What is seen without the backtests -/

theorem Apart.queue_live (h : node.Apart ps) {c : NodeChannel} (hlive : c.isLive = true)
    (hother : ¬ c.IsOther) : node.live.bus.queue c = node.bus.queue c := by
  refine (Broker.queue_hide (b := node.bus) hlive).trans ?_
  cases hqueue : node.bus.queue c with
  | none => rfl
  | some queue =>
    refine congrArg some (List.filter_eq_self.2 fun m hm => ?_)
    have hsender := h.bus.queues c queue hqueue hother m hm
    cases hm' : m.1 with
    | backtest => exact absurd hm' hsender
    | _ => rfl

/-- A live task takes the messages it would take without the backtests. -/
theorem Apart.receive_live (h : node.Apart ps) {c : NodeChannel} (hlive : c.isLive = true)
    (hother : ¬ c.IsOther) :
    node.live.receive c = (node.receive c).map fun r => (r.1, r.2.live) := by
  unfold LiveNode.receive
  rw [h.queue_live hlive hother]
  cases hqueue : node.bus.queue c with
  | none => rfl
  | some queue =>
    cases queue with
    | nil => rfl
    | cons m queue =>
      have hrecv : node.bus.recv c = some (node.bus.setQueue c (some queue)) := by
        rw [Broker.recv, hqueue]
      have hm : m.1.isLive = true := by
        have hsender := h.bus.queues c _ hqueue hother m List.mem_cons_self
        cases hm' : m.1 with
        | backtest => exact absurd hm' hsender
        | _ => rfl
      have hview : node.live.bus.recv c = some ((node.bus.setQueue c (some queue)).hide
          NodeParty.isLive NodeChannel.isLive) := Broker.hide_recv hlive hqueue hm hrecv
      simp only [Option.bind_eq_bind, Option.bind_some, List.head?_cons, hrecv, hview,
        Option.pure_def, Option.map_some]
      rfl

theorem wants_live {task : NodeParty} (h : task.isLive = true) :
    node.live.wants task = node.wants task := by
  cases task with
  | backtest => cases h
  | _ => rfl

theorem allows_live {a : Broker.Action NodeParty NodeChannel String BusPayload}
    (ha : a.visible NodeParty.isLive NodeChannel.isLive = true) :
    node.live.allows a = node.allows a := by
  cases a with
  | ask q =>
    have hwants : node.live.wants q.task = node.wants q.task := wants_live ha
    exact congrArg (fun want => isOthers q || decide (want = some q)) hwants
  | abort task => cases task <;> rfl
  | recv c => cases c <;> rfl
  | close c => cases c <;> rfl
  | _ => rfl

omit [CaseTable] in
theorem done_live {task : NodeParty} (h : task.isLive = true) :
    (node.done task).live = node.live.done task := by
  cases task with
  | backtest => cases h
  | exec =>
    obtain ⟨bus, engine, paused, pairs, tasks, exec, startup, outbox, handled, submitted, backtest,
      backtests⟩ := node
    cases startup <;> rfl
  | _ => rfl

omit [CaseTable] in
theorem done_hidden {task : NodeParty} (h : task.isLive = false) :
    (node.done task).live = node.live := by
  cases task with
  | backtest => rfl
  | _ => cases h

omit [CaseTable] in
/-- The node but for its bus. -/
theorem live_bus (bus : NodeBus) : ({ node with bus := bus } : LiveNode σ).live =
    { node.live with bus := bus.hide NodeParty.isLive NodeChannel.isLive } := rfl

omit [CaseTable] in
theorem after_hidden {a : Broker.Action NodeParty NodeChannel String BusPayload}
    (ha : a.visible NodeParty.isLive NodeChannel.isLive = false) :
    (node.after a).live = node.live := by
  unfold LiveNode.after
  split
  · split
    · exact done_hidden ha
    · rfl
  · exact done_hidden ha
  · rfl

omit [CaseTable] in
theorem after_live {bus : NodeBus} {a : Broker.Action NodeParty NodeChannel String BusPayload}
    (ha : a.visible NodeParty.isLive NodeChannel.isLive = true)
    (hstep : node.bus.step channelCapacity a = some bus) :
    (node.after a).live = node.live.after a := by
  cases a with
  | grant task =>
    have htask : task.isLive = true := ha
    unfold LiveNode.after
    dsimp only
    obtain ⟨subject, msg, waiting, hwaiting, -⟩ | ⟨c, subject, waiting, hwaiting, -, -, -⟩ :=
      Broker.grant_spec hstep
    · have hview : node.live.bus.waiting =
          .publish task subject msg :: waiting.filter fun q => q.task.isLive := by
        simp [LiveNode.live, Broker.hide, hwaiting, Broker.Request.task, htask]
      rw [hwaiting, hview]
    · have hview : node.live.bus.waiting =
          .subscribe task c subject :: waiting.filter fun q => q.task.isLive := by
        simp [LiveNode.live, Broker.hide, hwaiting, Broker.Request.task, htask]
      rw [hwaiting, hview]
      exact done_live htask
  | finish task => exact done_live ha
  | _ => rfl

/-- **What is seen of a step on the bus is a step on the bus.** -/
theorem busStep_live (h : node.Apart ps)
    {a : Broker.Action NodeParty NodeChannel String BusPayload}
    (hshows : node.bus.Shows NodeParty.isLive NodeChannel.isLive a)
    (hstep : node.busStep a = some node') : node.live.busStep a = some node'.live := by
  unfold LiveNode.busStep at hstep ⊢
  split_ifs at hstep with hallows
  obtain ⟨bus, hbus, rfl⟩ := Option.map_eq_some_iff.1 hstep
  have hview : node.live.bus.step channelCapacity a =
      some (bus.hide NodeParty.isLive NodeChannel.isLive) :=
    Broker.hide_step h.bus.fits hshows hbus
  rw [allows_live hshows.1, if_pos hallows, hview, Option.map_some, ← after_live hshows.1 hbus]
  rfl

/-- **What is not seen of it changes nothing.** -/
theorem busStep_hidden (h : node.Apart ps)
    {a : Broker.Action NodeParty NodeChannel String BusPayload}
    (hshows : ¬ node.bus.Shows NodeParty.isLive NodeChannel.isLive a)
    (hstep : node.busStep a = some node') : node'.live = node.live := by
  unfold LiveNode.busStep at hstep
  split_ifs at hstep with hallows
  obtain ⟨bus, hbus, rfl⟩ := Option.map_eq_some_iff.1 hstep
  have hview := Broker.hide_eq_of_not_shows h.bus.wf h.bus.fits hshows hbus
  have hafter : (node.after a).live = node.live := by
    cases hvisible : a.visible NodeParty.isLive NodeChannel.isLive with
    | false => exact after_hidden hvisible
    | true =>
      cases a with
      | send task => rfl
      | recv c => rfl
      | _ => exact absurd ⟨hvisible, trivial⟩ hshows
  rw [live_bus, hafter, hview]
  rfl

/-- A live task does away from the bus what it would do without the backtests. -/
theorem step_live [Reqwest] {engine : StrategyEngine σ} (h : node.Apart ps) {a : NodeAction}
    (ha : a.isLive = true) (hbus : ∀ b, a ≠ .bus b) :
    (liveNode engine).step node.live a = ((liveNode engine).step node a).map LiveNode.live := by
  cases a with
  | bus b => exact absurd rfl (hbus b)
  | take k fresh utc =>
    simp only [liveNode, LiveNode.take]
    rw [h.receive_live (c := .market k) rfl fun ⟨n, hn⟩ => by cases hn]
    change (node.tasks[k]?.bind _) = _
    cases node.tasks[k]? with
    | none => rfl
    | some task =>
      simp only [Option.bind_eq_bind, Option.bind_some]
      split_ifs
      · cases node.receive (.market k) with
        | none => rfl
        | some r =>
          obtain ⟨payload, u⟩ := r
          simp only [Option.map_some, Option.bind_some, Option.pure_def, Option.some.injEq]
          cases payload <;> rfl
      · rfl
  | pause paused => rfl
  | execute now exchange =>
    simp only [liveNode]
    rw [h.receive_live (c := .commands) rfl fun ⟨n, hn⟩ => by cases hn]
    change (if node.Idle then _ else none) = _
    split_ifs
    · cases node.receive .commands <;> rfl
    · rfl
  | configure =>
    simp only [liveNode]
    rw [h.receive_live (c := .config) rfl fun ⟨n, hn⟩ => by cases hn]
    change (if node.Idle then _ else none) = _
    split_ifs
    · cases node.receive .config <;> rfl
    · rfl
  | block value => rfl
  | startBacktest config store => cases ha
  | endBacktest => cases ha

/-- **What is seen of a step without the backtests is a step of a live task.** -/
theorem live_step [Reqwest] {engine : StrategyEngine σ} (h : node.Apart ps) {a : NodeAction}
    (hstep : (liveNode engine).step node a = some node') :
    node'.live = node.live ∨
      (a.isLive = true ∧ (liveNode engine).step node.live a = some node'.live) := by
  cases hlive : a.isLive with
  | true =>
    by_cases hbus : ∃ b, a = .bus b
    · obtain ⟨b, rfl⟩ := hbus
      by_cases hshows : node.bus.Shows NodeParty.isLive NodeChannel.isLive b
      · exact Or.inr ⟨rfl, busStep_live h hshows hstep⟩
      · exact Or.inl (busStep_hidden h hshows hstep)
    · have hview : (liveNode engine).step node.live a =
          ((liveNode engine).step node a).map LiveNode.live :=
        step_live h hlive (not_exists.1 hbus)
      rw [hstep, Option.map_some] at hview
      exact Or.inr ⟨rfl, hview⟩
  | false =>
    refine Or.inl ?_
    cases a with
    | bus b => exact busStep_hidden h (fun hshows => by cases hlive.symm.trans hshows.1) hstep
    | startBacktest config store =>
      simp only [liveNode, LiveNode.startBacktest] at hstep
      split at hstep
      · cases hstep
      · cases hstep
        rfl
    | endBacktest =>
      simp only [liveNode, LiveNode.endBacktest] at hstep
      split at hstep
      · cases hstep
        rfl
      · cases hstep
    | _ => cases hlive

end LiveNode

end Isolation

end W2uos
