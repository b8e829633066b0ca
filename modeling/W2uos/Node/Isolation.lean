import W2uos.Node.Apart

/-!
# Backtests and live trading

A backtest publishes stored snapshots on the subjects of live markets.  A task of the strategy host
cannot tell them from live ones, and the orders it plans on them go to the execution service.  And
it uses the lock and the channels of the live bus: while it waits for the lock to subscribe nobody
behind it gets the lock, and where it fills a channel others wait too.

So a backtest stays apart from live trading if it replays nothing on a subject the host subscribes
to, asks for its subscription while the lock is free, and leaves room in the channels it publishes
to.

* `Isolated` : the node trades as it would without its backtests, and its tasks are not held up.
* `isolated_run` : when it is so.
* `not_isolated` : a backtest that makes the host trade.
-/

namespace W2uos

section Isolation

variable [CaseTable] {σ : Type} {ps : List PairId}

/-- A step of a backtest that does not disturb: a backtest is started that is not heard, and asks
for its subscription while nobody has the lock or waits for it. -/
def Quiet (ps : List PairId) (node : LiveNode σ) : NodeAction → Prop
  | .startBacktest config store => Unheard ps (config.replay store)
  | .bus (.ask (.subscribe .backtest _ _)) => node.bus.calls = [] ∧ node.bus.waiting = []
  | _ => True

instance (ps : List PairId) (snaps : List MarketSnapshot) : Decidable (Unheard ps snaps) :=
  inferInstanceAs (Decidable (∀ pair ∈ ps, ∀ snap ∈ snaps, _ ≠ _))

instance (ps : List PairId) (node : LiveNode σ) (a : NodeAction) : Decidable (Quiet ps node a) := by
  unfold Quiet
  split <;> infer_instance

/-- No channel is full that holds something of a backtest, or is about to get it. -/
structure Roomy (b : NodeBus) : Prop where
  held : ∀ c queue, b.queue c = some queue → (∃ m ∈ queue, m.1 = .backtest) →
    queue.length < channelCapacity
  called : ∀ call ∈ b.calls, call.task = .backtest → ∀ c ∈ call.remaining,
    ∀ queue, b.queue c = some queue → queue.length < channelCapacity
  asked : ∀ subject msg, .publish .backtest subject msg ∈ b.waiting → ∀ c ∈ b.subscribers subject,
    ∀ queue, b.queue c = some queue → queue.length < channelCapacity

/-- A turn on the bus: what has been asked for goes on, and messages are taken. -/
def NodeAction.isTurn : NodeAction → Bool
  | bus (.grant _) => true
  | bus (.send _) => true
  | bus (.finish _) => true
  | bus (.recv _) => true
  | _ => false

/-- What a node has traded: the commands it has handled, its ledger and the orders submitted. -/
def LiveNode.trading (node : LiveNode σ) :
    List OrderCommand × (ℚ × Amounts String ℚ) × List OkxOrderRequest :=
  (node.handled, node.exec.positions, node.submitted)

/-- The node trades as it would without its backtests. -/
structure Isolated [Reqwest] (engine : StrategyEngine σ) (start : LiveNode σ) (as : List NodeAction)
    (node : LiveNode σ) : Prop where
  /-- The steps of the live tasks lead to the same node without the backtests. -/
  same : ∃ bs : List NodeAction, bs.Sublist as ∧ (∀ b ∈ bs, b.isLive = true) ∧
    (liveNode engine).exec start bs = some node.live ∧ node.live.trading = node.trading
  /-- No live task is held up: what it could do without the backtests, it can do after some turns on
  the bus that are not seen there. -/
  free : ∀ a next, a.isLive = true → (liveNode engine).step node.live a = some next →
    ∃ us u v, (∀ b ∈ us, b.isTurn = true) ∧ (liveNode engine).exec node us = some u ∧
      u.live = node.live ∧ (liveNode engine).step u a = some v ∧ v.live = next

/-! ### The lock and the subscription of a backtest -/

/-- A backtest that waits for its subscription is the first that waits, and nobody has the lock. -/
structure LiveNode.Orderly (node : LiveNode σ) : Prop where
  wants : ∀ q ∈ node.bus.waiting, q.task = .backtest → node.wants .backtest = some q
  first : ∀ c subject, .subscribe .backtest c subject ∈ node.bus.waiting →
    node.bus.waiting.head? = some (.subscribe .backtest c subject) ∧ node.bus.calls = []
  fresh : ∀ task, node.backtest = some task → task.subscribed = false →
    NodeChannel.metrics task.number ∉ node.bus.opened.map Prod.fst
  number : ∀ task, node.backtest = some task → task.number < node.backtests
  opened : ∀ n, NodeChannel.metrics n ∈ node.bus.opened.map Prod.fst → n < node.backtests

namespace LiveNode

variable {node node' : LiveNode σ}

theorem Orderly.start (cfg : NodeConfig) (init : σ) (exec : ExecutionService) (event : LogEvent) :
    (LiveNode.start cfg init exec event).Orderly where
  wants q hq := by cases hq
  first c subject h := by cases h
  fresh task h := by cases h
  number task h := by cases h
  opened n h := by cases h

theorem Orderly.of_same (h : node.Orderly) (hbacktest : node'.backtest = node.backtest)
    (hbacktests : node'.backtests = node.backtests) (hopened : node'.bus.opened = node.bus.opened)
    (hwaiting : node'.bus.waiting = node.bus.waiting)
    (hcalls : node.bus.calls = [] → node'.bus.calls = []) : node'.Orderly where
  wants q hq htask := by
    have hwants := h.wants q (hwaiting ▸ hq) htask
    rwa [LiveNode.wants, ← hbacktest] at hwants
  first c subject hmem := by
    rw [hwaiting] at hmem ⊢
    exact (h.first c subject hmem).imp_right hcalls
  fresh task htask := by
    rw [hopened]
    exact h.fresh task (hbacktest ▸ htask)
  number task htask := by
    rw [hbacktests]
    exact h.number task (hbacktest ▸ htask)
  opened n hn := by
    rw [hbacktests]
    exact h.opened n (hopened ▸ hn)

theorem receive_orderly (h : node.Orderly) {c : NodeChannel} {payload : BusPayload}
    (hreceive : node.receive c = some (payload, node')) : node'.Orderly := by
  obtain ⟨sender, queue, bus, -, hbus, rfl⟩ := receive_spec hreceive
  obtain ⟨m, queue', -, rfl⟩ := Broker.recv_spec hbus
  exact h.of_same rfl rfl rfl rfl id

omit [CaseTable] in
theorem backtest_done {task : NodeParty} (h : task ≠ .backtest) :
    (node.done task).backtest = node.backtest := by
  cases task with
  | backtest => exact absurd rfl h
  | exec =>
    unfold LiveNode.done
    dsimp only
    split <;> rfl
  | _ => rfl

omit [CaseTable] in
theorem backtests_done (task : NodeParty) : (node.done task).backtests = node.backtests := by
  cases task with
  | exec =>
    unfold LiveNode.done
    dsimp only
    split <;> rfl
  | _ => rfl

omit [CaseTable] in
/-- A backtest that has done something is subscribed, and is the one it was. -/
theorem done_spec {task : RunningBacktest} (h : (node.done .backtest).backtest = some task) :
    task.subscribed = true ∧ ∃ old, node.backtest = some old ∧ task.number = old.number := by
  obtain ⟨old, hold, rfl⟩ := Option.map_eq_some_iff.1 h
  unfold RunningBacktest.done
  split_ifs with hsub
  · exact ⟨hsub, old, hold, rfl⟩
  · exact ⟨rfl, old, hold, rfl⟩

/-- A backtest asks for the subscription of its own metrics. -/
theorem subscribes_of_wants {c : NodeChannel} {subject : String}
    (h : node.wants .backtest = some (.subscribe .backtest c subject)) :
    ∃ task, node.backtest = some task ∧ task.subscribed = false ∧ c = .metrics task.number := by
  obtain ⟨task, htask, hwants⟩ := Option.bind_eq_some_iff.1 h
  unfold RunningBacktest.wants at hwants
  split_ifs at hwants with hsub
  · obtain ⟨snap, -, hsnap⟩ := Option.map_eq_some_iff.1 hwants
    cases hsnap
  · cases hwants
    exact ⟨task, htask, Bool.eq_false_iff.2 hsub, rfl⟩

/-- The bus with a new channel, and the others still waiting. -/
def opening (node : LiveNode σ) (c : NodeChannel) (subject : String)
    (waiting : List NodeRequest) : NodeBus :=
  { node.bus with
    opened := node.bus.opened ++ [(c, subject)]
    queue := Function.update node.bus.queue c (some [])
    waiting := waiting }

omit [CaseTable] in
theorem mem_opened_opening {c c' : NodeChannel} {subject : String} {waiting : List NodeRequest}
    (h : c' ∈ (node.opening c subject waiting).opened.map Prod.fst) :
    c' ∈ node.bus.opened.map Prod.fst ∨ c' = c := by
  change c' ∈ (node.bus.opened ++ [(c, subject)]).map Prod.fst at h
  rw [List.map_append, List.mem_append] at h
  exact h.imp_right List.mem_singleton.1

/-- The backtest gets its channel: nobody else waits for it, and the channel is the one it
wanted. -/
theorem Orderly.opens (h : node.Orderly) (hnode : node.Apart ps) {c : NodeChannel}
    {subject : String} {waiting : List NodeRequest}
    (hwaiting : node.bus.waiting = .subscribe .backtest c subject :: waiting) :
    ({ node.done .backtest with bus := node.opening c subject waiting } : LiveNode σ).Orderly := by
  have hother : ∀ q ∈ waiting, q.task ≠ .backtest := hnode.bus.wf.not_waiting hwaiting
  obtain ⟨task, htask, -, rfl⟩ :=
    subscribes_of_wants (h.wants _ (hwaiting ▸ List.mem_cons_self) rfl)
  refine ⟨fun q hq heq => absurd heq (hother q hq), fun c' subject' hmem => ?_,
    fun running hrunning hsub => ?_, fun running hrunning => ?_, fun n hn => ?_⟩
  · exact absurd rfl (hother _ hmem)
  · obtain ⟨hsub', -⟩ := done_spec hrunning
    rw [hsub'] at hsub
    cases hsub
  · obtain ⟨-, old, hold, hsame⟩ := done_spec hrunning
    exact hsame ▸ h.number old hold
  · change n < node.backtests
    rcases mem_opened_opening hn with hn | hn
    · exact h.opened n hn
    · cases hn
      exact h.number task htask

/-- A live task gets its channel, which is not one of a backtest. -/
theorem Orderly.opens_live (h : node.Orderly) (hnode : node.Apart ps) {task : NodeParty}
    (htask : task ≠ .backtest) {c : NodeChannel} {subject : String} {waiting : List NodeRequest}
    (hwaiting : node.bus.waiting = .subscribe task c subject :: waiting) :
    ({ node.done task with bus := node.opening c subject waiting } : LiveNode σ).Orderly := by
  have hlawful : task.isLive = c.isLive :=
    (hnode.bus.lawful (.subscribe task c subject) (hwaiting ▸ List.mem_cons_self)).1
  have hopened : ∀ n, NodeChannel.metrics n ∈
      (node.opening c subject waiting).opened.map Prod.fst →
        NodeChannel.metrics n ∈ node.bus.opened.map Prod.fst := by
    intro n hn
    refine (mem_opened_opening hn).resolve_right ?_
    rintro rfl
    cases task with
    | backtest => exact htask rfl
    | _ => cases hlawful
  refine ⟨fun q hq heq => ?_, fun c' subject' hmem => ?_, fun running hrunning hsub => ?_,
    fun running hrunning => ?_, fun n hn => ?_⟩
  · have hwants := h.wants q (hwaiting ▸ List.mem_cons_of_mem _ hq) heq
    rwa [LiveNode.wants, ← backtest_done htask] at hwants
  · obtain ⟨hhead, -⟩ := h.first c' subject' (hwaiting ▸ List.mem_cons_of_mem _ hmem)
    rw [hwaiting, List.head?_cons, Option.some.injEq] at hhead
    cases hhead
    exact absurd rfl htask
  · have hold := h.fresh running (backtest_done htask ▸ hrunning) hsub
    exact fun hmem => hold (hopened _ hmem)
  · change running.number < (node.done task).backtests
    rw [backtests_done]
    exact h.number running (backtest_done htask ▸ hrunning)
  · change n < (node.done task).backtests
    rw [backtests_done]
    exact h.opened n (hopened n hn)

theorem Orderly.grant (h : node.Orderly) (hnode : node.Apart ps) {task : NodeParty} {bus : NodeBus}
    (hbus : node.bus.grant task = some bus) :
    ({ node.after (.grant task) with bus := bus } : LiveNode σ).Orderly := by
  obtain ⟨subject, msg, waiting, hwaiting, rfl⟩ | ⟨c, subject, waiting, hwaiting, hcalls, -, rfl⟩ :=
    Broker.grant_spec hbus
  · have hafter : node.after (.grant task) = node := by
      unfold LiveNode.after
      rw [hwaiting]
    rw [hafter]
    refine ⟨fun q hq => h.wants q (hwaiting ▸ List.mem_cons_of_mem _ hq), fun c subject' hmem => ?_,
      h.fresh, h.number, h.opened⟩
    obtain ⟨hhead, -⟩ := h.first c subject' (hwaiting ▸ List.mem_cons_of_mem _ hmem)
    rw [hwaiting] at hhead
    cases hhead
  · have hafter : node.after (.grant task) = node.done task := by
      unfold LiveNode.after
      rw [hwaiting]
    rw [hafter]
    by_cases htask : task = .backtest
    · subst htask
      exact h.opens hnode hwaiting
    · exact h.opens_live hnode htask hwaiting

theorem Orderly.finish (h : node.Orderly) (hnode : node.Apart ps) {task : NodeParty} {bus : NodeBus}
    (hbus : node.bus.finish task = some bus) :
    ({ node.after (.finish task) with bus := bus } : LiveNode σ).Orderly := by
  obtain ⟨⟨subject, msg, hcall⟩, rfl⟩ := Broker.finish_spec hbus
  change ({ node.done task with bus := _ } : LiveNode σ).Orderly
  by_cases htask : task = .backtest
  · subst htask
    have hother : ∀ q ∈ node.bus.waiting, q.task ≠ .backtest := fun q hq heq =>
      hnode.bus.wf.not_called hq (heq ▸ List.mem_map.2 ⟨_, List.mem_of_find?_eq_some hcall, rfl⟩)
    refine ⟨fun q hq heq => absurd heq (hother q hq), fun c subject hmem => ?_,
      fun running hrunning hsub => ?_, fun running hrunning => ?_, h.opened⟩
    · exact absurd rfl (hother _ hmem)
    · obtain ⟨hsub', -⟩ := done_spec hrunning
      rw [hsub'] at hsub
      cases hsub
    · obtain ⟨-, old, hold, hsame⟩ := done_spec hrunning
      exact hsame ▸ h.number old hold
  · refine h.of_same (backtest_done htask) (backtests_done task) rfl rfl fun hnil => ?_
    change node.bus.calls.filter _ = []
    rw [hnil]
    rfl

omit [CaseTable] in
theorem task_of_isOthers {q : NodeRequest} (h : isOthers q = true) : ∃ n, q.task = .other n := by
  cases q with
  | publish task subject msg =>
    cases task with
    | other n => exact ⟨n, rfl⟩
    | _ => cases h
  | subscribe task c subject =>
    cases task with
    | other n => exact ⟨n, rfl⟩
    | _ => cases h

theorem Orderly.busStep (h : node.Orderly) (hnode : node.Apart ps)
    {a : Broker.Action NodeParty NodeChannel String BusPayload} (hquiet : Quiet ps node (.bus a))
    (hstep : node.busStep a = some node') : node'.Orderly := by
  unfold LiveNode.busStep at hstep
  split_ifs at hstep with hallows
  obtain ⟨bus, hbus, rfl⟩ := Option.map_eq_some_iff.1 hstep
  cases a with
  | ask q =>
    obtain ⟨-, rfl⟩ := Broker.ask_spec hbus
    refine ⟨fun q' hq' heq => ?_, fun c subject hmem => ?_, h.fresh, h.number, h.opened⟩
    · rcases List.mem_append.1 hq' with hq' | hq'
      · exact h.wants q' hq' heq
      · obtain rfl := List.mem_singleton.1 hq'
        rcases Bool.or_eq_true_iff.1 hallows with hother | hwants
        · obtain ⟨n, hn⟩ := task_of_isOthers hother
          rw [hn] at heq
          cases heq
        · exact heq ▸ of_decide_eq_true hwants
    · change (node.bus.waiting ++ [q]).head? = _ ∧ node.bus.calls = []
      rcases List.mem_append.1 hmem with hmem | hmem
      · obtain ⟨hhead, hcalls⟩ := h.first c subject hmem
        exact ⟨by rw [List.head?_append, hhead]; rfl, hcalls⟩
      · obtain rfl := List.mem_singleton.1 hmem
        exact ⟨by rw [hquiet.2]; rfl, hquiet.1⟩
  | grant task => exact h.grant hnode hbus
  | send task =>
    obtain ⟨subject, msg, c, remaining, -, hsent⟩ := Broker.send_spec hbus
    have hnil : node.bus.calls = [] → (node.bus.setCall task remaining).calls = [] := by
      intro hnil
      rw [Broker.setCall, hnil]
      rfl
    obtain ⟨-, rfl⟩ | ⟨queue, -, -, rfl⟩ := hsent
    · exact h.of_same rfl rfl rfl rfl hnil
    · exact h.of_same rfl rfl rfl rfl hnil
  | finish task => exact h.finish hnode hbus
  | abort task =>
    obtain ⟨-, rfl⟩ := Broker.abort_spec hbus
    have htask : task ≠ .backtest := by
      rintro rfl
      cases hallows
    refine ⟨fun q hq => h.wants q (List.mem_filter.1 hq).1, fun c subject hmem => ?_, h.fresh,
      h.number, h.opened⟩
    obtain ⟨hhead, hcalls⟩ := h.first c subject (List.mem_filter.1 hmem).1
    obtain ⟨rest, hrest⟩ := List.head?_eq_some_iff.1 hhead
    refine ⟨?_, ?_⟩
    · change (node.bus.waiting.filter _).head? = _
      have hkeep : (Broker.Request.subscribe NodeParty.backtest c subject :
          NodeRequest).task ≠ task := Ne.symm htask
      rw [hrest, List.filter_cons, if_pos (decide_eq_true hkeep)]
      rfl
    · change node.bus.calls.filter _ = []
      rw [hcalls]
      rfl
  | recv c =>
    obtain ⟨m, queue, -, rfl⟩ := Broker.recv_spec hbus
    exact h.of_same rfl rfl rfl rfl id
  | close c =>
    obtain ⟨-, rfl⟩ := Broker.close_spec hbus
    exact h.of_same rfl rfl rfl rfl id

theorem Orderly.none_waits (h : node.Orderly) (hnone : node.wants .backtest = none) :
    ∀ q ∈ node.bus.waiting, q.task ≠ .backtest := by
  intro q hq heq
  have hwants := h.wants q hq heq
  rw [hnone] at hwants
  cases hwants

/-- **Every quiet step keeps the order.** -/
theorem Orderly.next [Reqwest] {engine : StrategyEngine σ} (h : node.Orderly)
    (hnode : node.Apart ps) {a : NodeAction} (ha : Quiet ps node a)
    (hstep : (liveNode engine).step node a = some node') : node'.Orderly := by
  cases a with
  | bus a => exact h.busStep hnode ha hstep
  | take k fresh utc =>
    simp only [liveNode, LiveNode.take] at hstep
    obtain ⟨task, -, hstep⟩ := Option.bind_eq_some_iff.1 hstep
    split_ifs at hstep
    obtain ⟨⟨payload, u⟩, hreceive, hstep⟩ := Option.bind_eq_some_iff.1 hstep
    obtain ⟨state, tasks, heq⟩ := handleMessage_eq engine u k task payload fresh utc
    cases hstep
    rw [heq]
    exact (receive_orderly h hreceive).of_same rfl rfl rfl rfl id
  | pause paused =>
    cases hstep
    exact h.of_same rfl rfl rfl rfl id
  | execute now exchange =>
    simp only [liveNode] at hstep
    split_ifs at hstep
    obtain ⟨⟨payload, u⟩, hreceive, rfl⟩ := Option.map_eq_some_iff.1 hstep
    exact (receive_orderly h hreceive).of_same rfl rfl rfl rfl id
  | configure =>
    simp only [liveNode] at hstep
    split_ifs at hstep
    obtain ⟨⟨payload, u⟩, hreceive, rfl⟩ := Option.map_eq_some_iff.1 hstep
    exact (receive_orderly h hreceive).of_same rfl rfl rfl rfl id
  | block value =>
    cases hstep
    exact h.of_same rfl rfl rfl rfl id
  | startBacktest config store =>
    simp only [liveNode, LiveNode.startBacktest] at hstep
    split at hstep
    · cases hstep
    · rename_i hnone
      have hwaits := h.none_waits (by rw [LiveNode.wants, hnone]; rfl)
      cases hstep
      refine ⟨fun q hq heq => absurd heq (hwaits q hq), fun c subject hmem => ?_,
        fun task htask _ hmem => ?_, fun task htask => ?_, fun n hn => ?_⟩
      · exact absurd rfl (hwaits _ hmem)
      · obtain ⟨snaps, -, rfl⟩ := Option.map_eq_some_iff.1 htask
        exact absurd (h.opened _ hmem) (Nat.lt_irrefl _)
      · obtain ⟨snaps, -, rfl⟩ := Option.map_eq_some_iff.1 htask
        exact Nat.lt_succ_self _
      · exact Nat.lt_succ_of_lt (h.opened n hn)
  | endBacktest =>
    simp only [liveNode, LiveNode.endBacktest] at hstep
    split at hstep
    · rename_i hdone
      have hwaits := h.none_waits (by rw [LiveNode.wants, hdone]; rfl)
      cases hstep
      exact ⟨fun q hq heq => absurd heq (hwaits q hq),
        fun c subject hmem => absurd rfl (hwaits _ hmem), fun task htask => (by cases htask),
        fun task htask => (by cases htask), h.opened⟩
    · cases hstep

/-! ### Turns that are not seen -/

section Turns

variable [Reqwest] {engine : StrategyEngine σ}

/-- Some turns on the bus that are not seen without the backtests. -/
def Unseen (engine : StrategyEngine σ) (node node' : LiveNode σ) : Prop :=
  ∃ us : List NodeAction, (∀ b ∈ us, b.isTurn = true) ∧
    (liveNode engine).exec node us = some node' ∧ node'.live = node.live

theorem Unseen.refl (node : LiveNode σ) : Unseen engine node node :=
  ⟨[], List.forall_mem_nil _, rfl, rfl⟩

theorem Unseen.trans {node₁ node₂ node₃ : LiveNode σ} (h₁ : Unseen engine node₁ node₂)
    (h₂ : Unseen engine node₂ node₃) : Unseen engine node₁ node₃ := by
  obtain ⟨us₁, hus₁, hexec₁, hlive₁⟩ := h₁
  obtain ⟨us₂, hus₂, hexec₂, hlive₂⟩ := h₂
  refine ⟨us₁ ++ us₂, fun b hb => ?_, Interleaving.exec_trans hexec₁ hexec₂, hlive₂.trans hlive₁⟩
  exact (List.mem_append.1 hb).elim (hus₁ b) (hus₂ b)

theorem Unseen.apart (hunseen : Unseen engine node node') (h : node.Apart ps) : node'.Apart ps := by
  obtain ⟨us, hus, hexec, -⟩ := hunseen
  have hall : (liveNode engine).Throughout node (fun _ a => a.isTurn = true) us :=
    Interleaving.throughout_of_forall fun a ha _ => hus a ha
  refine Interleaving.Throughout.invariant (Q := Apart ps) h (fun t a t' ht ha hstep => ?_) hall
    hexec
  refine ht.next ?_ hstep
  cases a with
  | startBacktest config store => cases ha
  | _ => trivial

theorem Unseen.turn (h : node.Apart ps) {a : Broker.Action NodeParty NodeChannel String BusPayload}
    (hturn : (NodeAction.bus a).isTurn = true) (hallows : node.allows a = true)
    (hshows : ¬ node.bus.Shows NodeParty.isLive NodeChannel.isLive a) {bus : NodeBus}
    (hbus : node.bus.step channelCapacity a = some bus) :
    Unseen engine node { node.after a with bus := bus } := by
  have hstep : node.busStep a = some { node.after a with bus := bus } := by
    rw [LiveNode.busStep, if_pos hallows, hbus]
    rfl
  refine ⟨[.bus a], List.forall_mem_singleton.2 hturn, ?_, busStep_hidden h hshows hstep⟩
  rw [Interleaving.exec_cons_of_step hstep, Interleaving.exec_nil]

variable (engine)

/-- The call of the backtest returns, if there is room in the channels it has still to send to. -/
theorem flush_backtest (h : node.Apart ps) {subject : String} {msg : BusPayload}
    {remaining : List NodeChannel}
    (hcall : node.bus.callOf .backtest = some ⟨.backtest, subject, msg, remaining⟩)
    (hroom : ∀ c ∈ remaining, ∀ queue, node.bus.queue c = some queue →
      queue.length < channelCapacity) :
    ∃ u, Unseen engine node u ∧ u.bus.waiting = node.bus.waiting ∧
      ∀ call ∈ u.bus.calls, call.task ≠ .backtest := by
  induction remaining generalizing node with
  | nil =>
    have hbus : node.bus.step channelCapacity (.finish .backtest) =
        some { node.bus with
          calls := node.bus.calls.filter fun call => call.task ≠ .backtest } := by
      rw [Broker.step, Broker.finish, hcall]
    refine ⟨_, Unseen.turn h rfl rfl (fun hshows => by cases hshows.1) hbus, rfl, ?_⟩
    intro call hmem
    exact of_decide_eq_true (List.mem_filter.1 hmem).2
  | cons c remaining ih =>
    have hnodup := h.bus.wf.remaining _ (List.mem_of_find?_eq_some hcall)
    have hfresh : c ∉ remaining := (List.nodup_cons.1 hnodup).1
    -- the send changes the channel `c` only
    obtain ⟨bus, hbus, hwaiting, hcall', hqueue⟩ : ∃ bus,
        node.bus.step channelCapacity (.send .backtest) = some bus ∧
          bus.waiting = node.bus.waiting ∧
          bus.callOf .backtest = some ⟨.backtest, subject, msg, remaining⟩ ∧
          ∀ c' ∈ remaining, bus.queue c' = node.bus.queue c' := by
      cases hc : node.bus.queue c with
      | none =>
        refine ⟨node.bus.setCall .backtest remaining, ?_, rfl, Broker.callOf_setCall hcall _,
          fun _ _ => rfl⟩
        rw [Broker.step, Broker.send, hcall]
        dsimp only
        rw [hc]
      | some queue =>
        refine ⟨(node.bus.setCall .backtest remaining).setQueue c
            (some (queue ++ [(.backtest, msg)])), ?_, rfl, Broker.callOf_setCall hcall _,
          fun c' hc' => ?_⟩
        · rw [Broker.step, Broker.send, hcall]
          dsimp only
          rw [hc]
          exact if_pos (hroom c List.mem_cons_self queue hc)
        · exact Broker.queue_setQueue_ne _ (fun heq : c' = c => hfresh (heq ▸ hc')) _
    have hturn : Unseen engine node { node with bus := bus } :=
      Unseen.turn h rfl rfl (fun hshows => by cases hshows.1) hbus
    obtain ⟨u, hu, hwaiting', hnone⟩ := ih (hturn.apart h) hcall'
      fun c' hc' queue hc => hroom c' (List.mem_cons_of_mem _ hc') queue (hqueue c' hc' ▸ hc)
    exact ⟨u, hturn.trans hu, hwaiting'.trans hwaiting, hnone⟩

theorem drain_metrics (h : node.Apart ps) (n : ℕ) :
    ∃ u, Unseen engine node u ∧ u.bus.calls = node.bus.calls ∧
      (∀ c, c.isLive = true → u.bus.queue c = node.bus.queue c) ∧
      ∀ queue, u.bus.queue (.metrics n) = some queue → queue = [] := by
  cases hqueue : node.bus.queue (.metrics n) with
  | none =>
    refine ⟨node, Unseen.refl node, rfl, fun _ _ => rfl, fun _ h => ?_⟩
    rw [hqueue] at h
    cases h
  | some queue =>
    induction queue generalizing node with
    | nil =>
      refine ⟨node, Unseen.refl node, rfl, fun _ _ => rfl, fun _ h => ?_⟩
      rw [hqueue] at h
      exact (Option.some.inj h).symm
    | cons m queue ih =>
      have hbus : node.bus.step channelCapacity (.recv (.metrics n)) =
          some (node.bus.setQueue (.metrics n) (some queue)) := by
        rw [Broker.step, Broker.recv, hqueue]
      have hturn : Unseen engine node
          { node with bus := node.bus.setQueue (.metrics n) (some queue) } :=
        Unseen.turn h rfl rfl (fun hshows => by cases hshows.1) hbus
      obtain ⟨u, hu, hcalls, hlive, hnil⟩ := ih (hturn.apart h)
        (Broker.queue_setQueue_self ..)
      refine ⟨u, hturn.trans hu, hcalls, fun c hc => (hlive c hc).trans ?_, hnil⟩
      exact Broker.queue_setQueue_ne _ (fun heq => by rw [heq] at hc; cases hc) _

theorem flush_live (h : node.Apart ps) {task : NodeParty} {subject : String} {msg : BusPayload}
    {remaining : List NodeChannel}
    (hcall : node.bus.callOf task = some ⟨task, subject, msg, remaining⟩) :
    ∃ u, Unseen engine node u ∧ (∀ c, c.isLive = true → u.bus.queue c = node.bus.queue c) ∧
      ∀ call, u.bus.callOf task = some call → ∀ c ∈ call.remaining.head?, c.isLive = true := by
  induction remaining generalizing node with
  | nil =>
    refine ⟨node, Unseen.refl node, fun _ _ => rfl, fun call hcall' c hc => ?_⟩
    rw [hcall] at hcall'
    cases hcall'
    cases hc
  | cons c remaining ih =>
    cases hlive : c.isLive with
    | true =>
      refine ⟨node, Unseen.refl node, fun _ _ => rfl, fun call hcall' c' hc' => ?_⟩
      rw [hcall] at hcall'
      cases hcall'
      cases hc'
      exact hlive
    | false =>
      obtain ⟨n, rfl⟩ : ∃ n, c = .metrics n := by
        cases c with
        | metrics n => exact ⟨n, rfl⟩
        | _ => cases hlive
      -- the metrics are recorded, and then there is room for this one
      obtain ⟨t, ht, hcalls, hsame, hnil⟩ := drain_metrics engine h n
      have hcall' : t.bus.callOf task = some ⟨task, subject, msg, .metrics n :: remaining⟩ := by
        rw [← hcall, Broker.callOf, Broker.callOf, hcalls]
      obtain ⟨bus, hbus, hcall'', hqueue⟩ : ∃ bus,
          t.bus.step channelCapacity (.send task) = some bus ∧
            bus.callOf task = some ⟨task, subject, msg, remaining⟩ ∧
            ∀ c, c.isLive = true → bus.queue c = t.bus.queue c := by
        cases hc : t.bus.queue (.metrics n) with
        | none =>
          refine ⟨t.bus.setCall task remaining, ?_, Broker.callOf_setCall hcall' _, fun _ _ => rfl⟩
          rw [Broker.step, Broker.send, hcall']
          dsimp only
          rw [hc]
        | some queue =>
          obtain rfl := hnil queue hc
          refine ⟨(t.bus.setCall task remaining).setQueue (.metrics n) (some ([] ++ [(task, msg)])),
            ?_, Broker.callOf_setCall hcall' _, fun c hlive => ?_⟩
          · rw [Broker.step, Broker.send, hcall']
            dsimp only
            rw [hc]
            rfl
          · exact Broker.queue_setQueue_ne _ (fun heq => by rw [heq] at hlive; cases hlive) _
      have hshows : ¬ t.bus.Shows NodeParty.isLive NodeChannel.isLive (.send task) := by
        intro hshows
        have hlive := hshows.2 _ hcall' (.metrics n) rfl
        cases hlive
      have hturn : Unseen engine t { t with bus := bus } :=
        Unseen.turn (ht.apart h) rfl rfl hshows hbus
      obtain ⟨u, hu, hsame', hclear⟩ := ih ((ht.trans hturn).apart h) hcall''
      refine ⟨u, (ht.trans hturn).trans hu, fun c hc => ?_, hclear⟩
      exact (hsame' c hc).trans ((hqueue c hc).trans (hsame c hc))

theorem flush_other (h : node.Apart ps) (n : ℕ) :
    ∃ u, Unseen engine node u ∧
      ∀ queue, u.bus.queue (.other n) = some queue → ∀ m ∈ queue.head?, m.1.isLive = true := by
  cases hqueue : node.bus.queue (.other n) with
  | none => exact ⟨node, Unseen.refl node, fun _ h => by rw [hqueue] at h; cases h⟩
  | some queue =>
    induction queue generalizing node with
    | nil =>
      refine ⟨node, Unseen.refl node, fun _ h m hm => ?_⟩
      rw [hqueue] at h
      cases h
      cases hm
    | cons m queue ih =>
      cases hm : m.1.isLive with
      | true =>
        refine ⟨node, Unseen.refl node, fun _ h m' hm' => ?_⟩
        rw [hqueue] at h
        cases h
        cases hm'
        exact hm
      | false =>
        have hbus : node.bus.step channelCapacity (.recv (.other n)) =
            some (node.bus.setQueue (.other n) (some queue)) := by
          rw [Broker.step, Broker.recv, hqueue]
        have hshows : ¬ node.bus.Shows NodeParty.isLive NodeChannel.isLive (.recv (.other n)) := by
          intro hshows
          have hlive := hshows.2 _ hqueue m rfl
          rw [hm] at hlive
          cases hlive
        have hturn : Unseen engine node
            { node with bus := node.bus.setQueue (.other n) (some queue) } :=
          Unseen.turn h rfl rfl hshows hbus
        obtain ⟨u, hu, hclear⟩ := ih (hturn.apart h)
          (Broker.queue_setQueue_self ..)
        exact ⟨u, hturn.trans hu, hclear⟩

/-- The calls of the backtest return, and then no call is left but those of live tasks. -/
theorem flush_calls (h : node.Apart ps)
    (hroom : ∀ call ∈ node.bus.calls, call.task = .backtest → ∀ c ∈ call.remaining,
      ∀ queue, node.bus.queue c = some queue → queue.length < channelCapacity) :
    ∃ u, Unseen engine node u ∧ u.bus.waiting = node.bus.waiting ∧
      ∀ call ∈ u.bus.calls, call.task ≠ .backtest := by
  cases hcall : node.bus.callOf .backtest with
  | none =>
    refine ⟨node, Unseen.refl node, rfl, fun call hmem htask => ?_⟩
    exact absurd (decide_eq_true htask) (List.find?_eq_none.1 hcall call hmem)
  | some call =>
    obtain ⟨task, subject, msg, remaining⟩ := call
    obtain rfl : task = .backtest := by simpa using List.find?_some hcall
    exact flush_backtest engine h hcall fun c hc queue hqueue =>
      hroom _ (List.mem_of_find?_eq_some hcall) rfl c hc queue hqueue

omit [CaseTable] [Reqwest] in
theorem isLive_of_ne {task : NodeParty} (h : task ≠ .backtest) : task.isLive = true := by
  cases task with
  | backtest => exact absurd rfl h
  | _ => rfl

/-- The backtest gets the lock to publish, and its call returns. -/
theorem flush_publish (h : node.Apart ps) (hroomy : Roomy node.bus) {subject : String}
    {msg : BusPayload} {waiting : List NodeRequest}
    (hwaiting : node.bus.waiting = .publish .backtest subject msg :: waiting) :
    ∃ u, Unseen engine node u ∧ u.bus.waiting = waiting ∧
      ∀ call ∈ u.bus.calls, call.task ≠ .backtest := by
  have hnone : ∀ call ∈ node.bus.calls, call.task ≠ .backtest := by
    intro call hcall heq
    have hmem : Broker.Request.publish .backtest subject msg ∈ node.bus.waiting :=
      hwaiting ▸ List.mem_cons_self
    exact h.bus.wf.not_called hmem (List.mem_map.2 ⟨call, hcall, heq⟩)
  let bus : NodeBus :=
    { node.bus with
      calls := node.bus.calls ++ [⟨.backtest, subject, msg, node.bus.subscribers subject⟩]
      waiting := waiting }
  have hbus : node.bus.step channelCapacity (.grant .backtest) = some bus := by
    rw [Broker.step, Broker.grant, hwaiting]
    exact if_pos rfl
  have hafter : node.after (.grant .backtest) = node := by
    unfold LiveNode.after
    rw [hwaiting]
  have hturn : Unseen engine node { node with bus := bus } := by
    have hturn : Unseen engine node { node.after (.grant .backtest) with bus := bus } :=
      Unseen.turn h rfl rfl (fun hshows => by cases hshows.1) hbus
    rwa [hafter] at hturn
  obtain ⟨u, hu, hsame, hcalls⟩ := flush_calls engine (hturn.apart h) <| by
      intro call hcall heq c hc queue hqueue
      rcases List.mem_append.1 hcall with hcall | hcall
      · exact absurd heq (hnone call hcall)
      · obtain rfl := List.mem_singleton.1 hcall
        exact hroomy.asked subject msg (hwaiting ▸ List.mem_cons_self) c hc queue hqueue
  exact ⟨u, hturn.trans hu, hsame, hcalls⟩

/-- The backtest gets the lock to subscribe: no call holds it up. -/
theorem flush_subscribe (h : node.Apart ps) (horder : node.Orderly) {c : NodeChannel}
    {subject : String} {waiting : List NodeRequest}
    (hwaiting : node.bus.waiting = .subscribe .backtest c subject :: waiting) :
    ∃ u, Unseen engine node u ∧ u.bus.waiting = waiting ∧ u.bus.calls = [] := by
  obtain ⟨-, hcalls⟩ := horder.first c subject (hwaiting ▸ List.mem_cons_self)
  have hfresh : c ∉ node.bus.opened.map Prod.fst := by
    obtain ⟨task, htask, hsub, rfl⟩ :=
      subscribes_of_wants (horder.wants _ (hwaiting ▸ List.mem_cons_self) rfl)
    exact horder.fresh task htask hsub
  have hbus : node.bus.step channelCapacity (.grant .backtest) =
      some (node.opening c subject waiting) := by
    have hempty : node.bus.calls.isEmpty = true := List.isEmpty_iff.2 hcalls
    rw [Broker.step, Broker.grant, hwaiting]
    exact if_pos ⟨rfl, hempty, hfresh⟩
  have hturn : Unseen engine node
      { node.after (.grant .backtest) with bus := node.opening c subject waiting } :=
    Unseen.turn h rfl rfl (fun hshows => by cases hshows.1) hbus
  exact ⟨_, hturn, rfl, hcalls⟩

theorem flush_lock (h : node.Apart ps) (horder : node.Orderly) (hroomy : Roomy node.bus) :
    ∃ u, Unseen engine node u ∧ (∀ q ∈ u.bus.waiting.head?, q.task.isLive = true) ∧
      ∀ call ∈ u.bus.calls, call.task.isLive = true := by
  suffices hflush : ∃ u, Unseen engine node u ∧
      (∀ q ∈ u.bus.waiting.head?, q.task ≠ .backtest) ∧
      ∀ call ∈ u.bus.calls, call.task ≠ .backtest by
    obtain ⟨u, hu, hhead, hcalls⟩ := hflush
    exact ⟨u, hu, fun q hq => isLive_of_ne (hhead q hq),
      fun call hcall => isLive_of_ne (hcalls call hcall)⟩
  by_cases hhead : ∀ q ∈ node.bus.waiting.head?, q.task ≠ .backtest
  · obtain ⟨u, hu, hwaiting, hcalls⟩ := flush_calls engine h hroomy.called
    exact ⟨u, hu, hwaiting.symm ▸ hhead, hcalls⟩
  · -- the backtest waits first: it gets the lock, and nobody of it waits any more
    push Not at hhead
    obtain ⟨q, hq, htask⟩ := hhead
    obtain ⟨waiting, hwaiting⟩ := List.head?_eq_some_iff.1 hq
    have hrest : ∀ q' ∈ waiting.head?, q'.task ≠ .backtest := fun q' hq' =>
      htask ▸ h.bus.wf.not_waiting hwaiting q' (List.mem_of_mem_head? hq')
    cases q with
    | publish task subject msg =>
      obtain rfl : task = .backtest := htask
      obtain ⟨u, hu, hsame, hcalls⟩ := flush_publish engine h hroomy hwaiting
      exact ⟨u, hu, hsame.symm ▸ hrest, hcalls⟩
    | subscribe task c subject =>
      obtain rfl : task = .backtest := htask
      obtain ⟨u, hu, hsame, hnone⟩ := flush_subscribe engine h horder hwaiting
      exact ⟨u, hu, hsame.symm ▸ hrest, hnone.symm ▸ List.forall_mem_nil _⟩

/-- **Nothing of a backtest stays in the way of a live task.** -/
theorem flush (h : node.Apart ps) (horder : node.Orderly) (hroomy : Roomy node.bus)
    {a : Broker.Action NodeParty NodeChannel String BusPayload}
    (ha : a.visible NodeParty.isLive NodeChannel.isLive = true) :
    ∃ u, Unseen engine node u ∧
      u.bus.Clear NodeParty.isLive NodeChannel.isLive channelCapacity a := by
  have hcallOf : ∀ {task : NodeParty} {call}, node.bus.callOf task = some call →
      call.task = task := fun hcall => by simpa using List.find?_some hcall
  cases a with
  | grant task => exact flush_lock engine h horder hroomy
  | send task =>
    cases hcall : node.bus.callOf task with
    | none =>
      refine ⟨node, Unseen.refl node, fun call hcall' => ?_⟩
      rw [hcall] at hcall'
      cases hcall'
    | some call =>
      obtain ⟨task', subject, msg, remaining⟩ := call
      obtain rfl : task' = task := hcallOf hcall
      obtain ⟨u, hu, hsame, hclear⟩ := flush_live engine h hcall
      refine ⟨u, hu, fun call hcall' c hc => ?_⟩
      have hlive := hclear call hcall' c hc
      refine ⟨hlive, fun queue hqueue => ?_⟩
      rw [hsame c hlive] at hqueue
      by_cases hheld : ∃ m ∈ queue, m.1 = .backtest
      · exact Or.inl (hroomy.held c queue hqueue hheld)
      · exact Or.inr fun m hm => isLive_of_ne fun heq => hheld ⟨m, hm, heq⟩
  | finish task =>
    cases hcall : node.bus.callOf task with
    | none =>
      refine ⟨node, Unseen.refl node, fun call hcall' => ?_⟩
      rw [hcall] at hcall'
      cases hcall'
    | some call =>
      obtain ⟨task', subject, msg, remaining⟩ := call
      obtain rfl : task' = task := hcallOf hcall
      obtain ⟨u, hu, -, hclear⟩ := flush_live engine h hcall
      exact ⟨u, hu, hclear⟩
  | recv c =>
    by_cases hother : c.IsOther
    · obtain ⟨n, rfl⟩ := hother
      exact flush_other engine h n
    · refine ⟨node, Unseen.refl node, fun queue hqueue m hm => isLive_of_ne ?_⟩
      exact h.bus.queues c queue hqueue hother m (List.mem_of_mem_head? hm)
  | _ => exact ⟨node, Unseen.refl node, trivial⟩

theorem free_of_roomy (h : node.Apart ps) (horder : node.Orderly) (hroomy : Roomy node.bus)
    {a : NodeAction} {next : LiveNode σ} (ha : a.isLive = true)
    (hstep : (liveNode engine).step node.live a = some next) :
    ∃ us u v, (∀ b ∈ us, b.isTurn = true) ∧ (liveNode engine).exec node us = some u ∧
      u.live = node.live ∧ (liveNode engine).step u a = some v ∧ v.live = next := by
  by_cases hbus : ∃ b, a = .bus b
  · obtain ⟨b, rfl⟩ := hbus
    obtain ⟨u, hunseen, hclear⟩ := flush engine h horder hroomy ha
    have hu := hunseen.apart h
    obtain ⟨us, hus, hexec, hlive⟩ := hunseen
    rw [← hlive] at hstep
    change u.live.busStep b = some next at hstep
    have hview := hstep
    unfold LiveNode.busStep at hstep
    split_ifs at hstep with hallows
    obtain ⟨bus, hbus, -⟩ := Option.map_eq_some_iff.1 hstep
    obtain ⟨bus', hbus', -⟩ := Broker.step_of_hide hu.bus.fits ha hclear hbus
    have hv : u.busStep b = some { u.after b with bus := bus' } := by
      rw [LiveNode.busStep, if_pos (allows_live ha ▸ hallows), hbus']
      rfl
    have hsame := busStep_live hu (hclear.shows ha) hv
    rw [hview, Option.some.injEq] at hsame
    exact ⟨us, u, _, hus, hexec, hlive, hv, hsame.symm⟩
  · rw [step_live h ha (not_exists.1 hbus)] at hstep
    obtain ⟨v, hv, hlive⟩ := Option.map_eq_some_iff.1 hstep
    exact ⟨[], node, v, List.forall_mem_nil _, rfl, rfl, hv, hlive⟩

end Turns

end LiveNode

/-- **When backtests are isolated from live trading**: in every run, with every engine, in which
backtests replay nothing on the subjects of the markets of the node and ask for their subscription
while the lock is free, the node trades as it would without them, and where the channels they
publish to have room no live task is held up. -/
theorem isolated_run [Reqwest] (engine : StrategyEngine σ) (cfg : NodeConfig) (init : σ)
    (exec : ExecutionService) (event : LogEvent) {as : List NodeAction} {node : LiveNode σ}
    (hquiet : (liveNode engine).Throughout (LiveNode.start cfg init exec event)
      (Quiet cfg.startBot.pairs) as)
    (hrun : (liveNode engine).exec (LiveNode.start cfg init exec event) as = some node)
    (hroomy : Roomy node.bus) :
    Isolated engine (LiveNode.start cfg init exec event) as node := by
  have hunobtrusive : ∀ {t : LiveNode σ} {a : NodeAction}, Quiet cfg.startBot.pairs t a →
      LiveNode.Unobtrusive cfg.startBot.pairs a := by
    intro t a ha
    cases a with
    | startBacktest config store => exact ha
    | _ => trivial
  -- every step keeps the backtests apart and in order
  obtain ⟨hapart, horder⟩ := Interleaving.Throughout.invariant
    (Q := fun t => t.Apart cfg.startBot.pairs ∧ t.Orderly)
    ⟨LiveNode.Apart.start cfg init exec event, LiveNode.Orderly.start cfg init exec event⟩
    (fun t a t' ht ha hstep =>
      ⟨ht.1.next (hunobtrusive ha) hstep, ht.2.next ht.1 ha hstep⟩) hquiet hrun
  obtain ⟨bs, hsub, hkeep, hbs⟩ := Interleaving.hide LiveNode.live
    (P := fun t : LiveNode σ => t.Apart cfg.startBot.pairs)
    (fun t a t' ht ha hstep => ht.next (hunobtrusive ha) hstep)
    (fun t a t' ht _ hstep => LiveNode.live_step ht hstep)
    (LiveNode.Apart.start cfg init exec event) hquiet hrun
  refine ⟨⟨bs, hsub, hkeep, ?_, rfl⟩, fun a next ha hstep =>
    LiveNode.free_of_roomy engine hapart horder hroomy ha hstep⟩
  have hstart : (LiveNode.start cfg init exec event).live = LiveNode.start cfg init exec event := by
    simp only [LiveNode.live, LiveNode.start, Broker.hide, Broker.new]
    congr 2
    funext c
    split_ifs <;> rfl
  rwa [hstart] at hbs

end Isolation

/-! ### A live node with a history store -/

/-- A snapshot of the market of the node. -/
def storedSnapshot : MarketSnapshot where
  ts := 0
  exchange := .okx
  symbol := ⟨"BTC", "USDT"⟩
  last := 100
  bid := 99
  ask := 101
  volume24h := 1000
  traceId := none

/-- A history store with one snapshot. -/
def sampleStore : HistoricalStore := HistoricalStore.insertSnapshot [] storedSnapshot

/-- A backtest of that market. -/
def sampleBacktest : BacktestConfig where
  exchange := .okx
  symbols := [⟨"BTC", "USDT"⟩]
  start := 0
  stop := 60

/-- A node with an OKX account, live trading on, and a history store. -/
def liveWithHistory : NodeConfig :=
  { NodeConfig.default with
    exchanges := [{ ExchangeConfig.okxDefaults .mainnet with
      credentials := some
        { apiKey := "key", apiSecret := "secret", passphrase := some "passphrase" } }]
    execution := { ExecutionConfig.default with liveTradingEnabled := true }
    history := some { connectionString := "sqlite::memory:" } }
/-- A task opens a channel. -/
def subscribing (task : NodeParty) (channel : NodeChannel) (subject : String) : List NodeAction :=
  [.bus (.ask (.subscribe task channel subject)), .bus (.grant task)]

/-- A task publishes to `n` channels. -/
def publishing (task : NodeParty) (subject : String) (msg : BusPayload) (n : ℕ) : List NodeAction :=
  .bus (.ask (.publish task subject msg)) :: .bus (.grant task) ::
    (List.replicate n (.bus (.send task)) ++ [.bus (.finish task)])

/-- The event of the start of the execution service. -/
def startEvent : LogEvent where
  ts := 0
  level := .info
  source := .execution
  message := "execution service started"
  fields := []
  correlationId := none
  traceId := none

/-- The services of the node start. -/
def serviceStart : List NodeAction :=
  subscribing .host (.market 0) "market.OKX.BTCUSDT" ++
    publishing .exec "log.event" (.event startEvent) 0 ++
    subscribing .exec .commands ordersCommand ++
    subscribing .exec .config "control.config.update.execution"

/-- The buyer's order on the snapshot. -/
def buyersCommand : OrderCommand where
  id := "0-0"
  exchange := .okx
  symbol := ⟨"BTC", "USDT"⟩
  side := .buy
  orderType := .market
  sizeQuote := 10
  limitPrice := none
  traceId := some ""

/-- The order reaches the execution service. -/
def tradingSteps : List NodeAction :=
  .take 0 "" 0 :: publishing (.strategy 0) ordersCommand (.command buyersCommand) 1 ++
    [.execute 0 fun _ => .sent (.error "timeout")]

def heardRun : List NodeAction :=
  serviceStart ++ .startBacktest sampleBacktest sampleStore ::
    subscribing .backtest (.metrics 0) "orders.result" ++
    publishing .backtest "market.OKX.BTCUSDT" (.snapshot storedSnapshot) 1 ++ tradingSteps

/-- A backtest of another market. -/
def etherBacktest : BacktestConfig :=
  { sampleBacktest with symbols := [⟨"ETH", "USDT"⟩] }

/-- Its snapshot. -/
def etherSnapshot : MarketSnapshot := { storedSnapshot with symbol := ⟨"ETH", "USDT"⟩ }

/-- The backtest of the other market replays its snapshot to a stream of the API, and the feed
publishes one of the market of the node. -/
def quietRun : List NodeAction :=
  serviceStart ++ subscribing (.other 1) (.other 1) "market.OKX.ETHUSDT" ++
    .startBacktest etherBacktest (HistoricalStore.insertSnapshot [] etherSnapshot) ::
    subscribing .backtest (.metrics 0) "orders.result" ++
    publishing .backtest "market.OKX.ETHUSDT" (.snapshot etherSnapshot) 1 ++
    publishing (.other 0) "market.OKX.BTCUSDT" (.snapshot storedSnapshot) 1 ++ tradingSteps

theorem isolated_run_ether :
    ∃ exec, @ExecutionService.new ℚ acceptAll _ liveWithHistory.execConfig = .ok exec ∧
      ∃ node, (@liveNode asciiCase acceptAll _ buyer).exec
          (.start liveWithHistory () exec startEvent) quietRun = some node ∧
        node.submitted.length = 1 ∧
        @Isolated asciiCase _ acceptAll buyer (.start liveWithHistory () exec startEvent)
          quietRun node := by
  refine ⟨_, rfl, _, rfl, rfl, ?_⟩
  refine @isolated_run asciiCase _ acceptAll buyer liveWithHistory () _ startEvent _ _ ?_ rfl ?_
  · exact of_decide_eq_true rfl
  · refine ⟨fun c queue hqueue _ => ?_, fun call hcall => ?_, fun subject msg hmem => ?_⟩
    · -- one message is left, in the channel of the stream
      have hlen : queue.length ≤ 1 := by
        rcases c with (_ | k) | _ | _ | (_ | n) | (_ | _ | n) <;> cases hqueue <;> decide
      exact Nat.lt_of_le_of_lt hlen (by decide)
    · cases hcall
    · cases hmem

/-- The live steps of the run alone, or some of them, submit no order. -/
theorem submitted_of_sublist {exec : ExecutionService}
    (hexec : @ExecutionService.new ℚ acceptAll _ liveWithHistory.execConfig = .ok exec)
    {bs : List NodeAction} (hsub : bs.Sublist heardRun) (hlive : ∀ b ∈ bs, b.isLive = true)
    {node : LiveNode Unit} (hnode : (@liveNode asciiCase acceptAll _ buyer).exec
      (.start liveWithHistory () exec startEvent) bs = some node) : node.submitted = [] := by
  have hkept : bs.Sublist (heardRun.filter NodeAction.isLive) := by
    rw [← List.filter_eq_self.2 hlive]
    exact hsub.filter _
  have hmem := Interleaving.mem_sublistStates hkept hnode
  have hall : ((@liveNode asciiCase acceptAll _ buyer).sublistStates
      (.start liveWithHistory () exec startEvent) (heardRun.filter NodeAction.isLive)).all
        (fun node => node.submitted.isEmpty) = true := by
    cases hexec
    rfl
  exact List.isEmpty_iff.1 (List.all_eq_true.1 hall node hmem)

/-- **A backtest trades**: the buyer submits an order on a replayed snapshot, and no part of the run
without the backtest submits one. -/
theorem not_isolated :
    ∃ exec, @ExecutionService.new ℚ acceptAll _ liveWithHistory.execConfig = .ok exec ∧
      ∃ node, (@liveNode asciiCase acceptAll _ buyer).exec
          (.start liveWithHistory () exec startEvent) heardRun = some node ∧
        node.submitted.length = 1 ∧
        (∀ bs : List NodeAction, bs.Sublist heardRun → (∀ b ∈ bs, b.isLive = true) →
          ∀ node', (@liveNode asciiCase acceptAll _ buyer).exec
            (.start liveWithHistory () exec startEvent) bs = some node' → node'.submitted = []) ∧
        ¬ @Isolated asciiCase _ acceptAll buyer (.start liveWithHistory () exec startEvent)
          heardRun node := by
  refine ⟨_, rfl, _, rfl, rfl, fun bs hsub hlive node' => submitted_of_sublist rfl hsub hlive,
    fun hisolated => ?_⟩
  obtain ⟨bs, hsub, hlive, hbs, hsame⟩ :=
    @Isolated.same asciiCase _ acceptAll _ _ _ _ hisolated
  have hnone := submitted_of_sublist rfl hsub hlive hbs
  have hone := congrArg (fun t => t.2.2.length) hsame
  exact absurd (hone.symm.trans (congrArg List.length hnone)) (by decide)

end W2uos
