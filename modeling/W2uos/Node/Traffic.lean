import Mathlib.Tactic.IntervalCases
import W2uos.Bus.Draining
import W2uos.Node.Whole

/-!
# The traffic of a node

The tasks of a node, with the subjects on which each of them publishes, by itself or in answer to a
message, and to which it subscribes.  Messages go round in two circles only: the risk supervisor
listens to its own events, and the last task of `main` sends a command to the execution service and
listens to the results.  So there are three ways in which the node can jam.

* `turn_publishes` : a turn publishes what the wiring of its task says;
* `rank_of_publishes`, `circular_of_cycle` : the circles;
* `jammed_iff` : a node is jammed in one of three ways.
-/

namespace W2uos

/-- The tasks of a node. -/
inductive NodeTask
  /-- `MarketDataService::run`, with the stream or the simulation. -/
  | marketFeed
  | marketConfig
  | strategyConfig
  | strategyPause
  | strategyResume
  | exec
  | execBlock
  | execReset
  | okxOrders
  | log
  | risk
  /-- A request to the API that resets the breaker. -/
  | resetRequest
  | configManager
  | clusterSend
  | clusterReceive
  | debug
  /-- The last task of `main`. -/
  | startup
  /-- The task of a pair of the strategy. -/
  | strategy (k : ℕ)
  /-- The engine of a backtest. -/
  | backtest (k : ℕ)
  /-- The task that collects the results for it. -/
  | backtestResults (k : ℕ)
  /-- The event about a request the API refuses. -/
  | refusal (k : ℕ)
  /-- A subject of a connection to the API. -/
  | relay (k : ℕ)
  deriving DecidableEq

/-- The number of a task on the bus. -/
def NodeTask.number : NodeTask → ℕ
  | marketFeed => 0
  | marketConfig => 1
  | strategyConfig => 2
  | strategyPause => 3
  | strategyResume => 4
  | exec => 5
  | execBlock => 6
  | execReset => 7
  | okxOrders => 8
  | log => 9
  | risk => 10
  | resetRequest => 11
  | configManager => 12
  | clusterSend => 13
  | clusterReceive => 14
  | debug => 15
  | startup => 16
  | strategy k => 17 + 5 * k
  | backtest k => 18 + 5 * k
  | backtestResults k => 19 + 5 * k
  | refusal k => 20 + 5 * k
  | relay k => 21 + 5 * k

/-- The task with a number. -/
def NodeTask.ofNumber (p : ℕ) : NodeTask :=
  match p with
  | 0 => marketFeed
  | 1 => marketConfig
  | 2 => strategyConfig
  | 3 => strategyPause
  | 4 => strategyResume
  | 5 => exec
  | 6 => execBlock
  | 7 => execReset
  | 8 => okxOrders
  | 9 => log
  | 10 => risk
  | 11 => resetRequest
  | 12 => configManager
  | 13 => clusterSend
  | 14 => clusterReceive
  | 15 => debug
  | 16 => startup
  | p + 17 =>
    match p % 5 with
    | 0 => strategy (p / 5)
    | 1 => backtest (p / 5)
    | 2 => backtestResults (p / 5)
    | 3 => refusal (p / 5)
    | _ => relay (p / 5)

/-- The subjects of markets begin so. -/
def IsMarketSubject (subject : String) : Prop := "market.".toList <+: subject.toList

instance (subject : String) : Decidable (IsMarketSubject subject) :=
  inferInstanceAs (Decidable (_ <+: _))

/-- The subjects of the configuration manager. -/
def configSubjects : List String :=
  ["control.config.update.risk", "control.config.update.execution",
    "control.config.update.strategy", "control.config.update.market",
    "control.config.update.logging"]

/-- What a task publishes by itself. -/
def NodeTask.Starts : NodeTask → String → Prop
  | marketFeed, subject => IsMarketSubject subject ∨ subject = "log.event"
  | exec, subject => subject = "log.event"
  | okxOrders, subject => subject = "orders.result"
  | risk, subject => subject ∈ alarm
  | resetRequest, subject =>
    subject = "control.exec.reset_circuit" ∨ subject = "control.strategy.resume_all"
  | configManager, subject => subject ∈ configSubjects
  | clusterSend, subject => subject = "cluster.heartbeat"
  | startup, subject => subject = ordersCommand
  | backtest _, subject => IsMarketSubject subject
  | refusal _, subject => subject = "log.event"
  | _, _ => False

/-- What a task publishes when it has taken a message of a subject. -/
def NodeTask.Answers : NodeTask → String → String → Prop
  | strategy _, taken, subject =>
    IsMarketSubject taken ∧ (subject = ordersCommand ∨ subject = "log.event")
  | exec, taken, subject =>
    taken = ordersCommand ∧
      (subject = "orders.result" ∨ subject = "log.event" ∨ subject = "log.trade")
  | risk, taken, subject => (taken = "orders.result" ∨ taken = "log.event") ∧ subject ∈ alarm
  | _, _, _ => False

/-- What a task listens to. -/
def NodeTask.Listens : NodeTask → String → Prop
  | marketConfig, subject => subject = "control.config.update.market"
  | strategyConfig, subject => subject = "control.config.update.strategy"
  | strategyPause, subject => subject = "control.strategy.pause_all"
  | strategyResume, subject => subject = "control.strategy.resume_all"
  | exec, subject => subject = ordersCommand ∨ subject = "control.config.update.execution"
  | execBlock, subject => subject = "control.exec.block_new_orders"
  | execReset, subject => subject = "control.exec.reset_circuit"
  | log, subject => subject = "log.event" ∨ subject = "log.trade"
  | risk, subject =>
    subject = "orders.result" ∨ subject = "log.event" ∨ subject = "control.config.update.risk"
  | clusterReceive, subject => subject = "cluster.heartbeat"
  | debug, subject => subject = "market.OKX.BTCUSDT"
  | startup, subject => subject = "orders.result"
  | strategy _, subject => IsMarketSubject subject
  | backtestResults _, subject => subject = "orders.result"
  | relay _, _ => True
  | _, _ => False

/-- Who publishes and who listens to what in a node. -/
def nodeWiring : Wiring where
  starts p subject := (NodeTask.ofNumber p).Starts subject
  answers p taken subject := (NodeTask.ofNumber p).Answers taken subject
  listens p subject := (NodeTask.ofNumber p).Listens subject

theorem ofNumber_number (x : NodeTask) : NodeTask.ofNumber x.number = x := by
  have hadd : ∀ j k : ℕ, j < 5 → NodeTask.ofNumber (17 + j + 5 * k) =
      match j with
      | 0 => .strategy k
      | 1 => .backtest k
      | 2 => .backtestResults k
      | 3 => .refusal k
      | _ => .relay k := by
    intro j k hj
    have heq : 17 + j + 5 * k = (5 * k + j) + 17 := by omega
    have hmod : (5 * k + j) % 5 = j := by omega
    have hdiv : (5 * k + j) / 5 = k := by omega
    rw [heq, NodeTask.ofNumber]
    simp only [hmod, hdiv]
  cases x with
  | strategy k => exact hadd 0 k (by decide)
  | backtest k => exact hadd 1 k (by decide)
  | backtestResults k => exact hadd 2 k (by decide)
  | refusal k => exact hadd 3 k (by decide)
  | relay k => exact hadd 4 k (by decide)
  | _ => rfl

theorem number_ofNumber (p : ℕ) : (NodeTask.ofNumber p).number = p := by
  by_cases hp : p < 17
  · interval_cases p <;> rfl
  · obtain ⟨q, rfl⟩ := Nat.exists_eq_add_of_le' (not_lt.1 hp)
    have hdiv := Nat.div_add_mod q 5
    have hmod := Nat.mod_lt q (by decide : 0 < 5)
    rw [NodeTask.ofNumber]
    interval_cases hq : q % 5 <;> simp only [NodeTask.number] <;> omega

/-! ### The wiring is that of the node -/

/-- The task publishes on the subject. -/
def NodeTask.Publishes (x : NodeTask) (subject : String) : Prop :=
  x.Starts subject ∨ ∃ taken, x.Answers taken subject

/-- The turns of a task. -/
def NodeTask.Takes : NodeTask → NodeTurn → Prop
  | x, .simulatedFeed _ _ => x = marketFeed
  | x, .okxFeed _ _ => x = marketFeed
  | x, .startBacktest _ => ∃ k, x = backtest k
  | x, .backtest _ => ∃ k, x = backtest k
  | x, .subscribe => ∃ k, x = strategy k
  | x, .strategy k _ _ => x = strategy k
  | x, .pause true => x = strategyPause
  | x, .pause false => x = strategyResume
  | x, .listen => x = exec
  | x, .execute _ _ => x = exec
  | x, .execUpdate _ => x = exec
  | x, .block true => x = execBlock
  | x, .block false => x = execReset
  | x, .okxOrders _ _ => x = okxOrders
  | x, .risk _ => x = risk
  | x, .riskReset => x = resetRequest
  | x, .reload _ => x = configManager
  | x, .heartbeat => x = clusterSend
  | x, .event _ => x = marketFeed ∨ x = exec ∨ ∃ k, x = refusal k
  | x, .startup _ => x = startup

theorem exists_takes (t : NodeTurn) : ∃ x : NodeTask, x.Takes t := by
  cases t with
  | startBacktest snaps => exact ⟨.backtest 0, 0, rfl⟩
  | backtest k => exact ⟨.backtest k, k, rfl⟩
  | subscribe => exact ⟨.strategy 0, 0, rfl⟩
  | pause paused => cases paused <;> exact ⟨_, rfl⟩
  | block value => cases value <;> exact ⟨_, rfl⟩
  | event evt => exact ⟨_, Or.inl rfl⟩
  | _ => exact ⟨_, rfl⟩

section Turns

variable [CaseTable]

theorem isMarketSubject_marketSubject (exchange : ExchangeId) (symbol : Symbol) :
    IsMarketSubject (marketSubject exchange symbol) := by
  rw [IsMarketSubject, marketSubject]
  simp only [String.toList_append, List.append_assoc]
  exact List.prefix_append _ _

theorem feed_publishes {tick : MarketSnapshot → LogEvent} {outs : List FeedOutput}
    (h : Announces tick outs) :
    ∀ pub ∈ outs.map FeedOutput.publication, NodeTask.marketFeed.Publishes pub.subject := by
  intro pub hpub
  obtain ⟨out, hout, rfl⟩ := List.mem_map.1 hpub
  cases out with
  | market subject snap =>
    rw [FeedOutput.publication, h.subject_eq hout]
    exact Or.inl (Or.inl (isMarketSubject_marketSubject snap.exchange snap.symbol))
  | log evt => exact Or.inl (Or.inr rfl)

omit [CaseTable] in
theorem strategy_publishes (k : ℕ) (out : HostOutput) :
    (NodeTask.strategy k).Publishes out.publication.subject := by
  cases out with
  | order cmd => exact Or.inr ⟨"market.", by decide, Or.inl rfl⟩
  | log evt => exact Or.inr ⟨"market.", by decide, Or.inr rfl⟩

omit [CaseTable] in
theorem exec_publishes {out : ExecOutput} {pub : Publication} (h : out.publication = some pub) :
    NodeTask.exec.Publishes pub.subject := by
  refine Or.inr ⟨ordersCommand, rfl, ?_⟩
  cases out <;> cases h <;> simp [eventPublication]

theorem risk_publishes (s : RiskSupervisorService) (i : RiskInput) :
    ∀ pub ∈ (riskSupervisor.emit s i).map RiskOutput.publication,
      NodeTask.risk.Publishes pub.subject := by
  intro pub hpub
  obtain ⟨out, hout, rfl⟩ := List.mem_map.1 hpub
  have hsubject : out.publication.subject = out.subject := by cases out <;> rfl
  rw [hsubject]
  exact Or.inl (mem_emit_subject.1 (List.mem_map_of_mem hout)).2

omit [CaseTable] in
theorem reset_publishes (s : RiskSupervisorService) :
    ∀ pub ∈ s.resetCircuit.2.map RiskOutput.publication,
      NodeTask.resetRequest.Publishes pub.subject := by
  intro pub hpub
  obtain ⟨out, hout, rfl⟩ := List.mem_map.1 hpub
  rcases List.mem_cons.1 hout with rfl | hout
  · exact Or.inl (Or.inl rfl)
  · rw [List.mem_singleton.1 hout]
    exact Or.inl (Or.inr rfl)

omit [CaseTable] in
theorem reload_publishes (msg : ConfigMessage) :
    NodeTask.configManager.Publishes msg.publication.subject := by
  refine Or.inl ?_
  cases msg <;>
    simp [NodeTask.Starts, ConfigMessage.publication, ConfigMessage.subject, configSubjects]

variable [Reqwest] [TickerChannel] [OrderChannel] {σ : Type}

/-- **Every turn of a node publishes what the wiring of its task says.** -/
theorem turn_publishes (cfg : NodeConfig) (engine : StrategyEngine σ) (node : WholeNode σ)
    {t : NodeTurn} {x : NodeTask} (h : x.Takes t) :
    ∀ pub ∈ (node.turn cfg engine t).2.1, x.Publishes pub.subject := by
  have hnone : ∀ pub ∈ ([] : List Publication), x.Publishes pub.subject := List.forall_mem_nil _
  cases t with
  | simulatedFeed subs stamp =>
    cases h
    rw [WholeNode.turn]
    split_ifs
    · exact feed_publishes (runSimulated_announces _ subs stamp)
    · exact hnone
  | okxFeed txt stamp =>
    cases h
    rw [WholeNode.turn]
    split_ifs
    · exact feed_publishes (OkxMarketStream.handleText_announces txt stamp)
    · exact hnone
  | startBacktest snaps => exact hnone
  | backtest k =>
    obtain ⟨j, rfl⟩ := h
    rw [WholeNode.turn]
    split
    · intro pub hpub
      rw [List.mem_singleton.1 hpub]
      exact Or.inl (isMarketSubject_marketSubject _ _)
    · exact hnone
  | subscribe =>
    rw [WholeNode.turn]
    split <;> exact hnone
  | strategy k fresh utc =>
    cases h
    intro pub hpub
    obtain ⟨out, -, rfl⟩ := Option.map_eq_some_iff.1 (Option.mem_toList.1 hpub)
    exact strategy_publishes k out
  | pause paused => cases paused <;> exact hnone
  | listen => exact hnone
  | execute now exchange =>
    cases h
    rw [WholeNode.turn]
    split
    · intro pub hpub
      obtain ⟨out, -, hout⟩ := List.mem_filterMap.1 hpub
      exact exec_publishes hout
    · exact hnone
  | execUpdate msg => cases msg <;> exact hnone
  | block value => cases value <;> exact hnone
  | okxOrders txt ts =>
    cases h
    intro pub hpub
    obtain ⟨result, -, rfl⟩ := List.mem_map.1 hpub
    exact Or.inl rfl
  | risk i =>
    cases h
    exact risk_publishes node.risk.loop i
  | riskReset =>
    cases h
    exact reset_publishes node.risk.handle
  | reload cfg =>
    cases h
    intro pub hpub
    obtain ⟨msg, -, rfl⟩ := List.mem_map.1 hpub
    exact reload_publishes msg
  | heartbeat =>
    cases h
    intro pub hpub
    rw [List.mem_singleton.1 hpub]
    exact Or.inl rfl
  | event evt =>
    intro pub hpub
    rw [List.mem_singleton.1 hpub]
    rcases h with rfl | rfl | ⟨k, rfl⟩
    · exact Or.inl (Or.inr rfl)
    · exact Or.inl rfl
    · exact Or.inl rfl
  | startup fresh =>
    cases h
    rw [WholeNode.turn]
    split
    · exact hnone
    · intro pub hpub
      rw [List.mem_singleton.1 hpub]
      exact Or.inl rfl
    · exact hnone
    · exact hnone

end Turns

/-! ### The circles -/

/-- Messages go from tasks of a higher rank to those of a lower one, the circles apart. -/
def NodeTask.rank : NodeTask → ℕ
  | marketFeed => 5
  | backtest _ => 5
  | configManager => 4
  | okxOrders => 4
  | strategy _ => 4
  | exec => 3
  | startup => 3
  | refusal _ => 3
  | risk => 2
  | resetRequest => 1
  | clusterSend => 1
  | _ => 0

/-- The two circles. -/
inductive NodeTask.Circular : NodeTask → NodeTask → Prop
  | risk : Circular risk risk
  | result : Circular exec startup
  | command : Circular startup exec

/-- Only tasks that listen to nothing publish more than events, orders and results. -/
theorem rank_of_listens {y : NodeTask} {subject : String} (hy : y.Listens subject) :
    y.rank = 0 ∨
      (y = .exec ∧ (subject = ordersCommand ∨ subject = "control.config.update.execution")) ∨
      (y = .risk ∧ (subject = "orders.result" ∨ subject = "log.event" ∨
        subject = "control.config.update.risk")) ∨
      (y = .startup ∧ subject = "orders.result") ∨
      ∃ k, y = .strategy k ∧ IsMarketSubject subject := by
  cases y with
  | exec => exact Or.inr (Or.inl ⟨rfl, hy⟩)
  | risk => exact Or.inr (Or.inr (Or.inl ⟨rfl, hy⟩))
  | startup => exact Or.inr (Or.inr (Or.inr (Or.inl ⟨rfl, hy⟩)))
  | strategy k => exact Or.inr (Or.inr (Or.inr (Or.inr ⟨k, rfl, hy⟩)))
  | marketFeed => exact absurd hy id
  | okxOrders => exact absurd hy id
  | resetRequest => exact absurd hy id
  | configManager => exact absurd hy id
  | clusterSend => exact absurd hy id
  | backtest k => exact absurd hy id
  | refusal k => exact absurd hy id
  | _ => exact Or.inl rfl

theorem rank_pos {x : NodeTask} {subject : String} (hx : x.Publishes subject) : 0 < x.rank := by
  cases x <;> first
    | exact Nat.succ_pos _
    | exact absurd hx (by simp [NodeTask.Publishes, NodeTask.Starts, NodeTask.Answers])

/-! ### Who publishes on a subject -/

section Publishers

variable {x : NodeTask}

theorem not_publishes {subject : String} (hstarts : ¬ x.Starts subject)
    (hanswers : ∀ taken, ¬ x.Answers taken subject) : ¬ x.Publishes subject := by
  rintro (h | ⟨taken, h⟩)
  · exact hstarts h
  · exact hanswers taken h

theorem publishes_command (hx : x.Publishes ordersCommand) :
    x = .startup ∨ ∃ k, x = .strategy k := by
  cases x with
  | startup => exact Or.inl rfl
  | strategy k => exact Or.inr ⟨k, rfl⟩
  | _ =>
    refine absurd hx (not_publishes ?_ ?_) <;>
      simp [NodeTask.Starts, NodeTask.Answers, ordersCommand, alarm, announcement] <;> decide

theorem publishes_result (hx : x.Publishes "orders.result") : x = .exec ∨ x = .okxOrders := by
  cases x with
  | exec => exact Or.inl rfl
  | okxOrders => exact Or.inr rfl
  | _ =>
    refine absurd hx (not_publishes ?_ ?_) <;>
      simp [NodeTask.Starts, NodeTask.Answers, ordersCommand, alarm, announcement] <;> decide

theorem publishes_event (hx : x.Publishes "log.event") :
    x = .marketFeed ∨ x = .exec ∨ x = .risk ∨ (∃ k, x = .strategy k) ∨ ∃ k, x = .refusal k := by
  cases x with
  | marketFeed => exact Or.inl rfl
  | exec => exact Or.inr (Or.inl rfl)
  | risk => exact Or.inr (Or.inr (Or.inl rfl))
  | strategy k => exact Or.inr (Or.inr (Or.inr (Or.inl ⟨k, rfl⟩)))
  | refusal k => exact Or.inr (Or.inr (Or.inr (Or.inr ⟨k, rfl⟩)))
  | _ =>
    refine absurd hx (not_publishes ?_ ?_) <;>
      simp [NodeTask.Starts, NodeTask.Answers, ordersCommand] <;> decide

/-- The subjects that are neither those of markets nor of configurations. -/
def otherSubjects : List String :=
  [ordersCommand, "orders.result", "log.event", "log.trade", "control.strategy.pause_all",
    "control.strategy.resume_all", "control.exec.block_new_orders", "control.exec.reset_circuit",
    "cluster.heartbeat"]

theorem publishes_cases {subject : String} (hx : x.Publishes subject) :
    (x = .configManager ∧ subject ∈ configSubjects) ∨
      ((x = .marketFeed ∨ ∃ k, x = .backtest k) ∧ IsMarketSubject subject) ∨
      subject ∈ otherSubjects := by
  cases x with
  | configManager =>
    rcases hx with hx | ⟨taken, hx⟩
    · exact Or.inl ⟨rfl, hx⟩
    · exact absurd hx id
  | marketFeed =>
    rcases hx with (hx | rfl) | ⟨taken, hx⟩
    · exact Or.inr (Or.inl ⟨Or.inl rfl, hx⟩)
    · exact Or.inr (Or.inr (by decide))
    · exact absurd hx id
  | backtest k =>
    rcases hx with hx | ⟨taken, hx⟩
    · exact Or.inr (Or.inl ⟨Or.inr ⟨k, rfl⟩, hx⟩)
    · exact absurd hx id
  | risk =>
    have halarm : subject ∈ alarm := hx.elim id fun ⟨_, h⟩ => h.2
    exact Or.inr (Or.inr ((by decide : alarm ⊆ otherSubjects) halarm))
  | exec =>
    rcases hx with rfl | ⟨taken, -, rfl | rfl | rfl⟩ <;> exact Or.inr (Or.inr (by decide))
  | strategy k =>
    rcases hx with hx | ⟨taken, -, rfl | rfl⟩
    · exact absurd hx id
    · exact Or.inr (Or.inr (by decide))
    · exact Or.inr (Or.inr (by decide))
  | resetRequest =>
    rcases hx with (rfl | rfl) | ⟨taken, hx⟩
    · exact Or.inr (Or.inr (by decide))
    · exact Or.inr (Or.inr (by decide))
    · exact absurd hx id
  | _ =>
    -- those that publish on one subject, and those that publish nothing
    rcases hx with hx | ⟨taken, hx⟩
    · first
        | exact absurd hx id
        | exact Or.inr (Or.inr (hx ▸ by decide))
    · exact absurd hx id

end Publishers

theorem publishes_config {x : NodeTask} {subject : String} (h : subject ∈ configSubjects)
    (hx : x.Publishes subject) : x = .configManager := by
  rcases publishes_cases hx with ⟨rfl, -⟩ | ⟨-, hmarket⟩ | hother
  · rfl
  · exact absurd hmarket ((by decide : ∀ s ∈ configSubjects, ¬ IsMarketSubject s) subject h)
  · exact absurd hother ((by decide : ∀ s ∈ configSubjects, s ∉ otherSubjects) subject h)

theorem publishes_market {x : NodeTask} {subject : String} (h : IsMarketSubject subject)
    (hx : x.Publishes subject) : x = .marketFeed ∨ ∃ k, x = .backtest k := by
  rcases publishes_cases hx with ⟨-, hconfig⟩ | ⟨hfeed, -⟩ | hother
  · exact absurd h ((by decide : ∀ s ∈ configSubjects, ¬ IsMarketSubject s) subject hconfig)
  · exact hfeed
  · exact absurd h ((by decide : ∀ s ∈ otherSubjects, ¬ IsMarketSubject s) subject hother)

/-- **Messages go round in two circles only.** -/
theorem rank_of_publishes {x y : NodeTask} {subject : String} (hx : x.Publishes subject)
    (hy : y.Listens subject) : y.rank < x.rank ∨ x.Circular y := by
  rcases rank_of_listens hy with hzero | ⟨rfl, rfl | rfl⟩ | ⟨rfl, rfl | rfl | rfl⟩ | ⟨rfl, rfl⟩ |
    ⟨k, rfl, hmarket⟩
  · exact Or.inl (hzero ▸ rank_pos hx)
  · -- commands
    rcases publishes_command hx with rfl | ⟨k, rfl⟩
    · exact Or.inr .command
    · exact Or.inl (by simp [NodeTask.rank])
  · rw [publishes_config (by decide) hx]
    exact Or.inl (by simp [NodeTask.rank])
  · -- results
    rcases publishes_result hx with rfl | rfl <;> exact Or.inl (by simp [NodeTask.rank])
  · -- events
    rcases publishes_event hx with rfl | rfl | rfl | ⟨k, rfl⟩ | ⟨k, rfl⟩
    · exact Or.inl (by simp [NodeTask.rank])
    · exact Or.inl (by simp [NodeTask.rank])
    · exact Or.inr .risk
    · exact Or.inl (by simp [NodeTask.rank])
    · exact Or.inl (by simp [NodeTask.rank])
  · rw [publishes_config (by decide) hx]
    exact Or.inl (by simp [NodeTask.rank])
  · rcases publishes_result hx with rfl | rfl
    · exact Or.inr .result
    · exact Or.inl (by simp [NodeTask.rank])
  · -- snapshots
    rcases publishes_market hmarket hx with rfl | ⟨j, rfl⟩ <;>
      exact Or.inl (by simp [NodeTask.rank])

/-! ### How a node jams -/

open NodeTask (number ofNumber)

theorem rank_of_feeds {p q : ℕ} (h : nodeWiring.Feeds p q) :
    (ofNumber q).rank < (ofNumber p).rank ∨ (ofNumber p).Circular (ofNumber q) := by
  obtain ⟨subject, hp, hq⟩ := h
  exact rank_of_publishes hp hq

theorem NodeTask.Circular.rank_eq {x y : NodeTask} (h : x.Circular y) : y.rank = x.rank := by
  cases h <;> rfl

variable {μ : Type} {s : WiredBus μ}

/-- The call of a task waits for a full channel of another. -/
def Blocks (s : WiredBus μ) (x y : NodeTask) (subject : String) : Prop :=
  ∃ r, s.locked.bus.nextSend x.number = some r ∧ s.locked.bus.Full r ∧
    r ∈ (s.task y.number).subs ∧ WiredBus.kind s.locked.bus.channels r = some (subject, true)

/-- How a node jams: a call waits for a task that waits for the lock behind a subscriber; the
supervisor waits for room for its own event; or the last task of `main` waits for room for its
command, and the execution service for room for a result that this task would take. -/
inductive NodeJam (s : WiredBus μ) : Prop
  | lock {p q : ℕ} (hcall : p ∈ s.locked.bus.calls)
      (hpath : Relation.ReflTransGen s.WaitsOn p q)
      (hbehind : Behind s.locked.waiting q)
  | supervisor (hself : Blocks s .risk .risk "log.event")
  | startup (hcommand : Blocks s .startup .exec ordersCommand)
      (hresult : Blocks s .exec .startup "orders.result")

theorem Blocks.waitsOn {x y : NodeTask} {subject : String} (h : Blocks s x y subject) :
    s.WaitsOn x.number y.number := by
  obtain ⟨r, hnext, hfull, hr, -⟩ := h
  exact ⟨r, hnext, hfull, hr⟩

theorem blocks_of_waitsOn (hs : s.Wf nodeWiring) {p q : ℕ} (h : s.WaitsOn p q) :
    ∃ subject, (ofNumber p).Publishes subject ∧ (ofNumber q).Listens subject ∧
      Blocks s (ofNumber p) (ofNumber q) subject := by
  obtain ⟨r, hnext, hfull, hr⟩ := h
  obtain ⟨subject, hkind, hp, hq⟩ := WiredBus.subject_of_waiting hs hnext hfull hr
  refine ⟨subject, hp, hq, r, ?_⟩
  rw [number_ofNumber, number_ofNumber]
  exact ⟨hnext, hfull, hr, hkind⟩

theorem rank_le_of_path (hs : s.Wf nodeWiring) {p q : ℕ}
    (h : Relation.ReflTransGen s.WaitsOn p q) :
    (ofNumber q).rank ≤ (ofNumber p).rank := by
  induction h with
  | refl => exact le_rfl
  | tail _ hwaits ih =>
    rcases rank_of_feeds (hwaits.feeds hs) with hlt | hcircular
    · exact hlt.le.trans ih
    · exact hcircular.rank_eq.le.trans ih

theorem circular_of_cycle (hs : s.Wf nodeWiring) {p q : ℕ} (h : s.WaitsOn p q)
    (hback : Relation.ReflTransGen s.WaitsOn q p) :
    (ofNumber p).Circular (ofNumber q) :=
  (rank_of_feeds (h.feeds hs)).resolve_left (not_lt.2 (rank_le_of_path hs hback))

theorem blocks_risk (hs : s.Wf nodeWiring) {p q : ℕ} (h : s.WaitsOn p q)
    (hp : ofNumber p = .risk) (hq : ofNumber q = .risk) : Blocks s .risk .risk "log.event" := by
  obtain ⟨subject, hpublishes, hlistens, hblocks⟩ := blocks_of_waitsOn hs h
  rw [hp] at hpublishes
  rw [hq] at hlistens
  have halarm : subject ∈ alarm := hpublishes.elim id fun ⟨_, hanswers⟩ => hanswers.2
  have hevent : subject = "log.event" := by
    rcases hlistens with rfl | rfl | rfl
    · exact absurd halarm (by decide)
    · rfl
    · exact absurd halarm (by decide)
  rwa [hp, hq, hevent] at hblocks

theorem blocks_result (hs : s.Wf nodeWiring) {p q : ℕ} (h : s.WaitsOn p q)
    (hp : ofNumber p = .exec) (hq : ofNumber q = .startup) :
    Blocks s .exec .startup "orders.result" := by
  obtain ⟨subject, -, hlistens, hblocks⟩ := blocks_of_waitsOn hs h
  rw [hq] at hlistens
  have hresult : subject = "orders.result" := hlistens
  rwa [hp, hq, hresult] at hblocks

theorem blocks_command (hs : s.Wf nodeWiring) {p q : ℕ} (h : s.WaitsOn p q)
    (hp : ofNumber p = .startup) (hq : ofNumber q = .exec) :
    Blocks s .startup .exec ordersCommand := by
  obtain ⟨subject, hpublishes, -, hblocks⟩ := blocks_of_waitsOn hs h
  rw [hp] at hpublishes
  have hcommand : subject = ordersCommand :=
    hpublishes.elim id fun ⟨_, hanswers⟩ => absurd hanswers id
  rwa [hp, hq, hcommand] at hblocks

theorem exists_back (hs : s.Wf nodeWiring) {p q : ℕ} (h : s.WaitsOn p q)
    (hback : Relation.ReflTransGen s.WaitsOn q p) (hne : ofNumber q ≠ ofNumber p) :
    ∃ x, s.WaitsOn q x ∧ (ofNumber q).Circular (ofNumber x) := by
  rcases Relation.ReflTransGen.cases_head hback with rfl | ⟨x, hqx, hxp⟩
  · exact absurd rfl hne
  · exact ⟨x, hqx, circular_of_cycle hs hqx (hxp.tail h)⟩

/-- **A node is jammed in one of three ways.** -/
theorem jammed_iff (hs : s.Wf nodeWiring) : s.Jammed ↔ NodeJam s := by
  constructor
  · rintro ⟨p, hcall, q, hpath, hcycle | hbehind⟩
    · -- a circle of tasks that wait for each other
      obtain ⟨x, hqx, hxq⟩ := Relation.TransGen.head'_iff.1 hcycle
      have hcircular := circular_of_cycle hs hqx hxq
      generalize hq : ofNumber q = y at hcircular
      generalize hx : ofNumber x = z at hcircular
      cases hcircular with
      | risk => exact .supervisor (blocks_risk hs hqx hq hx)
      | result =>
        obtain ⟨w, hxw, hback⟩ := exists_back hs hqx hxq (by rw [hq, hx]; decide)
        rw [hx] at hback
        generalize hw : ofNumber w = v at hback
        cases hback
        exact .startup (blocks_command hs hxw hx hw) (blocks_result hs hqx hq hx)
      | command =>
        obtain ⟨w, hxw, hback⟩ := exists_back hs hqx hxq (by rw [hq, hx]; decide)
        rw [hx] at hback
        generalize hw : ofNumber w = v at hback
        cases hback
        exact .startup (blocks_command hs hqx hq hx) (blocks_result hs hxw hx hw)
    · exact .lock hcall hpath hbehind
  · rintro (⟨hcall, hpath, hbehind⟩ | hself | ⟨hcommand, hresult⟩)
    · exact ⟨_, hcall, _, hpath, Or.inr hbehind⟩
    · exact ⟨_, hself.waitsOn.mem_calls, _, .refl, Or.inl (.single hself.waitsOn)⟩
    · exact ⟨_, hcommand.waitsOn.mem_calls, _, .refl,
        Or.inl (.head hcommand.waitsOn (.single hresult.waitsOn))⟩

/-! ### Messages lead to others -/

/-- The wiring of a node whose supervisor does not trip on an event. -/
def calmWiring : Wiring :=
  { nodeWiring with
    answers := fun p taken subject => nodeWiring.answers p taken subject ∧ taken ≠ "log.event" }

/-- Every message leads to ones of a lower degree. -/
def subjectDegree (subject : String) : ℕ :=
  if IsMarketSubject subject then 3
  else if subject = ordersCommand then 2
  else if subject = "orders.result" then 1
  else 0

theorem leads_degree {subject subject' : String} (h : calmWiring.Leads subject subject') :
    subjectDegree subject' < subjectDegree subject := by
  obtain ⟨p, hanswers, hevent⟩ := h
  change (ofNumber p).Answers subject subject' at hanswers
  cases hp : ofNumber p with
  | strategy k =>
    rw [hp] at hanswers
    obtain ⟨hmarket, rfl | rfl⟩ := hanswers
    · rw [subjectDegree, subjectDegree, if_pos hmarket]
      decide
    · rw [subjectDegree, subjectDegree, if_pos hmarket]
      decide
  | exec =>
    rw [hp] at hanswers
    obtain ⟨rfl, rfl | rfl | rfl⟩ := hanswers <;> decide
  | risk =>
    rw [hp] at hanswers
    obtain ⟨rfl | rfl, halarm⟩ := hanswers
    · exact (by decide : ∀ s ∈ alarm, subjectDegree s < subjectDegree "orders.result") _ halarm
    · exact absurd rfl hevent
  | _ =>
    rw [hp] at hanswers
    exact absurd hanswers id

theorem calm_wf : WellFounded fun subject' subject => calmWiring.Leads subject subject' :=
  Subrelation.wf (fun h => leads_degree h) (InvImage.wf subjectDegree wellFounded_lt)

theorem calm_publishes {p : ℕ} {subject : String} (h : nodeWiring.Publishes p subject) :
    calmWiring.Publishes p subject := by
  rcases h with h | ⟨taken, h⟩
  · exact Or.inl h
  · by_cases hevent : taken = "log.event"
    · left
      subst hevent
      change (ofNumber p).Answers "log.event" subject at h
      change (ofNumber p).Starts subject
      cases hp : ofNumber p with
      | strategy k =>
        rw [hp] at h
        exact absurd h.1 (by decide)
      | exec =>
        rw [hp] at h
        exact absurd h.1 (by decide)
      | risk =>
        rw [hp] at h
        exact h.2
      | _ =>
        rw [hp] at h
        exact absurd h id
    · exact Or.inr ⟨taken, h, hevent⟩

theorem calm_allows {p : ℕ} {q : LockRequest μ} (h : nodeWiring.Allows p q) :
    calmWiring.Allows p q := by
  cases q with
  | publish task subject msg => exact ⟨h.1, calm_publishes h.2⟩
  | subscribe task subject => exact h

theorem wf_calm (hs : s.Wf nodeWiring) : s.Wf calmWiring where
  locked := hs.locked
  listening := ⟨hs.listening.subs, hs.listening.unique, hs.listening.owned⟩
  silent := hs.silent
  outbox p q hq := calm_allows (hs.outbox p q hq)
  waiting q hq := calm_allows (hs.waiting q hq)
  calls p call h := calm_publishes (hs.calls p call h)

theorem permits_of_calm {a : WiredAction μ} (h : calmWiring.Permits s a) :
    nodeWiring.Permits s a := by
  cases a with
  | handle p requests =>
    intro taken htaken q hq
    obtain ⟨subject, msg, rfl, hanswers⟩ := h taken htaken q hq
    exact ⟨subject, msg, rfl, hanswers.1⟩
  | _ => exact h

/-! ### What a node comes to -/

section Runs

variable {t : WiredBus μ} {as bs : List (WiredAction μ)}

/-- The service that collects heartbeats subscribes, and one is sent. -/
def heartbeatRun : List (WiredAction Unit) :=
  [.work 14 [.subscribe 14 "cluster.heartbeat"], .ask 14, .grant,
    .work 13 [.publish 13 "cluster.heartbeat" ()], .ask 13, .grant, .send 13]

theorem permits_heartbeatRun :
    (wiredBus Unit).Throughout .new nodeWiring.Permits heartbeatRun := by
  refine Interleaving.throughout_of_forall fun a ha u => ?_
  simp only [heartbeatRun, List.mem_cons, List.not_mem_nil, or_false] at ha
  rcases ha with rfl | rfl | rfl | rfl | rfl | rfl | rfl
  · exact fun q hq => Or.inr ⟨_, List.mem_singleton.1 hq, rfl⟩
  · trivial
  · trivial
  · exact fun q hq => Or.inl ⟨_, (), List.mem_singleton.1 hq, rfl⟩
  · trivial
  · trivial
  · trivial

/-- **A node that has jammed stays so**, unless a task is aborted: nobody who is caught moves, and
nobody who waits for the lock behind a subscriber ever gets it. -/
theorem node_stays_jammed
    (hall : (wiredBus μ).Throughout .new nodeWiring.Permits (as ++ bs))
    (h : (wiredBus μ).exec .new as = some s) (hjam : NodeJam s)
    (hkeep : ∀ p, .abort p ∉ bs) (h' : (wiredBus μ).exec s bs = some t) :
    NodeJam t ∧ s.Lost t := by
  have hs : s.Wf nodeWiring := WiredBus.wf_of_exec WiredBus.wf_new hall.left h
  have hlost := WiredBus.Jammed.exec hs ((jammed_iff hs).2 hjam) (hall.right h) hkeep h'
  have ht : t.Wf nodeWiring := WiredBus.wf_of_exec hs (hall.right h) h'
  exact ⟨(jammed_iff ht).1 hlost.jammed, hlost⟩

end Runs

/-! ### A node that jams -/

/-- Events fill the queue of the supervisor, which then has to publish one of its own. -/
def jamming (n : ℕ) : List (WiredAction Unit) :=
  [.work 10 [.subscribe 10 "log.event"], .ask 10, .grant,
    .work 20 (List.replicate n (.publish 20 "log.event" ()))] ++
    (List.replicate n [.ask 20, .grant, .send 20, .finish 20]).flatten ++
    [.work 10 [.publish 10 "log.event" ()], .ask 10, .grant]

/-- So many events are in the queue, and so many have still to be published. -/
structure Filling (s : WiredBus Unit) (sent left : ℕ) : Prop where
  waiting : s.locked.waiting = []
  calls : ∀ p, s.locked.bus.calls.lookup p = none
  subscribers : s.locked.bus.subscribers "log.event" = [0]
  channel : ∃ ch, s.locked.bus.channels.lookup 0 = some ch ∧ ch.subject = "log.event" ∧
    ch.alive = true ∧ ch.queue.length = sent
  supervisor : s.task 10 = ⟨[0], none, []⟩
  refusal : s.task 20 = ⟨[], none, List.replicate left (.publish 20 "log.event" ())⟩
  startup : s.task 16 = .new

theorem exec_filling {s : WiredBus Unit} {sent left : ℕ} (h : Filling s sent (left + 1))
    (hroom : sent < channelCapacity) :
    ∃ t, (wiredBus Unit).exec s [.ask 20, .grant, .send 20, .finish 20] = some t ∧
      Filling t (sent + 1) left := by
  obtain ⟨⟨bus, waiting⟩, tasks⟩ := s
  obtain ⟨rfl, hcalls, hsub, ⟨ch, hch, hsubject, halive, hlen⟩, hrisk, hrefusal, hstartup⟩ := h
  dsimp only at hcalls hsub hch
  have hnot : 20 ∉ bus.calls := Finmap.lookup_eq_none.1 (hcalls 20)
  have hlt : ch.queue.length < channelCapacity := hlen ▸ hroom
  have hexec : (wiredBus Unit).exec ⟨⟨bus, []⟩, tasks⟩
      [.ask 20, .grant, .send 20, .finish 20] = some
        ⟨⟨{ bus with
            calls := ((bus.calls.insert 20 ⟨"log.event", (), [0]⟩).insert 20
              ⟨"log.event", (), []⟩).erase 20
            channels := bus.channels.insert 0
              { ch with queue := ch.queue ++ [⟨20, ()⟩] } }, []⟩,
          tasks.insert 20 ⟨[], none, List.replicate left (.publish 20 "log.event" ())⟩⟩ := by
    simp [wiredBus, Interleaving.exec, lockedBus, LockedBus.Busy, LocalBus.carryOut,
      LocalBus.publish, hcalls, hnot, hsub, LocalBus.send, LockRequest.task, hch, halive, hlt,
      LocalBus.finish, hrefusal, WiredBus.granted, List.replicate_succ]
  refine ⟨_, hexec, rfl, fun p => ?_, hsub, ?_, ?_, ?_, ?_⟩
  · by_cases heq : p = 20
    · rw [heq, Finmap.lookup_erase]
    · rw [Finmap.lookup_erase_ne heq, Finmap.lookup_insert_of_ne _ heq,
        Finmap.lookup_insert_of_ne _ heq, hcalls]
  · exact ⟨_, Finmap.lookup_insert _, hsubject, halive, by simp [hlen]⟩
  · exact (WiredBus.task_insert_ne _ ⟨bus, []⟩ tasks _ (by decide)).trans hrisk
  · exact WiredBus.task_insert_self _ tasks 20 _
  · exact (WiredBus.task_insert_ne _ ⟨bus, []⟩ tasks _ (by decide)).trans hstartup

theorem exec_fill {s : WiredBus Unit} {m : ℕ} (h : Filling s 0 m) : ∀ n left, n + left = m →
    n ≤ channelCapacity → ∃ t, (wiredBus Unit).exec s
      (List.replicate n [.ask 20, .grant, .send 20, .finish 20]).flatten = some t ∧
        Filling t n left := by
  intro n
  induction n with
  | zero => exact fun left hleft _ => ⟨s, rfl, by rw [Nat.zero_add] at hleft; exact hleft ▸ h⟩
  | succ n ih =>
    intro left hleft hn
    obtain ⟨t, ht, hfilling⟩ := ih (left + 1) (by omega) (Nat.le_of_succ_le hn)
    obtain ⟨u, hu, hfilling'⟩ := exec_filling hfilling hn
    refine ⟨u, ?_, hfilling'⟩
    rw [List.replicate_succ', List.flatten_append]
    exact Interleaving.exec_trans ht (by simpa using hu)

/-- The supervisor gets the lock for its event, and its queue is full. -/
theorem exec_alarm {s : WiredBus Unit} (h : Filling s channelCapacity 0) :
    ∃ t, (wiredBus Unit).exec s
        [.work 10 [.publish 10 "log.event" ()], .ask 10, .grant] = some t ∧ NodeJam t ∧
      t.Idle 16 := by
  obtain ⟨⟨bus, waiting⟩, tasks⟩ := s
  obtain ⟨rfl, hcalls, hsub, ⟨ch, hch, hsubject, halive, hlen⟩, hrisk, -, hstartup⟩ := h
  dsimp only at hcalls hsub hch
  have hnot : 10 ∉ bus.calls := Finmap.lookup_eq_none.1 (hcalls 10)
  have hexec : (wiredBus Unit).exec ⟨⟨bus, []⟩, tasks⟩
      [.work 10 [.publish 10 "log.event" ()], .ask 10, .grant] = some
        ⟨⟨{ bus with calls := bus.calls.insert 10 ⟨"log.event", (), [0]⟩ }, []⟩,
          (tasks.insert 10 ⟨[0], none, [.publish 10 "log.event" ()]⟩).insert 10
            ⟨[0], none, []⟩⟩ := by
    have hidle : WiredBus.Idle ⟨⟨bus, []⟩, tasks⟩ 10 := by
      simp [WiredBus.Idle, WiredBus.Talking, hrisk, LockedBus.Busy, hnot]
    have htask := WiredBus.task_insert_self (μ := Unit) ⟨bus, []⟩ tasks 10
      ⟨[0], none, [.publish 10 "log.event" ()]⟩
    simp [wiredBus, Interleaving.exec, lockedBus, LockedBus.Busy, hidle,
      WiredBus.setTask, htask, LocalBus.carryOut, LocalBus.publish, hcalls, hnot, hsub,
      LockRequest.task, hrisk, WiredBus.granted]
  refine ⟨_, hexec, .supervisor ⟨0, ?_, ⟨ch, hch, halive, hlen.ge⟩, ?_, ?_⟩, ?_⟩
  · simp [LocalBus.nextSend, number]
  · rw [show NodeTask.risk.number = 10 from rfl, WiredBus.task_insert_self]
    exact List.mem_cons_self
  · rw [WiredBus.kind_of_lookup hch, hsubject, halive]
  · have hnot' : 16 ∉ bus.calls := Finmap.lookup_eq_none.1 (hcalls 16)
    have htask := (WiredBus.task_insert_ne (μ := Unit) (p := 10) (q := 16) ⟨bus, []⟩ ⟨bus, []⟩ tasks
      ⟨[0], none, [.publish 10 "log.event" ()]⟩ (by decide)).trans hstartup
    rw [WiredBus.Idle, WiredBus.Talking,
      WiredBus.task_insert_ne _ ⟨bus, []⟩ _ _ (by decide : (16 : ℕ) ≠ 10), htask]
    simp [WiredTask.new, LockedBus.Busy, hnot']

theorem exec_subscriber {s : WiredBus Unit} {p : ℕ} (h : s.Idle p) (subject : String) :
    ∃ t, (wiredBus Unit).exec s [.work p [.subscribe p subject], .ask p] = some t := by
  have hbusy : ¬ s.locked.Busy p := fun hbusy => h.2 (Or.inr hbusy)
  have htask := WiredBus.task_insert_self s.locked s.tasks p
    { s.task p with outbox := [.subscribe p subject] }
  have hask : (lockedBus Unit).step s.locked (.ask (.subscribe p subject)) =
      some { s.locked with waiting := s.locked.waiting ++ [.subscribe p subject] } := if_neg hbusy
  simp [wiredBus, Interleaving.exec, WiredBus.setTask, h, htask, hask]

theorem exec_jamming : ∃ s, (wiredBus Unit).exec .new (jamming channelCapacity) = some s ∧
    NodeJam s ∧ s.Idle 16 := by
  obtain ⟨s₁, h₁, hfilling⟩ : ∃ s, (wiredBus Unit).exec .new
      [.work 10 [.subscribe 10 "log.event"], .ask 10, .grant,
        .work 20 (List.replicate channelCapacity (.publish 20 "log.event" ()))] = some s ∧
      Filling s 0 channelCapacity := by
    exact ⟨_, rfl, rfl, fun _ => rfl, rfl, ⟨_, rfl, rfl, rfl, rfl⟩, rfl, rfl, rfl⟩
  obtain ⟨s₂, h₂, hfull⟩ := exec_fill hfilling channelCapacity 0 rfl le_rfl
  obtain ⟨s₃, h₃, hjam⟩ := exec_alarm hfull
  exact ⟨s₃, Interleaving.exec_trans (Interleaving.exec_trans h₁ h₂) h₃, hjam⟩

theorem permits_jamming (n : ℕ) (bs : List (WiredAction Unit))
    (hbs : ∀ b ∈ bs, ∀ u, nodeWiring.Permits u b) :
    (wiredBus Unit).Throughout .new nodeWiring.Permits (jamming n ++ bs) := by
  refine Interleaving.throughout_of_forall fun a ha u => ?_
  rcases List.mem_append.1 ha with ha | ha
  · simp only [jamming, List.mem_append, List.mem_cons, List.not_mem_nil, or_false,
      List.mem_flatten, List.mem_replicate] at ha
    rcases ha with ((rfl | rfl | rfl | rfl) | ⟨cycle, ⟨-, rfl⟩, ha⟩) | rfl | rfl | rfl
    · exact fun q hq => Or.inr ⟨_, List.mem_singleton.1 hq, Or.inr (Or.inl rfl)⟩
    · trivial
    · trivial
    · exact fun q hq => Or.inl ⟨_, (), List.eq_of_mem_replicate hq, rfl⟩
    · simp only [List.mem_cons, List.not_mem_nil, or_false] at ha
      rcases ha with rfl | rfl | rfl | rfl <;> trivial
    · have hevent : "log.event" ∈ alarm := by decide
      exact fun q hq => Or.inl ⟨_, (), List.mem_singleton.1 hq, hevent⟩
    · trivial
    · trivial
  · exact hbs a ha u

/-- The last task of `main` subscribes to a bus that has jammed. -/
theorem node_stays_jammed_subscriber :
    ∃ s t, (wiredBus Unit).exec .new (jamming channelCapacity) = some s ∧
      (wiredBus Unit).exec s [.work 16 [.subscribe 16 "orders.result"], .ask 16] =
        some t ∧ NodeJam t ∧ s.Lost t := by
  obtain ⟨s, hs, hjam, hidle⟩ := exec_jamming
  obtain ⟨t, ht⟩ := exec_subscriber hidle "orders.result"
  refine ⟨s, t, hs, ht, node_stays_jammed (permits_jamming _ _ ?_) hs hjam (by simp) ht⟩
  intro b hb u
  simp only [List.mem_cons, List.not_mem_nil, or_false] at hb
  rcases hb with rfl | rfl
  · exact fun q hq => Or.inr ⟨_, List.mem_singleton.1 hq, rfl⟩
  · trivial

end W2uos
