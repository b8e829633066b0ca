import W2uos.Backtest.Engine
import W2uos.Data.Feeds
import W2uos.Data.Markets
import W2uos.Strategy.Lifecycle

/-!
# Which snapshots reach which pair

Three publishers put snapshots on the bus, and the strategy host subscribes to the subject of every
pair it trades.  All four write a subject in the same way: the printed exchange, a dot, and base and
quote run together in upper case.  Nothing is lost that way, but the subject does not tell where the
base ends, nor, if there are dots in the name of an exchange, where the exchange ends.

* `handed_run` : after a run that works off the queues, a snapshot has been handed to the engine
  under the pairs with its subject;
* `routed_iff` : snapshots are routed right exactly if they do not collide.
-/

namespace W2uos

section Routing

variable [CaseTable]

/-! ### The publishers -/

/-- What publishes snapshots: a round of the simulated feed, a text on the OKX channel, and a
backtest. -/
inductive MarketFeed
  | simulated (priceState : PriceState) (subs : List MarketDataSubscription) (stamp : ℕ → Stamp)
  | okx (txt : String) (stamp : ℕ → Stamp)
  | backtest (config : BacktestConfig) (store : HistoricalStore)

/-- The snapshots published, each with the subject it is published on. -/
def MarketFeed.messages [TickerChannel] : MarketFeed → List (String × MarketSnapshot)
  | simulated priceState subs stamp => markets (runSimulated priceState subs stamp).2
  | okx txt stamp => markets (OkxMarketStream.handleText txt stamp).1
  | backtest config store => (config.replay store).map fun snap => (snap.subject, snap)
where
  /-- The snapshots among what a feed publishes. -/
  markets (outs : List FeedOutput) : List (String × MarketSnapshot) :=
    outs.filterMap fun
      | .market subject snapshot => some (subject, snapshot)
      | .log _ => none

theorem MarketFeed.subject_eq [TickerChannel] {feed : MarketFeed} {subject : String}
    {snap : MarketSnapshot} (h : (subject, snap) ∈ feed.messages) : subject = snap.subject := by
  have hmarkets : ∀ {outs : List FeedOutput},
      (subject, snap) ∈ messages.markets outs → .market subject snap ∈ outs := by
    intro outs hmem
    obtain ⟨out, hout, heq⟩ := List.mem_filterMap.1 hmem
    cases out with
    | market subject' snap' => cases heq; exact hout
    | log evt => cases heq
  cases feed with
  | simulated priceState subs stamp =>
    exact (runSimulated_announces priceState subs stamp).subject_eq (hmarkets h)
  | okx txt stamp =>
    exact (OkxMarketStream.handleText_announces txt stamp).subject_eq (hmarkets h)
  | backtest config store =>
    obtain ⟨snap', -, heq⟩ := List.mem_map.1 h
    cases heq
    rfl

/-! ### Markets and subjects -/

/-- The snapshot is of the market of the pair: the exchange is the same, and base and quote are the
same up to letter case. -/
def PairId.Matches (pair : PairId) (snap : MarketSnapshot) : Prop :=
  pair.exchange = snap.exchange ∧ pair.symbol.SameUpToCase snap.symbol

/-- The pair and the snapshot are of different markets with one subject: two exchanges are printed
alike, a code is split in two ways, or the names overlap. -/
def Collide (pair : PairId) (snap : MarketSnapshot) : Prop :=
  (pair.symbol.code = snap.symbol.code ∧
    (pair.exchange ≠ snap.exchange ∧ pair.exchange.toText = snap.exchange.toText ∨
      pair.exchange = snap.exchange ∧
        (toUppercase pair.symbol.base).length ≠ (toUppercase snap.symbol.base).length)) ∨
  Overlap pair.exchange snap.exchange pair.symbol.code snap.symbol.code ∨
  Overlap snap.exchange pair.exchange snap.symbol.code pair.symbol.code

theorem PairId.Matches.subject_eq {pair : PairId} {snap : MarketSnapshot} (h : pair.Matches snap) :
    marketSubject pair.exchange pair.symbol = snap.subject := by
  obtain ⟨hexchange, hbase, hquote⟩ := h
  rw [MarketSnapshot.subject, marketSubject, marketSubject, hexchange, hbase, hquote]

/-- **Collisions** are the cases in which a pair has the subject of a snapshot of another
market. -/
theorem collide_iff (pair : PairId) (snap : MarketSnapshot) :
    Collide pair snap ↔
      marketSubject pair.exchange pair.symbol = snap.subject ∧ ¬ pair.Matches snap := by
  rw [MarketSnapshot.subject, marketSubject_eq_iff, PairId.Matches, Symbol.sameUpToCase_iff]
  constructor
  · rintro (⟨hcode, (⟨hne, htext⟩ | ⟨hexchange, hlength⟩)⟩ | hoverlap | hoverlap)
    · exact ⟨Or.inl ⟨htext, hcode⟩, fun h => hne h.1⟩
    · exact ⟨Or.inl ⟨congrArg _ hexchange, hcode⟩, fun h => hlength h.2.2⟩
    · exact ⟨Or.inr (Or.inl hoverlap), fun h => hoverlap.ne h.1⟩
    · exact ⟨Or.inr (Or.inr hoverlap), fun h => hoverlap.ne h.1.symm⟩
  · rintro ⟨⟨htext, hcode⟩ | hoverlap, hmatches⟩
    · refine Or.inl ⟨hcode, ?_⟩
      by_cases hexchange : pair.exchange = snap.exchange
      · -- codes that are split at the same place are those of one symbol
        exact Or.inr ⟨hexchange, fun hlength => hmatches ⟨hexchange, hcode, hlength⟩⟩
      · exact Or.inl ⟨hexchange, htext⟩
    · exact Or.inr hoverlap

/-! ### What a run does with a snapshot -/

variable {σ : Type} (engine : StrategyEngine σ)

/-- The next input is the turn of a task of the pair that finds the snapshot while the host is
paused. -/
def SkipsNext (t₀ : TrackedHost σ) (pair : PairId) (snap : MarketSnapshot) (pre : List HostInput)
    (i : HostInput) : Prop :=
  let t := (trackedHost engine).run t₀ pre
  t.host.paused = true ∧ ∃ k fresh utc task, i = .turn k fresh utc ∧
    t.host.tasks[k]? = some task ∧ task.pair = pair ∧ task.outbox = [] ∧
    task.queue.head? = some snap

/-- After the history `h`, the tasks with the subject of the snapshot, and no others, have it in
their queues or have handled it. -/
structure Routes (t₀ : TrackedHost σ) (snap : MarketSnapshot) (h : List HostInput)
    (t : TrackedHost σ) (es : List HostEvent) : Prop where
  run : t = (trackedHost engine).run t₀ h
  queued : ∀ task ∈ t.host.tasks, snap ∈ task.queue → task.subject = snap.subject
  handled : ∀ pair outcome, .handled pair snap outcome ∈ es →
    marketSubject pair.exchange pair.symbol = snap.subject
  reached : .deliver snap ∈ h → ∀ task ∈ t.host.tasks, task.subject = snap.subject →
    snap ∈ task.queue ∨ (∃ outcome, .handled task.pair snap outcome ∈ es) ∨
      Once (SkipsNext engine t₀ task.pair snap) h

omit [CaseTable] in
/-- What the turn of a task does to the tasks, and whether the engine is invoked. -/
theorem turn_cases (t : TrackedHost σ) (k : ℕ) (fresh : TraceId) (utc : DateTime) :
    ((∀ task' ∈ (t.host.step engine k fresh utc).1.tasks, ∃ task ∈ t.host.tasks,
        task.pair = task'.pair ∧ task.queue = task'.queue) ∧
      ∀ pair snap outcome, .handled pair snap outcome ∉ (t.observe engine k).2) ∨
    ∃ task snap queue outbox, t.host.tasks[k]? = some task ∧ task.outbox = [] ∧
      task.queue = snap :: queue ∧
      (t.host.step engine k fresh utc).1.tasks =
        t.host.tasks.set k { task with queue := queue, outbox := outbox } ∧
      (t.observe engine k).2 = if t.host.paused then [] else
        [.handled task.pair snap (engine.onMarketSnapshot t.host.engine task.pair snap).1] := by
  rcases t.host.step_cases engine fresh utc k with ⟨hnone, hstep⟩ |
    ⟨task, out, outbox, htask, houtbox, hstep⟩ |
    ⟨task, snap, queue, htask, houtbox, hqueue, hstep⟩
  · rw [hstep, t.observe_idle engine hnone]
    exact Or.inl ⟨fun task hmem => ⟨task, hmem, rfl, rfl⟩, by simp⟩
  · rw [hstep]
    refine Or.inl ⟨?_, ?_⟩
    · intro task' hmem
      rcases List.mem_or_eq_of_mem_set hmem with hmem | rfl
      · exact ⟨task', hmem, rfl, rfl⟩
      · exact ⟨task, List.mem_of_getElem? htask, rfl, rfl⟩
    · exact t.not_handled_of_publish engine htask houtbox
  · let handled := handleSnapshot engine t.host.engine t.host.paused task.pair snap fresh utc
    refine Or.inr ⟨task, snap, queue, handled.2, htask, houtbox, hqueue, ?_, ?_⟩
    · rw [hstep]
    · rw [t.observe_take engine htask houtbox hqueue]

variable {engine} {t₀ t : TrackedHost σ} {snap : MarketSnapshot} {h : List HostInput}
  {es : List HostEvent}

theorem handled_or_skipped_mono {pair : PairId} (i : HostInput) (fs : List HostEvent)
    (hdone : (∃ outcome, .handled pair snap outcome ∈ es) ∨
      Once (SkipsNext engine t₀ pair snap) h) :
    (∃ outcome, .handled pair snap outcome ∈ es ++ fs) ∨
      Once (SkipsNext engine t₀ pair snap) (h ++ [i]) := by
  rcases hdone with ⟨outcome, hmem⟩ | hskip
  · exact Or.inl ⟨outcome, List.mem_append_left _ hmem⟩
  · exact Or.inr (once_concat.2 (Or.inl hskip))

theorem Routes.frame (hr : Routes engine t₀ snap h t es) {i : HostInput} {fs : List HostEvent}
    (hdeliver : i ≠ .deliver snap)
    (htasks : ∀ task' ∈ ((trackedHost engine).next t i).host.tasks, ∃ task ∈ t.host.tasks,
      task.pair = task'.pair ∧ task.queue = task'.queue)
    (hfs : ∀ pair outcome, .handled pair snap outcome ∉ fs) :
    Routes engine t₀ snap (h ++ [i]) ((trackedHost engine).next t i) (es ++ fs) := by
  have hsubject : ∀ {task task' : HostTask}, task.pair = task'.pair →
      task.subject = task'.subject := by
    intro task task' hpair
    rw [HostTask.subject, HostTask.subject, hpair]
  refine ⟨?_, ?_, ?_, ?_⟩
  · rw [Machine.run_concat, ← hr.run]
  · intro task' hmem' hsnap
    obtain ⟨task, hmem, hpair, hqueue⟩ := htasks task' hmem'
    exact (hsubject hpair).symm.trans (hr.queued task hmem (hqueue ▸ hsnap))
  · intro pair outcome hmem
    exact hr.handled pair outcome ((List.mem_append.1 hmem).resolve_right (hfs pair outcome))
  · intro hdelivered task' hmem' hs
    obtain ⟨task, hmem, hpair, hqueue⟩ := htasks task' hmem'
    have hbefore : .deliver snap ∈ h := by
      refine (List.mem_append.1 hdelivered).resolve_right fun hi => hdeliver ?_
      exact (List.mem_singleton.1 hi).symm
    rw [← hpair, ← hqueue]
    exact (hr.reached hbefore task hmem ((hsubject hpair).trans hs)).imp_right
      (handled_or_skipped_mono i fs)

theorem Routes.deliver (hr : Routes engine t₀ snap h t es) (y : MarketSnapshot) :
    Routes engine t₀ snap (h ++ [.deliver y])
      ((trackedHost engine).next t (.deliver y)) es := by
  have hmem_tasks : ∀ {task'}, task' ∈ ((trackedHost engine).next t (.deliver y)).host.tasks →
      ∃ task ∈ t.host.tasks, task' =
        if task.subject = y.subject then { task with queue := task.queue ++ [y] } else task := by
    intro task' hmem'
    obtain ⟨task, hmem, heq⟩ := List.mem_map.1 hmem'
    exact ⟨task, hmem, heq.symm⟩
  refine ⟨?_, ?_, hr.handled, ?_⟩
  · rw [Machine.run_concat, ← hr.run]
  · intro task' hmem' hsnap
    obtain ⟨task, hmem, rfl⟩ := hmem_tasks hmem'
    split_ifs at hsnap ⊢ with hs
    · rcases List.mem_append.1 hsnap with hsnap | hsnap
      · exact hr.queued task hmem hsnap
      · rw [List.mem_singleton.1 hsnap]
        exact hs
    · exact hr.queued task hmem hsnap
  · intro hdelivered task' hmem' hsubject
    obtain ⟨task, hmem, rfl⟩ := hmem_tasks hmem'
    by_cases hy : y = snap
    · -- it has just been put there
      subst hy
      refine Or.inl ?_
      split_ifs at hsubject ⊢ with hs
      · simp
      · exact absurd hsubject hs
    · have hbefore : .deliver snap ∈ h := by
        refine (List.mem_append.1 hdelivered).resolve_right ?_
        simp [Ne.symm hy]
      have hskips : ∀ {pair}, Once (SkipsNext engine t₀ pair snap) h →
          Once (SkipsNext engine t₀ pair snap) (h ++ [.deliver y]) :=
        fun hskip => once_concat.2 (Or.inl hskip)
      split_ifs at hsubject ⊢ with hs
      · exact (hr.reached hbefore task hmem hsubject).imp (List.mem_append_left _)
          (Or.imp_right hskips)
      · exact (hr.reached hbefore task hmem hsubject).imp_right (Or.imp_right hskips)

/-- A snapshot that is taken from a queue is handled, or the host is paused. -/
theorem Routes.turn (hr : Routes engine t₀ snap h t es) (k : ℕ) (fresh : TraceId)
    (utc : DateTime) :
    Routes engine t₀ snap (h ++ [.turn k fresh utc])
      ((trackedHost engine).next t (.turn k fresh utc))
      (es ++ (trackedHost engine).emit t (.turn k fresh utc)) := by
  rcases turn_cases engine t k fresh utc with ⟨htasks, hnone⟩ |
    ⟨task, y, queue, outbox, htask, houtbox, hqueue, hset, hevents⟩
  · exact hr.frame (by simp) htasks fun pair outcome => hnone pair snap outcome
  have hmem := List.mem_of_getElem? htask
  have hemit : (trackedHost engine).emit t (.turn k fresh utc) = (t.observe engine k).2 := rfl
  have hmem_tasks : ∀ {task'},
      task' ∈ ((trackedHost engine).next t (.turn k fresh utc)).host.tasks →
        task' ∈ t.host.tasks ∨ task' = { task with queue := queue, outbox := outbox } := by
    intro task' hmem'
    have hmem'' : task' ∈ (t.host.step engine k fresh utc).1.tasks := hmem'
    rw [hset] at hmem''
    exact List.mem_or_eq_of_mem_set hmem''
  have hqueued : ∀ {x}, x ∈ queue → x ∈ task.queue := by
    intro x hx
    rw [hqueue]
    exact List.mem_cons_of_mem _ hx
  refine ⟨?_, ?_, ?_, ?_⟩
  · rw [Machine.run_concat, ← hr.run]
  · intro task' hmem' hsnap
    rcases hmem_tasks hmem' with hold | rfl
    · exact hr.queued task' hold hsnap
    · exact hr.queued task hmem (hqueued hsnap)
  · intro pair outcome hin
    rcases List.mem_append.1 hin with hin | hin
    · exact hr.handled pair outcome hin
    · -- the task is the one whose queue the snapshot was in
      rw [hemit, hevents] at hin
      split_ifs at hin
      · cases hin
      · cases List.mem_singleton.1 hin
        refine hr.queued task hmem ?_
        rw [hqueue]
        exact List.mem_cons_self
  · intro hdelivered task' hmem' hsubject
    have hbefore : .deliver snap ∈ h := (List.mem_append.1 hdelivered).resolve_right (by simp)
    rcases hmem_tasks hmem' with hold | rfl
    · exact (hr.reached hbefore task' hold hsubject).imp_right (handled_or_skipped_mono _ _)
    · rcases hr.reached hbefore task hmem hsubject with hsnap | hdone
      · rw [hqueue] at hsnap
        rcases List.mem_cons.1 hsnap with rfl | hsnap
        · -- its turn has come
          refine Or.inr ?_
          cases hpaused : t.host.paused with
          | false =>
            refine Or.inl ⟨(engine.onMarketSnapshot t.host.engine task.pair snap).1,
              List.mem_append_right _ ?_⟩
            rw [hemit, hevents, hpaused]
            exact List.mem_singleton.2 rfl
          | true =>
            refine Or.inr (once_concat.2 (Or.inr ?_))
            rw [SkipsNext, ← hr.run]
            refine ⟨hpaused, k, fresh, utc, task, rfl, htask, rfl, houtbox, ?_⟩
            rw [hqueue]
            rfl
        · exact Or.inl hsnap
      · exact Or.inr (handled_or_skipped_mono _ _ hdone)

/-- **The step lemma of the routing.** -/
theorem Routes.step (hr : Routes engine t₀ snap h t es) (i : HostInput) :
    Routes engine t₀ snap (h ++ [i]) ((trackedHost engine).next t i)
      (es ++ (trackedHost engine).emit t i) := by
  have hsame : ∀ task' ∈ t.host.tasks, ∃ task ∈ t.host.tasks,
      task.pair = task'.pair ∧ task.queue = task'.queue :=
    fun task' hmem => ⟨task', hmem, rfl, rfl⟩
  cases i with
  | deliver y =>
    rw [show (trackedHost engine).emit t (.deliver y) = [] from rfl, List.append_nil]
    exact hr.deliver y
  | turn k fresh utc => exact hr.turn k fresh utc
  | pause => exact hr.frame (by simp) hsame fun _ _ => List.not_mem_nil
  | resume => exact hr.frame (by simp) hsame fun _ _ => List.not_mem_nil

variable (engine)

theorem routes_run (state : σ) (subscriptions : List StrategySubscription) (snap : MarketSnapshot)
    (is : List HostInput) :
    Routes engine (.start state subscriptions) snap is
      ((trackedHost engine).run (.start state subscriptions) is)
      ((trackedHost engine).output (.start state subscriptions) is) := by
  refine Machine.history_induction (M := trackedHost engine) (Q := fun _ => True)
    (P := Routes engine (.start state subscriptions) snap) ?_ (fun h t es i hr _ => hr.step i)
    (fun (i : HostInput) (_ : i ∈ is) => trivial)
  refine ⟨rfl, ?_, ?_, ?_⟩
  · intro task hmem hsnap
    obtain ⟨sub, -, rfl⟩ := List.mem_map.1 hmem
    cases hsnap
  · intro pair outcome hmem
    cases hmem
  · intro hdelivered
    cases hdelivered

/-- **Who gets a snapshot**: after a run that works off the queues, the engine has been invoked on a
published snapshot under the pairs with its subject, unless the host was paused when a task of the
pair came to it. -/
theorem handed_run (state : σ) (subscriptions : List StrategySubscription) {snap : MarketSnapshot}
    {is : List HostInput} (hdelivered : .deliver snap ∈ is)
    (hdrained : ∀ task ∈ ((trackedHost engine).run (.start state subscriptions) is).host.tasks,
      task.queue = [])
    {sub : StrategySubscription} (hsub : sub ∈ subscriptions)
    (hskip : ¬ Once (SkipsNext engine (.start state subscriptions) sub.toPair snap) is) :
    (∃ outcome, .handled sub.toPair snap outcome ∈
        (trackedHost engine).output (.start state subscriptions) is) ↔
      marketSubject sub.exchange sub.symbol = snap.subject := by
  have hr := routes_run engine state subscriptions snap is
  constructor
  · rintro ⟨outcome, hmem⟩
    exact hr.handled sub.toPair outcome hmem
  · intro hsubject
    -- the pair has a task, and nothing is left in its queue
    have hpairs : ((trackedHost engine).run (.start state subscriptions) is).host.tasks.map
        HostTask.pair = subscriptions.map StrategySubscription.toPair := by
      refine Machine.run_invariant (M := trackedHost engine) (Q := fun _ => True)
        (P := fun t => t.host.tasks.map HostTask.pair =
          subscriptions.map StrategySubscription.toPair) ?_
        (fun t i ht _ => (pairs_step t i).trans ht) (fun (i : HostInput) (_ : i ∈ is) => trivial)
      simp [TrackedHost.start, StrategyHost.start, StrategySubscription.toPair]
    obtain ⟨task, hmem, hpair⟩ := List.mem_map.1 (hpairs ▸ List.mem_map_of_mem hsub)
    have hreached := hr.reached hdelivered task hmem (by
      rw [HostTask.subject, hpair]
      exact hsubject)
    rw [hdrained task hmem, hpair] at hreached
    exact (hreached.resolve_left List.not_mem_nil).resolve_right hskip

/-! ### Routing -/

/-- In every run that works off the queues, and in which the host is not paused when a task of the
pair comes to the snapshot, a published snapshot is handed to the engine under the pair exactly if
it is of its market. -/
def Routed (state : σ) (subscriptions : List StrategySubscription) (pair : PairId)
    (snap : MarketSnapshot) : Prop :=
  let t₀ := TrackedHost.start state subscriptions
  ∀ is : List HostInput, .deliver snap ∈ is →
    (∀ task ∈ ((trackedHost engine).run t₀ is).host.tasks, task.queue = []) →
    ¬ Once (SkipsNext engine t₀ pair snap) is →
    ((∃ outcome, .handled pair snap outcome ∈ (trackedHost engine).output t₀ is) ↔
      pair.Matches snap)

theorem routed_iff_not_collide (state : σ) (subscriptions : List StrategySubscription)
    (snap : MarketSnapshot) {sub : StrategySubscription} (hsub : sub ∈ subscriptions) :
    Routed engine state subscriptions sub.toPair snap ↔ ¬ Collide sub.toPair snap := by
  rw [collide_iff, not_and, not_not]
  constructor
  · intro hrouted hsubject
    -- publish the snapshot, and work it off
    obtain ⟨bs, htraffic, -, hdrained⟩ := exists_drained engine
      ((trackedHost engine).next (.start state subscriptions) (.deliver snap))
    have hskip : ¬ Once (SkipsNext engine (.start state subscriptions) sub.toPair snap)
        (.deliver snap :: bs) := by
      rintro ⟨pre, i, post, heq, hpaused, -⟩
      have hpre : ∀ j ∈ pre, j.IsTraffic := by
        intro j hj
        have hmem : j ∈ HostInput.deliver snap :: bs := heq ▸ List.mem_append_left _ hj
        rcases List.mem_cons.1 hmem with rfl | hmem
        · trivial
        · exact htraffic j hmem
      have hrunning := (invocations_run engine (t := .start state subscriptions) snap rfl hpre).1
      rw [hrunning] at hpaused
      cases hpaused
    have hdelivered : .deliver snap ∈ HostInput.deliver snap :: bs := List.mem_cons_self
    have hhanded :=
      (handed_run engine state subscriptions hdelivered hdrained hsub hskip).2 hsubject
    exact (hrouted _ hdelivered hdrained hskip).1 hhanded
  · intro hmatches is hdelivered hdrained hskip
    rw [handed_run engine state subscriptions hdelivered hdrained hsub hskip]
    exact ⟨hmatches, PairId.Matches.subject_eq⟩

/-- **When snapshots are routed right**: whoever publishes one does so on its own subject, and it is
handed to the engine under the right pairs exactly if the pair does not collide with it. -/
theorem routed_iff [TickerChannel] (state : σ) (subscriptions : List StrategySubscription)
    {feed : MarketFeed} {subject : String} {snap : MarketSnapshot}
    (hmessage : (subject, snap) ∈ feed.messages) {sub : StrategySubscription}
    (hsub : sub ∈ subscriptions) :
    subject = snap.subject ∧
      (Routed engine state subscriptions sub.toPair snap ↔ ¬ Collide sub.toPair snap) :=
  ⟨MarketFeed.subject_eq hmessage, routed_iff_not_collide engine state subscriptions snap hsub⟩

end Routing

/-! ### One code, two symbols -/

/-- A feed of a market on OKX. -/
def okxFeed (symbol : Symbol) : MarketFeed :=
  .simulated ∅ [{ exchange := .okx, symbol := symbol, wsUrl := "" }] fun _ =>
    { now := 0, traceId := "trace" }

/-- Its snapshot. -/
def okxFeedSnapshot (symbol : Symbol) : MarketSnapshot where
  ts := 0
  exchange := .okx
  symbol := symbol
  last := 30000
  bid := 30000 - 3 / 2
  ask := 30000 + 3 / 2
  volume24h := 30000 / 1000 * 10
  traceId := some "trace"

/-- A parser that knows no tickers. -/
@[reducible] def noTickers : TickerChannel where
  parseEnvelope _ := .error "no envelope"

theorem routed_iff_btc :
    let sub : StrategySubscription := ⟨.okx, ⟨"BTC", "USDT"⟩⟩
    "market.OKX.BTCUSDT" = @MarketSnapshot.subject asciiCase _ (okxFeedSnapshot ⟨"btc", "USDT"⟩) ∧
      (@Routed asciiCase Unit buyer () twoMarkets sub.toPair (okxFeedSnapshot ⟨"btc", "USDT"⟩) ↔
        ¬ @Collide asciiCase sub.toPair (okxFeedSnapshot ⟨"btc", "USDT"⟩)) := by
  exact @routed_iff asciiCase Unit buyer noTickers () twoMarkets (okxFeed ⟨"btc", "USDT"⟩)
    "market.OKX.BTCUSDT" (okxFeedSnapshot ⟨"btc", "USDT"⟩) (by decide +kernel)
    ⟨.okx, ⟨"BTC", "USDT"⟩⟩ (by decide)

/-- **A snapshot reaches the wrong pair**: one of BTCB/USD is handed to the engine as one of
BTC/BUSD, and an order for BTC/BUSD is published. -/
theorem not_routed :
    let sub : StrategySubscription := ⟨.okx, ⟨"BTC", "BUSD"⟩⟩
    let snap := okxFeedSnapshot ⟨"BTCB", "USD"⟩
    (@MarketSnapshot.subject asciiCase _ snap, snap) ∈
        @MarketFeed.messages asciiCase noTickers (okxFeed ⟨"BTCB", "USD"⟩) ∧
      ¬ @Routed asciiCase Unit buyer () [sub] sub.toPair snap ∧
      (HostEvent.orders ((@trackedHost asciiCase Unit buyer).output (.start () [sub])
        [.deliver snap, .turn 0 "" 0, .turn 0 "" 0])).map OrderCommand.symbol =
          [⟨"BTC", "BUSD"⟩] := by
  refine ⟨by decide +kernel, ?_, by decide⟩
  rw [@routed_iff_not_collide asciiCase Unit buyer () _ _ _ (List.mem_singleton.2 rfl), not_not]
  exact Or.inl ⟨by decide, Or.inr ⟨rfl, by decide⟩⟩

end W2uos
