import W2uos.Strategy.Lifecycle

/-!
# Subscriptions and their configuration

A message on `control.config.update.strategy` replaces the subscriptions in the shared
configuration.  The consumers have been spawned for a copy that `start` has taken before, and no
task looks at the configuration again.  What the host listens to is therefore what was configured
at its starts.

* `handsOver_iff` : the service hands over its markets;
* `handsOver_run` : these are the markets of all starts;
* `subscriptionsFollow_iff` : exactly when the subscriptions follow the configuration.
-/

namespace W2uos

section Subscriptions

variable [CaseTable] {σ : Type} (engine : StrategyEngine σ)

omit [CaseTable] in
/-- What happens without calls and updates. -/
def LifecycleInput.IsWork : LifecycleInput → Prop
  | .subscribe _ | .cancel _ | .host _ => True
  | .start | .stop | .configUpdate _ => False

/-- The service gives a snapshot of a market to the engine, after some work of its tasks. -/
def HandsOver (s : HostService σ) (pair : PairId) : Prop :=
  ∃ is : List LifecycleInput, (∀ i ∈ is, i.IsWork) ∧ ∃ snap outcome,
    .handled pair snap outcome ∈ (hostService engine).output s is

omit [CaseTable] in
/-- The markets of the consumers, and those the outer tasks have still to subscribe to. -/
def HostService.markets (s : HostService σ) : List PairId :=
  s.tasks.map HostTask.pair ++ s.toSubscribe.map StrategySubscription.toPair

variable {engine} {s : HostService σ} {t : TrackedHost σ} {pair : PairId}

/-! ### Only its markets are handed over -/

omit [CaseTable] in
/-- A task that gives a snapshot to the engine does so for its own market. -/
theorem TrackedHost.handled_mem {k : ℕ} {snap : MarketSnapshot} {outcome : StrategyOutcome}
    (h : .handled pair snap outcome ∈ (t.observe engine k).2) :
    pair ∈ t.host.tasks.map HostTask.pair := by
  unfold observe at h
  cases htask : t.host.tasks[k]? with
  | none => simp [htask] at h
  | some task =>
    have hmem := List.mem_map_of_mem (f := HostTask.pair) (List.mem_of_getElem? htask)
    rw [htask] at h
    dsimp only at h
    split at h
    · split at h <;> simp at h
    · simp at h
    · split_ifs at h
      · simp at h
      · rw [List.mem_singleton, HostEvent.handled.injEq] at h
        rw [h.1]
        exact hmem
    · simp at h

omit [CaseTable] in
/-- An aborted outer task does not subscribe to the rest of its markets. -/
theorem HostService.markets_cancel (s : HostService σ) (j : ℕ) :
    (s.cancel j).markets ⊆ s.markets := by
  unfold cancel
  split
  · refine List.append_subset.2 ⟨List.subset_append_left _ _, ?_⟩
    refine List.Subset.trans (List.map_subset _ ?_) (List.subset_append_right _ _)
    intro sub hsub
    obtain ⟨spawner, hmem, hremaining⟩ := List.mem_flatMap.1 hsub
    rcases List.mem_or_eq_of_mem_set hmem with hmem | rfl
    · exact List.mem_flatMap.2 ⟨spawner, hmem, hremaining⟩
    · cases hremaining
  · exact List.Subset.refl _

variable (engine) in
/-- **The step lemma of the markets**: work adds no market, and only markets are handed over. -/
theorem markets_step (s : HostService σ) {i : LifecycleInput} (hi : i.IsWork) :
    ((hostService engine).next s i).markets ⊆ s.markets ∧
      ∀ pair snap outcome, .handled pair snap outcome ∈ (hostService engine).emit s i →
        pair ∈ s.markets := by
  cases i with
  | start => cases hi
  | stop => cases hi
  | configUpdate bot => cases hi
  | subscribe j => exact ⟨(s.pairs_subscribe j).subset, by simp [hostService, Machine.emit]⟩
  | cancel j => exact ⟨s.markets_cancel j, by simp [hostService, Machine.emit]⟩
  | host i =>
    by_cases hnil : s.spawners = []
    · have hstep : (hostService engine).step s (.host i) = (s, []) := by
        simp only [hostService, hnil, ↓reduceIte]
      rw [Machine.next, Machine.emit, hstep]
      exact ⟨List.Subset.refl _, by simp⟩
    · have hstep : (hostService engine).step s (.host i) =
          ({ s with tracked := ((trackedHost engine).step s.tracked i).1 },
            ((trackedHost engine).step s.tracked i).2) := by
        simp only [hostService, if_neg hnil]
      rw [Machine.next, Machine.emit, hstep]
      have hpairs : ((trackedHost engine).next s.tracked i).host.tasks.map HostTask.pair =
          s.tracked.host.tasks.map HostTask.pair := pairs_step s.tracked i
      constructor
      · show ((trackedHost engine).next s.tracked i).host.tasks.map HostTask.pair ++ _ ⊆ _
        rw [hpairs]
        exact List.Subset.refl _
      · intro pair snap outcome hmem
        refine List.mem_append_left _ ?_
        cases i with
        | turn k fresh utc => exact TrackedHost.handled_mem hmem
        | deliver y => cases hmem
        | pause => cases hmem
        | resume => cases hmem

theorem HandsOver.mem_markets (h : HandsOver engine s pair) : pair ∈ s.markets := by
  obtain ⟨is, his, snap, outcome, hmem⟩ := h
  induction is generalizing s with
  | nil => cases hmem
  | cons i is ih =>
    obtain ⟨hi, his⟩ := List.forall_mem_cons.1 his
    obtain ⟨hsubset, hemit⟩ := markets_step engine s hi
    rw [Machine.output_cons, List.mem_append] at hmem
    obtain hmem | hmem := hmem
    · exact hemit pair snap outcome hmem
    · exact hsubset (ih his hmem)

/-! ### All its markets are -/

theorem HandsOver.of_run {is : List LifecycleInput} (his : ∀ i ∈ is, i.IsWork)
    (h : HandsOver engine ((hostService engine).run s is) pair) : HandsOver engine s pair := by
  obtain ⟨js, hjs, snap, outcome, hmem⟩ := h
  refine ⟨is ++ js, ?_, snap, outcome, ?_⟩
  · intro i hi
    exact (List.mem_append.1 hi).elim (his i) (hjs i)
  · rw [Machine.output_append]
    exact List.mem_append_right _ hmem

variable (engine) in
/-- A task of a host that is not paused can come to give a snapshot to the engine. -/
theorem exists_handled (hpaused : t.host.paused = false) {k : ℕ} {task : HostTask}
    (htask : t.host.tasks[k]? = some task) :
    ∃ bs snap outcome, .handled task.pair snap outcome ∈ (trackedHost engine).output t bs := by
  -- it publishes what is in its outbox, and then takes the first snapshot of its queue
  induction houtbox : task.outbox generalizing t task with
  | nil =>
    let x : MarketSnapshot :=
      { ts := 0, exchange := task.pair.exchange, symbol := task.pair.symbol, last := 0, bid := 0
        ask := 0, volume24h := 0, traceId := none }
    have hdelivered : ((trackedHost engine).next t (.deliver x)).host.tasks[k]? =
        some { task with queue := task.queue ++ [x] } := by
      show (List.map _ t.host.tasks)[k]? = _
      rw [List.getElem?_map, htask, Option.map_some]
      exact congrArg some (if_pos rfl)
    obtain ⟨snap, queue, hqueue⟩ := List.exists_cons_of_ne_nil
      (List.append_ne_nil_of_right_ne_nil task.queue (List.cons_ne_nil x []))
    refine ⟨[.deliver x, .turn k "" 0], snap,
      (engine.onMarketSnapshot t.host.engine task.pair snap).1, ?_⟩
    rw [Machine.output_cons, Machine.output_cons]
    refine List.mem_append_right _ (List.mem_append_left _ ?_)
    show _ ∈ (TrackedHost.observe engine _ k).2
    have hrun : ((trackedHost engine).next t (.deliver x)).host.paused = false := hpaused
    rw [TrackedHost.observe_take engine _ hdelivered houtbox hqueue, hrun,
      if_neg Bool.false_ne_true]
    exact List.mem_singleton.2 rfl
  | cons out outbox ih =>
    have hnext : ((trackedHost engine).next t (.turn k "" 0)).host =
        { t.host with tasks := t.host.tasks.set k { task with outbox := outbox } } :=
      congrArg Prod.fst (t.host.step_publish engine "" 0 htask houtbox)
    have hget : ((trackedHost engine).next t (.turn k "" 0)).host.tasks[k]? =
        some { task with outbox := outbox } := by
      rw [hnext]
      exact List.getElem?_set_self (List.getElem?_eq_some_iff.1 htask).1
    have hrun : ((trackedHost engine).next t (.turn k "" 0)).host.paused = false := by
      rw [hnext]
      exact hpaused
    obtain ⟨bs, snap, outcome, hmem⟩ := ih hrun hget rfl
    exact ⟨.turn k "" 0 :: bs, snap, outcome, List.mem_append_right _ hmem⟩

theorem handsOver_of_task (hs : s.spawners ≠ []) (hpair : pair ∈ s.tasks.map HostTask.pair) :
    HandsOver engine s pair := by
  obtain ⟨task, htask, rfl⟩ := List.mem_map.1 hpair
  obtain ⟨k, hk⟩ := List.getElem?_of_mem htask
  obtain ⟨bs, snap, outcome, hmem⟩ := exists_handled engine
    (t := (trackedHost engine).next s.tracked .resume) rfl hk
  refine ⟨(.resume :: bs).map .host, ?_, snap, outcome, ?_⟩
  · intro i hi
    obtain ⟨b, -, rfl⟩ := List.mem_map.1 hi
    trivial
  · rw [(traffic_host engine (Or.inl hs) _).2, Machine.output_cons]
    exact List.mem_append_right _ hmem

variable (engine) in
theorem exists_subscribed {j : ℕ} {spawner : Spawner} (hj : s.spawners[j]? = some spawner)
    {sub : StrategySubscription} (hsub : sub ∈ spawner.remaining) :
    ∃ is : List LifecycleInput, (∀ i ∈ is, i.IsWork) ∧
      ((hostService engine).run s is).spawners ≠ [] ∧
      sub.toPair ∈ ((hostService engine).run s is).tasks.map HostTask.pair := by
  obtain ⟨remaining, aborted⟩ := spawner
  dsimp only at hsub
  induction remaining generalizing s with
  | nil => cases hsub
  | cons first remaining ih =>
    have hnext : (hostService engine).next s (.subscribe j) =
        { s with
          spawners := s.spawners.set j ⟨remaining, aborted⟩
          tracked := { s.tracked with host :=
            { s.tracked.host with tasks := s.tracked.host.tasks ++ [first.task] } } } := by
      show s.subscribe j = _
      simp only [HostService.subscribe, hj]
    have hlt := (List.getElem?_eq_some_iff.1 hj).1
    have hget : ((hostService engine).next s (.subscribe j)).spawners[j]? =
        some ⟨remaining, aborted⟩ := by
      rw [hnext]
      exact List.getElem?_set_self hlt
    obtain rfl | hsub := List.mem_cons.1 hsub
    · refine ⟨[.subscribe j], by simp [LifecycleInput.IsWork], ?_, ?_⟩
      · intro hnil
        rw [Machine.run_cons, Machine.run_nil] at hnil
        rw [hnil] at hget
        cases hget
      · rw [Machine.run_cons, Machine.run_nil, hnext, HostService.tasks, List.map_append]
        exact List.mem_append_right _ (List.mem_singleton.2 rfl)
    · obtain ⟨is, his, hspawners, hmem⟩ := ih hget hsub
      exact ⟨.subscribe j :: is, List.forall_mem_cons.2 ⟨trivial, his⟩, hspawners, hmem⟩

/-- **What a started service hands over**: its markets. -/
theorem handsOver_iff (hs : s.spawners ≠ []) : HandsOver engine s pair ↔ pair ∈ s.markets := by
  refine ⟨HandsOver.mem_markets, ?_⟩
  intro hpair
  obtain hpair | hpair := List.mem_append.1 hpair
  · exact handsOver_of_task hs hpair
  · obtain ⟨sub, hsub, rfl⟩ := List.mem_map.1 hpair
    obtain ⟨spawner, hspawner, hsub⟩ := List.mem_flatMap.1 hsub
    obtain ⟨j, hj⟩ := List.getElem?_of_mem hspawner
    obtain ⟨is, his, hspawners, hmem⟩ := exists_subscribed engine hj hsub
    exact (handsOver_of_task hspawners hmem).of_run his

/-! ### The configuration -/

variable (engine) in
/-- The service hands over the markets of its configuration, and so would a service that is started
with this configuration. -/
structure SubscriptionsFollow (state : σ) (s : HostService σ) : Prop where
  configured : ∀ pair, HandsOver engine s pair ↔
    pair ∈ s.subscriptions.map StrategySubscription.toPair
  asStarted : ∀ pair, HandsOver engine s pair ↔
    HandsOver engine (HostService.new state s.subscriptions).start pair

variable (engine) in
/-- A service that has just been started hands over what it is configured for. -/
theorem handsOver_start (state : σ) (subscriptions : List StrategySubscription) :
    HandsOver engine (HostService.new state subscriptions).start pair ↔
      pair ∈ subscriptions.map StrategySubscription.toPair := by
  have hstarted : (HostService.new state subscriptions).start.spawners ≠ [] :=
    List.cons_ne_nil _ _
  have hmarkets : (HostService.new state subscriptions).start.markets =
      subscriptions.map StrategySubscription.toPair :=
    congrArg (List.map StrategySubscription.toPair) (List.append_nil subscriptions)
  rw [handsOver_iff hstarted, hmarkets]

omit [CaseTable] in
/-- Neither `start` nor `stop` is called. -/
def LifecycleInput.IsNoCall : LifecycleInput → Prop
  | .start | .stop => False
  | .subscribe _ | .cancel _ | .configUpdate _ | .host _ => True

omit [CaseTable] in
/-- The configurations that arrive. -/
def configUpdates (is : List LifecycleInput) : List BotConfig :=
  is.filterMap fun
    | .configUpdate bot => some bot
    | _ => none

omit [CaseTable] in
/-- The account of a service that is started once: it has started what it was configured for, and
is configured as the last update says. -/
theorem starts_once (subscriptions : List StrategySubscription) {is : List LifecycleInput}
    (his : ∀ i ∈ is, i.IsNoCall) :
    (Starts.of subscriptions (.start :: is)).listening = true ∧
      (Starts.of subscriptions (.start :: is)).all = subscriptions ∧
      (Starts.of subscriptions (.start :: is)).subscriptions =
        match (configUpdates is).getLast? with
        | none => subscriptions
        | some bot => bot.pairs.map StrategySubscription.ofPair := by
  induction is using List.reverseRecOn with
  | nil => exact ⟨rfl, rfl, rfl⟩
  | append_singleton is i ih =>
    obtain ⟨hlistening, hall, hlast⟩ := ih fun j hj => his j (List.mem_append_left _ hj)
    have hi := his i (List.mem_append_right _ (List.mem_singleton.2 rfl))
    have hnext : Starts.of subscriptions (.start :: (is ++ [i])) =
        (Starts.of subscriptions (.start :: is)).next i :=
      List.foldl_concat _ _ i (.start :: is)
    have hupdates : configUpdates (is ++ [i]) = configUpdates is ++ configUpdates [i] :=
      List.filterMap_append
    rw [hnext, hupdates]
    generalize Starts.of subscriptions (.start :: is) = r at hlistening hall hlast ⊢
    cases i with
    | start => cases hi
    | stop => cases hi
    | configUpdate bot =>
      have hheard : r.next (.configUpdate bot) =
          { r with subscriptions := bot.pairs.map StrategySubscription.ofPair } :=
        if_pos hlistening
      have hlatest : (configUpdates is ++ configUpdates [.configUpdate bot]).getLast? =
          some bot := List.getLast?_concat
      rw [hheard, hlatest]
      exact ⟨hlistening, hall, rfl⟩
    | subscribe j =>
      rw [show configUpdates [.subscribe j] = [] from rfl, List.append_nil]
      exact ⟨hlistening, hall, hlast⟩
    | cancel j =>
      rw [show configUpdates [.cancel j] = [] from rfl, List.append_nil]
      exact ⟨hlistening, hall, hlast⟩
    | host b =>
      rw [show configUpdates [.host b] = [] from rfl, List.append_nil]
      exact ⟨hlistening, hall, hlast⟩

/-- **What a service hands over**: the markets of all its starts, if it has been started and nobody
has stopped it while it was subscribing. -/
theorem handsOver_run (engine : StrategyEngine σ) (state : σ)
    (subscriptions : List StrategySubscription) {is : List LifecycleInput}
    (hstops : StopsSettled engine state subscriptions is)
    (hstarted : (Starts.of subscriptions is).listening = true) (pair : PairId) :
    HandsOver engine (hostRun engine state subscriptions is) pair ↔
      pair ∈ (startedBy subscriptions is).map StrategySubscription.toPair := by
  have hright := Starts.right_run engine state subscriptions hstops
  have hspawners : (hostRun engine state subscriptions is).spawners ≠ [] := by
    rw [Ne, hright.listening, hstarted]
    simp
  rw [handsOver_iff hspawners]
  exact hright.pairs.mem_iff

/-- **When the subscriptions follow the configuration**: a service that is started once, and then
gets updates, hands over the markets of its configuration exactly if the last update, if there is
one, names the markets it has been started with. -/
theorem subscriptionsFollow_iff (engine : StrategyEngine σ) (state : σ)
    (subscriptions : List StrategySubscription) (is : List LifecycleInput)
    (his : ∀ i ∈ is, i.IsNoCall) :
    SubscriptionsFollow engine state (hostRun engine state subscriptions (.start :: is)) ↔
      match (configUpdates is).getLast? with
      | none => True
      | some bot => ∀ pair, pair ∈ bot.pairs ↔
          pair ∈ subscriptions.map StrategySubscription.toPair := by
  obtain ⟨hstarted, hall, hlast⟩ := starts_once subscriptions his
  have hstops : StopsSettled engine state subscriptions (.start :: is) := by
    rintro pre i post heq rfl
    have hmem : LifecycleInput.stop ∈ .start :: is := by
      rw [heq]
      simp
    obtain hstop | hstop := List.mem_cons.1 hmem
    · cases hstop
    · exact absurd (his _ hstop) id
  have hright := Starts.right_run engine state subscriptions hstops
  have hhands := handsOver_run engine state subscriptions hstops hstarted
  rw [startedBy, hall] at hhands
  have hconfigured := hright.subscriptions.trans hlast
  generalize hostRun engine state subscriptions (.start :: is) = s at hhands hconfigured
  have hfollow : SubscriptionsFollow engine state s ↔
      ∀ pair, pair ∈ s.subscriptions.map StrategySubscription.toPair ↔
        pair ∈ subscriptions.map StrategySubscription.toPair := by
    constructor
    · intro h pair
      rw [← h.configured, hhands]
    · intro h
      refine ⟨?_, ?_⟩
      · intro pair
        rw [hhands, h]
      · intro pair
        rw [hhands, handsOver_start, h]
  rw [hfollow, hconfigured]
  cases (configUpdates is).getLast? with
  | none => simp
  | some bot =>
    have hpairs : (bot.pairs.map StrategySubscription.ofPair).map StrategySubscription.toPair =
        bot.pairs := by
      rw [List.map_map]
      exact List.map_id _
    dsimp only
    rw [hpairs]

end Subscriptions

theorem subscriptionsFollow_iff_sample :
    @SubscriptionsFollow asciiCase Unit buyer ()
      (@hostRun asciiCase Unit buyer () twoMarkets
        [.start, .configUpdate ⟨"bot", twoMarkets.reverse.map StrategySubscription.toPair⟩]) := by
  refine (@subscriptionsFollow_iff asciiCase Unit buyer () twoMarkets
    [.configUpdate ⟨"bot", twoMarkets.reverse.map StrategySubscription.toPair⟩] ?_).2 ?_
  · intro i hi
    rw [List.mem_singleton.1 hi]
    trivial
  · intro pair
    rw [List.map_reverse]
    exact List.mem_reverse

/-- **An update does not reach the consumers**: a market that is taken out of the configuration is
still handed over. -/
theorem not_subscriptionsFollow :
    let s := @hostRun asciiCase Unit buyer () twoMarkets [.start, .configUpdate ⟨"bot", []⟩]
    s.subscriptions = [] ∧ @HandsOver asciiCase Unit buyer s ⟨.okx, ⟨"BTC", "USDT"⟩⟩ ∧
      ¬ @SubscriptionsFollow asciiCase Unit buyer () s := by
  intro s
  have hspawners : s.spawners ≠ [] := by decide
  have hmarket : ⟨.okx, ⟨"BTC", "USDT"⟩⟩ ∈ s.markets := by decide
  have hhands := (@handsOver_iff asciiCase Unit buyer _ _ hspawners).2 hmarket
  refine ⟨rfl, hhands, fun hfollow => ?_⟩
  have hconfigured := (@SubscriptionsFollow.configured asciiCase Unit buyer () _ hfollow _).1 hhands
  cases hconfigured

end W2uos
