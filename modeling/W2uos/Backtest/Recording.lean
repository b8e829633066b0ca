import W2uos.Backtest.Replay
import W2uos.Data.Service
import W2uos.Data.Timestamps

/-!
# Recording and replaying

What the market data service publishes goes through a channel to the task that stores it, and a
backtest replays what is stored.  A snapshot that finds the channel full is dropped, and one that
cannot be stored is lost; nothing else goes wrong on this way.

* `step_history` : the steps on the way.
* `history_recorded` : every snapshot is dropped, under way, stored or lost, once and in order.
* `record_and_replay` : a backtest replays what has been published.
-/

namespace W2uos

namespace MarketOutput

/-- The snapshots that found the channel full. -/
def droppedOf (outs : List MarketOutput) : List MarketSnapshot :=
  outs.filterMap fun
    | dropped snap => some snap
    | _ => none

/-- The snapshots that could not be stored. -/
def failedOf (outs : List MarketOutput) : List MarketSnapshot :=
  outs.filterMap fun
    | failed snap => some snap
    | _ => none

theorem droppedOf_append (outs outs' : List MarketOutput) :
    droppedOf (outs ++ outs') = droppedOf outs ++ droppedOf outs' := List.filterMap_append

theorem failedOf_append (outs outs' : List MarketOutput) :
    failedOf (outs ++ outs') = failedOf outs ++ failedOf outs' := List.filterMap_append

end MarketOutput

/-- What the history has to do with a service: the snapshot whose publication the feed awaits, the
channel, the snapshot in the hands of the history task, and the store. -/
structure HistoryView where
  publishing : Option MarketSnapshot
  queue : List MarketSnapshot
  storing : Option MarketSnapshot
  store : HistoricalStore

/-- The view of a service with a history. -/
def MarketDataService.Views (svc : MarketDataService) (v : HistoryView) : Prop :=
  svc.publishing = v.publishing ∧ svc.historyTx = some v.queue ∧ svc.storing = v.storing ∧
    svc.store = v.store

/-- The steps on the way to the store, with the snapshots published, dropped and lost. -/
inductive HistoryMove : HistoryView → HistoryView → List MarketSnapshot → List MarketSnapshot →
    List MarketSnapshot → Prop
  | still (v : HistoryView) : HistoryMove v v [] [] []
  | publish {v : HistoryView} (snap : MarketSnapshot) (h : v.publishing = none) :
    HistoryMove v { v with publishing := some snap } [snap] [] []
  | send {v : HistoryView} {snap : MarketSnapshot} (h : v.publishing = some snap)
      (hroom : v.queue.length < historyCapacity) :
    HistoryMove v { v with publishing := none, queue := v.queue ++ [snap] } [] [] []
  | drop {v : HistoryView} {snap : MarketSnapshot} (h : v.publishing = some snap)
      (hfull : historyCapacity ≤ v.queue.length) :
    HistoryMove v { v with publishing := none } [] [snap] []
  | recv {v : HistoryView} {snap : MarketSnapshot} {queue : List MarketSnapshot}
      (h : v.queue = snap :: queue) (hidle : v.storing = none) :
    HistoryMove v { v with queue := queue, storing := some snap } [] [] []
  | store {v : HistoryView} {snap : MarketSnapshot} (h : v.storing = some snap) :
    HistoryMove v { v with storing := none, store := v.store.insertSnapshot snap } [] [] []
  | lose {v : HistoryView} {snap : MarketSnapshot} (h : v.storing = some snap) :
    HistoryMove v { v with storing := none } [] [] [snap]

section Recording

variable [CaseTable] [Reqwest] [TickerChannel] {svc : MarketDataService} {v : HistoryView}

omit [CaseTable] [Reqwest] in
/-- A text of the exchange changes the connection and the quotes only. -/
theorem views_text (h : svc.Views v) (txt : String) : (svc.text txt).Views v := by
  obtain ⟨hpublishing, hqueue, hstoring, hstore⟩ := h
  unfold MarketDataService.text
  split
  · split_ifs
    · exact ⟨hpublishing, hqueue, hstoring, hstore⟩
    · split <;> exact ⟨hpublishing, hqueue, hstoring, hstore⟩
  · exact ⟨hpublishing, hqueue, hstoring, hstore⟩

omit [CaseTable] [TickerChannel] in
theorem views_update (h : svc.Views v) (cfg : MarketDataConfig) : (svc.update cfg).Views v := by
  obtain ⟨hpublishing, hqueue, hstoring, hstore⟩ := h
  unfold MarketDataService.update
  split <;> exact ⟨hpublishing, hqueue, hstoring, hstore⟩

omit [Reqwest] [TickerChannel] in
/-- The feed publishes its next quote, if it is not still publishing one. -/
theorem views_quote (h : svc.Views v) (stamp : Stamp) :
    ∃ v', (svc.quote stamp).1.Views v' ∧
      HistoryMove v v' (MarketOutput.snapshots (svc.quote stamp).2)
        (MarketOutput.droppedOf (svc.quote stamp).2)
        (MarketOutput.failedOf (svc.quote stamp).2) := by
  obtain ⟨hpublishing, hqueue, hstoring, hstore⟩ := h
  cases hnone : svc.publishing with
  | some snap =>
    have hquote : svc.quote stamp = (svc, []) := by
      simp only [MarketDataService.quote, hnone]
    rw [hquote]
    exact ⟨v, ⟨hpublishing, hqueue, hstoring, hstore⟩, .still v⟩
  | none =>
    have hv : v.publishing = none := hpublishing.symm.trans hnone
    unfold MarketDataService.quote
    rw [hnone]
    split
    · exact ⟨{ v with publishing := some _ }, ⟨rfl, hqueue, hstoring, hstore⟩, .publish _ hv⟩
    · split
      · exact ⟨{ v with publishing := some _ }, ⟨rfl, hqueue, hstoring, hstore⟩, .publish _ hv⟩
      · exact ⟨v, ⟨hv.symm, hqueue, hstoring, hstore⟩, .still v⟩
    · exact ⟨v, ⟨hpublishing, hqueue, hstoring, hstore⟩, .still v⟩

omit [Reqwest] [TickerChannel] in
theorem views_enqueue (h : svc.Views v) :
    ∃ v', svc.enqueue.1.Views v' ∧
      HistoryMove v v' (MarketOutput.snapshots svc.enqueue.2)
        (MarketOutput.droppedOf svc.enqueue.2) (MarketOutput.failedOf svc.enqueue.2) := by
  obtain ⟨hpublishing, hqueue, hstoring, hstore⟩ := h
  cases hsome : svc.publishing with
  | none =>
    have henqueue : svc.enqueue = (svc, []) := by
      simp only [MarketDataService.enqueue, hsome]
    rw [henqueue]
    exact ⟨v, ⟨hpublishing, hqueue, hstoring, hstore⟩, .still v⟩
  | some snap =>
    have hv : v.publishing = some snap := hpublishing.symm.trans hsome
    simp only [MarketDataService.enqueue, MarketDataService.trySend, hsome, hqueue]
    split_ifs with hroom
    · exact ⟨{ v with publishing := none, queue := v.queue ++ [snap] },
        ⟨rfl, rfl, hstoring, hstore⟩, .send hv hroom⟩
    · exact ⟨{ v with publishing := none }, ⟨rfl, rfl, hstoring, hstore⟩,
        .drop hv (not_lt.1 hroom)⟩

theorem views_recv (h : svc.Views v) :
    ∃ v', (marketDataService.next svc .recv).Views v' ∧
      HistoryMove v v' (MarketOutput.snapshots (marketDataService.emit svc .recv))
        (MarketOutput.droppedOf (marketDataService.emit svc .recv))
        (MarketOutput.failedOf (marketDataService.emit svc .recv)) := by
  obtain ⟨hpublishing, hqueue, hstoring, hstore⟩ := h
  simp only [Machine.next, Machine.emit, marketDataService]
  split
  · rename_i snap queue hnone hcons
    rw [hqueue, Option.some.injEq] at hcons
    exact ⟨{ v with queue := queue, storing := some snap }, ⟨hpublishing, rfl, rfl, hstore⟩,
      .recv hcons (hstoring.symm.trans hnone)⟩
  · exact ⟨v, ⟨hpublishing, hqueue, hstoring, hstore⟩, .still v⟩

theorem views_insert (h : svc.Views v) (ok : Bool) :
    ∃ v', (marketDataService.next svc (.insert ok)).Views v' ∧
      HistoryMove v v' (MarketOutput.snapshots (marketDataService.emit svc (.insert ok)))
        (MarketOutput.droppedOf (marketDataService.emit svc (.insert ok)))
        (MarketOutput.failedOf (marketDataService.emit svc (.insert ok))) := by
  obtain ⟨hpublishing, hqueue, hstoring, hstore⟩ := h
  simp only [Machine.next, Machine.emit, marketDataService]
  split
  · rename_i snap hsome
    refine ⟨{ v with storing := none, store := v.store.insertSnapshot snap },
      ⟨hpublishing, hqueue, rfl, ?_⟩, .store (hstoring.symm.trans hsome)⟩
    rw [hstore]
  · rename_i snap hsome
    exact ⟨{ v with storing := none }, ⟨hpublishing, hqueue, rfl, hstore⟩,
      .lose (hstoring.symm.trans hsome)⟩
  · exact ⟨v, ⟨hpublishing, hqueue, hstoring, hstore⟩, .still v⟩

/-- **What a step does on the way to the store.** -/
theorem step_history (h : svc.Views v) (i : MarketInput) :
    ∃ v', (marketDataService.next svc i).Views v' ∧
      HistoryMove v v' (MarketOutput.snapshots (marketDataService.emit svc i))
        (MarketOutput.droppedOf (marketDataService.emit svc i))
        (MarketOutput.failedOf (marketDataService.emit svc i)) := by
  -- the inputs of the feed that publish nothing leave the view alone
  have hstill : (marketDataService.next svc i).Views v → marketDataService.emit svc i = [] →
      ∃ v', (marketDataService.next svc i).Views v' ∧
        HistoryMove v v' (MarketOutput.snapshots (marketDataService.emit svc i))
          (MarketOutput.droppedOf (marketDataService.emit svc i))
          (MarketOutput.failedOf (marketDataService.emit svc i)) := by
    intro hviews hemit
    rw [hemit]
    exact ⟨v, hviews, .still v⟩
  have ⟨hpublishing, hqueue, hstoring, hstore⟩ := h
  cases i with
  | start now =>
    simp only [Machine.next, Machine.emit, marketDataService]
    split <;> exact ⟨v, ⟨hpublishing, hqueue, hstoring, hstore⟩, .still v⟩
  | tick =>
    simp only [Machine.next, Machine.emit, marketDataService]
    split <;> exact ⟨v, ⟨hpublishing, hqueue, hstoring, hstore⟩, .still v⟩
  | connect ok =>
    simp only [Machine.next, Machine.emit, marketDataService]
    split
    · split <;> exact ⟨v, ⟨hpublishing, hqueue, hstoring, hstore⟩, .still v⟩
    · exact ⟨v, ⟨hpublishing, hqueue, hstoring, hstore⟩, .still v⟩
  | text txt => exact hstill (views_text h txt) rfl
  | close =>
    simp only [Machine.next, Machine.emit, marketDataService]
    split <;> exact ⟨v, ⟨hpublishing, hqueue, hstoring, hstore⟩, .still v⟩
  | quote stamp => exact views_quote h stamp
  | enqueue => exact views_enqueue h
  | update msg =>
    cases msg with
    | none => exact hstill h rfl
    | some cfg => exact hstill (views_update h cfg) rfl
  | recv => exact views_recv h
  | insert ok => exact views_insert h ok

end Recording

/-! ### Where the snapshots are -/

/-- Where the snapshots `pubs` that have been published are: those that found room have been taken
by the history task, in their order, or are in the channel, and the others are `drops`; and those it
has taken are in the store, after what was there before, but for the one in its hands and `losses`,
those that could not be stored. -/
def Recorded (store₀ : HistoricalStore) (v : HistoryView)
    (pubs drops losses : List MarketSnapshot) : Prop :=
  v.queue.length ≤ historyCapacity ∧
    ∃ offered taken : List (Bool × MarketSnapshot),
      offered.map Prod.snd ++ v.publishing.toList = pubs ∧
      tagged false offered = drops ∧
      taken.map Prod.snd ++ (v.storing.toList ++ v.queue) = tagged true offered ∧
      v.store = store₀ ++ (tagged true taken).map MarketSnapshot.row ∧
      tagged false taken = losses

/-- **Every move keeps it.** -/
theorem HistoryMove.recorded {store₀ : HistoricalStore} {v v' : HistoryView}
    {pub drop loss pubs drops losses : List MarketSnapshot} (hm : HistoryMove v v' pub drop loss)
    (h : Recorded store₀ v pubs drops losses) :
    Recorded store₀ v' (pubs ++ pub) (drops ++ drop) (losses ++ loss) := by
  obtain ⟨hlength, offered, taken, hpubs, hdrops, htaken, hstore, hlosses⟩ := h
  cases hm with
  | still =>
    rw [List.append_nil, List.append_nil, List.append_nil]
    exact ⟨hlength, offered, taken, hpubs, hdrops, htaken, hstore, hlosses⟩
  | publish snap hnone =>
    rw [List.append_nil, List.append_nil]
    refine ⟨hlength, offered, taken, ?_, hdrops, htaken, hstore, hlosses⟩
    rw [hnone, Option.toList_none, List.append_nil] at hpubs
    rw [hpubs]
    rfl
  | @send snap hsome hroom =>
    rw [List.append_nil, List.append_nil, List.append_nil]
    refine ⟨?_, offered ++ [(true, snap)], taken, ?_, ?_, ?_, hstore, hlosses⟩
    · rw [List.length_append]
      exact hroom
    · rw [hsome] at hpubs
      rw [← hpubs, List.map_append]
      exact List.append_nil _
    · rw [tagged_concat_ne (by decide), hdrops]
    · rw [tagged_concat_self, ← htaken, ← List.append_assoc, ← List.append_assoc,
        ← List.append_assoc]
  | @drop snap hsome hfull =>
    rw [List.append_nil, List.append_nil]
    refine ⟨hlength, offered ++ [(false, snap)], taken, ?_, ?_, ?_, hstore, hlosses⟩
    · rw [hsome] at hpubs
      rw [← hpubs, List.map_append]
      exact List.append_nil _
    · rw [tagged_concat_self, hdrops]
    · rw [tagged_concat_ne (by decide), ← htaken]
  | @recv snap queue hqueue hidle =>
    rw [List.append_nil, List.append_nil, List.append_nil]
    refine ⟨?_, offered, taken, hpubs, hdrops, ?_, hstore, hlosses⟩
    · rw [hqueue] at hlength
      exact (Nat.le_succ _).trans hlength
    · rw [← htaken, hidle, hqueue]
      rfl
  | @store snap hsome =>
    rw [List.append_nil, List.append_nil, List.append_nil]
    refine ⟨hlength, offered, taken ++ [(true, snap)], hpubs, hdrops, ?_, ?_, ?_⟩
    · rw [← htaken, hsome, List.map_append, List.append_assoc]
      rfl
    · rw [tagged_concat_self, List.map_append, ← List.append_assoc, ← hstore]
      rfl
    · rw [tagged_concat_ne (by decide), hlosses]
  | @lose snap hsome =>
    rw [List.append_nil, List.append_nil]
    refine ⟨hlength, offered, taken ++ [(false, snap)], hpubs, hdrops, ?_, ?_, ?_⟩
    · rw [← htaken, hsome, List.map_append, List.append_assoc]
      rfl
    · rw [tagged_concat_ne (by decide), hstore]
    · rw [tagged_concat_self, hlosses]

theorem HistoryMove.full {v v' : HistoryView} {pub drop loss : List MarketSnapshot}
    (hm : HistoryMove v v' pub drop loss) (hdrop : drop ≠ []) :
    historyCapacity ≤ v.queue.length := by
  cases hm with
  | drop hsome hfull => exact hfull
  | _ => exact absurd rfl hdrop

section Recording

variable [CaseTable] [Reqwest] [TickerChannel]

/-- The channel is full. -/
def FullNext (svc₀ : MarketDataService) (pre : List MarketInput) : Prop :=
  ∃ queue, (marketDataService.run svc₀ pre).historyTx = some queue ∧
    queue.length = historyCapacity

omit [CaseTable] [TickerChannel] in
theorem new_views {cfg : MarketDataConfig} {store : HistoricalStore} {svc₀ : MarketDataService}
    (hnew : MarketDataService.new cfg store = .ok svc₀) (hhistory : cfg.history.isSome = true) :
    svc₀.Views ⟨none, [], none, store⟩ := by
  obtain ⟨history, hsome⟩ := Option.isSome_iff_exists.1 hhistory
  unfold MarketDataService.new at hnew
  cases hclients : buildClientAndShaper cfg.netProfile with
  | error err => rw [hclients] at hnew; cases hnew
  | ok clients =>
    rw [hclients] at hnew
    cases hnew
    exact ⟨rfl, by rw [hsome]; rfl, rfl, rfl⟩

theorem recorded_of_run {cfg : MarketDataConfig} {store : HistoricalStore}
    {svc₀ : MarketDataService} (hnew : MarketDataService.new cfg store = .ok svc₀)
    (hhistory : cfg.history.isSome = true) (is : List MarketInput) :
    ∃ v, (marketDataService.run svc₀ is).Views v ∧
      Recorded store v (MarketOutput.snapshots (marketDataService.output svc₀ is))
        (MarketOutput.droppedOf (marketDataService.output svc₀ is))
        (MarketOutput.failedOf (marketDataService.output svc₀ is)) := by
  refine Machine.history_induction (M := marketDataService) (Q := fun _ => True)
    (P := fun _ svc outs => ∃ v, svc.Views v ∧ Recorded store v (MarketOutput.snapshots outs)
      (MarketOutput.droppedOf outs) (MarketOutput.failedOf outs)) ?_ ?_ fun _ _ => trivial
  · exact ⟨_, new_views hnew hhistory, Nat.zero_le _, [], [], rfl, rfl, rfl,
      (List.append_nil _).symm, rfl⟩
  · intro is svc outs i ⟨v, hviews, hrecorded⟩ _
    obtain ⟨v', hviews', hmove⟩ := step_history hviews i
    rw [MarketOutput.snapshots_append, MarketOutput.droppedOf_append,
      MarketOutput.failedOf_append]
    exact ⟨v', hviews', hmove.recorded hrecorded⟩

/-- **The way into the history.**  In every run of a service with a history, every snapshot that has
been published was dropped, or is on its way, or is in the store, or could not be stored, once and
in the order of publication; and whenever a snapshot is dropped, 1024 others are waiting. -/
theorem history_recorded {cfg : MarketDataConfig} {store : HistoricalStore}
    {svc₀ : MarketDataService} (hnew : MarketDataService.new cfg store = .ok svc₀)
    (hhistory : cfg.history.isSome = true) (is : List MarketInput) :
    let outs := marketDataService.output svc₀ is
    ∃ v, (marketDataService.run svc₀ is).Views v ∧
      Recorded store v (MarketOutput.snapshots outs) (MarketOutput.droppedOf outs)
        (MarketOutput.failedOf outs) ∧
      Always (fun pre i =>
        MarketOutput.droppedOf (marketDataService.emit (marketDataService.run svc₀ pre) i) ≠ [] →
          FullNext svc₀ pre) is := by
  intro outs
  obtain ⟨v, hviews, hrecorded⟩ := recorded_of_run hnew hhistory is
  refine ⟨v, hviews, hrecorded, fun pre i post _ hdrops => ?_⟩
  obtain ⟨v, hviews, hrecorded⟩ := recorded_of_run hnew hhistory pre
  obtain ⟨v', -, hmove⟩ := step_history hviews i
  exact ⟨v.queue, hviews.2.1, le_antisymm hrecorded.1 (hmove.full hdrops)⟩

/-! ### The replay -/

/-- Nothing is on its way into the store. -/
def MarketDataService.Drained (svc : MarketDataService) : Prop :=
  svc.publishing = none ∧ svc.historyTx = some [] ∧ svc.storing = none

/-- No snapshot has been dropped, and all could be stored. -/
def Lossless (outs : List MarketOutput) : Prop :=
  MarketOutput.droppedOf outs = [] ∧ MarketOutput.failedOf outs = []

omit [CaseTable] [Reqwest] [TickerChannel] in
theorem tagged_true_of_false {α : Type*} {l : List (Bool × α)} (h : tagged false l = []) :
    tagged true l = l.map Prod.snd := by
  induction l with
  | nil => rfl
  | cons x l ih =>
    obtain ⟨flag, a⟩ := x
    cases flag with
    | false => simp [tagged] at h
    | true =>
      have htail : tagged false l = [] := by simpa [tagged] using h
      rw [List.map_cons, ← ih htail]
      simp [tagged]

omit [CaseTable] [Reqwest] [TickerChannel] in
theorem Recorded.store_eq {store₀ : HistoricalStore} {v : HistoryView}
    {pubs : List MarketSnapshot} (h : Recorded store₀ v pubs [] [])
    (hpublishing : v.publishing = none) (hqueue : v.queue = []) (hstoring : v.storing = none) :
    v.store = store₀ ++ pubs.map MarketSnapshot.row := by
  obtain ⟨-, offered, taken, hpubs, hdrops, htaken, hstore, hlosses⟩ := h
  rw [hpublishing, Option.toList_none, List.append_nil] at hpubs
  rw [hstoring, hqueue, Option.toList_none, List.append_nil, List.append_nil,
    tagged_true_of_false hdrops, hpubs] at htaken
  rw [hstore, tagged_true_of_false hlosses, htaken]

omit [CaseTable] [Reqwest] [TickerChannel] in
theorem inOrder_append (store store' : HistoricalStore) (exchange : ExchangeId) (symbol : Symbol)
    (start stop : DateTime) :
    (HistoricalStore.inOrder (store ++ store') exchange symbol start stop).Perm
      (store.inOrder exchange symbol start stop ++ store'.inOrder exchange symbol start stop) := by
  unfold HistoricalStore.inOrder
  rw [List.filter_append, ← List.map_append]
  refine List.Perm.map _ ((List.perm_insertionSort _ _).trans ?_)
  exact ((List.perm_insertionSort _ _).append (List.perm_insertionSort _ _)).symm

/-- The snapshots of a market in a time span. -/
def MarketSnapshot.within (snaps : List MarketSnapshot) (exchange : ExchangeId) (symbol : Symbol)
    (start stop : DateTime) : List MarketSnapshot :=
  snaps.filter fun snap => snap.exchange.toText = exchange.toText ∧ snap.symbol = symbol ∧
    start ≤ snap.ts ∧ snap.ts ≤ stop

/-- **Record and replay.**  After a run of the service in which nothing was dropped or lost, and
when nothing is on the way any more, a backtest within the years 0 to 9999 replays in the order of
time, for each symbol it lists, exactly what the service has published of that market within the
time span, with the exchange as it is read back and without the trace, and what was replayed of the
store before. -/
theorem record_and_replay {cfg : MarketDataConfig} {store : HistoricalStore}
    {svc₀ : MarketDataService} (hnew : MarketDataService.new cfg store = .ok svc₀)
    (hhistory : cfg.history.isSome = true) {is : List MarketInput}
    (hdrained : (marketDataService.run svc₀ is).Drained)
    (hlossless : Lossless (marketDataService.output svc₀ is)) {config : BacktestConfig}
    (hstart : FourDigitYear config.start) (hstop : FourDigitYear config.stop) :
    let snaps := MarketOutput.snapshots (marketDataService.output svc₀ is)
    let replayed := config.replay (marketDataService.run svc₀ is).store
    replayed.Perm (config.replay store ++ config.symbols.flatMap fun symbol =>
        (MarketSnapshot.within snaps config.exchange symbol config.start config.stop).map
          MarketSnapshot.reread) ∧
      replayed.Pairwise fun a b => a.ts ≤ b.ts := by
  intro snaps replayed
  refine ⟨?_, config.replay_sorted _⟩
  obtain ⟨v, ⟨hpublishing, hqueue, hstoring, hstore⟩, hrecorded⟩ := recorded_of_run hnew hhistory is
  rw [hlossless.1, hlossless.2] at hrecorded
  obtain ⟨hpublished, hempty, hstored⟩ := hdrained
  have hall : (marketDataService.run svc₀ is).store = store ++ snaps.map MarketSnapshot.row := by
    rw [hstore]
    refine hrecorded.store_eq (hpublishing.symm.trans hpublished) ?_ (hstoring.symm.trans hstored)
    rw [hqueue, Option.some.injEq] at hempty
    exact hempty
  have hreplay : ∀ store : HistoricalStore, (config.replay store).Perm
      (config.symbols.flatMap fun symbol =>
        store.inOrder config.exchange symbol config.start config.stop) := by
    intro store
    rw [BacktestConfig.replay_eq (BacktestConfig.readable_of_years hstart hstop)]
    exact List.perm_insertionSort _ _
  have hloaded : ∀ symbol,
      (HistoricalStore.inOrder (store ++ snaps.map MarketSnapshot.row) config.exchange symbol
        config.start config.stop).Perm
      (store.inOrder config.exchange symbol config.start config.stop ++
        (MarketSnapshot.within snaps config.exchange symbol config.start config.stop).map
          MarketSnapshot.reread) := fun symbol =>
    (inOrder_append store _ _ symbol _ _).trans
      ((perm_inOrder hstart hstop snaps _ symbol).append_left _)
  -- symbol by symbol, the old ones and the new ones
  show (config.replay (marketDataService.run svc₀ is).store).Perm _
  rw [hall]
  refine (hreplay _).trans ?_
  refine (List.Perm.flatMap_left _ fun symbol _ => hloaded symbol).trans ?_
  exact (List.flatMap_append_perm _ _ _).symm.trans ((hreplay store).symm.append_right _)

end Recording

/-- The market data of a node with a history. -/
def recordingConfig : MarketDataConfig :=
  { NodeConfig.default.dataConfig with history := some ⟨"sqlite::memory:"⟩ }

/-- A snapshot is published and stored; the next one is in the channel. -/
def recordedTick : List MarketInput :=
  [.start 0, .tick, .quote ⟨1, "a"⟩, .enqueue, .recv, .insert true]

theorem history_recorded_tick :
    ∃ svc₀, @MarketDataService.new acceptAll recordingConfig [] = .ok svc₀ ∧
      ∃ v, ((@marketDataService asciiCase acceptAll ⟨fun _ => .ok []⟩).run svc₀
          recordedTick).Views v ∧
        Recorded [] v (MarketOutput.snapshots
          ((@marketDataService asciiCase acceptAll ⟨fun _ => .ok []⟩).output svc₀ recordedTick))
          [] [] := by
  refine ⟨_, rfl, ?_⟩
  obtain ⟨v, hviews, hrecorded, -⟩ := @history_recorded asciiCase acceptAll ⟨fun _ => .ok []⟩
    recordingConfig [] _ rfl rfl recordedTick
  exact ⟨v, hviews, hrecorded⟩

/-- The backtest of the market that is recorded. -/
def recordedBacktest : BacktestConfig where
  exchange := .okx
  symbols := [⟨"BTC", "USDT"⟩]
  start := 0
  stop := 10

theorem record_and_replay_tick :
    ∃ svc₀, @MarketDataService.new acceptAll recordingConfig [] = .ok svc₀ ∧
      (recordedBacktest.replay
        ((@marketDataService asciiCase acceptAll ⟨fun _ => .ok []⟩).run svc₀
          recordedTick).store).Perm
        (recordedBacktest.replay [] ++ recordedBacktest.symbols.flatMap fun symbol =>
          (MarketSnapshot.within (MarketOutput.snapshots
            ((@marketDataService asciiCase acceptAll ⟨fun _ => .ok []⟩).output svc₀ recordedTick))
            .okx symbol 0 10).map MarketSnapshot.reread) := by
  refine ⟨_, rfl, ?_⟩
  exact (@record_and_replay asciiCase acceptAll ⟨fun _ => .ok []⟩ recordingConfig [] _ rfl rfl
    recordedTick ⟨rfl, rfl, rfl⟩ ⟨rfl, rfl⟩ recordedBacktest (by decide) (by decide)).1

end W2uos
