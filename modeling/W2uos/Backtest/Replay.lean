import W2uos.Backtest.Engine
import W2uos.Node.Config

/-!
# What a backtest replays

The engine asks the store for one symbol of its configuration after the other and sorts all that it
gets by time.  A replay is faithful if it publishes every stored snapshot of the configured markets
and time span once, and nothing else, in the order of time.

* `NodeConfig.btConfig` : the backtest `main` configures.
* `BacktestConfig.count_replay` : a snapshot is replayed once for every time its symbol is listed.
* `BacktestConfig.faithful_iff` : exactly when a replay is faithful.
-/

namespace W2uos

/-- The backtest of a node that is started in backtest mode: the OKX snapshots of the last five
minutes, of all symbols there is a subscription for.  The clock is read twice. -/
def NodeConfig.btConfig (cfg : NodeConfig) (now now' : DateTime) : BacktestConfig where
  exchange := .okx
  symbols := cfg.dataConfig.subscriptions.map MarketDataSubscription.symbol
  start := now - 300000000000
  stop := now'

namespace BacktestConfig

section Selection

variable {α : Type} (config : BacktestConfig)

instance decidableLists : DecidablePred fun row : HistoryRow α => config.Lists row := fun _ =>
  inferInstanceAs (Decidable (_ ∧ _))

instance decidableSelects : DecidablePred fun row : HistoryRow α => config.Selects row := fun _ =>
  inferInstanceAs (Decidable (_ ∧ _))

/-- The timestamp of the row is in the time span of the backtest. -/
def InTime (row : HistoryRow α) : Prop := config.start ≤ row.ts ∧ row.ts ≤ config.stop

instance : DecidablePred fun row : HistoryRow α => config.InTime row := fun _ =>
  inferInstanceAs (Decidable (_ ∧ _))

/-- The snapshot of a row of the exchange of the backtest, as it was before it was stored. -/
def stored (row : HistoryRow α) : MarketSnapshot α :=
  { row.snapshot with exchange := config.exchange }

end Selection

variable (config : BacktestConfig) (store : HistoricalStore)

/-- The stored snapshots of the markets and the time span of the backtest. -/
def selected : List MarketSnapshot :=
  (store.filter fun row => config.Lists row ∧ config.InTime row).map config.stored

/-- Each of them is replayed once, and nothing else, in the order of time. -/
def Faithful : Prop :=
  (config.replay store).Perm (config.selected store) ∧
    (config.replay store).Pairwise fun a b => a.ts ≤ b.ts

theorem replay_sorted : (config.replay store).Pairwise fun a b => a.ts ≤ b.ts := by
  by_cases hreadable : config.Readable store
  · have : Std.Total fun a b : MarketSnapshot => a.ts ≤ b.ts := ⟨fun a b => le_total a.ts b.ts⟩
    have : IsTrans MarketSnapshot fun a b => a.ts ≤ b.ts := ⟨fun _ _ _ => le_trans⟩
    rw [replay_eq hreadable]
    exact List.pairwise_insertionSort _ _
  · rw [replay_eq_nil hreadable]
    exact List.Pairwise.nil

/-! ### How often a snapshot is replayed -/

/-- The snapshots of the rows whose texts are in the time span, as they are read. -/
def picked : List MarketSnapshot :=
  (store.filter fun row => config.Selects row).map HistoryRow.snapshot

variable {config store}

theorem count_inOrder (exchange : ExchangeId) (symbol : Symbol) (start stop : DateTime)
    (snap : MarketSnapshot) :
    (store.inOrder exchange symbol start stop).count snap =
      if snap.symbol = symbol then
        store.countP fun row => row.snapshot = snap ∧ row.exchange = exchange.toText ∧
          TextBetween start stop row.ts
      else 0 := by
  unfold HistoricalStore.inOrder
  rw [List.Perm.count_eq ((List.perm_insertionSort _ _).map _), List.count_eq_countP,
    List.countP_map, List.countP_filter]
  split_ifs with hsymbol
  · subst hsymbol
    refine List.countP_congr fun row _ => ?_
    simp only [Function.comp_apply, beq_iff_eq, Bool.and_eq_true, decide_eq_true_eq]
    constructor
    · rintro ⟨rfl, hexchange, -, -, hspan⟩
      exact ⟨rfl, hexchange, hspan⟩
    · rintro ⟨rfl, hexchange, hspan⟩
      exact ⟨rfl, hexchange, rfl, rfl, hspan⟩
  · rw [List.countP_eq_zero]
    intro row _
    simp only [Function.comp_apply, beq_iff_eq, Bool.and_eq_true, decide_eq_true_eq]
    rintro ⟨rfl, -, hbase, hquote, -⟩
    exact hsymbol (Symbol.ext hbase hquote)

theorem count_picked (snap : MarketSnapshot) :
    (config.picked store).count snap =
      if snap.symbol ∈ config.symbols then
        store.countP fun row => row.snapshot = snap ∧ row.exchange = config.exchange.toText ∧
          TextBetween config.start config.stop row.ts
      else 0 := by
  unfold picked
  rw [List.count_eq_countP, List.countP_map, List.countP_filter]
  split_ifs with hsymbol
  · refine List.countP_congr fun row _ => ?_
    simp only [Function.comp_apply, beq_iff_eq, Bool.and_eq_true, decide_eq_true_eq]
    constructor
    · rintro ⟨rfl, ⟨hexchange, -⟩, hspan⟩
      exact ⟨rfl, hexchange, hspan⟩
    · rintro ⟨rfl, hexchange, hspan⟩
      exact ⟨rfl, ⟨hexchange, hsymbol⟩, hspan⟩
  · rw [List.countP_eq_zero]
    intro row _
    simp only [Function.comp_apply, beq_iff_eq, Bool.and_eq_true, decide_eq_true_eq]
    rintro ⟨rfl, ⟨-, hmem⟩, -⟩
    exact hsymbol hmem

/-- **A snapshot is replayed once for every time its symbol is listed.** -/
theorem count_replay (hreadable : config.Readable store) (snap : MarketSnapshot) :
    (config.replay store).count snap =
      config.symbols.count snap.symbol * (config.picked store).count snap := by
  rw [replay_eq hreadable, (List.perm_insertionSort _ _).count_eq, List.count_flatMap, count_picked]
  have hsum : ∀ (symbols : List Symbol) (n : ℕ),
      (symbols.map fun symbol => if snap.symbol = symbol then n else 0).sum =
        symbols.count snap.symbol * n := by
    intro symbols n
    induction symbols with
    | nil => simp
    | cons symbol symbols ih =>
      rw [List.map_cons, List.sum_cons, ih, List.count_cons, Nat.add_mul, Nat.add_comm]
      by_cases h : snap.symbol = symbol <;> simp [h, eq_comm (a := symbol)]
  have hmap : (config.symbols.map (List.count snap ∘ fun symbol =>
      store.inOrder config.exchange symbol config.start config.stop)) =
      config.symbols.map fun symbol => if snap.symbol = symbol then
        store.countP fun row => row.snapshot = snap ∧ row.exchange = config.exchange.toText ∧
          TextBetween config.start config.stop row.ts
      else 0 :=
    List.map_congr_left fun symbol _ => count_inOrder _ symbol _ _ snap
  rw [hmap, hsum]
  split_ifs with hsymbol
  · rfl
  · rw [List.count_eq_zero.2 hsymbol, Nat.zero_mul]

theorem perm_picked_iff (hreadable : config.Readable store) :
    (config.replay store).Perm (config.picked store) ↔
      ∀ row ∈ store, config.Selects row → config.symbols.count row.snapshot.symbol = 1 := by
  rw [List.perm_iff_count]
  constructor
  · intro hcount row hrow hselects
    have hsnap := hcount row.snapshot
    have hpos : 0 < (config.picked store).count row.snapshot :=
      List.count_pos_iff.2 (List.mem_map_of_mem (List.mem_filter.2 ⟨hrow, by simpa using hselects⟩))
    rw [count_replay hreadable] at hsnap
    exact Nat.eq_of_mul_eq_mul_right hpos (by rw [hsnap, Nat.one_mul])
  · intro honce snap
    rw [count_replay hreadable]
    by_cases hmem : snap ∈ config.picked store
    · obtain ⟨row, hrow, rfl⟩ := List.mem_map.1 hmem
      obtain ⟨hrow, hselects⟩ := List.mem_filter.1 hrow
      rw [honce row hrow (by simpa using hselects), Nat.one_mul]
    · rw [List.count_eq_zero.2 hmem, Nat.mul_zero]

/-! ### Faithful replays -/

theorem mem_selected {snap : MarketSnapshot} :
    snap ∈ config.selected store ↔
      ∃ row ∈ store, config.Lists row ∧ config.InTime row ∧ config.stored row = snap := by
  simp only [selected, List.mem_map, List.mem_filter, decide_eq_true_eq, and_assoc]

/-- A row of the exchange is read as it was stored, if the exchange can be re-read. -/
theorem snapshot_eq_stored {row : HistoryRow} (hlists : config.Lists row)
    (hexchange : config.exchange.Rereadable) : row.snapshot = config.stored row := by
  have hname : row.snapshot.exchange = config.exchange := by
    rw [← (ExchangeId.ofText_toText_iff _).2 hexchange, ← hlists.1]
    rfl
  rw [stored, ← hname]

/-- If the texts say the same as the timestamps, and the exchange can be re-read, the two lists are
the same. -/
theorem picked_eq_selected (hspan : ∀ row ∈ store, config.Lists row →
      (config.InTime row ↔ TextBetween config.start config.stop row.ts))
    (hexchange : ∀ row ∈ store, config.Lists row → config.InTime row →
      config.exchange.Rereadable) : config.picked store = config.selected store := by
  have hfilter : (store.filter fun row => config.Selects row) =
      store.filter fun row => config.Lists row ∧ config.InTime row :=
    List.filter_congr fun row hrow => decide_eq_decide.2
      (and_congr_right fun hlists => (hspan row hrow hlists).symm)
  rw [picked, selected, hfilter]
  refine List.map_congr_left fun row hrow => ?_
  obtain ⟨hmem, hrow⟩ := List.mem_filter.1 hrow
  obtain ⟨hlists, htime⟩ := of_decide_eq_true hrow
  exact snapshot_eq_stored hlists (hexchange row hmem hlists htime)

/-- In a faithful replay the texts say the same as the timestamps, and the exchange of what is asked
for can be re-read. -/
theorem Faithful.rows (h : config.Faithful store) (hreadable : config.Readable store)
    {row : HistoryRow} (hrow : row ∈ store) (hlists : config.Lists row) :
    (config.InTime row ↔ TextBetween config.start config.stop row.ts) ∧
      (config.InTime row → config.exchange.Rereadable) := by
  have hsame : ∀ snap, snap ∈ config.replay store ↔ snap ∈ config.selected store := fun snap =>
    h.1.mem_iff
  have hasked : config.InTime row →
      TextBetween config.start config.stop row.ts ∧ config.exchange.Rereadable := by
    intro htime
    have hmem := (hsame _).2 (mem_selected.2 ⟨row, hrow, hlists, htime, rfl⟩)
    obtain ⟨-, row', -, hselects, hsnap⟩ := mem_replay.1 hmem
    have hts : row'.ts = row.ts := congrArg MarketSnapshot.ts hsnap
    refine ⟨hts ▸ hselects.2, (ExchangeId.ofText_toText_iff _).1 ?_⟩
    rw [← hselects.1.1]
    exact congrArg MarketSnapshot.exchange hsnap
  refine ⟨⟨fun htime => (hasked htime).1, fun hspan => ?_⟩, fun htime => (hasked htime).2⟩
  have hmem := (hsame _).1 (mem_replay.2 ⟨hreadable, row, hrow, ⟨hlists, hspan⟩, rfl⟩)
  obtain ⟨row', -, -, htime, hsnap⟩ := mem_selected.1 hmem
  have hts : row'.ts = row.ts := congrArg MarketSnapshot.ts hsnap
  exact ⟨hts ▸ htime.1, hts ▸ htime.2⟩

/-- **When a replay is faithful**: exactly if, for all rows of the markets of the backtest, the text
of the timestamp is in the time span when the timestamp is, and then the year has four digits, the
exchange can be re-read and the symbol is listed once; or nothing is asked for and the query
fails. -/
theorem faithful_iff (config : BacktestConfig) (store : HistoricalStore) :
    config.Faithful store ↔
      (∀ row ∈ store, config.Lists row →
        (config.InTime row ↔ TextBetween config.start config.stop row.ts) ∧
        (config.InTime row → FourDigitYear row.ts ∧ config.exchange.Rereadable ∧
          config.symbols.count row.snapshot.symbol = 1)) ∨
      ((∀ row ∈ store, config.Lists row → ¬ config.InTime row) ∧
        ∃ row ∈ store, config.Selects row ∧ ¬ FourDigitYear row.ts) := by
  have hfails : (∃ row ∈ store, config.Selects row ∧ ¬ FourDigitYear row.ts) ↔
      ¬ config.Readable store := by
    simp [Readable]
  rw [hfails]
  constructor
  · intro hfaithful
    by_cases hreadable : config.Readable store
    · refine Or.inl ?_
      have hrows := fun (row : HistoryRow) hrow hlists =>
        @Faithful.rows config store hfaithful hreadable row hrow hlists
      have hperm := hfaithful.1
      rw [← picked_eq_selected (fun row hrow hlists => (hrows row hrow hlists).1)
        fun row hrow hlists => (hrows row hrow hlists).2, perm_picked_iff hreadable] at hperm
      intro row hrow hlists
      refine ⟨(hrows row hrow hlists).1, fun htime => ?_⟩
      have hselects : config.Selects row := ⟨hlists, (hrows row hrow hlists).1.1 htime⟩
      exact ⟨hreadable row hrow hselects, (hrows row hrow hlists).2 htime,
        hperm row hrow hselects⟩
    · refine Or.inr ⟨fun row hrow hlists htime => ?_, hreadable⟩
      have hmem := hfaithful.1.mem_iff.2 (mem_selected.2 ⟨row, hrow, hlists, htime, rfl⟩)
      exact hreadable (mem_replay.1 hmem).1
  · rintro (hrows | ⟨hnone, hreadable⟩)
    · have hreadable : config.Readable store := fun row hrow hselects =>
        ((hrows row hrow hselects.1).2 ((hrows row hrow hselects.1).1.2 hselects.2)).1
      refine ⟨?_, config.replay_sorted store⟩
      rw [← picked_eq_selected (fun row hrow hlists => (hrows row hrow hlists).1)
        fun row hrow hlists htime => ((hrows row hrow hlists).2 htime).2.1,
        perm_picked_iff hreadable]
      intro row hrow hselects
      exact ((hrows row hrow hselects.1).2 ((hrows row hrow hselects.1).1.2 hselects.2)).2.2
    · refine ⟨?_, config.replay_sorted store⟩
      have hempty : config.selected store = [] := by
        rw [List.eq_nil_iff_forall_not_mem]
        intro snap hsnap
        obtain ⟨row, hrow, hlists, htime, -⟩ := mem_selected.1 hsnap
        exact hnone row hrow hlists htime
      rw [replay_eq_nil hreadable, hempty]

end BacktestConfig

/-! ### One symbol on two exchanges -/

/-- A node that follows BTC on OKX and on Binance. -/
def twoExchanges : NodeConfig :=
  { NodeConfig.default with
    kernelMode := .backtest
    marketData :=
      { NodeConfig.default.marketData with
        subscriptions :=
          [{ exchange := .okx, symbol := ⟨"BTC", "USDT"⟩, wsUrl := "wss://dummy" },
            { exchange := .binance, symbol := ⟨"BTC", "USDT"⟩, wsUrl := "wss://dummy" }]
        history := some { connectionString := "sqlite::memory:" } } }

/-- A store with one snapshot of BTC on OKX. -/
def btcStore : HistoricalStore :=
  HistoricalStore.insertSnapshot []
    { ts := 0
      exchange := .okx
      symbol := ⟨"BTC", "USDT"⟩
      last := 100
      bid := 99
      ask := 101
      volume24h := 1000
      traceId := none }

/-- **The node replays the snapshot twice.** -/
theorem not_faithful_twoExchanges :
    ((twoExchanges.btConfig 0 0).replay btcStore).length = 2 ∧
      ((twoExchanges.btConfig 0 0).selected btcStore).length = 1 ∧
      ¬ (twoExchanges.btConfig 0 0).Faithful btcStore := by
  have hreplay : ((twoExchanges.btConfig 0 0).replay btcStore).length = 2 := by decide +kernel
  have hselected : ((twoExchanges.btConfig 0 0).selected btcStore).length = 1 := by decide +kernel
  refine ⟨hreplay, hselected, ?_⟩
  rintro ⟨hperm, -⟩
  have hlength := hperm.length_eq
  rw [hreplay, hselected] at hlength
  exact absurd hlength (by decide)

end W2uos
