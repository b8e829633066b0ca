import W2uos.Data.History

/-!
# The backtest engine

`BacktestEngine::run` loads the stored snapshots of the configured markets and publishes them one
after the other, each on the subject of its market.  The pauses between snapshots, the metrics and
the reported status are left out: they are seen by nobody else.
-/

namespace W2uos

/-- What to replay. -/
structure BacktestConfig where
  exchange : ExchangeId
  symbols : List Symbol
  start : DateTime
  stop : DateTime
  deriving DecidableEq

section

variable {α : Type} {config : BacktestConfig} {store : HistoricalStore α}

/-- The stored snapshots of one symbol after the other, sorted by time; `none` is the error of a
query. -/
def BacktestConfig.load (config : BacktestConfig) (store : HistoricalStore α) :
    Option (List (MarketSnapshot α)) := do
  let allSnaps ← config.symbols.mapM fun symbol =>
    store.loadSnapshots config.exchange symbol config.start config.stop
  return allSnaps.flatten.insertionSort fun a b => a.ts ≤ b.ts

/-- The snapshots the engine publishes, in order: none if a query fails. -/
def BacktestConfig.replay (config : BacktestConfig) (store : HistoricalStore α) :
    List (MarketSnapshot α) :=
  (config.load store).getD []

/-- The row is of a market of the backtest. -/
def BacktestConfig.Lists (config : BacktestConfig) (row : HistoryRow α) : Prop :=
  row.exchange = config.exchange.toText ∧ row.snapshot.symbol ∈ config.symbols

/-- And its timestamp is, as a text, in the time span. -/
def BacktestConfig.Selects (config : BacktestConfig) (row : HistoryRow α) : Prop :=
  config.Lists row ∧ TextBetween config.start config.stop row.ts

/-- All rows that are selected can be parsed. -/
def BacktestConfig.Readable (config : BacktestConfig) (store : HistoricalStore α) : Prop :=
  ∀ row ∈ store, config.Selects row → FourDigitYear row.ts

theorem BacktestConfig.selects_iff {row : HistoryRow α} :
    config.Selects row ↔ ∃ symbol ∈ config.symbols,
      row.Asked config.exchange symbol config.start config.stop := by
  constructor
  · rintro ⟨⟨hexchange, hsymbol⟩, hspan⟩
    exact ⟨_, hsymbol, hexchange, rfl, rfl, hspan⟩
  · rintro ⟨symbol, hsymbol, hexchange, hbase, hquote, hspan⟩
    have heq : row.snapshot.symbol = symbol := Symbol.ext hbase hquote
    exact ⟨⟨hexchange, heq ▸ hsymbol⟩, hspan⟩

theorem BacktestConfig.replay_eq (h : config.Readable store) :
    config.replay store = (config.symbols.flatMap fun symbol =>
      store.inOrder config.exchange symbol config.start config.stop).insertionSort
        fun a b => a.ts ≤ b.ts := by
  have hload := mapM_eq_some (l := config.symbols) fun symbol hsymbol =>
    HistoricalStore.loadSnapshots_eq_some fun row hrow hasked =>
      h row hrow (selects_iff.2 ⟨symbol, hsymbol, hasked⟩)
  rw [replay, load, hload, List.flatMap_def]
  rfl

theorem BacktestConfig.replay_eq_nil (h : ¬ config.Readable store) : config.replay store = [] := by
  obtain ⟨row, hrow, hselects, hyear⟩ : ∃ row ∈ store, config.Selects row ∧
      ¬ FourDigitYear row.ts := by
    simpa [Readable] using h
  obtain ⟨symbol, hsymbol, hasked⟩ := selects_iff.1 hselects
  have hload := mapM_eq_none (f := fun symbol =>
    store.loadSnapshots config.exchange symbol config.start config.stop) hsymbol
      (HistoricalStore.loadSnapshots_eq_none hrow hasked hyear)
  rw [replay, load, hload]
  rfl

/-- What is published are the snapshots of the selected rows, if all of them can be parsed. -/
theorem BacktestConfig.mem_replay {snap : MarketSnapshot α} :
    snap ∈ config.replay store ↔
      config.Readable store ∧ ∃ row ∈ store, config.Selects row ∧ row.snapshot = snap := by
  by_cases hreadable : config.Readable store
  · rw [replay_eq hreadable, List.mem_insertionSort, List.mem_flatMap, and_iff_right hreadable]
    simp only [HistoricalStore.mem_inOrder, selects_iff]
    constructor
    · rintro ⟨symbol, hsymbol, row, hrow, hasked, hsnap⟩
      exact ⟨row, hrow, ⟨symbol, hsymbol, hasked⟩, hsnap⟩
    · rintro ⟨row, hrow, ⟨symbol, hsymbol, hasked⟩, hsnap⟩
      exact ⟨symbol, hsymbol, row, hrow, hasked, hsnap⟩
  · simp [replay_eq_nil hreadable, hreadable]

theorem BacktestConfig.readable_of_years (hstart : FourDigitYear config.start)
    (hstop : FourDigitYear config.stop) : config.Readable store := by
  intro row _ hselects
  obtain ⟨symbol, -, hasked⟩ := selects_iff.1 hselects
  exact hasked.year hstart hstop

end

end W2uos
