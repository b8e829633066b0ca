import W2uos.Data.History

/-!
# The store on texts

The rows of the table as they are stored, with their timestamps as texts, and the queries as the
database answers them.  How the texts are parsed again is up to the library for dates (`Chrono`).

* `loadSnapshots_texts` : the store on texts does what `HistoricalStore` says.
* `loadSnapshots_chronological` : a query for a time span is answered chronologically.
-/

namespace W2uos

/-- A row of the table as it is stored. -/
structure TextRow where
  ts : String
  exchange : String
  symbolBase : String
  symbolQuote : String
  last : ℚ
  bid : ℚ
  ask : ℚ
  volume24h : ℚ
  deriving DecidableEq

/-- The library that parses dates. -/
class Chrono where
  /-- `DateTime::parse_from_rfc3339`, as a UTC timestamp; `none` is an error. -/
  parseFromRfc3339 : String → Option DateTime

/-- The row with its timestamp as a text. -/
def HistoryRow.text (row : HistoryRow) : TextRow where
  ts := toRfc3339 row.ts
  exchange := row.exchange
  symbolBase := row.symbolBase
  symbolQuote := row.symbolQuote
  last := row.last
  bid := row.bid
  ask := row.ask
  volume24h := row.volume24h

/-- The snapshot of a row, if its timestamp can be parsed. -/
def TextRow.snapshot [Chrono] (row : TextRow) : Option MarketSnapshot := do
  let ts ← Chrono.parseFromRfc3339 row.ts
  return {
    ts := ts
    exchange := ExchangeId.ofText row.exchange
    symbol := { base := row.symbolBase, quote := row.symbolQuote }
    last := row.last
    bid := row.bid
    ask := row.ask
    volume24h := row.volume24h
    traceId := none }

/-- The rows of the table, in the order they were inserted. -/
abbrev TextStore := List TextRow

/-- `insert_snapshot`. -/
def TextStore.insertSnapshot (store : TextStore) (snapshot : MarketSnapshot) : TextStore :=
  store ++
    [{ ts := toRfc3339 snapshot.ts
       exchange := snapshot.exchange.toText
       symbolBase := snapshot.symbol.base
       symbolQuote := snapshot.symbol.quote
       last := snapshot.last
       bid := snapshot.bid
       ask := snapshot.ask
       volume24h := snapshot.volume24h }]

/-- `load_snapshots`: the whole query fails if a timestamp cannot be parsed. -/
def TextStore.loadSnapshots [Chrono] (store : TextStore) (exchange : ExchangeId) (symbol : Symbol)
    (start stop : DateTime) : Option (List MarketSnapshot) :=
  let rows := store.filter fun row =>
    row.exchange = exchange.toText ∧ row.symbolBase = symbol.base ∧
      row.symbolQuote = symbol.quote ∧ toRfc3339 start ≤ row.ts ∧ row.ts ≤ toRfc3339 stop
  (rows.insertionSort fun a b => a.ts ≤ b.ts).mapM TextRow.snapshot

section

variable {store : HistoricalStore} {start stop : DateTime}

/-- What has been inserted into the store on texts are the texts of what `HistoricalStore` has. -/
theorem insertSnapshot_texts (snapshot : MarketSnapshot) :
    (store.insertSnapshot snapshot).map HistoryRow.text =
      TextStore.insertSnapshot (store.map HistoryRow.text) snapshot := by
  rw [HistoricalStore.insertSnapshot_eq, TextStore.insertSnapshot, List.map_append]
  rfl

/-- **The store on texts answers as `HistoricalStore` does**, if the parser takes exactly the texts
with a year of four digits. -/
theorem loadSnapshots_texts [Chrono]
    (hparse : ∀ row ∈ store, Chrono.parseFromRfc3339 (toRfc3339 row.ts) =
      if FourDigitYear row.ts then some row.ts else none)
    (exchange : ExchangeId) (symbol : Symbol) :
    TextStore.loadSnapshots (store.map HistoryRow.text) exchange symbol start stop =
      store.loadSnapshots exchange symbol start stop := by
  unfold TextStore.loadSnapshots HistoricalStore.loadSnapshots
  dsimp only
  -- the same rows are selected, and sorted alike
  have hfilter : (store.map HistoryRow.text).filter (fun row =>
        row.exchange = exchange.toText ∧ row.symbolBase = symbol.base ∧
          row.symbolQuote = symbol.quote ∧ toRfc3339 start ≤ row.ts ∧ row.ts ≤ toRfc3339 stop) =
      (store.filter fun row => row.Asked exchange symbol start stop).map HistoryRow.text := by
    rw [List.filter_map]
    rfl
  rw [hfilter, ← List.map_insertionSort (fun a b : HistoryRow => toRfc3339 a.ts ≤ toRfc3339 b.ts)
    (fun a b : TextRow => a.ts ≤ b.ts) HistoryRow.text _ fun _ _ _ _ => Iff.rfl, List.mapM_map]
  -- and each is parsed alike
  refine mapM_congr fun row hrow => ?_
  have hmem := List.mem_of_mem_filter ((List.mem_insertionSort _).1 hrow)
  rw [Function.comp_apply, TextRow.snapshot, HistoryRow.parsed]
  change (Chrono.parseFromRfc3339 (toRfc3339 row.ts)).bind _ = _
  rw [hparse row hmem]
  split_ifs <;> rfl

end

/-- A snapshot as it is read back: the exchange has been printed and parsed, and the trace is
lost. -/
def MarketSnapshot.reread (snap : MarketSnapshot) : MarketSnapshot :=
  { snap with exchange := ExchangeId.ofText snap.exchange.toText, traceId := none }

/-- The texts of the rows of snapshots are what inserting them one by one leaves in the store. -/
theorem foldl_insertSnapshot (snaps : List MarketSnapshot) :
    snaps.foldl TextStore.insertSnapshot [] =
      (snaps.map MarketSnapshot.row).map HistoryRow.text := by
  induction snaps using List.reverseRecOn with
  | nil => rfl
  | append_singleton snaps snap ih =>
    rw [List.foldl_concat, ih, List.map_append, List.map_append]
    rfl

/-- The snapshots of the rows of a store are those of the market in the time span. -/
theorem perm_inOrder {start stop : DateTime} (hstart : FourDigitYear start)
    (hstop : FourDigitYear stop) (snaps : List MarketSnapshot) (exchange : ExchangeId)
    (symbol : Symbol) :
    (HistoricalStore.inOrder (snaps.map MarketSnapshot.row) exchange symbol start stop).Perm
      ((snaps.filter fun snap => snap.exchange.toText = exchange.toText ∧
        snap.symbol = symbol ∧ start ≤ snap.ts ∧ snap.ts ≤ stop).map MarketSnapshot.reread) := by
  unfold HistoricalStore.inOrder
  refine ((List.perm_insertionSort _ _).map _).trans (List.Perm.of_eq ?_)
  rw [List.filter_map, List.map_map]
  have hsame : ∀ snap : MarketSnapshot, snap.row.Asked exchange symbol start stop ↔
      (snap.exchange.toText = exchange.toText ∧ snap.symbol = symbol ∧ start ≤ snap.ts ∧
        snap.ts ≤ stop) := by
    intro snap
    rw [HistoryRow.Asked, textBetween_iff hstart hstop, Symbol.ext_iff, and_assoc]
    rfl
  refine congrArg (List.map MarketSnapshot.reread) (List.filter_congr fun snap _ => ?_)
  exact decide_eq_decide.2 (hsame snap)

theorem inOrder_sorted (store : HistoricalStore) (exchange : ExchangeId) (symbol : Symbol)
    (start stop : DateTime) :
    (store.inOrder exchange symbol start stop).Pairwise fun a b => a.ts ≤ b.ts := by
  have : Std.Total fun a b : HistoryRow => a.ts ≤ b.ts := ⟨fun a b => le_total a.ts b.ts⟩
  have : IsTrans HistoryRow fun a b => a.ts ≤ b.ts := ⟨fun _ _ _ => le_trans⟩
  exact List.pairwise_map.2 (List.pairwise_insertionSort _ _)

/-- What the store on texts answers after the snapshots have been inserted. -/
theorem loadSnapshots_rows [Chrono] {snaps : List MarketSnapshot} {start stop : DateTime}
    (hsnaps : ∀ snap ∈ snaps, FourDigitYear snap.ts)
    (hparse : ∀ snap ∈ snaps, Chrono.parseFromRfc3339 (toRfc3339 snap.ts) = some snap.ts)
    (exchange : ExchangeId) (symbol : Symbol) :
    TextStore.loadSnapshots (snaps.foldl TextStore.insertSnapshot []) exchange symbol start stop =
      some (HistoricalStore.inOrder (snaps.map MarketSnapshot.row) exchange symbol start stop) := by
  rw [foldl_insertSnapshot, loadSnapshots_texts, HistoricalStore.loadSnapshots_eq_some]
  · intro row hrow _
    obtain ⟨snap, hsnap, rfl⟩ := List.mem_map.1 hrow
    exact hsnaps snap hsnap
  · intro row hrow
    obtain ⟨snap, hsnap, rfl⟩ := List.mem_map.1 hrow
    exact (hparse snap hsnap).trans (if_pos (hsnaps snap hsnap)).symm

/-- **Queries for a time span are chronological**: the texts of timestamps are in their order and
different for different ones, and a query is answered with exactly the snapshots of the market in
the time span, in the order of time. -/
theorem loadSnapshots_chronological [Chrono] {snaps : List MarketSnapshot} {start stop : DateTime}
    (hsnaps : ∀ snap ∈ snaps, FourDigitYear snap.ts) (hstart : FourDigitYear start)
    (hstop : FourDigitYear stop)
    (hparse : ∀ snap ∈ snaps, Chrono.parseFromRfc3339 (toRfc3339 snap.ts) = some snap.ts)
    (exchange : ExchangeId) (symbol : Symbol) :
    (∀ t u, FourDigitYear t → FourDigitYear u →
      (toRfc3339 t < toRfc3339 u ↔ t < u) ∧ (toRfc3339 t = toRfc3339 u ↔ t = u)) ∧
    ∃ loaded, TextStore.loadSnapshots (snaps.foldl TextStore.insertSnapshot []) exchange symbol
        start stop = some loaded ∧
      loaded.Perm ((snaps.filter fun snap => snap.exchange.toText = exchange.toText ∧
        snap.symbol = symbol ∧ start ≤ snap.ts ∧ snap.ts ≤ stop).map MarketSnapshot.reread) ∧
      loaded.Pairwise fun a b => a.ts ≤ b.ts := by
  exact ⟨fun t u ht hu => ⟨toRfc3339_lt_iff ht hu, toRfc3339_inj ht hu⟩, _,
    loadSnapshots_rows hsnaps hparse exchange symbol,
    perm_inOrder hstart hstop snaps exchange symbol, inOrder_sorted _ _ _ _ _⟩

/-! ### Three snapshots within a second -/

/-- A snapshot of BTC on OKX. -/
def btcAt (ts : DateTime) : MarketSnapshot where
  ts := ts
  exchange := .okx
  symbol := ⟨"BTC", "USDT"⟩
  last := 100
  bid := 99
  ask := 101
  volume24h := 1000
  traceId := none

/-- Fractions of 3, 0 and 9 digits, the last of them before the first. -/
def fractions : List MarketSnapshot := [btcAt 500000000, btcAt 0, btcAt 499999999]

/-- A parser of these timestamps. -/
@[reducible] def fractionParser : Chrono where
  parseFromRfc3339 text :=
    if text = "1970-01-01T00:00:00+00:00" then some 0
    else if text = "1970-01-01T00:00:00.499999999+00:00" then some 499999999
    else if text = "1970-01-01T00:00:00.500+00:00" then some 500000000
    else none

theorem loadSnapshots_chronological_fractions :
    ∃ loaded, @TextStore.loadSnapshots fractionParser
        (fractions.foldl TextStore.insertSnapshot []) .okx ⟨"BTC", "USDT"⟩ 0 499999999 =
          some loaded ∧
      loaded.Perm ((fractions.filter fun snap =>
        snap.exchange.toText = ExchangeId.okx.toText ∧ snap.symbol = ⟨"BTC", "USDT"⟩ ∧
          0 ≤ snap.ts ∧ snap.ts ≤ 499999999).map MarketSnapshot.reread) ∧
      loaded.Pairwise fun a b => a.ts ≤ b.ts := by
  have hyears : ∀ snap ∈ fractions, FourDigitYear snap.ts := by decide +kernel
  have hparse : ∀ snap ∈ fractions,
      @Chrono.parseFromRfc3339 fractionParser (toRfc3339 snap.ts) = some snap.ts := by
    decide +kernel
  exact (@loadSnapshots_chronological fractionParser fractions 0 499999999 hyears
    (by decide +kernel) (by decide +kernel) hparse .okx ⟨"BTC", "USDT"⟩).2

end W2uos
