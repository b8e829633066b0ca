import Mathlib.Data.List.Sort
import W2uos.Data.Rfc3339

/-!
# The history store

The table `market_history` with the two statements the store runs on it.  The database compares and
sorts timestamps by their texts.  A price that is not a number is bound as `NULL`, which no column
takes, and a row whose year has a sign cannot be parsed when it is read.
-/

namespace W2uos

/-- The floats that can be bound to a column of type `REAL`. -/
class SqlReal (α : Type) where
  /-- The float is bound as `NULL`. -/
  isNull : α → Bool

instance : SqlReal ℚ := ⟨fun _ => false⟩

/-- A 64-bit float as the database keeps it: the two zeros are one value. -/
inductive Real64
  | number (q : ℚ)
  | infinite (negative : Bool)
  | nan
  deriving DecidableEq

instance : SqlReal Real64 := ⟨fun x => x = .nan⟩

/-- A row of the table.  The timestamp stands for its text. -/
structure HistoryRow (α : Type := ℚ) where
  ts : DateTime
  exchange : String
  symbolBase : String
  symbolQuote : String
  last : α
  bid : α
  ask : α
  volume24h : α
  deriving DecidableEq

/-- The rows of the store, in the order they were inserted. -/
abbrev HistoricalStore (α : Type := ℚ) := List (HistoryRow α)

section

variable {α : Type}

/-- The row of a snapshot. -/
def MarketSnapshot.row (snap : MarketSnapshot α) : HistoryRow α where
  ts := snap.ts
  exchange := snap.exchange.toText
  symbolBase := snap.symbol.base
  symbolQuote := snap.symbol.quote
  last := snap.last
  bid := snap.bid
  ask := snap.ask
  volume24h := snap.volume24h

/-- No column of the row of a snapshot would be `NULL`. -/
def MarketSnapshot.Storable [SqlReal α] (snap : MarketSnapshot α) : Prop :=
  ∀ x ∈ [snap.last, snap.bid, snap.ask, snap.volume24h], SqlReal.isNull x = false

instance [SqlReal α] (snap : MarketSnapshot α) : Decidable snap.Storable :=
  inferInstanceAs (Decidable (∀ x ∈ _, _))

/-- `insert_snapshot`: an error leaves the store as it is. -/
def HistoricalStore.insertSnapshot [SqlReal α] (store : HistoricalStore α)
    (snapshot : MarketSnapshot α) : HistoricalStore α :=
  if snapshot.Storable then store ++ [snapshot.row] else store

/-- What is read of a row. -/
def HistoryRow.snapshot (row : HistoryRow α) : MarketSnapshot α where
  ts := row.ts
  exchange := ExchangeId.ofText row.exchange
  symbol := { base := row.symbolBase, quote := row.symbolQuote }
  last := row.last
  bid := row.bid
  ask := row.ask
  volume24h := row.volume24h
  traceId := none

/-- The snapshot of a row; `parse_from_rfc3339` fails if the year has a sign. -/
def HistoryRow.parsed (row : HistoryRow α) : Option (MarketSnapshot α) :=
  if FourDigitYear row.ts then some row.snapshot else none

/-- The row is one of the market, and the text of its timestamp is in the time span. -/
def HistoryRow.Asked (row : HistoryRow α) (exchange : ExchangeId) (symbol : Symbol)
    (start stop : DateTime) : Prop :=
  row.exchange = exchange.toText ∧ row.symbolBase = symbol.base ∧
    row.symbolQuote = symbol.quote ∧ TextBetween start stop row.ts

instance (row : HistoryRow α) (exchange : ExchangeId) (symbol : Symbol) (start stop : DateTime) :
    Decidable (row.Asked exchange symbol start stop) :=
  inferInstanceAs (Decidable (_ ∧ _ ∧ _ ∧ _))

/-- `load_snapshots`: the snapshots of a market from `start` to `stop`, in the order of their
timestamps as texts; `none` is the error of a row that cannot be parsed. -/
def HistoricalStore.loadSnapshots (store : HistoricalStore α) (exchange : ExchangeId)
    (symbol : Symbol) (start stop : DateTime) : Option (List (MarketSnapshot α)) :=
  let rows := store.filter fun row => row.Asked exchange symbol start stop
  (rows.insertionSort fun a b => toRfc3339 a.ts ≤ toRfc3339 b.ts).mapM HistoryRow.parsed

end

theorem HistoricalStore.insertSnapshot_eq (store : HistoricalStore) (snap : MarketSnapshot) :
    store.insertSnapshot snap = store ++ [snap.row] :=
  if_pos fun _ _ => rfl

/-! ### What a query is answered with -/

section

variable {α : Type} {store : HistoricalStore α} {exchange : ExchangeId} {symbol : Symbol}
  {start stop : DateTime}

theorem mapM_eq_some {β γ : Type*} {f : β → Option γ} {g : β → γ} {l : List β}
    (h : ∀ a ∈ l, f a = some (g a)) : l.mapM f = some (l.map g) := by
  induction l with
  | nil => rfl
  | cons a l ih =>
    rw [List.mapM_cons, h a List.mem_cons_self, ih fun b hb => h b (List.mem_cons_of_mem _ hb)]
    rfl

theorem mapM_eq_none {β γ : Type*} {f : β → Option γ} {l : List β} {a : β} (ha : a ∈ l)
    (h : f a = none) : l.mapM f = none := by
  induction l with
  | nil => cases ha
  | cons b l ih =>
    rw [List.mapM_cons]
    rcases List.mem_cons.1 ha with rfl | ha
    · rw [h]
      rfl
    · rw [ih ha]
      cases f b <;> rfl

theorem mapM_congr {β γ : Type*} {f g : β → Option γ} {l : List β} (h : ∀ a ∈ l, f a = g a) :
    l.mapM f = l.mapM g := by
  induction l with
  | nil => rfl
  | cons a l ih =>
    rw [List.mapM_cons, List.mapM_cons, h a List.mem_cons_self,
      ih fun b hb => h b (List.mem_cons_of_mem _ hb)]

theorem HistoricalStore.loadSnapshots_eq_none {row : HistoryRow α} (hrow : row ∈ store)
    (hasked : row.Asked exchange symbol start stop) (hyear : ¬ FourDigitYear row.ts) :
    store.loadSnapshots exchange symbol start stop = none := by
  refine mapM_eq_none (a := row) ?_ (if_neg hyear)
  exact (List.mem_insertionSort _).2 (List.mem_filter.2 ⟨hrow, decide_eq_true hasked⟩)

/-- The snapshots of the rows that are asked for, in the order of time. -/
def HistoricalStore.inOrder (store : HistoricalStore α) (exchange : ExchangeId) (symbol : Symbol)
    (start stop : DateTime) : List (MarketSnapshot α) :=
  ((store.filter fun row => row.Asked exchange symbol start stop).insertionSort fun a b =>
    a.ts ≤ b.ts).map HistoryRow.snapshot

/-- **Without such a row the query is answered in the order of time.** -/
theorem HistoricalStore.loadSnapshots_eq_some
    (hyears : ∀ row ∈ store, row.Asked exchange symbol start stop → FourDigitYear row.ts) :
    store.loadSnapshots exchange symbol start stop =
      some (store.inOrder exchange symbol start stop) := by
  unfold loadSnapshots inOrder
  dsimp only
  set rows := store.filter fun row => row.Asked exchange symbol start stop with hrows
  have hyear : ∀ row ∈ rows, FourDigitYear row.ts := by
    intro row hrow
    rw [hrows] at hrow
    obtain ⟨hmem, hasked⟩ := List.mem_filter.1 hrow
    exact hyears row hmem (of_decide_eq_true hasked)
  have hsort : (rows.insertionSort fun a b => toRfc3339 a.ts ≤ toRfc3339 b.ts) =
      rows.insertionSort fun a b => a.ts ≤ b.ts := by
    have hmap := List.map_insertionSort (fun a b : HistoryRow α => toRfc3339 a.ts ≤ toRfc3339 b.ts)
      (fun a b => a.ts ≤ b.ts) (f := id) (l := rows) fun a ha b hb =>
        toRfc3339_le_iff (hyear a ha) (hyear b hb)
    simpa using hmap
  rw [hsort]
  exact mapM_eq_some fun row hrow => if_pos (hyear row ((List.mem_insertionSort _).1 hrow))

theorem HistoricalStore.mem_inOrder {snap : MarketSnapshot α} :
    snap ∈ store.inOrder exchange symbol start stop ↔
      ∃ row ∈ store, row.Asked exchange symbol start stop ∧ row.snapshot = snap := by
  simp only [inOrder, List.mem_map, List.mem_insertionSort, List.mem_filter, decide_eq_true_eq,
    and_assoc]

/-- In a time span within the years 0 to 9999 no row has a signed year. -/
theorem HistoryRow.Asked.year {row : HistoryRow α} (h : row.Asked exchange symbol start stop)
    (hstart : FourDigitYear start) (hstop : FourDigitYear stop) : FourDigitYear row.ts :=
  ((textBetween_iff hstart hstop row.ts).1 h.2.2.2).elim (hstart.between hstop)

end

end W2uos
