import W2uos.Log.Latency
import W2uos.System.Fanout

/-!
# Sinks

The log service writes events, trades and latency records to a sink.  `main` gives it a
`CompositeLogSink` of a file and a database, which hands every record to one sink after the other
and returns at the first error.  A sink behind one that fails does not get the record.  The log
service reports the error and goes on with the next message, so what it writes does not depend on
the answers.

A sink may fail whenever it wants: it is a component with states of its own.

* `sinksIndependent_iff` : exactly when a composite sink is independent.
-/

namespace W2uos

/-- A record that is written to a sink. -/
inductive LogRecord
  | event (evt : LogEvent)
  | trade (trade : TradeRecord)
  | latency (latency : LatencyRecord)
  deriving DecidableEq

/-- An implementation of the trait `LogSink` with states `σ`; the writes may fail. -/
structure LogSink (σ : Type) where
  writeEvent : LogEvent → σ → Except String Unit × σ
  writeTrade : TradeRecord → σ → Except String Unit × σ
  writeLatency : LatencyRecord → σ → Except String Unit × σ

/-- A sink in a state. -/
structure PlacedSink (σ : Type) where
  sink : LogSink σ
  state : σ

/-- A call of a sink. -/
def PlacedSink.call {σ : Type} (write : LogSink σ → σ → Except String Unit × σ)
    (p : PlacedSink σ) : Except String Unit × PlacedSink σ :=
  ((write p.sink p.state).1, { p with state := (write p.sink p.state).2 })

/-- `CompositeLogSink`: every call is handed to one sink after the other, up to the first error. -/
def compositeLogSink {σ : Type} : LogSink (List (PlacedSink σ)) where
  writeEvent event := Fanout.each (PlacedSink.call fun sink => sink.writeEvent event)
  writeTrade trade := Fanout.each (PlacedSink.call fun sink => sink.writeTrade trade)
  writeLatency latency := Fanout.each (PlacedSink.call fun sink => sink.writeLatency latency)

namespace LogSink

variable {σ : Type} (sink : LogSink σ)

/-- Write a record. -/
def write : LogRecord → σ → Except String Unit × σ
  | .event evt => sink.writeEvent evt
  | .trade trade => sink.writeTrade trade
  | .latency latency => sink.writeLatency latency

/-- A sink as a machine. -/
def machine : Machine σ LogRecord (Except String Unit) where
  step state r := ((sink.write r state).2, [(sink.write r state).1])

/-- What a sink notes of a call: the record, and whether it was written. -/
def note (r : LogRecord) (called : Except String Unit × σ) (notes : List (LogRecord × Bool)) :
    Except String Unit × σ × List (LogRecord × Bool) :=
  (called.1, called.2, notes ++ [(r, called.1.isOk)])

/-- The sink, with notes of what it was asked to write. -/
def noting : LogSink (σ × List (LogRecord × Bool)) where
  writeEvent evt state := note (.event evt) (sink.writeEvent evt state.1) state.2
  writeTrade trade state := note (.trade trade) (sink.writeTrade trade state.1) state.2
  writeLatency latency state :=
    note (.latency latency) (sink.writeLatency latency state.1) state.2

theorem next_machine (state : σ) (r : LogRecord) :
    sink.machine.next state r = (sink.write r state).2 := rfl

theorem write_noting (r : LogRecord) (state : σ × List (LogRecord × Bool)) :
    sink.noting.write r state = note r (sink.write r state.1) state.2 := by
  cases r <;> rfl

end LogSink

theorem compositeLogSink_write {σ : Type} (r : LogRecord) (sinks : List (PlacedSink σ)) :
    compositeLogSink.write r sinks =
      Fanout.each (PlacedSink.call fun sink => sink.write r) sinks := by
  cases r <;> rfl

/-! ### Independence -/

section Independence

variable {σ : Type}

/-- The sink with notes, which are empty. -/
def PlacedSink.noting (p : PlacedSink σ) : PlacedSink (σ × List (LogRecord × Bool)) where
  sink := p.sink.noting
  state := (p.state, [])

/-- The sinks of a composite sink, with their notes, after it was asked to write some records. -/
def sinksAfter (sinks : List (PlacedSink σ)) (records : List LogRecord) :
    List (PlacedSink (σ × List (LogRecord × Bool))) :=
  compositeLogSink.machine.run (sinks.map PlacedSink.noting) records

/-- The notes of the sinks. -/
def notesAfter (sinks : List (PlacedSink σ)) (records : List LogRecord) :
    List (List (LogRecord × Bool)) :=
  (sinksAfter sinks records).map (·.state.2)

/-- Every sink has been asked to write every record once, in order, and the composite sink returned
an error exactly when one of them did. -/
structure SinksIndependent (sinks : List (PlacedSink σ)) (records : List LogRecord) : Prop where
  offered : ∀ notes ∈ notesAfter sinks records, notes.map Prod.fst = records
  answers : ∀ pre r post, records = pre ++ r :: post →
    ((compositeLogSink.write r (sinksAfter sinks pre)).1 ≠ .ok () ↔
      ∃ (k : ℕ) (notes : List (LogRecord × Bool)), (notesAfter sinks pre)[k]? = some notes ∧
        (notesAfter sinks (pre ++ [r]))[k]? = some (notes ++ [(r, false)]))

/-- The sink, left to itself, writes every record. -/
def NeverFails (p : PlacedSink σ) (records : List LogRecord) : Prop :=
  ∀ answer ∈ p.sink.machine.output p.state records, answer = .ok ()

/-- The sink, left to itself, with its notes. -/
def PlacedSink.alone (p : PlacedSink σ) (records : List LogRecord) :
    PlacedSink (σ × List (LogRecord × Bool)) where
  sink := p.sink.noting
  state := p.sink.noting.machine.run (p.state, []) records

variable {p : PlacedSink σ} {sinks : List (PlacedSink σ)} {records : List LogRecord}
  {r : LogRecord}

theorem neverFails_concat :
    NeverFails p (records ++ [r]) ↔ NeverFails p records ∧
      (p.sink.write r (p.sink.machine.run p.state records)).1 = .ok () := by
  unfold NeverFails
  rw [Machine.output_concat]
  simp only [List.mem_append, or_imp, forall_and]
  refine and_congr_right fun _ => ?_
  simp [Machine.emit, LogSink.machine]

theorem alone_state (p : PlacedSink σ) (records : List LogRecord) :
    (p.alone records).state.1 = p.sink.machine.run p.state records ∧
      (p.alone records).state.2.map Prod.fst = records := by
  unfold PlacedSink.alone
  dsimp only
  induction records using List.reverseRecOn with
  | nil => exact ⟨rfl, rfl⟩
  | append_singleton records r ih =>
    rw [Machine.run_concat, Machine.run_concat, LogSink.next_machine, LogSink.next_machine,
      LogSink.write_noting, LogSink.note]
    dsimp only
    rw [List.map_append, ih.1, ih.2]
    exact ⟨rfl, rfl⟩

theorem alone_concat (p : PlacedSink σ) (records : List LogRecord) (r : LogRecord) :
    p.alone (records ++ [r]) =
      (PlacedSink.call (fun sink => sink.write r) (p.alone records)).2 := by
  unfold PlacedSink.alone PlacedSink.call
  rw [Machine.run_concat]
  rfl

theorem succeeds_alone_iff :
    Fanout.Succeeds (PlacedSink.call fun sink => sink.write r) (p.alone records) ↔
      (p.sink.write r (p.sink.machine.run p.state records)).1 = .ok () := by
  rw [← (alone_state p records).1]
  unfold Fanout.Succeeds PlacedSink.call PlacedSink.alone
  dsimp only
  rw [LogSink.write_noting]
  rfl

theorem sinksAfter_concat (sinks : List (PlacedSink σ)) (records : List LogRecord)
    (r : LogRecord) :
    sinksAfter sinks (records ++ [r]) =
      (Fanout.each (PlacedSink.call fun sink => sink.write r) (sinksAfter sinks records)).2 := by
  rw [sinksAfter, Machine.run_concat, ← compositeLogSink_write]
  rfl

/-- If only the last sink ever fails, the sinks do what they do by themselves. -/
theorem sinksAfter_eq (h : ∀ p ∈ sinks.dropLast, NeverFails p records) :
    sinksAfter sinks records = sinks.map fun p => p.alone records := by
  induction records using List.reverseRecOn with
  | nil => rfl
  | append_singleton records r ih =>
    have hrecords := ih fun p hp => (neverFails_concat.1 (h p hp)).1
    rw [sinksAfter_concat, hrecords, Fanout.each_of_forall_dropLast, List.map_map]
    · refine List.map_congr_left ?_
      intro p _
      exact (alone_concat p records r).symm
    · rw [← List.map_dropLast, List.forall_mem_map]
      intro p hp
      exact succeeds_alone_iff.2 (neverFails_concat.1 (h p hp)).2

/-- The sink takes notes. -/
def PlacedSink.Noting (q : PlacedSink (σ × List (LogRecord × Bool))) : Prop :=
  ∃ sink : LogSink σ, q.sink = sink.noting

theorem PlacedSink.Noting.call {q : PlacedSink (σ × List (LogRecord × Bool))} (hq : q.Noting)
    (r : LogRecord) :
    let called := PlacedSink.call (fun sink => sink.write r) q
    called.2.Noting ∧ called.2.state.2 = q.state.2 ++ [(r, called.1.isOk)] := by
  obtain ⟨sink, hsink⟩ := hq
  unfold PlacedSink.call
  dsimp only
  rw [hsink, LogSink.write_noting]
  exact ⟨⟨sink, rfl⟩, rfl⟩

/-- A sink after one more record: it has been asked to write it, or it is as before. -/
theorem mem_sinksAfter_concat {q : PlacedSink (σ × List (LogRecord × Bool))}
    (hq : q ∈ sinksAfter sinks (records ++ [r])) :
    ∃ before ∈ sinksAfter sinks records,
      q = (PlacedSink.call (fun sink => sink.write r) before).2 ∨ q = before := by
  rw [sinksAfter_concat] at hq
  obtain ⟨k, hk⟩ := List.getElem?_of_mem hq
  have hall := Fanout.each_forall₂ (PlacedSink.call fun sink => sink.write r)
    (sinksAfter sinks records)
  obtain ⟨hlt, hget⟩ := List.getElem?_eq_some_iff.1 hk
  have hlt' : k < (sinksAfter sinks records).length := by rwa [hall.length_eq]
  refine ⟨_, List.getElem_mem hlt', ?_⟩
  rw [← hget]
  exact (List.forall₂_iff_get.1 hall).2 k hlt' hlt

theorem notes_length_le (sinks : List (PlacedSink σ)) (records : List LogRecord) :
    ∀ q ∈ sinksAfter sinks records, q.Noting ∧ q.state.2.length ≤ records.length := by
  induction records using List.reverseRecOn with
  | nil =>
    intro q hq
    obtain ⟨p, -, rfl⟩ := List.mem_map.1 hq
    exact ⟨⟨p.sink, rfl⟩, le_rfl⟩
  | append_singleton records r ih =>
    intro q hq
    obtain ⟨before, hbefore, hcases⟩ := mem_sinksAfter_concat hq
    obtain ⟨hnoting, hlength⟩ := ih before hbefore
    rw [List.length_append, List.length_singleton]
    rcases hcases with rfl | rfl
    · obtain ⟨hnoting', hnotes⟩ := hnoting.call r
      refine ⟨hnoting', ?_⟩
      rw [hnotes, List.length_append, List.length_singleton]
      omega
    · exact ⟨hnoting, by omega⟩

/-- A sink that was asked for every record was asked for every one before the last. -/
theorem offered_of_concat
    (h : ∀ q ∈ sinksAfter sinks (records ++ [r]), q.state.2.map Prod.fst = records ++ [r]) :
    ∀ q ∈ sinksAfter sinks records, q.state.2.map Prod.fst = records := by
  intro q hq
  obtain ⟨hnoting, hlength⟩ := notes_length_le sinks records q hq
  obtain ⟨k, hk⟩ := List.getElem?_of_mem hq
  have hall := Fanout.each_forall₂ (PlacedSink.call fun sink => sink.write r)
    (sinksAfter sinks records)
  rw [← sinksAfter_concat] at hall
  obtain ⟨hlt, hget⟩ := List.getElem?_eq_some_iff.1 hk
  have hlt' : k < (sinksAfter sinks (records ++ [r])).length := by rwa [← hall.length_eq]
  have hoffered := h _ (List.getElem_mem hlt')
  have hcases := (List.forall₂_iff_get.1 hall).2 k hlt hlt'
  simp only [List.get_eq_getElem, hget] at hcases
  rcases hcases with hcalled | hsame
  · rw [hcalled, (hnoting.call r).2, List.map_append] at hoffered
    exact (List.append_inj' hoffered rfl).1
  · -- a sink that was not asked has a note too few
    rw [hsame] at hoffered
    have hshort := congrArg List.length hoffered
    rw [List.length_map, List.length_append, List.length_singleton] at hshort
    omega

/-- Every sink is asked for every record exactly if none before the last one ever fails. -/
theorem offered_iff :
    (∀ q ∈ sinksAfter sinks records, q.state.2.map Prod.fst = records) ↔
      ∀ p ∈ sinks.dropLast, NeverFails p records := by
  constructor
  · induction records using List.reverseRecOn with
    | nil => exact fun _ p _ answer hanswer => by cases hanswer
    | append_singleton records r ih =>
      intro h p hp
      have hrecords := ih (offered_of_concat h)
      refine neverFails_concat.2 ⟨hrecords p hp, ?_⟩
      by_contra hfails
      -- the loop returns at this sink or before, and does not reach the last one
      have hlast : (sinksAfter sinks (records ++ [r])).getLast? =
          (sinksAfter sinks records).getLast? := by
        rw [sinksAfter_concat, sinksAfter_eq hrecords]
        refine Fanout.getLast?_each (a := p.alone records) ?_ fun hsucceeds =>
          hfails (succeeds_alone_iff.1 hsucceeds)
        rw [← List.map_dropLast]
        exact List.mem_map_of_mem hp
      have hne : sinksAfter sinks records ≠ [] := by
        rw [sinksAfter_eq hrecords]
        rintro hnil
        rw [List.map_eq_nil_iff.1 hnil] at hp
        cases hp
      have hmem := List.getLast_mem hne
      have hmem' : (sinksAfter sinks records).getLast hne ∈ sinksAfter sinks (records ++ [r]) := by
        refine List.mem_of_getLast? ?_
        rw [hlast, List.getLast?_eq_some_getLast hne]
      have hnotes := congrArg List.length (h _ hmem')
      have hlength := (notes_length_le sinks records _ hmem).2
      rw [List.length_map, List.length_append, List.length_singleton] at hnotes
      omega
  · intro h q hq
    rw [sinksAfter_eq h] at hq
    obtain ⟨p, -, rfl⟩ := List.mem_map.1 hq
    exact (alone_state p records).2

theorem answer_iff (sinks : List (PlacedSink σ)) (records : List LogRecord) (r : LogRecord) :
    (compositeLogSink.write r (sinksAfter sinks records)).1 ≠ .ok () ↔
      ∃ (k : ℕ) (notes : List (LogRecord × Bool)), (notesAfter sinks records)[k]? = some notes ∧
        (notesAfter sinks (records ++ [r]))[k]? = some (notes ++ [(r, false)]) := by
  have hall := Fanout.each_forall₂ (PlacedSink.call fun sink => sink.write r)
    (sinksAfter sinks records)
  have hnoting := notes_length_le sinks records
  rw [compositeLogSink_write, notesAfter, notesAfter, sinksAfter_concat]
  simp only [List.getElem?_map, Option.map_eq_some_iff]
  generalize sinksAfter sinks records = before at hall hnoting
  constructor
  · intro herror
    obtain ⟨pre, q, post, rfl, hfails, heq⟩ := Fanout.exists_fails_of_error herror
    refine ⟨pre.length, q.state.2, ⟨q, by simp, rfl⟩,
      (PlacedSink.call (fun sink => sink.write r) q).2, ?_, ?_⟩
    · rw [heq, List.getElem?_append_right (by simp)]
      simp
    · -- the note says that the sink has failed
      obtain ⟨-, hnotes⟩ := (hnoting q (by simp)).1.call r
      rw [hnotes]
      unfold Fanout.Succeeds at hfails
      cases hanswer : (PlacedSink.call (fun sink => sink.write r) q).1 with
      | ok u => exact absurd hanswer hfails
      | error err => rfl
  · rintro ⟨k, notes, ⟨q, hq, rfl⟩, q', hq', hnotes⟩ hok
    have hsucceeds := Fanout.succeeds_of_ok hok q (List.mem_of_getElem? hq)
    obtain ⟨hlt, hget⟩ := List.getElem?_eq_some_iff.1 hq
    obtain ⟨hlt', hget'⟩ := List.getElem?_eq_some_iff.1 hq'
    have hcases := (List.forall₂_iff_get.1 hall).2 k hlt hlt'
    simp only [List.get_eq_getElem, hget, hget'] at hcases
    rcases hcases with rfl | rfl
    · rw [((hnoting q (List.mem_of_getElem? hq)).1.call r).2, hsucceeds] at hnotes
      have hnote := List.append_cancel_left hnotes
      cases hnote
    · exact absurd hnotes (by simp)

/-- **Exactly when the sinks are independent**: no sink before the last one, left to itself, fails
to write one of the records. -/
theorem sinksIndependent_iff (sinks : List (PlacedSink σ)) (records : List LogRecord) :
    SinksIndependent sinks records ↔ ∀ p ∈ sinks.dropLast, NeverFails p records := by
  rw [← offered_iff]
  constructor
  · intro h q hq
    exact h.offered _ (List.mem_map_of_mem hq)
  · intro h
    refine ⟨List.forall_mem_map.2 h, fun pre r post _ => answer_iff sinks pre r⟩

end Independence

/-! ### A file that cannot be written -/

/-- A sink whose writes all end in the same answer. -/
def steadySink (answer : Except String Unit) : PlacedSink Unit where
  sink :=
    { writeEvent := fun _ state => (answer, state)
      writeTrade := fun _ state => (answer, state)
      writeLatency := fun _ state => (answer, state) }
  state := ()

/-- A trade. -/
def sampleTrade : TradeRecord where
  id := "a"
  ts := 0
  exchange := "OKX"
  symbol := ⟨"BTC", "USDT"⟩
  side := .buy
  sizeQuote := 100
  price := 10
  status := .filled
  strategyId := none
  correlationId := none

/-- **A trade that is lost**: the file cannot be written, and the database, which could be, is not
asked to store the trade. -/
theorem not_sinksIndependent :
    ¬ SinksIndependent [steadySink (.error "no space left on device"), steadySink (.ok ())]
        [.trade sampleTrade] ∧
      notesAfter [steadySink (.error "no space left on device"), steadySink (.ok ())]
        [.trade sampleTrade] = [[(.trade sampleTrade, false)], []] := by
  have hnotes : notesAfter [steadySink (.error "no space left on device"), steadySink (.ok ())]
      [.trade sampleTrade] = [[(.trade sampleTrade, false)], []] := rfl
  refine ⟨fun h => ?_, hnotes⟩
  have hoffered := h.offered [] (by rw [hnotes]; simp)
  cases hoffered

end W2uos
