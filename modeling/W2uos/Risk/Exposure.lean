import W2uos.Risk.OpenPositions

/-!
# What is held

Booking a filled result inserts an entry for its symbol if there is none, moves it, and removes it
again unless it is positive; the notional and the number of open positions are then computed from
the map.  Whatever the results were, what is held is a map of positive exposures, and the two
figures are functions of it.

* `RiskState.Reports.recordOrder`, `reports_booked`, `reports_run` : what is reported after one
  result, after some results, and by the run loop;
* `exposure_exact` : the exposure map and its figures after any results.
-/

namespace W2uos

open RiskInput

/-- Exposures that are all positive. -/
abbrev Holdings := {m : Amounts String ℚ // m.Pos}

namespace Holdings

/-- Nothing is held. -/
def empty : Holdings := ⟨∅, Amounts.pos_empty⟩

/-- Move the exposure of a key.  It is dropped unless it is positive then. -/
def move (held : Holdings) (key : String) (d : ℚ) : Holdings :=
  ⟨settle held.1 key (held.1.amount key + d), settle_pos held.2 _ _⟩

/-- Book a result: move the exposure of its symbol by the change it stands for, if it does. -/
def book [CaseTable] (held : Holdings) (r : OrderResult) : Holdings :=
  match r.change (symbolKey r.symbol) with
  | none => held
  | some d => held.move (symbolKey r.symbol) d

theorem book_of_ne [CaseTable] {r : OrderResult} (hr : r.status ≠ .filled) (held : Holdings) :
    held.book r = held := by
  rw [book, change_eq_none hr]

end Holdings

/-- The state has the exposures that are held, and the figures derived from them. -/
structure RiskState.Reports (s : RiskState) (held : Holdings) : Prop where
  exposure : s.exposure = held.1
  /-- The notional is the sum of what is held. -/
  notional : s.status.totalNotional = held.1.total
  /-- The open positions are the keys something is held of. -/
  positions : s.status.openPositions = held.1.keys.card

section Reports

variable {s : RiskState} {held : Holdings}

theorem reports_initial : RiskState.initial.Reports .empty := ⟨rfl, rfl, rfl⟩

theorem RiskState.Reports.notional_pos_iff (h : s.Reports held) :
    0 < s.status.totalNotional ↔ 0 < s.status.openPositions := by
  rw [h.notional, h.positions]
  exact held.2.total_pos_iff

theorem RiskState.reports_mark_iff {a : Bool} {es : List Instant} :
    (s.mark a es).Reports held ↔ s.Reports held :=
  ⟨fun h => ⟨h.exposure, h.notional, h.positions⟩, fun h => ⟨h.exposure, h.notional, h.positions⟩⟩

variable [CaseTable]

/-- **What is reported after one more result.** -/
theorem RiskState.Reports.recordOrder (h : s.Reports held) (r : OrderResult) :
    (s.recordOrder r).Reports (held.book r) := by
  by_cases hr : r.status = .filled
  · obtain ⟨d, hd, -, hstate⟩ := recordOrder_filled hr s []
    have hbook : held.book r = held.move (symbolKey r.symbol) d := by
      rw [Holdings.book, hd, if_pos rfl]
    rw [hstate, hbook, h.exposure]
    exact ⟨rfl, rfl, rfl⟩
  · rw [recordOrder_of_ne hr, Holdings.book_of_ne hr]
    exact h

/-- **What is reported after some results.** -/
theorem reports_booked (rs : List OrderResult) :
    (booked rs).Reports (rs.foldl Holdings.book .empty) := by
  induction rs using List.reverseRecOn with
  | nil => exact reports_initial
  | append_singleton rs r ih =>
    rw [booked, List.foldl_append, List.foldl_append]
    exact ih.recordOrder r

/-- **What the run loop reports**: what is held after the results read, whatever the clock and the
breaker do. -/
theorem reports_run (cfg : GlobalRiskConfig) (h : List RiskInput) :
    (riskSupervisor.run (.new cfg) h).state.Reports ((orders h).foldl Holdings.book .empty) := by
  rw [← RiskState.reports_mark_iff, recorded_run cfg h false [], RiskState.reports_mark_iff]
  exact reports_booked (orders h)

theorem foldl_recordOrder_filter (s : RiskState) (rs : List OrderResult) :
    (rs.filter fun r => r.status = .filled).foldl RiskState.recordOrder s =
      rs.foldl RiskState.recordOrder s := by
  induction rs generalizing s with
  | nil => rfl
  | cons r rs ih =>
    rw [List.filter_cons, List.foldl_cons]
    by_cases hr : r.status = .filled
    · rw [if_pos (decide_eq_true hr), List.foldl_cons, ih]
    · rw [if_neg (by simpa using hr), recordOrder_of_ne hr, ih]

/-- **The exposure map after any results**: every entry is positive, the notional is the sum of the
entries and the number of open positions their number, one of these is positive exactly if the
other is, and the results that are not filled change nothing. -/
theorem exposure_exact (rs : List OrderResult) :
    (∀ key value, (booked rs).exposure.lookup key = some value → 0 < value) ∧
      (booked rs).status.totalNotional = (booked rs).exposure.total ∧
      (booked rs).status.openPositions = (booked rs).exposure.keys.card ∧
      (0 < (booked rs).status.totalNotional ↔ 0 < (booked rs).status.openPositions) ∧
      (∀ r, r.status ≠ .filled → (booked rs).recordOrder r = booked rs) ∧
      booked (rs.filter fun r => r.status = .filled) = booked rs := by
  have h := reports_booked rs
  refine ⟨?_, ?_, ?_, h.notional_pos_iff, ?_, foldl_recordOrder_filter _ rs⟩
  · rw [h.exposure]
    exact (rs.foldl Holdings.book .empty).2
  · rw [h.notional, h.exposure]
  · rw [h.positions, h.exposure]
  · intro r hr
    exact recordOrder_of_ne hr _

end Reports

end W2uos
