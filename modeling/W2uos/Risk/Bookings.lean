import W2uos.Exec.Ledger
import W2uos.Risk.Breaker

/-!
# What the bookings say

The supervisor adds a filled buy to the exposure of its symbol and subtracts a filled sale, and
forgets a symbol as soon as its exposure is not positive.  An exposure is therefore a reflected
sum, and the reported totals are functions of the results read.

* `OrderResult.change` : the change of the exposure of a key that a result stands for;
* `Bookings` : the state books the given results;
* `Bookings.recordOrder`, `bookings_run` : booking one result, and all results of a run.
-/

namespace W2uos

open RiskInput

theorem orders_map {α : Type} (rs : List (OrderResult α)) (clock : Clocks) :
    orders (rs.map fun r => .orderResult (some r) clock) = rs := by
  simp [orders, List.filterMap_map, Function.comp_def, order]

section Recording

variable {α : Type} [Zero α] [LE α] [DecidableLE α]

/-- Write an exposure, and drop it if it is not positive. -/
def settle (m : Amounts String α) (key : String) (value : α) : Amounts String α :=
  if value ≤ 0 then (m.insert key value).erase key else m.insert key value

theorem settle_of_nonpos {value : α} (h : value ≤ 0) (m : Amounts String α) (key : String) :
    settle m key value = m.erase key := by
  rw [settle, if_pos h, Amounts.erase_insert_self]

theorem settle_of_pos {value : α} (h : ¬ value ≤ 0) (m : Amounts String α) (key : String) :
    settle m key value = m.insert key value := if_neg h

theorem mem_settle {m : Amounts String α} {key k : String} {value : α} :
    k ∈ settle m key value ↔ if k = key then ¬ value ≤ 0 else k ∈ m := by
  by_cases hv : value ≤ 0
  · rw [settle_of_nonpos hv, Finmap.mem_erase]
    split_ifs with hk <;> simp [hk, hv]
  · rw [settle_of_pos hv, Finmap.mem_insert]
    split_ifs with hk <;> simp [hk, hv]

/-- What a fill of a size adds to the profit. -/
def OrderSide.earn [Neg α] (size : α) : OrderSide → α
  | .buy => -size
  | .sell => size

variable [CaseTable] [Neg α] [Add α] [Sub α] [ValuesSum α]

theorem recordOrder_of_ne {r : OrderResult α} (hr : r.status ≠ .filled) (s : RiskState α) :
    s.recordOrder r = s := by
  unfold RiskState.recordOrder
  cases hs : r.status with
  | filled => exact absurd hs hr
  | new => rfl
  | rejected reason => rfl

theorem recordOrder_of_filled {r : OrderResult α} (hr : r.status = .filled) (s : RiskState α) :
    s.recordOrder r =
      let exposure := settle s.exposure (symbolKey r.symbol)
        (r.side.shift (s.exposure.amount (symbolKey r.symbol)) r.filledSizeQuote)
      { s with
        exposure := exposure
        status := { s.status with
          dailyPnlQuote := s.status.dailyPnlQuote + r.side.earn r.filledSizeQuote
          totalNotional := ValuesSum.valuesSum exposure
          openPositions := exposure.keys.card } } := by
  unfold RiskState.recordOrder
  rw [hr]
  cases r.side <;> rfl

/-- The supervisor's state once it has recorded the given results and nothing else. -/
abbrev booked (rs : List (OrderResult α)) : RiskState α :=
  rs.foldl RiskState.recordOrder RiskState.initial

theorem booked_concat (rs : List (OrderResult α)) (r : OrderResult α) :
    booked (rs ++ [r]) = (booked rs).recordOrder r := by
  rw [booked, List.foldl_append]
  rfl

end Recording

section Bookings

variable [CaseTable] {rs : List OrderResult} {s : RiskState}

/-- The change of the exposure of `key` that a result stands for, if it does. -/
def OrderResult.change (key : String) (r : OrderResult) : Option ℚ :=
  match r.status, r.side with
  | .filled, .buy => if symbolKey r.symbol = key then some r.filledSizeQuote else none
  | .filled, .sell => if symbolKey r.symbol = key then some (-r.filledSizeQuote) else none
  | .new, _ => none
  | .rejected _, _ => none

/-- The changes of the exposure of `key`, in order. -/
def changes (key : String) (rs : List OrderResult) : List ℚ :=
  rs.filterMap (OrderResult.change key)

omit [CaseTable] in
/-- The quote amount sold less the quote amount bought. -/
def netQuote (rs : List OrderResult) : ℚ := quoteOn .sell rs - quoteOn .buy rs

/-- The state books the results `rs`. -/
structure Bookings (rs : List OrderResult) (s : RiskState) : Prop where
  /-- The profit is the quote amount sold less the quote amount bought. -/
  pnl : s.status.dailyPnlQuote = quoteOn .sell rs - quoteOn .buy rs
  /-- Only positive exposures are kept. -/
  pos : s.exposure.Pos
  /-- The exposure of a key is the reflected sum of its changes. -/
  exposure : ∀ key, s.exposure.amount key = reflected (changes key rs)
  /-- The notional is the sum of the exposures. -/
  notional : s.status.totalNotional = s.exposure.total
  /-- The open positions are the symbols with an exposure. -/
  positions : s.status.openPositions = s.exposure.keys.card

theorem bookings_initial : Bookings [] RiskState.initial where
  pnl := by simp [RiskState.initial, RiskStatus.default, quoteOn, filledOn]
  pos := Amounts.pos_empty
  exposure _ := rfl
  notional := rfl
  positions := rfl

omit [CaseTable] in
theorem settle_pos {m : Amounts String ℚ} (h : m.Pos) (key : String) (value : ℚ) :
    (settle m key value).Pos := by
  unfold settle
  by_cases hv : value ≤ 0
  · -- the entry is written and erased again
    rw [if_pos hv, Amounts.erase_insert_self]
    exact h.erase key
  · rw [if_neg hv]
    exact h.insert (not_le.1 hv)

omit [CaseTable] in
theorem settle_amount (m : Amounts String ℚ) (key : String) (d : ℚ) (k : String) :
    (settle m key (m.amount key + d)).amount k =
      if key = k then reflect (m.amount k) d else m.amount k := by
  unfold settle reflect
  by_cases hk : key = k
  · subst hk
    by_cases hv : m.amount key + d ≤ 0 <;> simp [hv]
  · have hne : k ≠ key := fun h => hk h.symm
    by_cases hv : m.amount key + d ≤ 0
    · rw [if_pos hv, if_neg hk, Amounts.amount_erase_ne _ hne, Amounts.amount_insert_ne _ _ hne]
    · rw [if_neg hv, if_neg hk, Amounts.amount_insert_ne _ _ hne]

theorem change_eq_none {r : OrderResult} (hr : r.status ≠ .filled) (key : String) :
    r.change key = none := by
  unfold OrderResult.change
  cases hs : r.status with
  | filled => exact absurd hs hr
  | new => rfl
  | rejected reason => rfl

omit [CaseTable] in
theorem quoteOn_concat (side : OrderSide) (rs : List OrderResult) (r : OrderResult) :
    quoteOn side (rs ++ [r]) = quoteOn side rs +
      if r.status = .filled ∧ r.side = side then r.filledSizeQuote else 0 := by
  rw [quoteOn_append, quoteOn_singleton]

theorem changes_concat (key : String) (rs : List OrderResult) (r : OrderResult) :
    changes key (rs ++ [r]) = changes key rs ++ (r.change key).toList :=
  filterMap_concat _ rs r

/-- A filled result moves the exposure of its key by some amount, and the profit by as much the
other way. -/
theorem recordOrder_filled {r : OrderResult} (hr : r.status = .filled) (s : RiskState)
    (rs : List OrderResult) :
    ∃ d, (∀ key, r.change key = if symbolKey r.symbol = key then some d else none) ∧
      quoteOn .sell (rs ++ [r]) - quoteOn .buy (rs ++ [r]) =
        quoteOn .sell rs - quoteOn .buy rs - d ∧
      s.recordOrder r =
        let exposure := settle s.exposure (symbolKey r.symbol)
          (s.exposure.amount (symbolKey r.symbol) + d)
        { s with
          exposure := exposure
          status := { s.status with
            dailyPnlQuote := s.status.dailyPnlQuote - d
            totalNotional := Amounts.total exposure
            openPositions := exposure.keys.card } } := by
  cases hside : r.side with
  | buy =>
    refine ⟨r.filledSizeQuote, ?_, ?_, ?_⟩
    · intro key
      simp [OrderResult.change, hr, hside]
    · rw [quoteOn_concat, quoteOn_concat]
      simp [hr, hside]
      ring
    · simp only [RiskState.recordOrder, hr, hside, settle, sub_eq_add_neg, valuesSum_rat]
  | sell =>
    refine ⟨-r.filledSizeQuote, ?_, ?_, ?_⟩
    · intro key
      simp [OrderResult.change, hr, hside]
    · rw [quoteOn_concat, quoteOn_concat]
      simp [hr, hside]
      ring
    · simp only [RiskState.recordOrder, hr, hside, settle, sub_eq_add_neg, neg_neg, valuesSum_rat]

/-- **Booking one result.** -/
theorem Bookings.recordOrder (hb : Bookings rs s) (r : OrderResult) :
    Bookings (rs ++ [r]) (s.recordOrder r) := by
  by_cases hr : r.status = .filled
  · obtain ⟨d, hd, hpnl, hstate⟩ := recordOrder_filled hr s rs
    rw [hstate]
    refine ⟨?_, settle_pos hb.pos _ _, ?_, rfl, rfl⟩
    · show s.status.dailyPnlQuote - d = _
      rw [hpnl, hb.pnl]
    · intro key
      show (settle s.exposure _ _).amount key = _
      rw [settle_amount, changes_concat, hd]
      by_cases hk : symbolKey r.symbol = key
      · rw [if_pos hk, if_pos hk, Option.toList_some, reflected_concat, hb.exposure]
      · rw [if_neg hk, if_neg hk, Option.toList_none, List.append_nil, hb.exposure]
  · rw [recordOrder_of_ne hr]
    refine ⟨?_, hb.pos, ?_, hb.notional, hb.positions⟩
    · rw [quoteOn_concat, quoteOn_concat, hb.pnl]
      simp [hr]
    · intro key
      rw [changes_concat, change_eq_none hr, hb.exposure, Option.toList_none, List.append_nil]

/-- **The bookings of all results.** -/
theorem bookings_booked (rs : List OrderResult) :
    Bookings rs (booked rs) := by
  induction rs using List.reverseRecOn with
  | nil => exact bookings_initial
  | append_singleton rs r ih =>
    rw [booked_concat]
    exact ih.recordOrder r

theorem bookings_mark_iff {a : Bool} {es : List Instant} :
    Bookings rs (s.mark a es) ↔ Bookings rs s :=
  ⟨fun h => ⟨h.pnl, h.pos, h.exposure, h.notional, h.positions⟩,
    fun h => ⟨h.pnl, h.pos, h.exposure, h.notional, h.positions⟩⟩

/-- **The running state books the results read.** -/
theorem bookings_run (cfg : GlobalRiskConfig) (h : List RiskInput) :
    Bookings (orders h) (riskSupervisor.run (.new cfg) h).state := by
  rw [← bookings_mark_iff, recorded_run cfg h false [], bookings_mark_iff]
  exact bookings_booked (orders h)

end Bookings

end W2uos
