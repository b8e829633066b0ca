import Mathlib.Algebra.Order.BigOperators.Group.List
import W2uos.Exec.Stream
import W2uos.Risk.Bookings

/-!
# Fills of live orders

On the exchange an order is filled in parts.  The stream turns every part into a result with the
amount of that part, but only the last part into a Filled one; the supervisor books Filled results
only.  What reaches the bookings is the last part.

* `reflected_append_of_nonneg` : a reflected sum that never falls below zero is a sum;
* `changes_publishedBy` : what the supervisor books of the texts;
* `fillsReachRisk_iff` : exactly when all parts are booked.
-/

/-! ### Sums -/

section Sums

variable {α : Type*} [AddCommGroup α] [LinearOrder α] [IsOrderedAddMonoid α]

omit [IsOrderedAddMonoid α] in
theorem reflected_append_of_nonneg {ds es : List α}
    (h : ∀ pre, pre <+: es → 0 ≤ reflected ds + pre.sum) :
    reflected (ds ++ es) = reflected ds + es.sum := by
  induction es using List.reverseRecOn with
  | nil => simp
  | append_singleton es e ih =>
    have hes := ih fun pre hpre => h pre (hpre.trans (List.prefix_append es [e]))
    have hlast := h (es ++ [e]) (List.prefix_refl _)
    rw [List.sum_append, List.sum_singleton, ← add_assoc] at hlast
    rw [← List.append_assoc, reflected_concat, hes, List.sum_append, List.sum_singleton,
      ← add_assoc, reflect]
    split_ifs with hle
    · exact (le_antisymm hle hlast).symm
    · rfl

/-- Some of several non-negative amounts sum to all of them iff the others are zero. -/
theorem sum_filter_eq_iff {ι : Type*} (l : List ι) (a : ι → α) (p : ι → Prop) [DecidablePred p]
    (h : ∀ x ∈ l, 0 ≤ a x) :
    ((l.filter p).map a).sum = (l.map a).sum ↔ ∀ x ∈ l, a x ≠ 0 → p x := by
  induction l with
  | nil => simp
  | cons x l ih =>
    have hl := ih fun y hy => h y (List.mem_cons_of_mem _ hy)
    have hx := h x List.mem_cons_self
    rw [List.forall_mem_cons, ← hl, List.map_cons, List.sum_cons]
    by_cases hp : p x
    · rw [List.filter_cons_of_pos (by simpa using hp), List.map_cons, List.sum_cons,
        add_right_inj]
      exact ⟨fun heq => ⟨fun _ => hp, heq⟩, fun heq => heq.2⟩
    · -- what is left out of `l` is not negative, so it cannot make up for `a x`
      have hle : ((l.filter p).map a).sum ≤ (l.map a).sum := by
        refine ((List.filter_sublist).map a).sum_le_sum ?_
        intro y hy
        obtain ⟨z, hz, rfl⟩ := List.mem_map.1 hy
        exact h z (List.mem_cons_of_mem _ hz)
      rw [List.filter_cons_of_neg (by simpa using hp)]
      constructor
      · intro heq
        have hzero : a x = 0 := by
          refine le_antisymm ?_ hx
          rw [heq] at hle
          simpa using hle
        exact ⟨fun hne => absurd hzero hne, by rw [heq, hzero, zero_add]⟩
      · rintro ⟨hzero, heq⟩
        rw [not_ne_iff.1 (mt hzero hp), zero_add, heq]

end Sums

namespace W2uos

open RiskInput

section Fills

variable [CaseTable] [OrderChannel]

omit [CaseTable] in
/-- The results published for some texts, each of which comes with the times it is handled at. -/
def publishedBy (texts : List (String × List DateTime)) : List OrderResult :=
  texts.flatMap fun text => (handleText text.1 text.2).1

omit [CaseTable] in
/-- The updates in some texts, each with its text. -/
def updatesIn (texts : List (String × List DateTime)) : List (String × OkxOrderData) :=
  texts.flatMap fun text =>
    match OrderChannel.parseEnvelope text.1 with
    | .ok updates => updates.map fun data => (text.1, data)
    | .error _ => []

omit [CaseTable] in
/-- The texts are envelopes with updates for one symbol on one side, and no last fill is
negative. -/
structure OrderUpdates (symbol : Symbol) (side : OrderSide)
    (texts : List (String × List DateTime)) : Prop where
  envelope : ∀ text ∈ texts, ∃ updates, OrderChannel.parseEnvelope text.1 = .ok updates
  symbol : ∀ update ∈ updatesIn texts, parseSymbol update.2.instId = .ok symbol
  side : ∀ update ∈ updatesIn texts, update.2.orderSide = side
  nonneg : ∀ update ∈ updatesIn texts, 0 ≤ update.2.filledQuote

omit [CaseTable] [OrderChannel] in
/-- The sign of a side. -/
def OrderSide.signed (side : OrderSide) (q : ℚ) : ℚ :=
  match side with
  | .buy => q
  | .sell => -q

omit [CaseTable] in
/-- The sum of the last fills of all updates. -/
def filledTotal (texts : List (String × List DateTime)) : ℚ :=
  ((updatesIn texts).map fun update => update.2.filledQuote).sum

/-- Once the supervisor has recorded the results published for the texts, whatever else it reads,
the exposure of the symbol and the profit have moved by the sum of all last fills. -/
def FillsReachRisk (cfg : GlobalRiskConfig) (h : List RiskInput) (symbol : Symbol)
    (side : OrderSide) (texts : List (String × List DateTime)) : Prop :=
  ∀ more, orders more = publishedBy texts →
    let before := (riskSupervisor.run (.new cfg) h).state
    let after := (riskSupervisor.run (.new cfg) (h ++ more)).state
    after.exposure.amount (symbolKey symbol) =
        before.exposure.amount (symbolKey symbol) + side.signed (filledTotal texts) ∧
      after.status.dailyPnlQuote =
        before.status.dailyPnlQuote - side.signed (filledTotal texts)

omit [CaseTable] [OrderChannel] in
/-- The update is booked: it is a final one, and its text is not taken for an event. -/
def Booked (update : String × OkxOrderData) : Prop :=
  update.2.state = "filled" ∧ ¬ ContainsEvent update.1

omit [CaseTable] [OrderChannel] in
instance (update : String × OkxOrderData) : Decidable (Booked update) :=
  inferInstanceAs (Decidable (_ ∧ ¬ _))

/-! ### What is booked -/

omit [CaseTable] [OrderChannel] in
theorem status_eq_filled_iff (data : OkxOrderData) :
    data.status = .filled ↔ data.state = "filled" := by
  unfold OkxOrderData.status
  by_cases hfilled : data.state = "filled"
  · simp [hfilled]
  · by_cases hcanceled : data.state = "canceled" <;> simp [hfilled, hcanceled]

omit [OrderChannel] in
/-- What the supervisor books of the results of some updates for one symbol on one side. -/
theorem changes_of_reported {symbol : Symbol} {side : OrderSide} {updates : List OkxOrderData}
    {rs : List OrderResult} (h : List.Forall₂ OkxOrderData.Reported updates rs)
    (hsymbol : ∀ data ∈ updates, parseSymbol data.instId = .ok symbol)
    (hside : ∀ data ∈ updates, data.orderSide = side) :
    changes (symbolKey symbol) rs =
        (updates.filter (·.state = "filled")).map (fun data => side.signed data.filledQuote) ∧
      quoteOn .sell rs - quoteOn .buy rs =
        -((updates.filter (·.state = "filled")).map
          fun data => side.signed data.filledQuote).sum := by
  induction h with
  | nil => exact ⟨rfl, by simp [quoteOn, filledOn]⟩
  | @cons data r updates rs hr _ ih =>
    obtain ⟨hchanges, hquote⟩ := ih (fun d hd => hsymbol d (List.mem_cons_of_mem _ hd))
      (fun d hd => hside d (List.mem_cons_of_mem _ hd))
    have hsym : r.symbol = symbol := by
      have hparse := hr.symbol.symm.trans (hsymbol data List.mem_cons_self)
      exact Except.ok.inj hparse
    have hrside : r.side = side := hr.side.trans (hside data List.mem_cons_self)
    have hfilled : r.status = .filled ↔ data.state = "filled" := by
      rw [hr.status, status_eq_filled_iff]
    have hcons : changes (symbolKey symbol) (r :: rs) =
        (r.change (symbolKey symbol)).toList ++ changes (symbolKey symbol) rs := by
      unfold changes
      cases hc : r.change (symbolKey symbol) <;> simp [hc]
    rw [hcons, quoteOn_cons, quoteOn_cons, hchanges]
    by_cases hstate : data.state = "filled"
    · have hchange : r.change (symbolKey symbol) = some (side.signed data.filledQuote) := by
        unfold OrderResult.change
        rw [hfilled.2 hstate, hrside, hsym, hr.quote]
        cases side <;> simp [OrderSide.signed]
      rw [hchange, List.filter_cons_of_pos (by simpa using hstate)]
      refine ⟨rfl, ?_⟩
      rw [List.map_cons, List.sum_cons, neg_add, ← hquote, hrside, hr.quote]
      cases side <;> simp [hfilled, hstate, OrderSide.signed] <;> ring
    · have hne : r.status ≠ .filled := mt hfilled.1 hstate
      rw [change_eq_none hne, List.filter_cons_of_neg (by simpa using hstate), ← hquote]
      simp [hne]

omit [CaseTable] in
/-- The results of all texts are those of the updates they are published for. -/
theorem publishedBy_spec (texts : List (String × List DateTime)) :
    List.Forall₂ OkxOrderData.Reported (texts.flatMap fun text => updatesOf text.1)
      (publishedBy texts) := by
  induction texts with
  | nil => exact List.Forall₂.nil
  | cons text texts ih =>
    unfold publishedBy
    rw [List.flatMap_cons, List.flatMap_cons]
    exact List.rel_append (handleText_spec text.1 text.2) ih

omit [CaseTable] in
theorem mem_updatesIn {texts : List (String × List DateTime)} {data : OkxOrderData}
    (h : data ∈ texts.flatMap fun text => updatesOf text.1) :
    ∃ txt, (txt, data) ∈ updatesIn texts := by
  obtain ⟨text, htext, hdata⟩ := List.mem_flatMap.1 h
  refine ⟨text.1, List.mem_flatMap.2 ⟨text, htext, ?_⟩⟩
  unfold updatesOf at hdata
  by_cases hevent : ContainsEvent text.1
  · rw [if_pos hevent] at hdata
    cases hdata
  · rw [if_neg hevent] at hdata
    cases hparse : OrderChannel.parseEnvelope text.1 with
    | error err =>
      rw [hparse] at hdata
      cases hdata
    | ok updates =>
      rw [hparse] at hdata
      exact List.mem_map_of_mem (List.takeWhile_subset _ hdata)

omit [CaseTable] in
/-- Of the updates of an order the booked ones are published as filled. -/
theorem filter_updatesOf {texts : List (String × List DateTime)} {symbol : Symbol}
    (hsymbol : ∀ update ∈ updatesIn texts, parseSymbol update.2.instId = .ok symbol) :
    (texts.flatMap fun text => updatesOf text.1).filter (·.state = "filled") =
      ((updatesIn texts).filter fun update => Booked update).map Prod.snd := by
  induction texts with
  | nil => rfl
  | cons text texts ih =>
    unfold updatesIn at hsymbol ih ⊢
    rw [List.flatMap_cons] at hsymbol ⊢
    rw [List.flatMap_cons, List.filter_append, List.filter_append, List.map_append,
      ih fun update hu => hsymbol update (List.mem_append_right _ hu)]
    congr 1
    unfold updatesOf
    cases hparse : OrderChannel.parseEnvelope text.1 with
    | error err => by_cases hevent : ContainsEvent text.1 <;> simp [hevent]
    | ok updates =>
      rw [hparse] at hsymbol
      by_cases hevent : ContainsEvent text.1
      · -- none of the updates of an event is booked
        simp [hevent, Booked]
      · have hwell : wellFormed updates = updates := by
          refine List.takeWhile_eq_self_iff.2 ?_
          intro data hdata
          have hok := hsymbol (text.1, data) (List.mem_append_left _ (List.mem_map_of_mem hdata))
          simp only [hok, Except.isOk, Except.toBool]
        simp [hevent, Booked, hwell, List.filter_map, Function.comp_def]

omit [CaseTable] [OrderChannel] in
theorem OrderSide.signed_sum {ι : Type*} (side : OrderSide) (l : List ι) (a : ι → ℚ) :
    (l.map fun x => side.signed (a x)).sum = side.signed (l.map a).sum := by
  cases side with
  | buy => rfl
  | sell =>
    induction l with
    | nil => simp [signed]
    | cons x l ih =>
      rw [List.map_cons, List.sum_cons, ih, List.map_cons, List.sum_cons]
      simp only [signed]
      ring

omit [CaseTable] [OrderChannel] in
theorem OrderSide.signed_inj {side : OrderSide} {p q : ℚ} :
    side.signed p = side.signed q ↔ p = q := by
  cases side <;> simp [signed]

omit [CaseTable] [OrderChannel] in
/-- Amounts of one sign that are covered as a whole are covered at every point. -/
theorem covered {side : OrderSide} {e : ℚ} (he : 0 ≤ e) {qs : List ℚ} (hqs : ∀ q ∈ qs, 0 ≤ q)
    (hcover : side = .sell → qs.sum ≤ e) :
    ∀ pre, pre <+: qs.map side.signed → 0 ≤ e + pre.sum := by
  intro pre hpre
  rw [List.prefix_map_iff] at hpre
  obtain ⟨ps, ⟨rest, rfl⟩, rfl⟩ := hpre
  have hps : 0 ≤ ps.sum := List.sum_nonneg fun q hq => hqs q (List.mem_append_left _ hq)
  have hrest : 0 ≤ rest.sum := List.sum_nonneg fun q hq => hqs q (List.mem_append_right _ hq)
  have hsum : (ps.map side.signed).sum = side.signed ps.sum := by
    simpa using OrderSide.signed_sum side ps id
  rw [hsum]
  cases side with
  | buy =>
    show 0 ≤ e + ps.sum
    linarith
  | sell =>
    have hle := hcover rfl
    rw [List.sum_append] at hle
    show 0 ≤ e + -ps.sum
    linarith

omit [CaseTable] in
/-- The last fills that are booked. -/
def bookedQuotes (texts : List (String × List DateTime)) : List ℚ :=
  ((updatesIn texts).filter fun update => Booked update).map fun update => update.2.filledQuote

section BookedQuotes

variable {symbol : Symbol} {side : OrderSide} {texts : List (String × List DateTime)}

omit [CaseTable] in
theorem bookedQuotes_nonneg (hupdates : OrderUpdates symbol side texts) :
    ∀ q ∈ bookedQuotes texts, 0 ≤ q := by
  intro q hq
  obtain ⟨update, hu, rfl⟩ := List.mem_map.1 hq
  exact hupdates.nonneg update (List.mem_of_mem_filter hu)

omit [CaseTable] in
theorem bookedQuotes_sum_le (hupdates : OrderUpdates symbol side texts) :
    (bookedQuotes texts).sum ≤ filledTotal texts := by
  refine (List.filter_sublist.map _).sum_le_sum ?_
  intro q hq
  obtain ⟨update, hu, rfl⟩ := List.mem_map.1 hq
  exact hupdates.nonneg update hu

/-- **What the supervisor books of the texts**: the booked fills, with the sign of the side. -/
theorem changes_publishedBy (hupdates : OrderUpdates symbol side texts) :
    changes (symbolKey symbol) (publishedBy texts) = (bookedQuotes texts).map side.signed ∧
      quoteOn .sell (publishedBy texts) - quoteOn .buy (publishedBy texts) =
        -side.signed (bookedQuotes texts).sum := by
  obtain ⟨hchanges, hquote⟩ := @changes_of_reported _ _ side _ _ (publishedBy_spec texts)
    (fun data hdata => (mem_updatesIn hdata).elim fun _ hmem => hupdates.symbol _ hmem)
    (fun data hdata => (mem_updatesIn hdata).elim fun _ hmem => hupdates.side _ hmem)
  have hsum : ((bookedQuotes texts).map side.signed).sum =
      side.signed (bookedQuotes texts).sum := by
    simpa using OrderSide.signed_sum side (bookedQuotes texts) id
  rw [filter_updatesOf hupdates.symbol, List.map_map] at hchanges hquote
  rw [hchanges, hquote, ← hsum, bookedQuotes, List.map_map]
  exact ⟨rfl, rfl⟩

theorem moved_by_bookedQuotes (cfg : GlobalRiskConfig) (h : List RiskInput)
    (hupdates : OrderUpdates symbol side texts)
    (hcover : side = .sell → filledTotal texts ≤
      (riskSupervisor.run (.new cfg) h).state.exposure.amount (symbolKey symbol))
    {more : List RiskInput} (hmore : orders more = publishedBy texts) :
    (riskSupervisor.run (.new cfg) (h ++ more)).state.exposure.amount (symbolKey symbol) =
        (riskSupervisor.run (.new cfg) h).state.exposure.amount (symbolKey symbol) +
          side.signed (bookedQuotes texts).sum ∧
      (riskSupervisor.run (.new cfg) (h ++ more)).state.status.dailyPnlQuote =
        (riskSupervisor.run (.new cfg) h).state.status.dailyPnlQuote -
          side.signed (bookedQuotes texts).sum := by
  obtain ⟨hpnl, hpos, hexposure, -, -⟩ := bookings_run cfg h
  obtain ⟨hpnl', -, hexposure', -, -⟩ := bookings_run cfg (h ++ more)
  obtain ⟨hchanges, hquote⟩ := changes_publishedBy hupdates
  have horders : orders (h ++ more) = orders h ++ publishedBy texts := by
    rw [orders, List.filterMap_append, ← hmore]
    rfl
  have hsplit : changes (symbolKey symbol) (orders h ++ publishedBy texts) =
      changes (symbolKey symbol) (orders h) ++ (bookedQuotes texts).map side.signed := by
    rw [← hchanges]
    exact List.filterMap_append
  rw [hpnl', hexposure', horders, hpnl, hexposure, hsplit]
  refine ⟨?_, ?_⟩
  · rw [reflected_append_of_nonneg, OrderSide.signed_sum side (bookedQuotes texts) fun q => q,
      List.map_id']
    rw [← hexposure]
    exact covered (hpos.nonneg.amount _) (bookedQuotes_nonneg hupdates) fun hsell =>
      (bookedQuotes_sum_le hupdates).trans (hcover hsell)
  · rw [quoteOn_append, quoteOn_append]
    linarith

/-- **Exactly when all fills of an order reach the bookings**: every update with an amount is a
final one, in a text that does not contain the word `event`.  A sale must be covered by the
exposure, which is otherwise dropped at zero. -/
theorem fillsReachRisk_iff (cfg : GlobalRiskConfig) (h : List RiskInput) {symbol : Symbol}
    {side : OrderSide} {texts : List (String × List DateTime)}
    (hupdates : OrderUpdates symbol side texts)
    (hcover : side = .sell → filledTotal texts ≤
      (riskSupervisor.run (.new cfg) h).state.exposure.amount (symbolKey symbol)) :
    FillsReachRisk cfg h symbol side texts ↔
      ∀ update ∈ updatesIn texts, update.2.filledQuote ≠ 0 → Booked update := by
  have hpart : (bookedQuotes texts).sum = filledTotal texts ↔
      ∀ update ∈ updatesIn texts, update.2.filledQuote ≠ 0 → Booked update :=
    sum_filter_eq_iff (updatesIn texts) (fun update => update.2.filledQuote) Booked hupdates.nonneg
  rw [← hpart]
  constructor
  · intro hreach
    have hread := orders_map (publishedBy texts) ⟨0, 0⟩
    have hmoved := (hreach _ hread).1
    rw [(moved_by_bookedQuotes cfg h hupdates hcover hread).1, add_right_inj,
      OrderSide.signed_inj] at hmoved
    exact hmoved
  · intro heq more hmore
    have hmoved := moved_by_bookedQuotes cfg h hupdates hcover hmore
    rwa [heq] at hmoved

end BookedQuotes

end Fills

/-! ### An order in two parts -/

theorem orderUpdates_sample :
    @OrderUpdates twoPartChannel ⟨"BTC", "USDT"⟩ .buy [(partialText, [0]), (finalText, [1])] := by
  have hall : @updatesIn twoPartChannel [(partialText, [0]), (finalText, [1])] =
      [(partialText, partUpdate "partially_filled" "30000" "0.1"),
        (finalText, partUpdate "filled" "31000" "0.2")] := by decide +kernel
  refine @OrderUpdates.mk twoPartChannel _ _ _ ?_ ?_ ?_ ?_
  · intro text htext
    rcases List.mem_pair.1 htext with rfl | rfl
    · exact ⟨_, if_pos rfl⟩
    · exact ⟨_, (if_neg (by decide +kernel)).trans (if_pos rfl)⟩
  · rw [hall]
    decide +kernel
  · rw [hall]
    decide +kernel
  · rw [hall]
    decide +kernel

theorem fillsReachRisk_iff_sample :
    @FillsReachRisk asciiCase twoPartChannel .default [] ⟨"BTC", "USDT"⟩ .buy
        [(partialText, [0]), (finalText, [1])] ↔
      ∀ update ∈ @updatesIn twoPartChannel [(partialText, [0]), (finalText, [1])],
        update.2.filledQuote ≠ 0 → Booked update :=
  @fillsReachRisk_iff asciiCase twoPartChannel .default [] _ _ _ orderUpdates_sample
    (fun hsell => by cases hsell)

/-- **A part of the fills is lost**: of an order filled in two parts only the second is booked. -/
theorem not_fillsReachRisk :
    ¬ @FillsReachRisk asciiCase twoPartChannel .default [] ⟨"BTC", "USDT"⟩ .buy
      [(partialText, [0]), (finalText, [1])] := by
  intro h
  have hread := orders_map (@publishedBy twoPartChannel [(partialText, [0]), (finalText, [1])])
    ⟨0, 0⟩
  exact absurd (h _ hread).2 (by decide +kernel)

end W2uos
