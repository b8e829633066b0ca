import W2uos.Bus.Delivery
import W2uos.Risk.Exposure
import W2uos.System.Tagged

/-!
# Results in any order

The publishers of results take turns on the bus as they come, and the supervisor books the results
in the order of its channel.  The profit it reports does not depend on that order.  An exposure
does: it is forgotten as soon as it is not positive, so what is bought before is not what is bought
after.  But if what is filled of a symbol is published by one task, its order is kept by the bus,
and the supervisor reports the same figures whatever the schedule was.  The amounts are exact:
rounded sums may differ in their last places.

* `LocalBus.AllRead` : a receiver has received everything;
* `OneSource` : what is filled of a symbol comes from one task;
* `pnl_perm` : the profit does not depend on the order of the results;
* `figures_scheduled` : the figures do not depend on the schedule of the bus.
-/

namespace W2uos

open RiskInput

theorem messagesOf_eq_tagged {μ : Type} (task : ℕ) (ms : List (Sent μ)) :
    messagesOf task ms = tagged task (ms.map fun m => (m.sender, m.msg)) := by
  induction ms with
  | nil => rfl
  | cons m ms ih =>
    rw [← List.singleton_append, messagesOf_append, ih, List.map_append, tagged_append]
    refine congrArg (· ++ _) ?_
    obtain ⟨sender, msg⟩ := m
    rw [messagesOf_singleton]
    by_cases hsender : sender = task
    · subst hsender
      rw [if_pos rfl]
      exact (tagged_singleton_self sender msg).symm
    · rw [if_neg hsender]
      exact (tagged_singleton_ne hsender msg).symm

theorem perm_of_messagesOf {μ : Type} [DecidableEq μ] {ms ms' : List (Sent μ)}
    (h : ∀ task, messagesOf task ms = messagesOf task ms') : ms.Perm ms' := by
  have htagged : (ms.map fun m => (m.sender, m.msg)).Perm (ms'.map fun m => (m.sender, m.msg)) :=
    perm_of_tagged fun task => by
      rw [← messagesOf_eq_tagged task ms, h, messagesOf_eq_tagged task ms']
  have hback : ∀ l : List (Sent μ),
      (l.map fun m => (m.sender, m.msg)).map (fun x => (⟨x.1, x.2⟩ : Sent μ)) = l := by
    intro l
    rw [List.map_map]
    exact List.map_id'' (fun _ => rfl) l
  rw [← hback ms, ← hback ms']
  exact htagged.map _

namespace LocalBus

variable {μ : Type} {s t : LocalBus μ} {r : ℕ}

/-- A receiver that is there has received everything that was sent to it, and is owed nothing. -/
def AllRead (t : LocalBus μ) (r : ℕ) (received : List (Sent μ)) : Prop :=
  (∃ ch, t.channels.lookup r = some ch ∧ ch.alive = true ∧ ch.queue = [] ∧ ch.received = received) ∧
    ∀ task, t.owed task r = []

/-- What such a receiver has received since its subscription. -/
theorem AllRead.messagesOf {subject : String} {received : List (Sent μ)}
    (hs : s.Wf) {as : List (BusAction μ)}
    (h : (localBus μ).exec s (.subscribe subject :: as) = some t)
    (hread : t.AllRead s.next received) (task : ℕ) :
    messagesOf task received = published task subject as := by
  obtain ⟨u, hsub, hrest⟩ := Option.bind_eq_some_iff.1 h
  have hu : u.Wf := hs.step hsub
  obtain ⟨hnone, heq⟩ := subscribe_spec hsub
  have hgot : u.got task s.next = [] := by
    rw [heq, got_eq (Finmap.lookup_insert _)]
    rfl
  have howed : u.owed task s.next = [] := by
    rw [heq]
    exact owed_of_none (hnone task) _
  have hmem : s.next ∈ u.subscribers subject := by
    rw [heq]
    simp
  obtain ⟨⟨ch, hch, halive, hqueue, rfl⟩, hidle⟩ := hread
  obtain ⟨-, hlive, -⟩ := account_run hu hmem hrest task
  obtain ⟨-, hacc⟩ := hlive ((alive_iff hch).2 halive)
  rw [hidle, got_eq hch, hgot, howed, Channel.log, hqueue] at hacc
  simpa using hacc

end LocalBus

section Figures

variable [CaseTable]

/-- What is filled of a symbol comes from one task. -/
def OneSource (ms : List (Sent OrderResult)) : Prop :=
  ∀ m ∈ ms, ∀ m' ∈ ms, m.msg.status = .filled → m'.msg.status = .filled →
    symbolKey m.msg.symbol = symbolKey m'.msg.symbol → m.sender = m'.sender

omit [CaseTable] in
theorem quoteOn_perm {rs rs' : List OrderResult} (h : rs.Perm rs') (side : OrderSide) :
    quoteOn side rs = quoteOn side rs' :=
  ((h.filter _).map _).sum_eq

/-- **The profit does not depend on the order of the results.** -/
theorem pnl_perm {rs rs' : List OrderResult} (h : rs.Perm rs') :
    (booked rs).status.dailyPnlQuote = (booked rs').status.dailyPnlQuote := by
  rw [(bookings_booked rs).pnl, (bookings_booked rs').pnl, quoteOn_perm h, quoteOn_perm h]

/-- Only the messages of one task count if the others have nothing filled of the key. -/
theorem changes_messagesOf {key : String} {ms : List (Sent OrderResult)} {task : ℕ}
    (h : ∀ m ∈ ms, m.msg.status = .filled → symbolKey m.msg.symbol = key → m.sender = task) :
    changes key (ms.map (·.msg)) = changes key (messagesOf task ms) := by
  induction ms with
  | nil => rfl
  | cons m ms ih =>
    rw [List.forall_mem_cons] at h
    obtain ⟨sender, msg⟩ := m
    rw [← List.singleton_append, messagesOf_append, List.map_append, changes, List.filterMap_append,
      changes, List.filterMap_append, messagesOf_singleton]
    refine congrArg₂ (· ++ ·) ?_ (ih h.2)
    by_cases hsender : sender = task
    · rw [if_pos hsender]
      rfl
    · rw [if_neg hsender]
      refine List.filterMap_eq_nil_iff.2 fun r hr => ?_
      rw [List.map_singleton, List.mem_singleton] at hr
      subst hr
      -- it is not filled, or of another symbol
      by_cases hfilled : r.status = .filled
      · have hkey : symbolKey r.symbol ≠ key := fun hkey => hsender (h.1 hfilled hkey)
        rw [OrderResult.change, hfilled]
        cases r.side <;> exact if_neg hkey
      · exact change_eq_none hfilled key

/-- What is booked of a key does not depend on how the tasks take turns. -/
theorem changes_scheduled {ms ms' : List (Sent OrderResult)}
    (h : ∀ task, messagesOf task ms = messagesOf task ms') (hperm : ms.Perm ms')
    (hone : OneSource ms) (key : String) :
    changes key (ms.map (·.msg)) = changes key (ms'.map (·.msg)) := by
  obtain ⟨task, htask⟩ : ∃ task, ∀ m ∈ ms, m.msg.status = .filled →
      symbolKey m.msg.symbol = key → m.sender = task := by
    by_cases hany : ∃ m ∈ ms, m.msg.status = .filled ∧ symbolKey m.msg.symbol = key
    · obtain ⟨m, hm, hfilled, hkey⟩ := hany
      exact ⟨m.sender, fun m' hm' hfilled' hkey' =>
        hone m' hm' m hm hfilled' hfilled (hkey'.trans hkey.symm)⟩
    · exact ⟨0, fun m hm hfilled hkey => absurd ⟨m, hm, hfilled, hkey⟩ hany⟩
  rw [changes_messagesOf htask, h,
    changes_messagesOf fun m hm => htask m (hperm.mem_iff.2 hm)]

/-- Two states report the same figures: the same profit, exposures, notional and positions. -/
structure RiskState.SameFigures (s s' : RiskState) : Prop where
  pnl : s.status.dailyPnlQuote = s'.status.dailyPnlQuote
  exposure : s.exposure = s'.exposure
  notional : s.status.totalNotional = s'.status.totalNotional
  positions : s.status.openPositions = s'.status.openPositions

/-- The figures depend on the profit and on what is booked of every key. -/
theorem Bookings.sameFigures {rs rs' : List OrderResult} {s s' : RiskState} (h : Bookings rs s)
    (h' : Bookings rs' s') (hperm : rs.Perm rs')
    (hchanges : ∀ key, changes key rs = changes key rs') :
    s.SameFigures s' := by
  have hexposure : s.exposure = s'.exposure :=
    h.pos.ext h'.pos fun key => by rw [h.exposure, h'.exposure, hchanges]
  refine ⟨?_, hexposure, ?_, ?_⟩
  · rw [h.pnl, h'.pnl, quoteOn_perm hperm, quoteOn_perm hperm]
  · rw [h.notional, h'.notional, hexposure]
  · rw [h.positions, h'.positions, hexposure]

/-- **The figures do not depend on the schedule.**  When the supervisor subscribes and the tasks
publish the same results, each in its order, and what is filled of a symbol comes from one task,
then two supervisors that have received and booked everything report the same figures, whatever the
order of the publishes and sends was, and whatever else they have handled in between. -/
theorem figures_scheduled {s t t' : LocalBus OrderResult} (hs : s.Wf) {subject : String}
    {as as' : List (BusAction OrderResult)} {ms ms' : List (Sent OrderResult)}
    (h : (localBus OrderResult).exec s (.subscribe subject :: as) = some t)
    (h' : (localBus OrderResult).exec s (.subscribe subject :: as') = some t')
    (hpublished : ∀ task, published task subject as = published task subject as')
    (hread : t.AllRead s.next ms) (hread' : t'.AllRead s.next ms') (hone : OneSource ms)
    {cfg cfg' : GlobalRiskConfig} {is is' : List RiskInput}
    (his : orders is = ms.map (·.msg)) (his' : orders is' = ms'.map (·.msg)) :
    (riskSupervisor.run (.new cfg) is).state.SameFigures
      (riskSupervisor.run (.new cfg') is').state := by
  have hsame : ∀ task, messagesOf task ms = messagesOf task ms' := by
    intro task
    rw [hread.messagesOf hs h, hread'.messagesOf hs h', hpublished]
  have hperm : ms.Perm ms' := perm_of_messagesOf hsame
  refine (bookings_run cfg is).sameFigures (bookings_run cfg' is') ?_ fun key => ?_
  · rw [his, his']
    exact hperm.map _
  · rw [his, his']
    exact changes_scheduled hsame hperm hone key

end Figures

/-- A purchase of an asset for 100. -/
def boughtOf (base : String) : OrderResult where
  commandId := base
  exchange := .okx
  symbol := ⟨base, "USDT"⟩
  side := .buy
  status := .filled
  filledSizeQuote := 100
  avgPrice := 100
  ts := 0
  traceId := none

/-- Two tasks, one for each asset, publish one after the other. -/
def takingTurns (tasks : List ℕ) : List (BusAction OrderResult) :=
  (tasks.flatMap fun task =>
      [.publish task "orders.result" (boughtOf (if task = 0 then "BTC" else "ETH")), .send task,
        .finish task]) ++
    tasks.map fun _ => .recv 0

theorem figures_scheduled_turns :
    (∃ t t' : LocalBus OrderResult,
      (localBus OrderResult).exec .new (.subscribe "orders.result" :: takingTurns [0, 1]) = some t ∧
      (localBus OrderResult).exec .new (.subscribe "orders.result" :: takingTurns [1, 0]) =
        some t') ∧
      RiskState.SameFigures
        (sampleSupervisor.run (.new .default)
          ([boughtOf "BTC", boughtOf "ETH"].map fun r => .orderResult (some r) ⟨0, 0⟩)).state
        (sampleSupervisor.run (.new .default)
          ([boughtOf "ETH", boughtOf "BTC"].map fun r => .orderResult (some r) ⟨0, 0⟩)).state := by
  refine ⟨⟨_, _, rfl, rfl⟩, ?_⟩
  refine @figures_scheduled asciiCase .new _ _ LocalBus.wf_new "orders.result" (takingTurns [0, 1])
    (takingTurns [1, 0]) [⟨0, boughtOf "BTC"⟩, ⟨1, boughtOf "ETH"⟩]
    [⟨1, boughtOf "ETH"⟩, ⟨0, boughtOf "BTC"⟩] rfl rfl ?_ ⟨⟨_, rfl, rfl, rfl, rfl⟩, ?_⟩
    ⟨⟨_, rfl, rfl, rfl, rfl⟩, ?_⟩ ?_ _ _ _ _ (orders_map _ _) (orders_map _ _)
  · intro task
    by_cases h0 : 0 = task <;> by_cases h1 : 1 = task <;>
      simp [takingTurns, published, h0, h1]
  · exact fun _ => rfl
  · exact fun _ => rfl
  · unfold OneSource
    decide

end W2uos
