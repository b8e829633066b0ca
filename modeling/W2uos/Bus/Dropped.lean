import W2uos.Bus.Delivery

/-!
# Dropped receivers

A send to a receiver that is gone fails at once, and its error is ignored.  Whatever the bus does
while a receiver is there, it can do without it, and the other way round, if the receiver takes
its messages out in time: the channels of the others are the same.

* `exec_dropped`, `exec_undropped` : dropping a receiver, and keeping it instead;
* `local_bus_delivery` : delivery on the local bus.
-/

namespace W2uos

variable {μ : Type}

/-- The action is a receive or the drop of the receiver `r`. -/
def BusAction.isOf (r : ℕ) : BusAction μ → Bool
  | .recv r' => r' = r
  | .drop r' => r' = r
  | _ => false

namespace LocalBus

variable {s t u : LocalBus μ} {r : ℕ} {a : BusAction μ} {ch : Channel μ}

/-- The buses differ at most in the channel of `r`. -/
def SameBut (r : ℕ) (s t : LocalBus μ) : Prop :=
  ∃ channels, t = { s with channels := channels } ∧
    ∀ r', r' ≠ r → channels.lookup r' = s.channels.lookup r'

theorem SameBut.refl (r : ℕ) (s : LocalBus μ) : SameBut r s s := ⟨s.channels, rfl, fun _ _ => rfl⟩

theorem SameBut.symm (h : SameBut r s t) : SameBut r t s := by
  obtain ⟨channels, rfl, hother⟩ := h
  exact ⟨s.channels, rfl, fun r' hr' => (hother r' hr').symm⟩

theorem SameBut.trans (h₁ : SameBut r s t) (h₂ : SameBut r t u) : SameBut r s u := by
  obtain ⟨channels₁, rfl, hother₁⟩ := h₁
  obtain ⟨channels₂, rfl, hother₂⟩ := h₂
  exact ⟨channels₂, rfl, fun r' hr' => (hother₂ r' hr').trans (hother₁ r' hr')⟩

theorem sameBut_insert (s : LocalBus μ) (r : ℕ) (ch : Channel μ) :
    SameBut r s { s with channels := s.channels.insert r ch } :=
  ⟨_, rfl, fun _ hr' => Finmap.lookup_insert_of_ne _ hr'⟩

/-- The next send of a call in progress is to `r`. -/
def SendsTo (r : ℕ) (s : LocalBus μ) (a : BusAction μ) : Prop :=
  ∃ sender call rs, a = .send sender ∧ s.calls.lookup sender = some call ∧ call.remaining = r :: rs

theorem send_alive {sender : ℕ} {call : Call μ} {rs : List ℕ}
    (hcall : s.calls.lookup sender = some call) (hrem : call.remaining = r :: rs)
    (hch : s.channels.lookup r = some ch) (halive : ch.alive = true)
    (hroom : ch.queue.length < channelCapacity) :
    s.send sender = some { s with
      calls := s.calls.insert sender { call with remaining := rs }
      channels := s.channels.insert r { ch with queue := ch.queue ++ [⟨sender, call.msg⟩] } } := by
  simp [send, hcall, hrem, hch, halive, hroom]

theorem send_dead {sender : ℕ} {call : Call μ} {rs : List ℕ}
    (hcall : s.calls.lookup sender = some call) (hrem : call.remaining = r :: rs)
    (hch : s.channels.lookup r = some ch) (hdead : ch.alive = false) :
    s.send sender = some { s with
      calls := s.calls.insert sender { call with remaining := rs } } := by
  simp [send, hcall, hrem, hch, hdead]

/-- **A step that has nothing to do with `r`** can be taken whatever is in the channel of `r`, and
leaves it alone. -/
theorem step_other (hst : SameBut r s t) (hr : r < s.next) (ha : a.isOf r = false)
    (hno : ¬ SendsTo r s a) {s' : LocalBus μ} (h : (localBus μ).step s a = some s') :
    ∃ t', (localBus μ).step t a = some t' ∧ SameBut r s' t' ∧ s.next ≤ s'.next ∧
      s'.channels.lookup r = s.channels.lookup r ∧
      t'.channels.lookup r = t.channels.lookup r := by
  obtain ⟨channels, rfl, hother⟩ := hst
  -- a write to another channel
  have hwrite : ∀ (r' : ℕ) (ch' : Channel μ) (k : ℕ), k ≠ r →
      (channels.insert r' ch').lookup k = (s.channels.insert r' ch').lookup k := by
    intro r' ch' k hk
    by_cases heq : k = r'
    · rw [heq, Finmap.lookup_insert, Finmap.lookup_insert]
    · rw [Finmap.lookup_insert_of_ne _ heq, Finmap.lookup_insert_of_ne _ heq, hother k hk]
  cases a with
  | publish task subject msg =>
    obtain ⟨hnone, rfl⟩ := publish_spec h
    refine ⟨_, ?_, ⟨channels, rfl, hother⟩, le_rfl, rfl, rfl⟩
    simp [localBus, publish, hnone]
  | send sender =>
    obtain ⟨call, r', rs, ch, hcall, hrem, hch, hcases⟩ := send_spec h
    have hr' : r' ≠ r := by
      rintro rfl
      exact hno ⟨sender, call, rs, rfl, hcall, hrem⟩
    have hch' : channels.lookup r' = some ch := (hother r' hr').trans hch
    rcases hcases with ⟨halive, hroom, rfl⟩ | ⟨hdead, rfl⟩
    · refine ⟨_, send_alive (s := { s with channels := channels }) hcall hrem hch' halive hroom,
        ⟨_, rfl, hwrite r' _⟩, le_rfl, ?_, ?_⟩
      · exact Finmap.lookup_insert_of_ne _ (Ne.symm hr')
      · exact Finmap.lookup_insert_of_ne _ (Ne.symm hr')
    · exact ⟨_, send_dead (s := { s with channels := channels }) hcall hrem hch' hdead,
        ⟨channels, rfl, hother⟩, le_rfl, rfl, rfl⟩
  | finish task =>
    obtain ⟨⟨⟨subject, msg, remaining⟩, hcall, hrem⟩, rfl⟩ := finish_spec h
    obtain rfl : remaining = [] := hrem
    refine ⟨_, ?_, ⟨channels, rfl, hother⟩, le_rfl, rfl, rfl⟩
    simp [localBus, finish, hcall]
  | subscribe subject =>
    have hkeys : s.calls.keys = ∅ := by
      by_contra hkeys
      simp [localBus, subscribe, hkeys] at h
    obtain ⟨-, rfl⟩ := subscribe_spec h
    refine ⟨_, ?_, ⟨_, rfl, hwrite s.next _⟩, Nat.le_succ _, ?_, ?_⟩
    · simp [localBus, subscribe, hkeys]
    · exact Finmap.lookup_insert_of_ne _ hr.ne
    · exact Finmap.lookup_insert_of_ne _ hr.ne
  | recv r' =>
    have hr' : r' ≠ r := by simpa [BusAction.isOf] using ha
    obtain ⟨⟨subject, alive, queue, received⟩, m, rest, hch, halive, hqueue, rfl⟩ := recv_spec h
    obtain rfl : alive = true := halive
    obtain rfl : queue = m :: rest := hqueue
    have hch' := (hother r' hr').trans hch
    refine ⟨_, ?_, ⟨_, rfl, hwrite r' _⟩, le_rfl, ?_, ?_⟩
    · simp [localBus, recv, hch']
    · exact Finmap.lookup_insert_of_ne _ (Ne.symm hr')
    · exact Finmap.lookup_insert_of_ne _ (Ne.symm hr')
  | drop r' =>
    have hr' : r' ≠ r := by simpa [BusAction.isOf] using ha
    obtain ⟨⟨subject, alive, queue, received⟩, hch, halive, rfl⟩ := drop_spec h
    obtain rfl : alive = true := halive
    have hch' := (hother r' hr').trans hch
    refine ⟨_, ?_, ⟨_, rfl, hwrite r' _⟩, le_rfl, ?_, ?_⟩
    · simp [localBus, drop, hch']
    · exact Finmap.lookup_insert_of_ne _ (Ne.symm hr')
    · exact Finmap.lookup_insert_of_ne _ (Ne.symm hr')

theorem step_of (ha : a.isOf r = true) (h : (localBus μ).step s a = some t) :
    SameBut r s t ∧ t.next = s.next := by
  cases a with
  | recv r' =>
    obtain rfl : r' = r := by simpa [BusAction.isOf] using ha
    obtain ⟨ch, m, queue, -, -, -, rfl⟩ := recv_spec h
    exact ⟨sameBut_insert s r' _, rfl⟩
  | drop r' =>
    obtain rfl : r' = r := by simpa [BusAction.isOf] using ha
    obtain ⟨ch, -, -, rfl⟩ := drop_spec h
    exact ⟨sameBut_insert s r' _, rfl⟩
  | _ => simp [BusAction.isOf] at ha

/-- **Without the receiver**: whatever happens with the receiver `r` there happens as well when it
is gone, without the actions of `r`. -/
theorem exec_dropped {as : List (BusAction μ)} (hst : SameBut r s t) (hr : r < s.next)
    (hch : t.channels.lookup r = some ch) (hdead : ch.alive = false)
    {s' : LocalBus μ} (h : (localBus μ).exec s as = some s') :
    ∃ t', (localBus μ).exec t (as.filter fun a => !a.isOf r) = some t' ∧ SameBut r s' t' := by
  induction as generalizing s t with
  | nil =>
    cases h
    exact ⟨t, rfl, hst⟩
  | cons a as ih =>
    obtain ⟨u, hstep, hrest⟩ := Option.bind_eq_some_iff.1 h
    cases ha : a.isOf r with
    | true =>
      obtain ⟨hsu, hnext⟩ := step_of ha hstep
      obtain ⟨t', ht', hst'⟩ := ih (hsu.symm.trans hst) (hnext ▸ hr) hch hrest
      exact ⟨t', by simpa [ha] using ht', hst'⟩
    | false =>
      have hfirst : ∃ v, (localBus μ).step t a = some v ∧ SameBut r u v ∧ r < u.next ∧
          v.channels.lookup r = some ch := by
        by_cases hto : SendsTo r s a
        · -- the message goes nowhere
          obtain ⟨sender, call, rs, rfl, hcall, hrem⟩ := hto
          obtain ⟨channels, rfl, hother⟩ := hst
          obtain ⟨call', r', rs', ch', hcall', hrem', -, hcases⟩ := send_spec hstep
          rw [hcall, Option.some.injEq] at hcall'
          rw [← hcall', hrem, List.cons.injEq] at hrem'
          obtain ⟨rfl, rfl⟩ := hrem'
          refine ⟨_, send_dead (s := { s with channels := channels }) hcall hrem hch hdead, ?_, ?_,
            hch⟩
          · rcases hcases with ⟨-, -, rfl⟩ | ⟨-, rfl⟩
            · refine ⟨channels, by rw [hcall'], ?_⟩
              intro k hk
              rw [hother k hk, Finmap.lookup_insert_of_ne _ hk]
            · exact ⟨channels, by rw [hcall'], hother⟩
          · rcases hcases with ⟨-, -, rfl⟩ | ⟨-, rfl⟩ <;> exact hr
        · obtain ⟨v, hv, huv, hle, -, hsame⟩ := step_other hst hr ha hto hstep
          exact ⟨v, hv, huv, hr.trans_le hle, hsame.trans hch⟩
      obtain ⟨v, hv, huv, hr', hch'⟩ := hfirst
      obtain ⟨t', ht', hst'⟩ := ih huv hr' hch' hrest
      refine ⟨t', ?_, hst'⟩
      rw [List.filter_cons_of_pos (by simp [ha]), Interleaving.exec_cons, hv]
      exact ht'

/-- The channel of `r` is empty, and its receiver is there. -/
def Drained (r : ℕ) (s : LocalBus μ) : Prop :=
  ∃ ch, s.channels.lookup r = some ch ∧ ch.alive = true ∧ ch.queue = []

theorem exec_drain (hch : s.channels.lookup r = some ch) (halive : ch.alive = true) :
    ∃ t, (localBus μ).exec s (List.replicate ch.queue.length (.recv r)) = some t ∧
      SameBut r s t ∧ t.next = s.next ∧ t.Drained r := by
  obtain ⟨subject, alive, queue, received⟩ := ch
  obtain rfl : alive = true := halive
  induction queue generalizing s received with
  | nil => exact ⟨s, rfl, SameBut.refl r s, rfl, _, hch, rfl, rfl⟩
  | cons m queue ih =>
    have hstep : (localBus μ).step s (.recv r) = some { s with
        channels := s.channels.insert r ⟨subject, true, queue, received ++ [m]⟩ } := by
      simp [localBus, recv, hch]
    obtain ⟨t, ht, hst, hnext, hdrained⟩ := ih (received ++ [m])
      (s := { s with channels := s.channels.insert r ⟨subject, true, queue, received ++ [m]⟩ })
      (Finmap.lookup_insert _)
    refine ⟨t, ?_, (sameBut_insert s r _).trans hst, hnext, hdrained⟩
    rw [List.length_cons, List.replicate_succ, Interleaving.exec_cons, hstep]
    exact ht

/-- A receiver with an empty channel is sent a message and takes it out at once. -/
theorem exec_send_recv (hdrained : s.Drained r) {sender : ℕ} {call : Call μ} {rs : List ℕ}
    (hcall : s.calls.lookup sender = some call) (hrem : call.remaining = r :: rs) :
    ∃ u, (localBus μ).exec s [.send sender, .recv r] = some u ∧
      SameBut r { s with calls := s.calls.insert sender { call with remaining := rs } } u ∧
      u.Drained r := by
  obtain ⟨⟨subject, alive, queue, received⟩, hch, halive, hempty⟩ := hdrained
  obtain rfl : alive = true := halive
  obtain rfl : queue = [] := hempty
  have hsend := send_alive (s := s) hcall hrem hch rfl (Nat.zero_lt_succ 1023)
  refine ⟨{ s with
    calls := s.calls.insert sender { call with remaining := rs }
    channels := (s.channels.insert r ⟨subject, true, [⟨sender, call.msg⟩], received⟩).insert r
      ⟨subject, true, [], received ++ [⟨sender, call.msg⟩]⟩ }, ?_, ?_, ?_⟩
  · rw [Interleaving.exec_cons]
    show (s.send sender).bind _ = _
    rw [hsend, Option.bind_some, Interleaving.exec_cons]
    simp [localBus, recv, Finmap.lookup_insert]
  · refine ⟨_, rfl, ?_⟩
    intro k hk
    rw [Finmap.lookup_insert_of_ne _ hk, Finmap.lookup_insert_of_ne _ hk]
  · exact ⟨_, Finmap.lookup_insert _, rfl, rfl⟩

/-- **With the receiver kept instead**: whatever happens when the receiver `r` is gone happens as
well when it is there and takes out each message as it comes. -/
theorem exec_undropped {as : List (BusAction μ)} (hst : SameBut r s t) (hr : r < s.next)
    (hch : t.channels.lookup r = some ch) (hdead : ch.alive = false) (hdrained : s.Drained r)
    {t' : LocalBus μ} (h : (localBus μ).exec t as = some t') :
    ∃ bs s', (localBus μ).exec s bs = some s' ∧ .drop r ∉ bs ∧
      (bs.filter fun a => !a.isOf r) = as ∧ SameBut r s' t' := by
  induction as generalizing s t with
  | nil =>
    cases h
    exact ⟨[], s, rfl, List.not_mem_nil, rfl, hst⟩
  | cons a as ih =>
    obtain ⟨v, hstep, hrest⟩ := Option.bind_eq_some_iff.1 h
    have ha : a.isOf r = false := by
      cases a with
      | recv r' =>
        obtain ⟨ch', m, queue, hch', halive, -⟩ := recv_spec hstep
        by_contra hr'
        obtain rfl : r' = r := by simpa [BusAction.isOf] using hr'
        rw [hch, Option.some.injEq] at hch'
        rw [hch', halive] at hdead
        cases hdead
      | drop r' =>
        obtain ⟨ch', hch', halive, -⟩ := drop_spec hstep
        by_contra hr'
        obtain rfl : r' = r := by simpa [BusAction.isOf] using hr'
        rw [hch, Option.some.injEq] at hch'
        rw [hch', halive] at hdead
        cases hdead
      | _ => rfl
    have hfirst : ∃ bs u, (localBus μ).exec s bs = some u ∧ .drop r ∉ bs ∧
        (bs.filter fun a => !a.isOf r) = [a] ∧ SameBut r u v ∧ r < u.next ∧
        v.channels.lookup r = some ch ∧ u.Drained r := by
      by_cases hto : SendsTo r t a
      · -- the receiver takes the message out at once
        obtain ⟨sender, call, rs, rfl, hcall, hrem⟩ := hto
        obtain ⟨channels, rfl, hother⟩ := hst
        obtain ⟨u, hu, hsu, hdrained'⟩ := exec_send_recv hdrained (s := s) hcall hrem
        have hgone := send_dead (s := { s with channels := channels }) hcall hrem hch hdead
        obtain rfl : _ = v := Option.some.inj (hgone.symm.trans hstep)
        refine ⟨_, u, hu, by simp, by simp [BusAction.isOf], ?_, ?_, hch, hdrained'⟩
        · exact hsu.symm.trans ⟨channels, rfl, hother⟩
        · obtain ⟨_, rfl, -⟩ := hsu
          exact hr
      · obtain ⟨u, hu, hvu, hle, hsame, hsame'⟩ :=
          step_other hst.symm (by obtain ⟨_, rfl, -⟩ := hst; exact hr) ha hto hstep
        refine ⟨[a], u, by simp [Interleaving.exec_cons, hu], ?_, by simp [ha], hvu.symm, ?_,
          hsame.trans hch, ?_⟩
        · rw [List.mem_singleton]
          rintro rfl
          simp [BusAction.isOf] at ha
        · obtain ⟨_, rfl, -⟩ := hst
          obtain ⟨_, rfl, -⟩ := hvu
          exact hr.trans_le hle
        · obtain ⟨c, hc, hrest⟩ := hdrained
          exact ⟨c, hsame'.trans hc, hrest⟩
    obtain ⟨bs, u, hu, hnodrop, hfilter, huv, hr', hch', hdrained'⟩ := hfirst
    obtain ⟨bs', s', hs', hnodrop', hfilter', hst'⟩ := ih huv hr' hch' hdrained' hrest
    refine ⟨bs ++ bs', s', ?_, ?_, ?_, hst'⟩
    · rw [Interleaving.exec_append, hu]
      exact hs'
    · rw [List.mem_append, not_or]
      exact ⟨hnodrop, hnodrop'⟩
    · rw [List.filter_append, hfilter, hfilter']
      rfl

/-! ### Delivery -/

/-- What the bus promises in the state `s` after the schedule `as`. -/
structure Delivery (as : List (BusAction μ)) (s : LocalBus μ) : Prop where
  /-- When a call of `publish` returns, every receiver that was subscribed to its subject when it
  started and is still alive has been sent the message, once. -/
  once : ∀ pre task subject msg mid s₀,
    as = pre ++ .publish task subject msg :: (mid ++ [.finish task]) → .finish task ∉ mid →
      (localBus μ).exec .new pre = some s₀ →
        ∀ r ∈ s₀.subscribers subject, s.Alive r → s.got task r = s₀.got task r ++ [msg]
  /-- What a receiver has got from a task is a prefix of what the task has published on its subject
  since the subscription. -/
  inOrder : ∀ pre subject post s₀, as = pre ++ .subscribe subject :: post →
    (localBus μ).exec .new pre = some s₀ →
      ∀ task, s.got task s₀.next <+: published task subject post
  /-- A receiver is sent what was published on its subject, and nothing else. -/
  onSubject : ∀ pre subject post s₀, as = pre ++ .subscribe subject :: post →
    (localBus μ).exec .new pre = some s₀ →
      ∀ ch, s.channels.lookup s₀.next = some ch →
        ch.subject = subject ∧ ∀ m ∈ ch.log, .publish m.sender subject m.msg ∈ post
  /-- What happens to the others after a receiver is dropped happens as well when it is kept, and
  the other way round. -/
  dropped : ∀ r, s.Alive r →
    (∀ bs s₁, (localBus μ).exec s bs = some s₁ →
      ∃ s₂, (localBus μ).exec s (.drop r :: bs.filter fun a => !a.isOf r) = some s₂ ∧
        SameBut r s₁ s₂) ∧
    (∀ bs s₂, (localBus μ).exec s (.drop r :: bs) = some s₂ →
      ∃ bs' s₁, (localBus μ).exec s bs' = some s₁ ∧ .drop r ∉ bs' ∧
        (bs'.filter fun a => !a.isOf r) = bs ∧ SameBut r s₁ s₂)

theorem step_drop (hch : s.channels.lookup r = some ch) (halive : ch.alive = true) :
    (localBus μ).step s (.drop r) = some { s with
      channels := s.channels.insert r { ch with alive := false, queue := [] } } := by
  obtain ⟨subject, alive, queue, received⟩ := ch
  obtain rfl : alive = true := halive
  simp [localBus, drop, hch]

theorem publish_mem_of_mem {task : ℕ} {subject : String} {msg : μ} {as : List (BusAction μ)}
    (h : msg ∈ published task subject as) : .publish task subject msg ∈ as := by
  obtain ⟨a, ha, hmsg⟩ := List.mem_filterMap.1 h
  cases a with
  | publish task' subject' msg' =>
    dsimp only at hmsg
    split_ifs at hmsg with heq
    obtain ⟨rfl, rfl⟩ := heq
    obtain rfl := Option.some.inj hmsg
    exact ha
  | _ => cases hmsg

/-- **Delivery on the local bus**, after any schedule of publishers, subscribers, receivers and
drops: exactly once to the subscribers of a call that returned, in order and without gap for every
receiver and task, on its subject only, and whether or not other receivers are dropped. -/
theorem local_bus_delivery {as : List (BusAction μ)} (h : (localBus μ).exec .new as = some s) :
    Delivery as s := by
  refine ⟨?_, ?_, ?_, fun r hr => ⟨fun bs s₁ h₁ => ?_, fun bs s₂ h₂ => ?_⟩⟩
  · rintro pre task subject msg mid s₀ rfl hmid hpre r hr halive
    rw [Interleaving.exec_append, hpre] at h
    exact got_of_finish (wf_exec wf_new hpre) hmid h hr halive
  · rintro pre subject post s₀ rfl hpre task
    rw [Interleaving.exec_append, hpre] at h
    exact got_prefix (wf_exec wf_new hpre) h task
  · rintro pre subject post s₀ rfl hpre ch hch
    rw [Interleaving.exec_append, hpre] at h
    refine ⟨?_, ?_⟩
    · obtain ⟨ch', hch', hsubject⟩ := subscribe_channel (wf_exec wf_new hpre) h
      rw [hch, Option.some.injEq] at hch'
      rw [hch', hsubject]
    · intro m hm
      have hgot : m.msg ∈ s.got m.sender s₀.next := by
        rw [got_eq hch]
        exact List.mem_map.2 ⟨m, List.mem_filter.2 ⟨hm, by simp⟩, rfl⟩
      have hgots := got_prefix (wf_exec wf_new hpre) h m.sender
      exact publish_mem_of_mem (hgots.subset hgot)
  · obtain ⟨ch, hch, halive⟩ := hr
    obtain ⟨s₂, hs₂, hsame⟩ := exec_dropped
      (sameBut_insert s r { ch with alive := false, queue := [] })
      ((wf_exec wf_new h).numbered r ch hch) (Finmap.lookup_insert _) rfl h₁
    refine ⟨s₂, ?_, hsame⟩
    rw [Interleaving.exec_cons, step_drop hch halive]
    exact hs₂
  · -- the receiver first takes out what is in its channel
    obtain ⟨ch, hch, halive⟩ := hr
    obtain ⟨u, hdrain, hsu, hnext, hdrained⟩ := exec_drain hch halive
    rw [Interleaving.exec_cons, step_drop hch halive] at h₂
    obtain ⟨bs', s₁, hs₁, hnodrop, hfilter, hsame⟩ :=
      exec_undropped (hsu.symm.trans (sameBut_insert s r { ch with alive := false, queue := [] }))
        (hnext ▸ (wf_exec wf_new h).numbered r ch hch) (Finmap.lookup_insert _) rfl hdrained h₂
    refine ⟨List.replicate ch.queue.length (.recv r) ++ bs', s₁, ?_, ?_, ?_, hsame⟩
    · rw [Interleaving.exec_append, hdrain]
      exact hs₁
    · rw [List.mem_append, not_or]
      refine ⟨fun hmem => ?_, hnodrop⟩
      cases List.eq_of_mem_replicate hmem
    · rw [List.filter_append, List.filter_replicate_of_neg (by simp [BusAction.isOf]), hfilter]
      rfl

/-- Two tasks publish on one subject while a third subject has a subscriber of its own; one of the
receivers is dropped in the middle of a call. -/
def sampleSchedule : List (BusAction ℕ) :=
  [.subscribe "a", .subscribe "a", .subscribe "b", .publish 0 "a" 10, .publish 1 "a" 20, .send 1,
    .send 0, .recv 0, .drop 1, .send 0, .finish 0, .send 1, .finish 1, .publish 0 "b" 30, .send 0,
    .finish 0]

theorem local_bus_delivery_sample :
    ∃ s, (localBus ℕ).exec .new sampleSchedule = some s ∧ Delivery sampleSchedule s :=
  ⟨_, rfl, local_bus_delivery rfl⟩

end LocalBus

end W2uos
