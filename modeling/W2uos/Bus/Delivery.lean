import W2uos.Bus.Local

/-!
# Delivery on the local bus

A publish is a sequence of sends under the read lock, with sends of other publishers, receives and
drops in between.  What keeps it together is an account of every receiver and every task: what the
receiver has got from the task, with what a call in progress still owes it, is what the task has
published on its subject since the subscription.

* `wf_exec` : the bus is well formed at any time;
* `account_step`, `account_run` : the account of a receiver;
* `got_of_finish`, `got_prefix` : what a receiver has got when a call returns, and at any time.
-/

namespace W2uos

variable {μ : Type}

/-- What `task` publishes on `subject` along a schedule. -/
def published (task : ℕ) (subject : String) (as : List (BusAction μ)) : List μ :=
  as.filterMap fun
    | .publish task' subject' msg => if task' = task ∧ subject' = subject then some msg else none
    | _ => none

theorem published_append (task : ℕ) (subject : String) (as bs : List (BusAction μ)) :
    published task subject (as ++ bs) = published task subject as ++ published task subject bs :=
  List.filterMap_append

theorem published_publish (task sender : ℕ) (subject subject' : String) (msg : μ) :
    published task subject [.publish sender subject' msg] =
      if sender = task ∧ subject' = subject then [msg] else [] := by
  unfold published
  by_cases h : sender = task ∧ subject' = subject <;> simp [h]

/-- The messages of a task in a list of sent messages. -/
def messagesOf (task : ℕ) (ms : List (Sent μ)) : List μ :=
  (ms.filter fun m => m.sender = task).map (·.msg)

theorem messagesOf_append (task : ℕ) (ms ns : List (Sent μ)) :
    messagesOf task (ms ++ ns) = messagesOf task ms ++ messagesOf task ns := by
  rw [messagesOf, List.filter_append, List.map_append, messagesOf, messagesOf]

theorem messagesOf_singleton (task sender : ℕ) (msg : μ) :
    messagesOf task [⟨sender, msg⟩] = if sender = task then [msg] else [] := by
  unfold messagesOf
  by_cases h : sender = task <;> simp [h]

/-- Everything that was ever put into a channel, as long as its receiver is there. -/
def Channel.log (ch : Channel μ) : List (Sent μ) := ch.received ++ ch.queue

namespace LocalBus

variable {s t : LocalBus μ} {r : ℕ} {subject : String} {ch : Channel μ}

/-- The messages of `task` that the receiver `r` has received or queued. -/
def got (s : LocalBus μ) (task r : ℕ) : List μ :=
  match s.channels.lookup r with
  | some ch => messagesOf task ch.log
  | none => []

/-- The message of the call of `task`, if the receiver `r` has still to be sent it. -/
def owed (s : LocalBus μ) (task r : ℕ) : List μ :=
  match s.calls.lookup task with
  | some call => if r ∈ call.remaining then [call.msg] else []
  | none => []

/-- The receiver `r` has not been dropped. -/
def Alive (s : LocalBus μ) (r : ℕ) : Prop := ∃ ch, s.channels.lookup r = some ch ∧ ch.alive = true

theorem got_eq (h : s.channels.lookup r = some ch) (task : ℕ) :
    s.got task r = messagesOf task ch.log := by
  simp [got, h]

theorem alive_iff (h : s.channels.lookup r = some ch) : s.Alive r ↔ ch.alive = true := by
  simp [Alive, h]

/-! ### What the steps do -/

theorem publish_spec {task : ℕ} {msg : μ} (h : s.publish task subject msg = some t) :
    s.calls.lookup task = none ∧
      t = { s with calls := s.calls.insert task ⟨subject, msg, s.subscribers subject⟩ } := by
  unfold publish at h
  cases hcall : s.calls.lookup task with
  | some call => simp [hcall] at h
  | none => exact ⟨rfl, by simpa [hcall] using h.symm⟩

/-- A send reaches the channel of a receiver that is there and has room, and passes over one that
is gone. -/
theorem send_spec {task : ℕ} (h : s.send task = some t) :
    ∃ call r rs ch, s.calls.lookup task = some call ∧ call.remaining = r :: rs ∧
      s.channels.lookup r = some ch ∧
      ((ch.alive = true ∧ ch.queue.length < channelCapacity ∧
          t = { s with
            calls := s.calls.insert task { call with remaining := rs }
            channels := s.channels.insert r
              { ch with queue := ch.queue ++ [⟨task, call.msg⟩] } }) ∨
        (ch.alive = false ∧
          t = { s with calls := s.calls.insert task { call with remaining := rs } })) := by
  unfold send at h
  cases hcall : s.calls.lookup task with
  | none => simp [hcall] at h
  | some call =>
    cases hrem : call.remaining with
    | nil => simp [hcall, hrem] at h
    | cons r rs =>
      cases hch : s.channels.lookup r with
      | none => simp [hcall, hrem, hch] at h
      | some ch =>
        refine ⟨call, r, rs, ch, rfl, hrem, hch, ?_⟩
        simp only [hcall, hrem, hch] at h
        split_ifs at h with halive hroom
        · exact Or.inl ⟨halive, hroom, (Option.some.inj h).symm⟩
        · exact Or.inr ⟨by simpa using halive, (Option.some.inj h).symm⟩

theorem finish_spec {task : ℕ} (h : s.finish task = some t) :
    (∃ call, s.calls.lookup task = some call ∧ call.remaining = []) ∧
      t = { s with calls := s.calls.erase task } := by
  unfold finish at h
  split at h
  · rename_i subject msg hcall
    exact ⟨⟨_, hcall, rfl⟩, (Option.some.inj h).symm⟩
  · cases h

theorem subscribe_spec (h : s.subscribe subject = some t) :
    (∀ task, s.calls.lookup task = none) ∧
      t = { s with
        subscribers := Function.update s.subscribers subject (s.subscribers subject ++ [s.next])
        channels := s.channels.insert s.next ⟨subject, true, [], []⟩
        next := s.next + 1 } := by
  unfold subscribe at h
  split_ifs at h with hnone
  refine ⟨fun task => ?_, (Option.some.inj h).symm⟩
  rw [Finmap.lookup_eq_none, ← Finmap.mem_keys, hnone]
  exact Finset.notMem_empty task

/-- A receive moves the oldest message from the queue to the received ones. -/
theorem recv_spec (h : s.recv r = some t) :
    ∃ ch m queue, s.channels.lookup r = some ch ∧ ch.alive = true ∧ ch.queue = m :: queue ∧
      t = { s with
        channels := s.channels.insert r
          { ch with queue := queue, received := ch.received ++ [m] } } := by
  unfold recv at h
  split at h
  · rename_i subject m queue received hch
    refine ⟨_, m, queue, hch, rfl, rfl, ?_⟩
    exact (Option.some.inj h).symm
  · cases h

theorem drop_spec (h : s.drop r = some t) :
    ∃ ch, s.channels.lookup r = some ch ∧ ch.alive = true ∧
      t = { s with channels := s.channels.insert r { ch with alive := false, queue := [] } } := by
  unfold drop at h
  split at h
  · rename_i subject queue received hch
    exact ⟨_, hch, rfl, (Option.some.inj h).symm⟩
  · cases h

/-! ### Well-formedness -/

/-- Receivers are numbered, subscribed once, and to the subject of their channel; a call in
progress has sent its message to the first subscribers of its subject. -/
structure Wf (s : LocalBus μ) : Prop where
  nodup : ∀ subject, (s.subscribers subject).Nodup
  channel : ∀ subject, ∀ r ∈ s.subscribers subject,
    ∃ ch, s.channels.lookup r = some ch ∧ ch.subject = subject
  numbered : ∀ r ch, s.channels.lookup r = some ch → r < s.next
  calls : ∀ task call, s.calls.lookup task = some call →
    call.remaining <:+ s.subscribers call.subject

theorem wf_new : (new : LocalBus μ).Wf where
  nodup _ := List.nodup_nil
  channel _ r h := absurd h (List.not_mem_nil)
  numbered r ch h := by simp [new] at h
  calls task call h := by simp [new] at h

/-- Writing a channel without changing its subject keeps the bus well formed. -/
theorem Wf.insert_channel (hs : s.Wf) (hch : s.channels.lookup r = some ch) {ch' : Channel μ}
    (hsubject : ch'.subject = ch.subject) :
    ({ s with channels := s.channels.insert r ch' } : LocalBus μ).Wf where
  nodup := hs.nodup
  channel subject r' hr' := by
    obtain ⟨c, hc, hcs⟩ := hs.channel subject r' hr'
    by_cases heq : r' = r
    · subst heq
      rw [hch, Option.some.injEq] at hc
      exact ⟨ch', Finmap.lookup_insert _, by rw [hsubject, hc, hcs]⟩
    · exact ⟨c, by rw [Finmap.lookup_insert_of_ne _ heq, hc], hcs⟩
  numbered r' c hc := by
    by_cases heq : r' = r
    · exact heq ▸ hs.numbered r ch hch
    · rw [Finmap.lookup_insert_of_ne _ heq] at hc
      exact hs.numbered r' c hc
  calls := hs.calls

/-- Writing a call that has sent its message to the first subscribers keeps the bus well formed. -/
theorem Wf.insert_call (hs : s.Wf) {task : ℕ} {call : Call μ}
    (hcall : call.remaining <:+ s.subscribers call.subject) :
    ({ s with calls := s.calls.insert task call } : LocalBus μ).Wf where
  nodup := hs.nodup
  channel := hs.channel
  numbered := hs.numbered
  calls task' c hc := by
    by_cases heq : task' = task
    · subst heq
      rw [Finmap.lookup_insert, Option.some.injEq] at hc
      exact hc ▸ hcall
    · rw [Finmap.lookup_insert_of_ne _ heq] at hc
      exact hs.calls task' c hc

theorem Wf.erase_call (hs : s.Wf) (task : ℕ) :
    ({ s with calls := s.calls.erase task } : LocalBus μ).Wf where
  nodup := hs.nodup
  channel := hs.channel
  numbered := hs.numbered
  calls task' c hc := by
    by_cases heq : task' = task
    · rw [heq, Finmap.lookup_erase] at hc
      cases hc
    · rw [Finmap.lookup_erase_ne heq] at hc
      exact hs.calls task' c hc

theorem Wf.ne_next (hs : s.Wf) (hr : r ∈ s.subscribers subject) : r ≠ s.next := by
  obtain ⟨ch, hch, -⟩ := hs.channel subject r hr
  exact (hs.numbered r ch hch).ne

theorem Wf.add_receiver (hs : s.Wf) (hnone : ∀ task, s.calls.lookup task = none)
    (subject : String) :
    ({ s with
      subscribers := Function.update s.subscribers subject (s.subscribers subject ++ [s.next])
      channels := s.channels.insert s.next ⟨subject, true, [], []⟩
      next := s.next + 1 } : LocalBus μ).Wf where
  nodup subject' := by
    dsimp only
    by_cases heq : subject' = subject
    · subst heq
      rw [Function.update_self, List.nodup_append]
      refine ⟨hs.nodup _, List.nodup_singleton _, ?_⟩
      intro r hr r' hr'
      rw [List.mem_singleton.1 hr']
      exact hs.ne_next hr
    · rw [Function.update_of_ne heq]
      exact hs.nodup subject'
  channel subject' r hr := by
    dsimp only at hr ⊢
    by_cases hr' : r = s.next
    · rw [hr', Finmap.lookup_insert]
      refine ⟨_, rfl, ?_⟩
      by_contra hne
      rw [Function.update_of_ne (Ne.symm hne)] at hr
      exact hs.ne_next hr hr'
    · rw [Finmap.lookup_insert_of_ne _ hr']
      refine hs.channel subject' r ?_
      by_cases heq : subject' = subject
      · subst heq
        rw [Function.update_self] at hr
        simpa [hr'] using hr
      · rwa [Function.update_of_ne heq] at hr
  numbered r ch hch := by
    by_cases heq : r = s.next
    · exact heq ▸ Nat.lt_succ_self _
    · rw [Finmap.lookup_insert_of_ne _ heq] at hch
      exact (hs.numbered r ch hch).trans (Nat.lt_succ_self _)
  calls task c hc := by
    have hno := hnone task
    rw [hc] at hno
    cases hno

/-- **Every step keeps the bus well formed.** -/
theorem Wf.step (hs : s.Wf) {a : BusAction μ} (h : (localBus μ).step s a = some t) : t.Wf := by
  cases a with
  | publish task subject msg =>
    obtain ⟨-, rfl⟩ := publish_spec h
    exact hs.insert_call List.suffix_rfl
  | send task =>
    obtain ⟨call, r, rs, ch, hcall, hrem, hch, hcases⟩ := send_spec h
    have hrest : rs <:+ s.subscribers call.subject :=
      (List.suffix_cons r rs).trans (hrem ▸ hs.calls task call hcall)
    rcases hcases with ⟨-, -, rfl⟩ | ⟨-, rfl⟩
    · have hsent : ({ s with
          channels := s.channels.insert r
            { ch with queue := ch.queue ++ [⟨task, call.msg⟩] } } : LocalBus μ).Wf :=
        hs.insert_channel hch rfl
      exact hsent.insert_call hrest
    · exact hs.insert_call hrest
  | finish task =>
    obtain ⟨-, rfl⟩ := finish_spec h
    exact hs.erase_call task
  | subscribe subject =>
    obtain ⟨hnone, rfl⟩ := subscribe_spec h
    exact hs.add_receiver hnone subject
  | recv r =>
    obtain ⟨ch, m, queue, hch, -, -, rfl⟩ := recv_spec h
    exact hs.insert_channel hch rfl
  | drop r =>
    obtain ⟨ch, hch, -, rfl⟩ := drop_spec h
    exact hs.insert_channel hch rfl

theorem wf_exec {as : List (BusAction μ)} (hs : s.Wf) (h : (localBus μ).exec s as = some t) :
    t.Wf :=
  Interleaving.exec_invariant hs (fun _ _ _ hu hstep => hu.step hstep) h

/-! ### The account of a receiver -/

theorem Wf.mem_subscribers_iff (hs : s.Wf) (hr : r ∈ s.subscribers subject) (subject' : String) :
    r ∈ s.subscribers subject' ↔ subject' = subject := by
  constructor
  · intro hr'
    obtain ⟨ch, hch, hsubject⟩ := hs.channel subject r hr
    obtain ⟨ch', hch', hsubject'⟩ := hs.channel subject' r hr'
    rw [hch, Option.some.injEq] at hch'
    rw [← hsubject, ← hsubject', hch']
  · rintro rfl
    exact hr

theorem owed_of_lookup {task : ℕ} {call : Call μ} (h : s.calls.lookup task = some call) (r : ℕ) :
    s.owed task r = if r ∈ call.remaining then [call.msg] else [] := by
  simp [owed, h]

theorem owed_of_none {task : ℕ} (h : s.calls.lookup task = none) (r : ℕ) : s.owed task r = [] := by
  simp [owed, h]

theorem owed_congr {task : ℕ} (h : t.calls.lookup task = s.calls.lookup task) (r : ℕ) :
    t.owed task r = s.owed task r := by
  simp [owed, h]

theorem got_congr (h : t.channels.lookup r = s.channels.lookup r) (task : ℕ) :
    t.got task r = s.got task r := by
  simp [got, h]

theorem alive_congr (h : t.channels.lookup r = s.channels.lookup r) : t.Alive r ↔ s.Alive r := by
  simp [Alive, h]

/-- The account of a receiver: what it has got from a task, and is owed, grows by what the task
publishes; and when the receiver is gone, it gets nothing more. -/
def Accounts (task r : ℕ) (subject : String) (as : List (BusAction μ)) (s t : LocalBus μ) : Prop :=
  r ∈ t.subscribers subject ∧
    (t.Alive r → s.Alive r ∧ t.got task r ++ t.owed task r =
      s.got task r ++ s.owed task r ++ published task subject as) ∧
    (¬ t.Alive r → t.got task r <+: s.got task r ++ s.owed task r ++ published task subject as) ∧
    (¬ s.Alive r → ¬ t.Alive r ∧ t.got task r = s.got task r)

/-- A step that leaves the channel and what is owed alone, and publishes nothing, is not seen in
the account. -/
theorem accounts_of_eq {task : ℕ} {a : BusAction μ} (hr : r ∈ t.subscribers subject)
    (hch : t.channels.lookup r = s.channels.lookup r) (howed : t.owed task r = s.owed task r)
    (ha : published task subject [a] = []) : Accounts task r subject [a] s t := by
  refine ⟨hr, fun halive => ⟨(alive_congr hch).1 halive, ?_⟩, fun _ => ?_, fun hdead => ?_⟩
  · rw [got_congr hch, howed, ha, List.append_nil]
  · rw [got_congr hch, List.append_assoc]
    exact List.prefix_append _ _
  · exact ⟨fun halive => hdead ((alive_congr hch).1 halive), got_congr hch task⟩

theorem accounts_send_self (hs : s.Wf) (hr : r ∈ s.subscribers subject) {sender : ℕ}
    {call : Call μ} {rs : List ℕ} (hcall : s.calls.lookup sender = some call)
    (hrem : call.remaining = r :: rs) (hch : s.channels.lookup r = some ch)
    (halive : ch.alive = true) (task : ℕ) :
    Accounts task r subject [.send sender] s
      { s with
        calls := s.calls.insert sender { call with remaining := rs }
        channels :=
          s.channels.insert r { ch with queue := ch.queue ++ [⟨sender, call.msg⟩] } } := by
  have hthere := (alive_iff hch).2 halive
  refine ⟨hr, fun _ => ⟨hthere, ?_⟩, fun hdead => ?_, fun hdead => absurd hthere hdead⟩
  · have hgot : got { s with
        calls := s.calls.insert sender { call with remaining := rs }
        channels := s.channels.insert r
          { ch with queue := ch.queue ++ [⟨sender, call.msg⟩] } } task r =
        s.got task r ++ if sender = task then [call.msg] else [] := by
      rw [got_eq (Finmap.lookup_insert _), got_eq hch, Channel.log, Channel.log,
        ← List.append_assoc, messagesOf_append, messagesOf_singleton]
    rw [hgot]
    by_cases htask : task = sender
    · subst htask
      -- the receiver is subscribed once, so it is not among the rest
      have hnotin : r ∉ rs := by
        have hnodup : (r :: rs).Nodup :=
          (hs.nodup call.subject).sublist (hrem ▸ hs.calls task call hcall).sublist
        exact (List.nodup_cons.1 hnodup).1
      rw [owed_of_lookup (Finmap.lookup_insert _), owed_of_lookup hcall, hrem]
      simp [hnotin, published]
    · rw [owed_congr (Finmap.lookup_insert_of_ne _ htask), if_neg (Ne.symm htask)]
      simp [published]
  · exact absurd ⟨_, Finmap.lookup_insert _, halive⟩ hdead

theorem owed_send_of_ne {sender r' : ℕ} {call : Call μ} {rs : List ℕ}
    (hcall : s.calls.lookup sender = some call) (hrem : call.remaining = r' :: rs) (hr' : r' ≠ r)
    (channels : Finmap fun _ : ℕ => Channel μ) (task : ℕ) :
    owed { s with
      calls := s.calls.insert sender { call with remaining := rs }
      channels := channels } task r = s.owed task r := by
  by_cases htask : task = sender
  · subst htask
    rw [owed_of_lookup (Finmap.lookup_insert _), owed_of_lookup hcall, hrem]
    simp [Ne.symm hr']
  · exact owed_congr (Finmap.lookup_insert_of_ne _ htask) r

/-- **The step lemma of delivery.** -/
theorem account_step (hs : s.Wf) (hr : r ∈ s.subscribers subject) {a : BusAction μ}
    (h : (localBus μ).step s a = some t) (task : ℕ) : Accounts task r subject [a] s t := by
  cases a with
  | publish task' subject' msg =>
    obtain ⟨hnone, rfl⟩ := publish_spec h
    by_cases htask : task' = task
    · -- the receiver is owed the message if it is on the receiver's subject
      subst htask
      refine ⟨hr, fun halive => ⟨halive, ?_⟩, fun _ => ?_, fun hdead => ⟨hdead, rfl⟩⟩
      · rw [owed_of_lookup (Finmap.lookup_insert _), owed_of_none hnone, List.append_nil]
        simp only [hs.mem_subscribers_iff hr]
        by_cases hsubject : subject' = subject <;> simp [published, hsubject, got]
      · rw [List.append_assoc]
        exact List.prefix_append _ _
    · refine accounts_of_eq hr rfl ?_ (by simp [published, htask])
      exact owed_congr (Finmap.lookup_insert_of_ne _ (Ne.symm htask)) r
  | send sender =>
    obtain ⟨call, r', rs, ch, hcall, hrem, hch, ⟨halive, -, rfl⟩ | ⟨hdead, rfl⟩⟩ := send_spec h
    · by_cases hr' : r' = r
      · subst hr'
        exact accounts_send_self hs hr hcall hrem hch halive task
      · exact accounts_of_eq hr (Finmap.lookup_insert_of_ne _ (Ne.symm hr'))
          (owed_send_of_ne hcall hrem hr' _ task) rfl
    · -- a receiver that is gone is owed nothing any more
      by_cases hr' : r' = r
      · subst hr'
        refine ⟨hr, fun halive => ?_, fun _ => ?_, fun hdead => ⟨hdead, rfl⟩⟩
        · have hlive := (alive_iff (s := s) hch).1 halive
          rw [hdead] at hlive
          cases hlive
        · rw [List.append_assoc]
          exact List.prefix_append _ _
      · exact accounts_of_eq hr rfl (owed_send_of_ne hcall hrem hr' _ task) rfl
  | finish task' =>
    obtain ⟨⟨call, hcall, hrem⟩, rfl⟩ := finish_spec h
    refine accounts_of_eq hr rfl ?_ rfl
    -- a call that returns has nothing left to send
    by_cases htask : task = task'
    · subst htask
      rw [owed_of_none (Finmap.lookup_erase _ _), owed_of_lookup hcall, hrem]
      simp
    · exact owed_congr (Finmap.lookup_erase_ne htask) r
  | subscribe subject' =>
    obtain ⟨hnone, rfl⟩ := subscribe_spec h
    refine accounts_of_eq ?_ (Finmap.lookup_insert_of_ne _ (hs.ne_next hr)) rfl rfl
    dsimp only
    by_cases hsubject : subject = subject'
    · subst hsubject
      rw [Function.update_self]
      exact List.mem_append_left _ hr
    · rwa [Function.update_of_ne hsubject]
  | recv r' =>
    obtain ⟨ch, m, queue, hch, halive, hqueue, rfl⟩ := recv_spec h
    by_cases hr' : r' = r
    · subst hr'
      have hthere := (alive_iff hch).2 halive
      refine ⟨hr, fun _ => ⟨hthere, ?_⟩, fun hdead => ?_, fun hdead => absurd hthere hdead⟩
      · rw [got_eq (Finmap.lookup_insert _), got_eq hch]
        simp [Channel.log, hqueue, published, owed]
      · exact absurd ⟨_, Finmap.lookup_insert _, halive⟩ hdead
    · exact accounts_of_eq hr (Finmap.lookup_insert_of_ne _ (Ne.symm hr')) rfl rfl
  | drop r' =>
    obtain ⟨ch, hch, halive, rfl⟩ := drop_spec h
    by_cases hr' : r' = r
    · subst hr'
      have hthere := (alive_iff hch).2 halive
      refine ⟨hr, fun hlive => ?_, fun _ => ?_, fun hdead => absurd hthere hdead⟩
      · obtain ⟨c, hc, hlive⟩ := hlive
        rw [Finmap.lookup_insert, Option.some.injEq] at hc
        rw [← hc] at hlive
        cases hlive
      · rw [got_eq (Finmap.lookup_insert _), got_eq hch]
        simp [Channel.log, messagesOf_append]
    · exact accounts_of_eq hr (Finmap.lookup_insert_of_ne _ (Ne.symm hr')) rfl rfl

theorem Accounts.trans {task : ℕ} {as bs : List (BusAction μ)} {u : LocalBus μ}
    (h₁ : Accounts task r subject as s u) (h₂ : Accounts task r subject bs u t) :
    Accounts task r subject (as ++ bs) s t := by
  obtain ⟨-, halive₁, hdead₁, hgone₁⟩ := h₁
  obtain ⟨hr, halive₂, hdead₂, hgone₂⟩ := h₂
  refine ⟨hr, fun ht => ?_, fun ht => ?_, fun hs => ?_⟩
  · obtain ⟨hu, heq₂⟩ := halive₂ ht
    obtain ⟨hs, heq₁⟩ := halive₁ hu
    exact ⟨hs, by rw [heq₂, heq₁, published_append, List.append_assoc]⟩
  · rw [published_append, ← List.append_assoc]
    -- the receiver is dropped in the second part, or was before
    by_cases hu : u.Alive r
    · rw [← (halive₁ hu).2]
      exact hdead₂ ht
    · rw [(hgone₂ hu).2]
      exact (hdead₁ hu).trans (List.prefix_append _ _)
  · obtain ⟨hu, heq₁⟩ := hgone₁ hs
    obtain ⟨ht, heq₂⟩ := hgone₂ hu
    exact ⟨ht, heq₂.trans heq₁⟩

/-- **The run lemma of delivery.** -/
theorem account_run (hs : s.Wf) (hr : r ∈ s.subscribers subject) {as : List (BusAction μ)}
    (h : (localBus μ).exec s as = some t) (task : ℕ) : Accounts task r subject as s t := by
  have hrun := Interleaving.exec_history (M := localBus μ) (s := s)
    (P := fun as t => t.Wf ∧ Accounts task r subject as s t) ⟨hs, ?_⟩ ?_ h
  · exact hrun.2
  · refine ⟨hr, fun halive => ⟨halive, (List.append_nil _).symm⟩, fun _ => ?_,
      fun hdead => ⟨hdead, rfl⟩⟩
    rw [List.append_assoc]
    exact List.prefix_append _ _
  · rintro as u a u' ⟨hu, hacc⟩ hstep
    exact ⟨hu.step hstep, hacc.trans (account_step hu hacc.1 hstep task)⟩

/-! ### What a receiver has got -/

/-- A task that is in a call stays in it until the call returns, and publishes nothing else. -/
theorem busy_run {task : ℕ} {call : Call μ} {as : List (BusAction μ)}
    (hcall : s.calls.lookup task = some call) (has : BusAction.finish task ∉ as)
    (h : (localBus μ).exec s as = some t) (subject : String) :
    published task subject as = [] ∧ ∃ call', t.calls.lookup task = some call' := by
  induction as generalizing s call with
  | nil =>
    cases h
    exact ⟨rfl, call, hcall⟩
  | cons a as ih =>
    obtain ⟨u, hstep, hrest⟩ := Option.bind_eq_some_iff.1 h
    have hfirst : a ≠ .finish task := fun heq => has (heq ▸ List.mem_cons_self)
    have hlater : BusAction.finish task ∉ as := fun hmem => has (List.mem_cons_of_mem _ hmem)
    have hnothing : published task subject [a] = [] ∧
        ∃ call', u.calls.lookup task = some call' := by
      cases a with
      | publish task' subject' msg =>
        obtain ⟨hnone, rfl⟩ := publish_spec hstep
        have hne : task ≠ task' := by
          rintro rfl
          rw [hcall] at hnone
          cases hnone
        exact ⟨by simp [published, Ne.symm hne], call,
          (Finmap.lookup_insert_of_ne _ hne).trans hcall⟩
      | send task' =>
        obtain ⟨call', r', rs, ch, -, -, -, ⟨-, -, rfl⟩ | ⟨-, rfl⟩⟩ := send_spec hstep <;>
        · refine ⟨rfl, ?_⟩
          by_cases heq : task = task'
          · subst heq
            exact ⟨_, Finmap.lookup_insert _⟩
          · exact ⟨call, (Finmap.lookup_insert_of_ne _ heq).trans hcall⟩
      | finish task' =>
        obtain ⟨-, rfl⟩ := finish_spec hstep
        have hne : task ≠ task' := fun heq => hfirst (by rw [heq])
        exact ⟨rfl, call, (Finmap.lookup_erase_ne hne).trans hcall⟩
      | subscribe subject' =>
        -- nobody subscribes while the task holds the lock
        obtain ⟨hnone, -⟩ := subscribe_spec hstep
        rw [hnone] at hcall
        cases hcall
      | recv r' =>
        obtain ⟨ch, m, queue, -, -, -, rfl⟩ := recv_spec hstep
        exact ⟨rfl, call, hcall⟩
      | drop r' =>
        obtain ⟨ch, -, -, rfl⟩ := drop_spec hstep
        exact ⟨rfl, call, hcall⟩
    obtain ⟨hnone, call', hcall'⟩ := hnothing
    obtain ⟨hrestNone, hbusy⟩ := ih hcall' hlater hrest
    have hsplit : published task subject (a :: as) =
        published task subject [a] ++ published task subject as := published_append _ _ [a] as
    exact ⟨by rw [hsplit, hnone, hrestNone, List.append_nil], hbusy⟩

/-- **When a call returns**, every receiver that was subscribed when it started and is still alive
has got its message once. -/
theorem got_of_finish (hs : s.Wf) {task : ℕ} {msg : μ} {mid : List (BusAction μ)}
    (hmid : BusAction.finish task ∉ mid)
    (h : (localBus μ).exec s (.publish task subject msg :: (mid ++ [.finish task])) = some t)
    (hr : r ∈ s.subscribers subject) (halive : t.Alive r) :
    t.got task r = s.got task r ++ [msg] := by
  obtain ⟨-, hlive, -⟩ := account_run hs hr h task
  obtain ⟨-, hacc⟩ := hlive halive
  obtain ⟨u, hstart, hrest⟩ := Option.bind_eq_some_iff.1 h
  obtain ⟨hnone, rfl⟩ := publish_spec hstart
  obtain ⟨v, hv, hfinish⟩ := (localBus μ).exec_concat_iff.1 hrest
  obtain ⟨hquiet, -⟩ := busy_run (Finmap.lookup_insert _) hmid hv subject
  -- the call has returned, so nothing is owed
  obtain ⟨-, rfl⟩ := finish_spec hfinish
  rw [owed_of_none (Finmap.lookup_erase _ _), List.append_nil, owed_of_none hnone,
    List.append_nil] at hacc
  have hall : published task subject (.publish task subject msg :: (mid ++ [.finish task])) =
      [msg] := by
    have hcons : (.publish task subject msg :: (mid ++ [.finish task]) : List (BusAction μ)) =
        [.publish task subject msg] ++ mid ++ [.finish task] := by simp
    rw [hcons, published_append, published_append, hquiet]
    simp [published]
  rw [hacc, hall]

/-- **At any time**, what a receiver has got from a task is a prefix of what the task has
published on its subject since the subscription. -/
theorem got_prefix (hs : s.Wf) {as : List (BusAction μ)}
    (h : (localBus μ).exec s (.subscribe subject :: as) = some t) (task : ℕ) :
    t.got task s.next <+: published task subject as := by
  obtain ⟨u, hsub, hrest⟩ := Option.bind_eq_some_iff.1 h
  have hu : u.Wf := hs.step hsub
  obtain ⟨hnone, heq⟩ := subscribe_spec hsub
  have hgot : u.got task s.next = [] := by
    rw [heq, got_eq (Finmap.lookup_insert _)]
    rfl
  have howed : u.owed task s.next = [] := by
    rw [heq]
    exact owed_of_none (hnone task) _
  have hmem : s.next ∈ u.subscribers subject := by
    rw [heq]
    simp
  obtain ⟨-, hlive, hdead, -⟩ := account_run hu hmem hrest task
  rw [hgot, howed] at hlive hdead
  by_cases halive : t.Alive s.next
  · obtain ⟨-, hacc⟩ := hlive halive
    exact ⟨_, hacc⟩
  · exact hdead halive

theorem subscribe_channel (hs : s.Wf) {as : List (BusAction μ)}
    (h : (localBus μ).exec s (.subscribe subject :: as) = some t) :
    ∃ ch, t.channels.lookup s.next = some ch ∧ ch.subject = subject := by
  obtain ⟨u, hsub, hrest⟩ := Option.bind_eq_some_iff.1 h
  have hu : u.Wf := hs.step hsub
  have hmem : s.next ∈ u.subscribers subject := by
    obtain ⟨-, rfl⟩ := subscribe_spec hsub
    simp
  obtain ⟨hr, -⟩ := account_run hu hmem hrest 0
  exact (wf_exec hu hrest).channel subject s.next hr

/-- A channel has been there before, for the same subject, or comes of a subscription. -/
theorem channel_step {a : BusAction μ} (h : (localBus μ).step s a = some t)
    (hch : t.channels.lookup r = some ch) :
    (∃ ch', s.channels.lookup r = some ch' ∧ ch'.subject = ch.subject) ∨
      (a = .subscribe ch.subject ∧ r = s.next) := by
  -- a channel that is written keeps its subject
  have hwritten : ∀ {r' : ℕ} {old new : Channel μ}, s.channels.lookup r' = some old →
      (s.channels.insert r' new).lookup r = some ch → new.subject = old.subject →
        ∃ ch', s.channels.lookup r = some ch' ∧ ch'.subject = ch.subject := by
    intro r' old new hold hnew hsubject
    by_cases hr : r = r'
    · subst hr
      rw [Finmap.lookup_insert, Option.some.injEq] at hnew
      exact ⟨old, hold, hnew ▸ hsubject.symm⟩
    · rw [Finmap.lookup_insert_of_ne _ hr] at hnew
      exact ⟨ch, hnew, rfl⟩
  cases a with
  | publish task subject' msg =>
    obtain ⟨-, rfl⟩ := publish_spec h
    exact Or.inl ⟨ch, hch, rfl⟩
  | send task =>
    obtain ⟨call, r', rs, old, -, -, hold, ⟨-, -, rfl⟩ | ⟨-, rfl⟩⟩ := send_spec h
    · exact Or.inl (hwritten hold hch rfl)
    · exact Or.inl ⟨ch, hch, rfl⟩
  | finish task =>
    obtain ⟨-, rfl⟩ := finish_spec h
    exact Or.inl ⟨ch, hch, rfl⟩
  | subscribe subject' =>
    obtain ⟨-, rfl⟩ := subscribe_spec h
    dsimp only at hch
    by_cases hr : r = s.next
    · rw [hr, Finmap.lookup_insert, Option.some.injEq] at hch
      exact Or.inr ⟨hch ▸ rfl, hr⟩
    · rw [Finmap.lookup_insert_of_ne _ hr] at hch
      exact Or.inl ⟨ch, hch, rfl⟩
  | recv r' =>
    obtain ⟨old, m, queue, hold, -, -, rfl⟩ := recv_spec h
    exact Or.inl (hwritten hold hch rfl)
  | drop r' =>
    obtain ⟨old, hold, -, rfl⟩ := drop_spec h
    exact Or.inl (hwritten hold hch rfl)

theorem received_step (hs : s.Wf) {a : BusAction μ} (h : (localBus μ).step s a = some t)
    (ha : a ≠ .recv r) (hch : s.channels.lookup r = some ch) :
    ∃ ch', t.channels.lookup r = some ch' ∧ ch'.subject = ch.subject ∧
      ch'.received = ch.received := by
  -- a channel that is written otherwise keeps what was received
  have hwritten : ∀ {r' : ℕ} {old new : Channel μ}, s.channels.lookup r' = some old →
      new.subject = old.subject → new.received = old.received →
        ∃ ch', (s.channels.insert r' new).lookup r = some ch' ∧ ch'.subject = ch.subject ∧
          ch'.received = ch.received := by
    intro r' old new hold hsubject hreceived
    by_cases hr : r = r'
    · subst hr
      rw [hch, Option.some.injEq] at hold
      exact ⟨new, Finmap.lookup_insert _, hold ▸ hsubject, hold ▸ hreceived⟩
    · exact ⟨ch, (Finmap.lookup_insert_of_ne _ hr).trans hch, rfl, rfl⟩
  cases a with
  | publish task subject' msg =>
    obtain ⟨-, rfl⟩ := publish_spec h
    exact ⟨ch, hch, rfl, rfl⟩
  | send task =>
    obtain ⟨call, r', rs, old, -, -, hold, ⟨-, -, rfl⟩ | ⟨-, rfl⟩⟩ := send_spec h
    · exact hwritten hold rfl rfl
    · exact ⟨ch, hch, rfl, rfl⟩
  | finish task =>
    obtain ⟨-, rfl⟩ := finish_spec h
    exact ⟨ch, hch, rfl, rfl⟩
  | subscribe subject' =>
    obtain ⟨-, rfl⟩ := subscribe_spec h
    have hne : r ≠ s.next := (hs.numbered r ch hch).ne
    exact ⟨ch, (Finmap.lookup_insert_of_ne _ hne).trans hch, rfl, rfl⟩
  | recv r' =>
    have hne : r ≠ r' := by
      rintro rfl
      exact ha rfl
    obtain ⟨old, m, queue, -, -, -, rfl⟩ := recv_spec h
    exact ⟨ch, (Finmap.lookup_insert_of_ne _ hne).trans hch, rfl, rfl⟩
  | drop r' =>
    obtain ⟨old, hold, -, rfl⟩ := drop_spec h
    exact hwritten hold rfl rfl

theorem exists_subscribe {as : List (BusAction μ)} (h : (localBus μ).exec .new as = some t)
    (hch : t.channels.lookup r = some ch) :
    ∃ pre post u, as = pre ++ .subscribe ch.subject :: post ∧
      (localBus μ).exec .new pre = some u ∧ u.next = r := by
  induction as using List.reverseRecOn generalizing t ch with
  | nil =>
    cases h
    cases hch
  | append_singleton as a ih =>
    obtain ⟨v, hv, hstep⟩ := (localBus μ).exec_concat_iff.1 h
    obtain ⟨ch', hch', hsubject⟩ | ⟨rfl, rfl⟩ := channel_step hstep hch
    · obtain ⟨pre, post, u, rfl, hu, hr⟩ := ih hv hch'
      exact ⟨pre, post ++ [a], u, by simp [hsubject], hu, hr⟩
    · exact ⟨as, [], v, rfl, hv, rfl⟩

/-- **Order of delivery**: what a receiver has got from a task is part of what the task has
published on its subject, in the same order. -/
theorem got_sublist {as : List (BusAction μ)} (h : (localBus μ).exec .new as = some t)
    (hch : t.channels.lookup r = some ch) (task : ℕ) :
    (messagesOf task ch.log).Sublist (published task ch.subject as) := by
  obtain ⟨pre, post, u, rfl, hu, rfl⟩ := exists_subscribe h hch
  have hrest : (localBus μ).exec u (.subscribe ch.subject :: post) = some t := by
    rw [(localBus μ).exec_append, hu] at h
    exact h
  have hgot := got_prefix (wf_exec wf_new hu) hrest task
  rw [got_eq hch] at hgot
  rw [published_append]
  exact hgot.sublist.trans (List.sublist_append_right _ _)

end LocalBus

end W2uos
