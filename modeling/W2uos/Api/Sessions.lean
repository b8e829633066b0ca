import W2uos.Bus.Delivery
import W2uos.System.Tagged
import W2uos.System.Tasks

/-!
# The sessions of the stream

A client of `/ws/stream` gets a session, and the session a relay for every market subject, for
`orders.result` and for `log.event`.  A relay subscribes to its subject and hands every message it
receives to the session, without waiting; the session writes them to the client one after the
other.  When the client closes the session, the session is stopped, but its relays go on.

Relays and sessions are numbers.  The messages of a session stand with the relay they came through,
which the client does not see.

* `Relay`, `Session`, `StreamServer`, `streamServer` : relays, sessions, and the server on its bus;
* `StreamServer.Served` : what a relay has received, and what has become of it;
* `StreamServer.Wf.step` : the invariant of the server;
* `stream_delivers` : a client gets what is published on the listed subjects since the relays have
  subscribed;
* `relays_stay` : closing a session frees nothing, and no relay is ever in the way of a publisher.
-/

namespace W2uos

variable {μ : Type}

/-- A relay: its session, its subject, and its receiver when it has subscribed. -/
structure Relay where
  session : ℕ
  subject : String
  receiver : Option ℕ
  deriving DecidableEq

/-- A session: whether it runs, the messages handed to it, and those written to the client. -/
structure Session (μ : Type) where
  running : Bool
  mailbox : List (ℕ × Sent μ)
  texts : List (ℕ × Sent μ)

/-- The server with its bus. -/
structure StreamServer (μ : Type) where
  bus : LocalBus μ
  relays : List Relay
  sessions : List (Session μ)

/-- What happens in the server. -/
inductive StreamAction (μ : Type)
  /-- A client connects. -/
  | connect
  /-- A relay subscribes to its subject. -/
  | subscribe (k : ℕ)
  /-- A relay receives a message and hands it to its session. -/
  | relay (k : ℕ)
  /-- A session writes the next message to the client. -/
  | text (s : ℕ)
  /-- A client closes its session. -/
  | close (s : ℕ)
  /-- Others use the bus. -/
  | bus (a : BusAction μ)

/-- The subjects of a session. -/
def streamSubjects (marketSubjects : List String) : List String :=
  marketSubjects ++ ["orders.result", "log.event"]

/-- `WsSession::started`: a relay for every subject. -/
def relaysOf (marketSubjects : List String) (session : ℕ) : List Relay :=
  (streamSubjects marketSubjects).map fun subject => ⟨session, subject, none⟩

namespace Session

/-- `do_send`: a session that is stopped does not get the message. -/
def post (sess : Session μ) (k : ℕ) (m : Sent μ) : Session μ :=
  if sess.running then { sess with mailbox := sess.mailbox ++ [(k, m)] } else sess

/-- The messages of a relay, written and handed over. -/
def handed (sess : Session μ) (k : ℕ) : List (Sent μ) :=
  tagged k sess.texts ++ tagged k sess.mailbox

end Session

namespace StreamServer

/-- A server without clients. -/
def start (bus : LocalBus μ) : StreamServer μ where
  bus := bus
  relays := []
  sessions := []

/-- The receiver belongs to a relay. -/
def owns (t : StreamServer μ) (r : ℕ) : Bool := t.relays.any fun relay => relay.receiver == some r

/-- The relay with the number `k` subscribes. -/
def subscribe (t : StreamServer μ) (k : ℕ) : Option (StreamServer μ) :=
  match t.relays[k]? with
  | some ⟨s, subject, none⟩ =>
    (t.bus.subscribe subject).map fun bus =>
      { t with bus := bus, relays := t.relays.set k ⟨s, subject, some t.bus.next⟩ }
  | _ => none

/-- The relay with the number `k` receives a message. -/
def relay (t : StreamServer μ) (k : ℕ) : Option (StreamServer μ) := do
  let relay ← t.relays[k]?
  let r ← relay.receiver
  let ch ← t.bus.channels.lookup r
  let m ← ch.queue.head?
  let bus ← t.bus.recv r
  return { t with bus := bus, sessions := t.sessions.modify relay.session (·.post k m) }

/-- The session with the number `s` writes a message. -/
def text (t : StreamServer μ) (s : ℕ) : Option (StreamServer μ) :=
  match t.sessions[s]? with
  | some ⟨true, m :: mailbox, texts⟩ =>
    some { t with sessions := t.sessions.set s ⟨true, mailbox, texts ++ [m]⟩ }
  | _ => none

/-- The session with the number `s` is stopped. -/
def close (t : StreamServer μ) (s : ℕ) : Option (StreamServer μ) :=
  match t.sessions[s]? with
  | some ⟨true, _, texts⟩ => some { t with sessions := t.sessions.set s ⟨false, [], texts⟩ }
  | _ => none

end StreamServer

/-- The action is not one of a relay. -/
def BusAction.isForeign (t : StreamServer μ) : BusAction μ → Bool
  | .recv r => !t.owns r
  | .drop r => !t.owns r
  | _ => true

/-- The server of the stream, for the market subjects of its context. -/
def streamServer (μ : Type) (marketSubjects : List String) :
    Interleaving (StreamServer μ) (StreamAction μ) where
  step t
    | .connect => some
      { t with
        relays := t.relays ++ relaysOf marketSubjects t.sessions.length
        sessions := t.sessions ++ [⟨true, [], []⟩] }
    | .subscribe k => t.subscribe k
    | .relay k => t.relay k
    | .text s => t.text s
    | .close s => t.close s
    | .bus a =>
      if a.isForeign t then ((localBus μ).step t.bus a).map fun bus => { t with bus := bus }
      else none

namespace LocalBus

variable {b c : LocalBus μ} {r : ℕ} {ch : Channel μ}

/-- A channel of which nobody takes a message and that is not dropped. -/
theorem channel_stays (hb : b.Wf) {a : BusAction μ} (h : (localBus μ).step b a = some c)
    (hrecv : a ≠ .recv r) (hdrop : a ≠ .drop r) (hch : b.channels.lookup r = some ch) :
    ∃ ch', c.channels.lookup r = some ch' ∧ ch'.alive = ch.alive ∧ ch'.received = ch.received := by
  obtain ⟨ch', hch', -, hreceived⟩ := received_step hb h hrecv hch
  refine ⟨ch', hch', ?_, hreceived⟩
  -- a channel that is written otherwise stays alive
  have hwritten : ∀ {r' : ℕ} {old new : Channel μ}, b.channels.lookup r' = some old →
      (b.channels.insert r' new).lookup r = some ch' → (r' = r → new.alive = old.alive) →
        ch'.alive = ch.alive := by
    intro r' old new hold hnew halive
    by_cases hr : r = r'
    · subst hr
      rw [hch, Option.some.injEq] at hold
      rw [Finmap.lookup_insert, Option.some.injEq] at hnew
      rw [← hnew, hold]
      exact halive rfl
    · rw [Finmap.lookup_insert_of_ne _ hr, hch, Option.some.injEq] at hnew
      rw [hnew]
  have hsame : c.channels = b.channels → ch'.alive = ch.alive := by
    intro heq
    rw [heq, hch, Option.some.injEq] at hch'
    rw [hch']
  cases a with
  | publish task subject msg =>
    obtain ⟨-, rfl⟩ := publish_spec h
    exact hsame rfl
  | send task =>
    obtain ⟨call, r', rs, old, -, -, hold, ⟨-, -, rfl⟩ | ⟨-, rfl⟩⟩ := send_spec h
    · exact hwritten hold hch' fun _ => rfl
    · exact hsame rfl
  | finish task =>
    obtain ⟨-, rfl⟩ := finish_spec h
    exact hsame rfl
  | subscribe subject =>
    obtain ⟨-, rfl⟩ := subscribe_spec h
    have hne : r ≠ b.next := (hb.numbered r ch hch).ne
    rw [Finmap.lookup_insert_of_ne _ hne, hch, Option.some.injEq] at hch'
    rw [hch']
  | recv r' =>
    obtain ⟨old, m, queue, hold, -, -, rfl⟩ := recv_spec h
    exact hwritten hold hch' fun _ => rfl
  | drop r' =>
    obtain ⟨old, hold, -, rfl⟩ := drop_spec h
    exact hwritten hold hch' fun heq => absurd (by rw [heq]) hdrop

theorem accounts_refl {subject : String} (hr : r ∈ b.subscribers subject) {task : ℕ} :
    Accounts task r subject [] b b := by
  refine ⟨hr, fun halive => ⟨halive, (List.append_nil _).symm⟩, fun _ => ?_,
    fun hdead => ⟨hdead, rfl⟩⟩
  rw [List.append_assoc]
  exact List.prefix_append _ _

theorem Accounts.congr {subject : String} {task : ℕ} {as bs : List (BusAction μ)}
    (h : Accounts task r subject as b c)
    (hpublished : published task subject as = published task subject bs) :
    Accounts task r subject bs b c := by
  rw [Accounts] at h ⊢
  rwa [← hpublished]

end LocalBus

namespace Session

variable {sess : Session μ} {k j : ℕ} {m : Sent μ}

theorem post_running (sess : Session μ) (k : ℕ) (m : Sent μ) :
    (sess.post k m).running = sess.running := by
  rw [post]
  split_ifs <;> rfl

theorem handed_post_self (h : sess.running = true) :
    (sess.post k m).handed k = sess.handed k ++ [m] := by
  rw [post, if_pos h, handed, handed, tagged_concat_self, List.append_assoc]

theorem handed_post_ne (h : k ≠ j) : (sess.post k m).handed j = sess.handed j := by
  rw [post]
  split_ifs
  · rw [handed, handed, tagged_concat_ne h]
  · rfl

end Session

namespace StreamServer

variable {t u : StreamServer μ} {marketSubjects : List String}

/-- What a relay has received, and what has become of it: a session that runs has been handed all of
it, and one that is stopped the first of it. -/
def Served (t : StreamServer μ) (k : ℕ) (relay : Relay) : Prop :=
  ∃ sess, t.sessions[relay.session]? = some sess ∧
    match relay.receiver with
    | none => sess.handed k = []
    | some r => r ∈ t.bus.subscribers relay.subject ∧
        ∃ ch, t.bus.channels.lookup r = some ch ∧ ch.alive = true ∧
          sess.handed k <+: ch.received ∧ (sess.running = true → sess.handed k = ch.received)

/-- What the steps keep. -/
structure Wf (t : StreamServer μ) : Prop where
  bus : t.bus.Wf
  served : ∀ (k : ℕ) (relay : Relay), t.relays[k]? = some relay → t.Served k relay
  distinct : ∀ (j k : ℕ) (relay relay' : Relay) (r : ℕ), t.relays[j]? = some relay →
    t.relays[k]? = some relay' → relay.receiver = some r → relay'.receiver = some r → j = k
  /-- A session that is stopped has no messages any more. -/
  stopped : ∀ (s : ℕ) (sess : Session μ), t.sessions[s]? = some sess → sess.running = false →
    sess.mailbox = []

theorem wf_start {bus : LocalBus μ} (h : bus.Wf) : (start bus).Wf where
  bus := h
  served k relay hk := by cases hk
  distinct j k relay relay' r hj := by cases hj
  stopped s sess hs := by cases hs

/-! ### What the steps do -/

theorem subscribe_spec {k : ℕ} (h : t.subscribe k = some u) :
    ∃ s subject bus, t.relays[k]? = some ⟨s, subject, none⟩ ∧ t.bus.subscribe subject = some bus ∧
      u = { t with bus := bus, relays := t.relays.set k ⟨s, subject, some t.bus.next⟩ } := by
  unfold subscribe at h
  split at h
  · rename_i s subject hk
    obtain ⟨bus, hbus, rfl⟩ := Option.map_eq_some_iff.1 h
    exact ⟨s, subject, bus, hk, hbus, rfl⟩
  · cases h

theorem relay_spec {k : ℕ} (h : t.relay k = some u) :
    ∃ relay r ch m queue, t.relays[k]? = some relay ∧ relay.receiver = some r ∧
      t.bus.channels.lookup r = some ch ∧ ch.queue = m :: queue ∧
      t.bus.recv r = some u.bus ∧
      u.bus = { t.bus with
        channels := t.bus.channels.insert r
          { ch with queue := queue, received := ch.received ++ [m] } } ∧
      u.relays = t.relays ∧ u.sessions = t.sessions.modify relay.session (·.post k m) := by
  unfold relay at h
  simp only [Option.bind_eq_bind, Option.bind_eq_some_iff, Option.pure_def,
    Option.some.injEq] at h
  obtain ⟨relay, hk, r, hr, ch, hch, m, hm, bus, hbus, rfl⟩ := h
  obtain ⟨ch', m', queue, hch', -, hqueue, heq⟩ := LocalBus.recv_spec hbus
  rw [hch, Option.some.injEq] at hch'
  subst hch'
  rw [hqueue, List.head?_cons, Option.some.injEq] at hm
  subst hm
  exact ⟨relay, r, ch, m', queue, hk, hr, hch, hqueue, hbus, heq, rfl, rfl⟩

theorem text_spec {s : ℕ} (h : t.text s = some u) :
    ∃ m mailbox texts, t.sessions[s]? = some ⟨true, m :: mailbox, texts⟩ ∧
      u = { t with sessions := t.sessions.set s ⟨true, mailbox, texts ++ [m]⟩ } := by
  unfold text at h
  split at h
  · rename_i m mailbox texts hs
    exact ⟨m, mailbox, texts, hs, (Option.some.inj h).symm⟩
  · cases h

theorem close_spec {s : ℕ} (h : t.close s = some u) :
    ∃ mailbox texts, t.sessions[s]? = some ⟨true, mailbox, texts⟩ ∧
      u = { t with sessions := t.sessions.set s ⟨false, [], texts⟩ } := by
  unfold close at h
  split at h
  · rename_i mailbox texts hs
    exact ⟨mailbox, texts, hs, (Option.some.inj h).symm⟩
  · cases h

theorem bus_spec {a : BusAction μ}
    (h : (streamServer μ marketSubjects).step t (.bus a) = some u) :
    a.isForeign t = true ∧ ∃ bus, (localBus μ).step t.bus a = some bus ∧
      u = { t with bus := bus } := by
  change (if a.isForeign t then _ else none) = _ at h
  split_ifs at h with hforeign
  obtain ⟨bus, hbus, rfl⟩ := Option.map_eq_some_iff.1 h
  exact ⟨hforeign, bus, hbus, rfl⟩

theorem ne_of_isForeign {a : BusAction μ} (h : a.isForeign t = true) {k : ℕ} {relay : Relay}
    {r : ℕ} (hk : t.relays[k]? = some relay) (hr : relay.receiver = some r) :
    a ≠ .recv r ∧ a ≠ .drop r := by
  have howns : t.owns r = true :=
    List.any_eq_true.2 ⟨relay, List.mem_of_getElem? hk, by simp [hr]⟩
  constructor <;>
  · rintro rfl
    simp [BusAction.isForeign, howns] at h

/-! ### The invariant -/

/-- What is handed over through the relay may be cut when the session is stopped. -/
theorem Served.of_session {k : ℕ} {relay : Relay} (h : t.Served k relay) (hbus : u.bus = t.bus)
    (hsession : ∀ sess, t.sessions[relay.session]? = some sess →
      ∃ sess', u.sessions[relay.session]? = some sess' ∧ sess'.handed k <+: sess.handed k ∧
        (sess'.running = true → sess.running = true ∧ sess'.handed k = sess.handed k)) :
    u.Served k relay := by
  obtain ⟨sess, hsess, hserved⟩ := h
  obtain ⟨sess', hsess', hcut, hrunning⟩ := hsession sess hsess
  refine ⟨sess', hsess', ?_⟩
  cases hr : relay.receiver with
  | none =>
    rw [hr] at hserved
    exact List.prefix_nil.1 (hserved ▸ hcut)
  | some r =>
    rw [hr] at hserved
    obtain ⟨hmem, ch, hch, halive, hfirst, hall⟩ := hserved
    rw [hbus]
    refine ⟨hmem, ch, hch, halive, hcut.trans hfirst, fun hrun => ?_⟩
    obtain ⟨hrun, heq⟩ := hrunning hrun
    rw [heq, hall hrun]

theorem Served.of_bus {k : ℕ} {relay : Relay} (h : t.Served k relay) (ht : t.bus.Wf)
    (hsessions : u.sessions = t.sessions) {a : BusAction μ}
    (hbus : (localBus μ).step t.bus a = some u.bus)
    (ha : ∀ r, relay.receiver = some r → a ≠ .recv r ∧ a ≠ .drop r) : u.Served k relay := by
  obtain ⟨sess, hsess, hserved⟩ := h
  refine ⟨sess, hsessions ▸ hsess, ?_⟩
  cases hr : relay.receiver with
  | none =>
    rw [hr] at hserved
    exact hserved
  | some r =>
    rw [hr] at hserved
    obtain ⟨hmem, ch, hch, halive, hfirst, hall⟩ := hserved
    obtain ⟨ch', hch', halive', hreceived⟩ :=
      LocalBus.channel_stays ht hbus (ha r hr).1 (ha r hr).2 hch
    refine ⟨(LocalBus.account_step ht hmem hbus 0).1, ch', hch', halive'.trans halive, ?_⟩
    rw [hreceived]
    exact ⟨hfirst, hall⟩

theorem mem_relaysOf {s : ℕ} {relay : Relay} (h : relay ∈ relaysOf marketSubjects s) :
    relay.session = s ∧ relay.receiver = none := by
  obtain ⟨subject, -, rfl⟩ := List.mem_map.1 h
  exact ⟨rfl, rfl⟩

theorem Wf.connect (ht : t.Wf)
    (h : (streamServer μ marketSubjects).step t .connect = some u) : u.Wf := by
  cases h
  -- a relay is an old one, or a new one of the new session
  have hcases : ∀ {k : ℕ} {relay : Relay},
      (t.relays ++ relaysOf marketSubjects t.sessions.length)[k]? = some relay →
        t.relays[k]? = some relay ∨
          (relay.session = t.sessions.length ∧ relay.receiver = none) := by
    intro k relay hk
    rcases lt_or_ge k t.relays.length with hlt | hge
    · rw [List.getElem?_append_left hlt] at hk
      exact Or.inl hk
    · rw [List.getElem?_append_right hge] at hk
      exact Or.inr (mem_relaysOf (List.mem_of_getElem? hk))
  refine ⟨ht.bus, fun k relay hk => ?_, fun j k relay relay' r hj hk hr hr' => ?_,
    fun s sess hs hstopped => ?_⟩
  · rcases hcases hk with hold | ⟨hsession, hnone⟩
    · refine (ht.served k relay hold).of_session rfl fun sess hsess => ?_
      refine ⟨sess, ?_, List.prefix_rfl, fun hrun => ⟨hrun, rfl⟩⟩
      rw [List.getElem?_append_left (List.getElem?_eq_some_iff.1 hsess).1, hsess]
    · refine ⟨⟨true, [], []⟩, ?_, ?_⟩
      · rw [hsession, List.getElem?_concat_length]
      · rw [hnone]
        rfl
  · rcases hcases hj with hj | ⟨-, hnone⟩
    · rcases hcases hk with hk | ⟨-, hnone⟩
      · exact ht.distinct j k relay relay' r hj hk hr hr'
      · rw [hnone] at hr'
        cases hr'
    · rw [hnone] at hr
      cases hr
  · rcases List.mem_append.1 (List.mem_of_getElem? hs) with hmem | hmem
    · obtain ⟨s', hs'⟩ := List.mem_iff_getElem?.1 hmem
      exact ht.stopped s' sess hs' hstopped
    · rw [List.mem_singleton.1 hmem]

theorem Wf.subscribe (ht : t.Wf) {k : ℕ} (h : t.subscribe k = some u) : u.Wf := by
  obtain ⟨s, subject, bus, hk, hbus, rfl⟩ := subscribe_spec h
  have hstep : (localBus μ).step t.bus (.subscribe subject) = some bus := hbus
  obtain ⟨-, hnext⟩ := LocalBus.subscribe_spec hbus
  have hlt : k < t.relays.length := (List.getElem?_eq_some_iff.1 hk).1
  -- the number of the new receiver is not that of another relay
  have hfresh : ∀ {j : ℕ} {relay : Relay} {r : ℕ}, t.relays[j]? = some relay →
      relay.receiver = some r → r ≠ t.bus.next := by
    intro j relay r hj hr
    obtain ⟨sess, -, hserved⟩ := ht.served j relay hj
    rw [hr] at hserved
    exact ht.bus.ne_next hserved.1
  have hold : ∀ {j : ℕ} {relay : Relay}, j ≠ k →
      (t.relays.set k ⟨s, subject, some t.bus.next⟩)[j]? = some relay →
        t.relays[j]? = some relay := by
    intro j relay hj hrelay
    rwa [List.getElem?_set_ne (Ne.symm hj)] at hrelay
  have hnew : (t.relays.set k ⟨s, subject, some t.bus.next⟩)[k]? =
      some ⟨s, subject, some t.bus.next⟩ := List.getElem?_set_self hlt
  refine ⟨ht.bus.step hstep, fun j relay hj => ?_, fun i j relay relay' r hi hj hr hr' => ?_,
    ht.stopped⟩
  · by_cases heq : j = k
    · subst heq
      rw [hnew, Option.some.injEq] at hj
      subst hj
      obtain ⟨sess, hsess, hnothing⟩ := ht.served j _ hk
      change sess.handed j = [] at hnothing
      refine ⟨sess, hsess, ?_, ⟨subject, true, [], []⟩, ?_, rfl, ?_, fun _ => hnothing⟩
      · rw [hnext]
        simp
      · rw [hnext]
        exact Finmap.lookup_insert _
      · rw [hnothing]
    · exact (ht.served j relay (hold heq hj)).of_bus ht.bus rfl hstep fun r hr => by simp
  · by_cases hik : i = k <;> by_cases hjk : j = k
    · rw [hik, hjk]
    · subst hik
      rw [hnew, Option.some.injEq] at hi
      subst hi
      rw [Option.some.injEq] at hr
      exact absurd hr.symm (hfresh (hold hjk hj) hr')
    · subst hjk
      rw [hnew, Option.some.injEq] at hj
      subst hj
      rw [Option.some.injEq] at hr'
      exact absurd hr'.symm (hfresh (hold hik hi) hr)
    · exact ht.distinct i j relay relay' r (hold hik hi) (hold hjk hj) hr hr'

theorem Wf.relay (ht : t.Wf) {k : ℕ} (h : t.relay k = some u) : u.Wf := by
  obtain ⟨relay, r, ch, m, queue, hk, hr, hch, -, hrecv, hbus, hrelays, hsessions⟩ :=
    relay_spec h
  have hstep : (localBus μ).step t.bus (.recv r) = some u.bus := hrecv
  have hposted : ∀ {s : ℕ} {sess : Session μ}, t.sessions[s]? = some sess →
      u.sessions[s]? = some (if relay.session = s then sess.post k m else sess) := by
    intro s sess hs
    rw [hsessions, List.getElem?_modify, hs]
    rfl
  refine ⟨ht.bus.step hstep, fun j relay' hj => ?_, ?_, fun s sess hs hstopped => ?_⟩
  · rw [hrelays] at hj
    by_cases heq : j = k
    · -- the relay itself: its session is handed the message, if it runs
      subst heq
      rw [hk, Option.some.injEq] at hj
      subst hj
      obtain ⟨sess, hsess, hserved⟩ := ht.served j relay hk
      rw [hr] at hserved
      obtain ⟨hmem, ch', hch', halive, hfirst, hall⟩ := hserved
      rw [hch, Option.some.injEq] at hch'
      subst hch'
      refine ⟨sess.post j m, by rw [hposted hsess, if_pos rfl], ?_⟩
      rw [hr]
      refine ⟨(LocalBus.account_step ht.bus hmem hstep 0).1,
        { ch with queue := queue, received := ch.received ++ [m] }, ?_, halive, ?_, fun hrun => ?_⟩
      · rw [hbus, Finmap.lookup_insert]
      · cases hrunning : sess.running with
        | true => rw [Session.handed_post_self hrunning, hall hrunning]
        | false =>
          rw [Session.post, if_neg (by simp [hrunning])]
          exact hfirst.trans (List.prefix_append _ _)
      · rw [Session.post_running] at hrun
        rw [Session.handed_post_self hrun, hall hrun]
    · -- another relay, perhaps of the same session
      obtain ⟨sess, hsess, hserved⟩ := ht.served j relay' hj
      have hsame : (if relay.session = relay'.session then sess.post k m else sess).handed j =
          sess.handed j := by
        split_ifs
        · exact Session.handed_post_ne (Ne.symm heq)
        · rfl
      have hrun : (if relay.session = relay'.session then sess.post k m else sess).running =
          sess.running := by
        split_ifs
        · exact Session.post_running sess k m
        · rfl
      have hafter : ({ t with sessions := u.sessions } : StreamServer μ).Served j relay' := by
        refine (ht.served j relay' hj).of_session rfl fun sess' hsess' => ?_
        rw [hsess, Option.some.injEq] at hsess'
        subst hsess'
        refine ⟨_, hposted hsess, ?_, fun hrunning => ⟨?_, hsame⟩⟩
        · rw [hsame]
        · rwa [hrun] at hrunning
      refine hafter.of_bus ht.bus rfl hstep fun r' hr' => ⟨?_, by simp⟩
      rintro ⟨⟩
      exact heq (ht.distinct j k relay' relay r hj hk hr' hr)
  · intro i j relay' relay'' r' hi hj
    rw [hrelays] at hi hj
    exact ht.distinct i j relay' relay'' r' hi hj
  · rw [hsessions, List.getElem?_modify] at hs
    obtain ⟨old, hold, rfl⟩ := Option.map_eq_some_iff.1 hs
    split_ifs at hstopped ⊢
    · rw [Session.post_running] at hstopped
      rw [Session.post, if_neg (by simp [hstopped])]
      exact ht.stopped s old hold hstopped
    · exact ht.stopped s old hold hstopped

/-- A session is written without changing what the relays have subscribed to. -/
theorem Wf.set_session (ht : t.Wf) {s : ℕ} {old new : Session μ} (hold : t.sessions[s]? = some old)
    (hcut : ∀ k, new.handed k <+: old.handed k)
    (hrun : new.running = true → old.running = true ∧ ∀ k, new.handed k = old.handed k)
    (hstopped : new.running = false → new.mailbox = []) :
    ({ t with sessions := t.sessions.set s new } : StreamServer μ).Wf where
  bus := ht.bus
  served k relay hk := by
    refine (ht.served k relay hk).of_session rfl fun sess hsess => ?_
    by_cases heq : s = relay.session
    · subst heq
      rw [hold, Option.some.injEq] at hsess
      subst hsess
      refine ⟨new, List.getElem?_set_self (List.getElem?_eq_some_iff.1 hold).1, hcut k, ?_⟩
      exact fun h => ⟨(hrun h).1, (hrun h).2 k⟩
    · refine ⟨sess, ?_, List.prefix_rfl, fun h => ⟨h, rfl⟩⟩
      dsimp only
      rw [List.getElem?_set_ne heq, hsess]
  distinct := ht.distinct
  stopped s' sess hs := by
    dsimp only at hs
    by_cases heq : s = s'
    · subst heq
      rw [List.getElem?_set_self (List.getElem?_eq_some_iff.1 hold).1, Option.some.injEq] at hs
      exact hs ▸ hstopped
    · rw [List.getElem?_set_ne heq] at hs
      exact ht.stopped s' sess hs

/-- **The step lemma of the server.** -/
theorem Wf.step (ht : t.Wf) {a : StreamAction μ}
    (h : (streamServer μ marketSubjects).step t a = some u) : u.Wf := by
  cases a with
  | connect => exact ht.connect h
  | subscribe k => exact ht.subscribe h
  | relay k => exact ht.relay h
  | text s =>
    obtain ⟨m, mailbox, texts, hs, rfl⟩ := text_spec h
    have hmoved : ∀ k, Session.handed ⟨true, mailbox, texts ++ [m]⟩ k =
        Session.handed ⟨true, m :: mailbox, texts⟩ k := by
      intro k
      simp only [Session.handed, ← tagged_append]
      rw [List.append_assoc, List.singleton_append]
    exact ht.set_session hs (fun k => by rw [hmoved]) (fun _ => ⟨rfl, hmoved⟩) fun h => by cases h
  | close s =>
    obtain ⟨mailbox, texts, hs, rfl⟩ := close_spec h
    refine ht.set_session hs (fun k => ?_) (fun h => by cases h) fun _ => rfl
    simp only [Session.handed, tagged_nil, List.append_nil]
    exact List.prefix_append _ _
  | bus a =>
    obtain ⟨hforeign, bus, hstep, rfl⟩ := bus_spec h
    refine ⟨ht.bus.step hstep, fun k relay hk => ?_, ht.distinct, ht.stopped⟩
    exact (ht.served k relay hk).of_bus ht.bus rfl hstep fun r hr =>
      ne_of_isForeign hforeign hk hr

theorem wf_exec {as : List (StreamAction μ)} (ht : t.Wf)
    (h : (streamServer μ marketSubjects).exec t as = some u) : u.Wf :=
  Interleaving.exec_invariant ht (fun _ _ _ hv hstep => hv.step hstep) h

/-! ### What the relays receive -/

/-- The actions of the others on the bus. -/
def busActions (as : List (StreamAction μ)) : List (BusAction μ) :=
  as.filterMap fun
    | .bus a => some a
    | _ => none

theorem busActions_append (as bs : List (StreamAction μ)) :
    busActions (as ++ bs) = busActions as ++ busActions bs := List.filterMap_append

variable {k r : ℕ} {relay : Relay}

/-- A relay that has subscribed keeps its receiver, and the receiver its account. -/
theorem relay_step (ht : t.Wf) (hk : t.relays[k]? = some relay) (hr : relay.receiver = some r)
    {a : StreamAction μ} (h : (streamServer μ marketSubjects).step t a = some u) (task : ℕ) :
    u.relays[k]? = some relay ∧
      LocalBus.Accounts task r relay.subject (busActions [a]) t.bus u.bus := by
  obtain ⟨sess, -, hserved⟩ := ht.served k relay hk
  rw [hr] at hserved
  obtain ⟨hmem, -⟩ := hserved
  cases a with
  | connect =>
    cases h
    refine ⟨?_, LocalBus.accounts_refl hmem⟩
    dsimp only
    rw [List.getElem?_append_left (List.getElem?_eq_some_iff.1 hk).1, hk]
  | subscribe j =>
    obtain ⟨s, subject, bus, hj, hbus, rfl⟩ := subscribe_spec h
    have hstep : (localBus μ).step t.bus (.subscribe subject) = some bus := hbus
    refine ⟨?_, (LocalBus.account_step ht.bus hmem hstep task).congr rfl⟩
    have hne : j ≠ k := by
      rintro rfl
      rw [hk, Option.some.injEq] at hj
      rw [hj] at hr
      cases hr
    dsimp only
    rw [List.getElem?_set_ne hne, hk]
  | relay j =>
    obtain ⟨relay', r', ch, m, queue, -, -, -, -, hrecv, -, hrelays, -⟩ := relay_spec h
    have hstep : (localBus μ).step t.bus (.recv r') = some u.bus := hrecv
    exact ⟨hrelays ▸ hk, (LocalBus.account_step ht.bus hmem hstep task).congr rfl⟩
  | text s =>
    obtain ⟨m, mailbox, texts, -, rfl⟩ := text_spec h
    exact ⟨hk, LocalBus.accounts_refl hmem⟩
  | close s =>
    obtain ⟨mailbox, texts, -, rfl⟩ := close_spec h
    exact ⟨hk, LocalBus.accounts_refl hmem⟩
  | bus a =>
    obtain ⟨-, bus, hstep, rfl⟩ := bus_spec h
    exact ⟨hk, LocalBus.account_step ht.bus hmem hstep task⟩

/-- **The run lemma of the server.** -/
theorem relay_run (ht : t.Wf) (hk : t.relays[k]? = some relay) (hr : relay.receiver = some r)
    {as : List (StreamAction μ)} (h : (streamServer μ marketSubjects).exec t as = some u)
    (task : ℕ) :
    u.relays[k]? = some relay ∧
      LocalBus.Accounts task r relay.subject (busActions as) t.bus u.bus := by
  obtain ⟨sess, -, hserved⟩ := ht.served k relay hk
  rw [hr] at hserved
  have hrun := Interleaving.exec_history (M := streamServer μ marketSubjects) (s := t)
    (P := fun as u => u.Wf ∧ u.relays[k]? = some relay ∧
      LocalBus.Accounts task r relay.subject (busActions as) t.bus u.bus)
    ⟨ht, hk, LocalBus.accounts_refl hserved.1⟩ ?_ h
  · exact hrun.2
  · rintro as v a v' ⟨hv, hkv, hacc⟩ hstep
    obtain ⟨hkv', hone⟩ := relay_step hv hkv hr hstep task
    rw [busActions_append]
    exact ⟨hv.step hstep, hkv', hacc.trans hone⟩

end StreamServer

open StreamServer

/-- **A client of the stream** gets what is published on the subject of a relay, from every
publisher in its order, and without a gap: as long as the session runs, what it has been handed,
what waits in the channel and what a call still owes is what has been published since the relay has
subscribed; and what is written to the client is the first of it, at any time. -/
theorem stream_delivers {bus : LocalBus μ} (hbus : bus.Wf) {marketSubjects : List String}
    {before after : List (StreamAction μ)} {k : ℕ} {t u : StreamServer μ}
    (hbefore : (streamServer μ marketSubjects).exec (start bus) before = some t)
    (hafter : (streamServer μ marketSubjects).exec t (.subscribe k :: after) = some u) :
    ∃ relay r sess ch, u.relays[k]? = some relay ∧ relay.receiver = some r ∧
      u.sessions[relay.session]? = some sess ∧ u.bus.channels.lookup r = some ch ∧
      ∀ task,
        (sess.running = true →
          messagesOf task (sess.handed k ++ ch.queue) ++ u.bus.owed task r =
            published task relay.subject (busActions after)) ∧
        messagesOf task (tagged k sess.texts) <+:
          published task relay.subject (busActions after) := by
  have ht : t.Wf := StreamServer.wf_exec (wf_start hbus) hbefore
  obtain ⟨v, hsub, hrest⟩ := Option.bind_eq_some_iff.1 hafter
  have hv : v.Wf := ht.step hsub
  have hu : u.Wf := StreamServer.wf_exec hv hrest
  obtain ⟨s, subject, bus', hk, hbus', rfl⟩ := subscribe_spec hsub
  obtain ⟨hnone, hnext⟩ := LocalBus.subscribe_spec hbus'
  have hkv : (t.relays.set k ⟨s, subject, some t.bus.next⟩)[k]? =
      some ⟨s, subject, some t.bus.next⟩ :=
    List.getElem?_set_self (List.getElem?_eq_some_iff.1 hk).1
  obtain ⟨hku, -⟩ := relay_run hv hkv rfl hrest 0
  obtain ⟨sess, hsess, -, ch, hch, halive, hfirst, hall⟩ := hu.served k _ hku
  refine ⟨_, _, sess, ch, hku, rfl, hsess, hch, fun task => ?_⟩
  obtain ⟨-, -, hlive, -⟩ := relay_run hv hkv rfl hrest task
  obtain ⟨-, hacc⟩ := hlive ((LocalBus.alive_iff hch).2 halive)
  -- nothing is there yet when the relay subscribes
  have hgot : LocalBus.got bus' task t.bus.next = [] := by
    rw [hnext, LocalBus.got_eq (Finmap.lookup_insert _)]
    rfl
  have howed : LocalBus.owed bus' task t.bus.next = [] := by
    rw [hnext]
    exact LocalBus.owed_of_none (hnone task) _
  rw [LocalBus.got_eq hch, hgot, howed, List.append_nil, List.nil_append] at hacc
  refine ⟨fun hrun => ?_, ?_⟩
  · rw [hall hrun]
    exact hacc
  · rw [← hacc]
    have htexts : tagged k sess.texts <+: ch.log :=
      ((List.prefix_append _ _).trans hfirst).trans (List.prefix_append _ _)
    exact ((htexts.filter _).map _).trans (List.prefix_append _ _)

/-- A tick reaches the client, which then closes its session. -/
theorem stream_delivers_tick :
    ∃ t u : StreamServer String,
      (streamServer String ["market.OKX"]).exec (start .new) [.connect] = some t ∧
      (streamServer String ["market.OKX"]).exec t
        [.subscribe 0, .bus (.publish 0 "market.OKX" "tick"), .bus (.send 0), .bus (.finish 0),
          .relay 0, .text 0, .close 0] = some u ∧
      ∃ relay r sess ch, u.relays[0]? = some relay ∧ relay.receiver = some r ∧
        u.sessions[relay.session]? = some sess ∧ u.bus.channels.lookup r = some ch ∧
        ∀ task, (sess.running = true →
            messagesOf task (sess.handed 0 ++ ch.queue) ++ u.bus.owed task r =
              published task relay.subject (busActions
                [.bus (.publish 0 "market.OKX" "tick"), .bus (.send 0), .bus (.finish 0),
                  .relay 0, .text 0, .close 0])) ∧
          messagesOf task (tagged 0 sess.texts) <+:
            published task relay.subject (busActions
              [.bus (.publish 0 "market.OKX" "tick"), .bus (.send 0), .bus (.finish 0),
                .relay 0, .text 0, .close 0]) :=
  ⟨_, _, rfl, rfl, @stream_delivers String .new LocalBus.wf_new ["market.OKX"] [.connect]
    [.bus (.publish 0 "market.OKX" "tick"), .bus (.send 0), .bus (.finish 0), .relay 0, .text 0,
      .close 0] 0 _ _ rfl rfl⟩

/-! ### Sessions that are closed -/

namespace StreamServer

variable {t u : StreamServer μ} {marketSubjects : List String}

/-- The relays with their sessions and subjects. -/
def listed (t : StreamServer μ) : List (ℕ × String) :=
  t.relays.map fun relay => (relay.session, relay.subject)

/-- There is a relay for every session there ever was and every subject. -/
def Complete (marketSubjects : List String) (t : StreamServer μ) : Prop :=
  t.listed = (List.range t.sessions.length).flatMap fun s =>
    (streamSubjects marketSubjects).map fun subject => (s, subject)

theorem Complete.step (ht : t.Complete marketSubjects) {a : StreamAction μ}
    (h : (streamServer μ marketSubjects).step t a = some u) : u.Complete marketSubjects := by
  have hsame : u.listed = t.listed → u.sessions.length = t.sessions.length →
      u.Complete marketSubjects := by
    intro hlisted hlength
    rw [Complete, hlisted, hlength]
    exact ht
  cases a with
  | connect =>
    cases h
    have hnew : (relaysOf marketSubjects t.sessions.length).map
        (fun relay => (relay.session, relay.subject)) =
          (streamSubjects marketSubjects).map fun subject => (t.sessions.length, subject) := by
      rw [relaysOf, List.map_map]
      rfl
    rw [Complete, listed] at ht ⊢
    rw [List.map_append, ht, hnew, List.length_append, List.length_singleton, List.range_succ,
      List.flatMap_append, List.flatMap_singleton]
  | subscribe k =>
    obtain ⟨s, subject, bus, hk, -, rfl⟩ := subscribe_spec h
    refine hsame ?_ rfl
    -- the relay keeps its session and its subject
    refine List.ext_getElem? fun j => ?_
    rw [listed, listed, List.getElem?_map, List.getElem?_map]
    by_cases heq : k = j
    · subst heq
      rw [hk, List.getElem?_set_self (List.getElem?_eq_some_iff.1 hk).1]
      rfl
    · rw [List.getElem?_set_ne heq]
  | relay k =>
    obtain ⟨relay, r, ch, m, queue, -, -, -, -, -, -, hrelays, hsessions⟩ := relay_spec h
    refine hsame ?_ ?_
    · rw [listed, hrelays, listed]
    · rw [hsessions, List.length_modify]
  | text s =>
    obtain ⟨m, mailbox, texts, -, rfl⟩ := text_spec h
    exact hsame rfl List.length_set
  | close s =>
    obtain ⟨mailbox, texts, -, rfl⟩ := close_spec h
    exact hsame rfl List.length_set
  | bus a =>
    obtain ⟨-, bus, -, rfl⟩ := bus_spec h
    exact hsame rfl rfl

/-- A relay that has subscribed can take the next message, whatever its session does. -/
theorem relay_isSome {k : ℕ} {relay : Relay} {r : ℕ} {ch : Channel μ}
    (hk : t.relays[k]? = some relay) (hr : relay.receiver = some r)
    (hch : t.bus.channels.lookup r = some ch) (halive : ch.alive = true) :
    (t.relay k).isSome ↔ ch.queue ≠ [] := by
  constructor
  · intro h
    obtain ⟨u, hu⟩ := Option.isSome_iff_exists.1 h
    obtain ⟨relay', r', ch', m, queue, hk', hr', hch', hqueue, -⟩ := relay_spec hu
    rw [hk, Option.some.injEq] at hk'
    subst hk'
    rw [hr, Option.some.injEq] at hr'
    subst hr'
    rw [hch, Option.some.injEq] at hch'
    rw [hch', hqueue]
    exact List.cons_ne_nil m queue
  · intro hne
    obtain ⟨m, queue, hqueue⟩ := List.exists_cons_of_ne_nil hne
    obtain ⟨subject, alive, q, received⟩ := ch
    dsimp only at halive hqueue
    subst halive hqueue
    simp [StreamServer.relay, hk, hr, hch, LocalBus.recv]

end StreamServer

/-- **Closing a session frees nothing**: there is a relay for every subject of every session there
ever was; one that has subscribed stays subscribed with its receiver, whatever happens; and it takes
a message whenever there is one, whether its session runs or not. -/
theorem relays_stay {bus : LocalBus μ} (hbus : bus.Wf) {marketSubjects : List String}
    {before after : List (StreamAction μ)} {t u : StreamServer μ}
    (hbefore : (streamServer μ marketSubjects).exec (start bus) before = some t)
    (hafter : (streamServer μ marketSubjects).exec t after = some u) :
    u.Complete marketSubjects ∧
      ∀ (k : ℕ) (relay : Relay) (r : ℕ), t.relays[k]? = some relay → relay.receiver = some r →
        u.relays[k]? = some relay ∧ r ∈ u.bus.subscribers relay.subject ∧
          ∃ ch, u.bus.channels.lookup r = some ch ∧ ch.alive = true ∧
            ((u.relay k).isSome ↔ ch.queue ≠ []) := by
  have ht : t.Wf := StreamServer.wf_exec (wf_start hbus) hbefore
  have hu : u.Wf := StreamServer.wf_exec ht hafter
  have hcomplete : ∀ {as : List (StreamAction μ)} {v w : StreamServer μ},
      v.Complete marketSubjects → (streamServer μ marketSubjects).exec v as = some w →
        w.Complete marketSubjects := fun hv h =>
    Interleaving.exec_invariant hv (fun _ _ _ hw hstep => hw.step hstep) h
  have hstart : (start bus).Complete marketSubjects := rfl
  refine ⟨hcomplete (hcomplete hstart hbefore) hafter, fun k relay r hk hr => ?_⟩
  obtain ⟨hku, hacc⟩ := relay_run ht hk hr hafter 0
  obtain ⟨sess, -, hserved⟩ := hu.served k relay hku
  rw [hr] at hserved
  obtain ⟨-, ch, hch, halive, -⟩ := hserved
  exact ⟨hku, hacc.1, ch, hch, halive, relay_isSome hku hr hch halive⟩

/-- A relay of a session that is closed. -/
theorem relays_stay_closed :
    ∃ t u : StreamServer String,
      (streamServer String []).exec (start .new) [.connect, .subscribe 1] = some t ∧
      (streamServer String []).exec t [.close 0, .connect] = some u ∧ u.Complete [] ∧
        ∀ (k : ℕ) (relay : Relay) (r : ℕ), t.relays[k]? = some relay → relay.receiver = some r →
          u.relays[k]? = some relay ∧ r ∈ u.bus.subscribers relay.subject ∧
            ∃ ch, u.bus.channels.lookup r = some ch ∧ ch.alive = true ∧
              ((u.relay k).isSome ↔ ch.queue ≠ []) :=
  ⟨_, _, rfl, rfl, @relays_stay String .new LocalBus.wf_new [] [.connect, .subscribe 1]
    [.close 0, .connect] _ _ rfl rfl⟩

end W2uos
