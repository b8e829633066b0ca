import W2uos.Bus.Lock
import W2uos.System.Rest

/-!
# Tasks wired by a bus

The tasks of a program that talk over one bus: each has receivers, takes a message out of one of
them, handles it, and then makes the calls that follow from it, one after the other; or it makes
calls by itself.  While it handles a message or makes its calls it takes nothing else.

Which subjects a task publishes, by itself and in answer to a message, and to which it subscribes,
is the *wiring* of the program.

* `WiredBus.locked_step`, `WiredBus.task_step` : what a step does to the bus, and to a task;
* `WiredBus.Wf.step` : the invariant.
-/

namespace W2uos

/-- Who publishes and who listens to what. -/
structure Wiring where
  /-- The subjects a task publishes by itself. -/
  starts : ℕ → String → Prop
  /-- The subjects it publishes when it has taken a message of a subject. -/
  answers : ℕ → String → String → Prop
  /-- The subjects it subscribes to. -/
  listens : ℕ → String → Prop

/-- A task: its receivers, the subject of the message it handles, and the calls it has still to
make. -/
structure WiredTask (μ : Type) where
  subs : List ℕ
  handling : Option String
  outbox : List (LockRequest μ)

/-- A task that does not listen and has nothing to do. -/
def WiredTask.new {μ : Type} : WiredTask μ := ⟨[], none, []⟩

/-- The bus with its lock, and the tasks. -/
structure WiredBus (μ : Type) where
  locked : LockedBus μ
  tasks : Finmap fun _ : ℕ => WiredTask μ

/-- What a task does next. -/
inductive WiredAction (μ : Type)
  /-- It has something to publish, or to subscribe to, by itself. -/
  | work (task : ℕ) (requests : List (LockRequest μ))
  /-- It takes a message out of a receiver. -/
  | take (task r : ℕ)
  /-- It has handled the message, and has these calls to make. -/
  | handle (task : ℕ) (requests : List (LockRequest μ))
  /-- It drops a receiver. -/
  | leave (task r : ℕ)
  /-- It is aborted in the middle of what it does. -/
  | abort (task : ℕ)
  /-- It asks for the lock. -/
  | ask (task : ℕ)
  /-- The first that waits for the lock gets it. -/
  | grant
  /-- The next send of its call. -/
  | send (task : ℕ)
  /-- Its call returns. -/
  | finish (task : ℕ)

variable {μ : Type}

namespace WiredBus

/-- Nobody listens and nothing is done. -/
def new : WiredBus μ where
  locked := { bus := .new, waiting := [] }
  tasks := ∅

def task (s : WiredBus μ) (p : ℕ) : WiredTask μ := (s.tasks.lookup p).getD .new

def setTask (s : WiredBus μ) (p : ℕ) (task : WiredTask μ) : WiredBus μ :=
  { s with tasks := s.tasks.insert p task }

/-- The task is in a call, waits for the lock, or will ask for it. -/
def Talking (s : WiredBus μ) (p : ℕ) : Prop := (s.task p).outbox ≠ [] ∨ s.locked.Busy p

/-- The task can take a message. -/
def Idle (s : WiredBus μ) (p : ℕ) : Prop := (s.task p).handling = none ∧ ¬ s.Talking p

instance decidableOutbox (outbox : List (LockRequest μ)) : Decidable (outbox ≠ []) :=
  match outbox with
  | [] => isFalse fun h => h rfl
  | _ :: _ => isTrue (List.cons_ne_nil _ _)

instance decidableTalking (s : WiredBus μ) (p : ℕ) : Decidable (s.Talking p) :=
  inferInstanceAs (Decidable (_ ∨ _))

instance decidableIdle (s : WiredBus μ) (p : ℕ) : Decidable (s.Idle p) :=
  inferInstanceAs (Decidable (_ ∧ _))

/-- A new receiver belongs to the task that subscribed. -/
def granted (s : WiredBus μ) : Finmap fun _ : ℕ => WiredTask μ :=
  match s.locked.waiting with
  | .subscribe p _ :: _ =>
    s.tasks.insert p { s.task p with subs := (s.task p).subs ++ [s.locked.bus.next] }
  | _ => s.tasks

end WiredBus

/-- The tasks and their bus. -/
def wiredBus (μ : Type) : Interleaving (WiredBus μ) (WiredAction μ) where
  step s
    | .work p requests =>
      if s.Idle p then some (s.setTask p { s.task p with outbox := requests }) else none
    | .take p r =>
      if s.Idle p ∧ r ∈ (s.task p).subs then
        match s.locked.bus.channels.lookup r, s.locked.bus.recv r with
        | some ch, some bus => some
          { locked := { s.locked with bus := bus }
            tasks := s.tasks.insert p { s.task p with handling := some ch.subject } }
        | _, _ => none
      else none
    | .handle p requests =>
      if (s.task p).handling.isSome then
        some (s.setTask p { s.task p with handling := none, outbox := requests })
      else none
    | .leave p r =>
      if s.Idle p ∧ r ∈ (s.task p).subs then
        (s.locked.bus.drop r).map fun bus =>
          { locked := { s.locked with bus := bus }
            tasks := s.tasks.insert p { s.task p with subs := (s.task p).subs.erase r } }
      else none
    | .abort p =>
      if s.Idle p then none
      else some
        { locked := if s.locked.Busy p then s.locked.abort p else s.locked
          tasks := s.tasks.insert p { s.task p with handling := none, outbox := [] } }
    | .ask p =>
      match (s.task p).outbox with
      | [] => none
      | request :: outbox =>
        ((lockedBus μ).step s.locked (.ask request)).map fun locked =>
          { locked := locked, tasks := s.tasks.insert p { s.task p with outbox := outbox } }
    | .grant =>
      ((lockedBus μ).step s.locked .grant).map fun locked =>
        { locked := locked, tasks := s.granted }
    | .send p =>
      ((lockedBus μ).step s.locked (.send p)).map fun locked => { s with locked := locked }
    | .finish p =>
      ((lockedBus μ).step s.locked (.finish p)).map fun locked => { s with locked := locked }

/-- The task publishes on the subject. -/
def Wiring.Publishes (W : Wiring) (p : ℕ) (subject : String) : Prop :=
  W.starts p subject ∨ ∃ taken, W.answers p taken subject

/-- A request the task may make. -/
def Wiring.Allows (W : Wiring) (p : ℕ) : LockRequest μ → Prop
  | .publish task subject _ => task = p ∧ W.Publishes p subject
  | .subscribe task subject => task = p ∧ W.listens p subject

/-- The tasks make the calls the wiring says. -/
def Wiring.Permits (W : Wiring) (s : WiredBus μ) : WiredAction μ → Prop
  | .work p requests => ∀ q ∈ requests,
    (∃ subject msg, q = .publish p subject msg ∧ W.starts p subject) ∨
      ∃ subject, q = .subscribe p subject ∧ W.listens p subject
  | .handle p requests => ∀ taken, (s.task p).handling = some taken → ∀ q ∈ requests,
    ∃ subject msg, q = .publish p subject msg ∧ W.answers p taken subject
  | _ => True

theorem Wiring.Allows.task_eq {W : Wiring} {p : ℕ} {q : LockRequest μ} (h : W.Allows p q) :
    q.task = p := by
  cases q <;> exact h.1

namespace WiredBus

variable {W : Wiring} {s t : WiredBus μ} {p q r : ℕ}

/-! ### What the steps do -/

theorem task_insert_self (locked : LockedBus μ) (tasks : Finmap fun _ : ℕ => WiredTask μ) (p : ℕ)
    (x : WiredTask μ) : task ⟨locked, tasks.insert p x⟩ p = x := by
  rw [task, Finmap.lookup_insert, Option.getD_some]

theorem task_insert_ne (locked locked' : LockedBus μ) (tasks : Finmap fun _ : ℕ => WiredTask μ)
    (x : WiredTask μ) (h : q ≠ p) :
    task ⟨locked, tasks.insert p x⟩ q = task ⟨locked', tasks⟩ q := by
  rw [task, Finmap.lookup_insert_of_ne _ h, task]

theorem task_of_insert {x : WiredTask μ} (h : t.tasks = s.tasks.insert p x) (q : ℕ) :
    t.task q = if q = p then x else s.task q := by
  obtain ⟨locked, tasks⟩ := t
  dsimp only at h
  subst h
  split_ifs with heq
  · rw [heq, task_insert_self]
  · exact task_insert_ne locked s.locked s.tasks x heq

theorem work_spec {requests : List (LockRequest μ)}
    (h : (wiredBus μ).step s (.work p requests) = some t) :
    s.Idle p ∧ t = s.setTask p { s.task p with outbox := requests } := by
  simp only [wiredBus] at h
  split_ifs at h with hidle
  exact ⟨hidle, (Option.some.inj h).symm⟩

theorem take_spec (h : (wiredBus μ).step s (.take p r) = some t) :
    s.Idle p ∧ r ∈ (s.task p).subs ∧ ∃ ch bus, s.locked.bus.channels.lookup r = some ch ∧
      s.locked.bus.recv r = some bus ∧
      t = { locked := { s.locked with bus := bus }
            tasks := s.tasks.insert p { s.task p with handling := some ch.subject } } := by
  simp only [wiredBus] at h
  split_ifs at h with hcond
  refine ⟨hcond.1, hcond.2, ?_⟩
  split at h
  · rename_i ch bus hch hbus
    exact ⟨ch, bus, hch, hbus, (Option.some.inj h).symm⟩
  · cases h

theorem handle_spec {requests : List (LockRequest μ)}
    (h : (wiredBus μ).step s (.handle p requests) = some t) :
    (∃ subject, (s.task p).handling = some subject) ∧
      t = s.setTask p { s.task p with handling := none, outbox := requests } := by
  simp only [wiredBus] at h
  split_ifs at h with hhandling
  exact ⟨Option.isSome_iff_exists.1 hhandling, (Option.some.inj h).symm⟩

theorem leave_spec (h : (wiredBus μ).step s (.leave p r) = some t) :
    s.Idle p ∧ r ∈ (s.task p).subs ∧ ∃ bus, s.locked.bus.drop r = some bus ∧
      t = { locked := { s.locked with bus := bus }
            tasks := s.tasks.insert p { s.task p with subs := (s.task p).subs.erase r } } := by
  simp only [wiredBus] at h
  split_ifs at h with hcond
  obtain ⟨bus, hbus, ht⟩ := Option.map_eq_some_iff.1 h
  exact ⟨hcond.1, hcond.2, bus, hbus, ht.symm⟩

theorem abort_spec (h : (wiredBus μ).step s (.abort p) = some t) :
    ¬ s.Idle p ∧
      t = { locked := if s.locked.Busy p then s.locked.abort p else s.locked
            tasks := s.tasks.insert p { s.task p with handling := none, outbox := [] } } := by
  change (if s.Idle p then none else some ⟨_, _⟩) = some t at h
  by_cases hidle : s.Idle p
  · rw [if_pos hidle] at h
    cases h
  · rw [if_neg hidle] at h
    exact ⟨hidle, (Option.some.inj h).symm⟩

theorem ask_spec (h : (wiredBus μ).step s (.ask p) = some t) :
    ∃ request outbox locked, (s.task p).outbox = request :: outbox ∧
      (lockedBus μ).step s.locked (.ask request) = some locked ∧
      t = { locked := locked, tasks := s.tasks.insert p { s.task p with outbox := outbox } } := by
  simp only [wiredBus] at h
  split at h
  · cases h
  · rename_i request outbox houtbox
    obtain ⟨locked, hlocked, ht⟩ := Option.map_eq_some_iff.1 h
    exact ⟨request, outbox, locked, houtbox, hlocked, ht.symm⟩

theorem grant_spec (h : (wiredBus μ).step s .grant = some t) :
    ∃ locked, (lockedBus μ).step s.locked .grant = some locked ∧
      t = { locked := locked, tasks := s.granted } := by
  obtain ⟨locked, hlocked, ht⟩ := Option.map_eq_some_iff.1 h
  exact ⟨locked, hlocked, ht.symm⟩

theorem send_spec (h : (wiredBus μ).step s (.send p) = some t) :
    ∃ bus, s.locked.bus.send p = some bus ∧
      t = { s with locked := { s.locked with bus := bus } } := by
  obtain ⟨locked, hlocked, rfl⟩ := Option.map_eq_some_iff.1 h
  obtain ⟨bus, hbus, rfl⟩ := Option.map_eq_some_iff.1 hlocked
  exact ⟨bus, hbus, rfl⟩

theorem finish_spec (h : (wiredBus μ).step s (.finish p) = some t) :
    ∃ bus, s.locked.bus.finish p = some bus ∧
      t = { s with locked := { s.locked with bus := bus } } := by
  obtain ⟨locked, hlocked, rfl⟩ := Option.map_eq_some_iff.1 h
  obtain ⟨bus, hbus, rfl⟩ := Option.map_eq_some_iff.1 hlocked
  exact ⟨bus, hbus, rfl⟩

/-! ### Who owns the channels -/

/-- The subject of a channel, and whether its receiver is there. -/
def kind (channels : Finmap fun _ : ℕ => Channel μ) (r : ℕ) : Option (String × Bool) :=
  (channels.lookup r).map fun ch => (ch.subject, ch.alive)

section Kind

variable {channels : Finmap fun _ : ℕ => Channel μ} {ch ch' : Channel μ} {r' : ℕ}

theorem kind_of_lookup (h : channels.lookup r = some ch) :
    kind channels r = some (ch.subject, ch.alive) := by
  rw [kind, h, Option.map_some]

theorem kind_insert_self : kind (channels.insert r ch) r = some (ch.subject, ch.alive) :=
  kind_of_lookup (Finmap.lookup_insert _)

theorem kind_insert_ne (h : r' ≠ r) : kind (channels.insert r ch) r' = kind channels r' := by
  rw [kind, Finmap.lookup_insert_of_ne _ h, kind]

theorem kind_insert (hch : channels.lookup r = some ch) (hsubject : ch'.subject = ch.subject)
    (halive : ch'.alive = ch.alive) : kind (channels.insert r ch') = kind channels := by
  funext r'
  by_cases heq : r' = r
  · rw [heq, kind_insert_self, kind_of_lookup hch, hsubject, halive]
  · exact kind_insert_ne heq

end Kind

/-- Only subscribers and receivers that leave change what channels there are. -/
theorem kind_step {b c : LocalBus μ} {a : BusAction μ} (h : (localBus μ).step b a = some c)
    (hsub : ∀ subject, a ≠ .subscribe subject) (hdrop : ∀ r, a ≠ .drop r) :
    kind c.channels = kind b.channels := by
  cases a with
  | publish task subject msg =>
    obtain ⟨-, rfl⟩ := LocalBus.publish_spec h
    rfl
  | send task =>
    obtain ⟨call, r, rs, ch, -, -, hch, ⟨-, -, rfl⟩ | ⟨-, rfl⟩⟩ := LocalBus.send_spec h
    · exact kind_insert hch rfl rfl
    · rfl
  | finish task =>
    obtain ⟨-, rfl⟩ := LocalBus.finish_spec h
    rfl
  | subscribe subject => exact absurd rfl (hsub subject)
  | recv r =>
    obtain ⟨ch, m, queue, hch, -, -, rfl⟩ := LocalBus.recv_spec h
    exact kind_insert hch rfl rfl
  | drop r => exact absurd rfl (hdrop r)

/-- Every receiver that is there belongs to one task, which listens to its subject. -/
structure Listening (W : Wiring) (s : WiredBus μ) : Prop where
  subs : ∀ p, ∀ r ∈ (s.task p).subs, ∃ subject alive,
    kind s.locked.bus.channels r = some (subject, alive) ∧ W.listens p subject
  unique : ∀ p q r, r ∈ (s.task p).subs → r ∈ (s.task q).subs → p = q
  owned : ∀ r subject, kind s.locked.bus.channels r = some (subject, true) →
    ∃ p, r ∈ (s.task p).subs

theorem Listening.congr (hs : s.Listening W) (hsubs : ∀ p, (t.task p).subs = (s.task p).subs)
    (hkind : kind t.locked.bus.channels = kind s.locked.bus.channels) : t.Listening W where
  subs p r hr := by
    rw [hkind]
    exact hs.subs p r (hsubs p ▸ hr)
  unique p q r hp hq := hs.unique p q r (hsubs p ▸ hp) (hsubs q ▸ hq)
  owned r subject h := by
    rw [hkind] at h
    obtain ⟨p, hp⟩ := hs.owned r subject h
    exact ⟨p, (hsubs p).symm ▸ hp⟩

theorem Listening.leave (hs : s.Listening W) {bus : LocalBus μ}
    (hbus : s.locked.bus.drop r = some bus)
    (ht : t = { locked := { s.locked with bus := bus }
                tasks := s.tasks.insert p { s.task p with subs := (s.task p).subs.erase r } }) :
    t.Listening W := by
  obtain ⟨ch, hch, -, rfl⟩ := LocalBus.drop_spec hbus
  have htask : ∀ q, t.task q = if q = p then
      { s.task p with subs := (s.task p).subs.erase r } else s.task q :=
    task_of_insert (by rw [ht])
  have hmem : ∀ q r', r' ∈ (t.task q).subs → r' ∈ (s.task q).subs := by
    intro q r' hr'
    rw [htask] at hr'
    split_ifs at hr' with heq
    · exact heq ▸ List.mem_of_mem_erase hr'
    · exact hr'
  have hother : ∀ r', r' ≠ r → kind t.locked.bus.channels r' = kind s.locked.bus.channels r' := by
    intro r' hne
    rw [ht]
    exact kind_insert_ne hne
  have hself : kind t.locked.bus.channels r = some (ch.subject, false) := by
    rw [ht]
    exact kind_insert_self
  refine ⟨fun q r' hr' => ?_, fun q q' r' hq hq' => hs.unique q q' r' (hmem q r' hq)
    (hmem q' r' hq'), fun r' subject h => ?_⟩
  · obtain ⟨subject, alive, hkind, hlistens⟩ := hs.subs q r' (hmem q r' hr')
    by_cases heq : r' = r
    · subst heq
      rw [kind_of_lookup hch, Option.some.injEq, Prod.mk.injEq] at hkind
      exact ⟨ch.subject, false, hself, hkind.1 ▸ hlistens⟩
    · exact ⟨subject, alive, (hother r' heq).trans hkind, hlistens⟩
  · have hne : r' ≠ r := by
      rintro rfl
      rw [hself] at h
      cases h
    rw [hother r' hne] at h
    obtain ⟨q, hq⟩ := hs.owned r' subject h
    refine ⟨q, ?_⟩
    rw [htask]
    split_ifs with heq
    · exact (List.mem_erase_of_ne hne).2 (heq ▸ hq)
    · exact hq

theorem Listening.subscribe (hs : s.Listening W) (hwf : s.locked.bus.Wf) {subject : String}
    {bus : LocalBus μ} (hbus : s.locked.bus.subscribe subject = some bus)
    (hlistens : W.listens p subject) {waiting : List (LockRequest μ)}
    (ht : t = { locked := { bus := bus, waiting := waiting }
                tasks := s.tasks.insert p
                  { s.task p with subs := (s.task p).subs ++ [s.locked.bus.next] } }) :
    t.Listening W := by
  obtain ⟨-, rfl⟩ := LocalBus.subscribe_spec hbus
  have htask : ∀ q, t.task q = if q = p then
      { s.task p with subs := (s.task p).subs ++ [s.locked.bus.next] } else s.task q :=
    task_of_insert (by rw [ht])
  have hfresh : ∀ q, s.locked.bus.next ∉ (s.task q).subs := by
    intro q hq
    obtain ⟨subject', alive, hkind, -⟩ := hs.subs q _ hq
    obtain ⟨ch, hch, -⟩ := Option.map_eq_some_iff.1 hkind
    exact (hwf.numbered _ ch hch).ne rfl
  have hmem : ∀ q r', r' ∈ (t.task q).subs ↔
      r' ∈ (s.task q).subs ∨ (q = p ∧ r' = s.locked.bus.next) := by
    intro q r'
    rw [htask]
    split_ifs with heq
    · subst heq
      simp
    · simp [heq]
  have hself : kind t.locked.bus.channels s.locked.bus.next = some (subject, true) := by
    rw [ht]
    exact kind_insert_self
  have hother : ∀ r', r' ≠ s.locked.bus.next →
      kind t.locked.bus.channels r' = kind s.locked.bus.channels r' := by
    intro r' hne
    rw [ht]
    exact kind_insert_ne hne
  refine ⟨fun q r' hr' => ?_, fun q q' r' hq hq' => ?_, fun r' subject' h => ?_⟩
  · rcases (hmem q r').1 hr' with hr' | ⟨rfl, rfl⟩
    · rw [hother r' fun heq => hfresh q (heq ▸ hr')]
      exact hs.subs q r' hr'
    · exact ⟨subject, true, hself, hlistens⟩
  · rcases (hmem q r').1 hq with hq | ⟨rfl, hr⟩
    · rcases (hmem q' r').1 hq' with hq' | ⟨-, hr'⟩
      · exact hs.unique q q' r' hq hq'
      · exact absurd (hr' ▸ hq) (hfresh q)
    · rcases (hmem q' r').1 hq' with hq' | ⟨rfl, -⟩
      · exact absurd (hr ▸ hq') (hfresh q')
      · rfl
  · by_cases heq : r' = s.locked.bus.next
    · exact ⟨p, (hmem p r').2 (Or.inr ⟨rfl, heq⟩)⟩
    · rw [hother r' heq] at h
      obtain ⟨q, hq⟩ := hs.owned r' subject' h
      exact ⟨q, (hmem q r').2 (Or.inl hq)⟩

/-! ### Who is busy -/

section Busy

variable {u v : LockedBus μ} {a : LockedAction μ}

theorem busy_of_step (h : (lockedBus μ).step u a = some v) (hv : v.Busy p) :
    u.Busy p ∨ ∃ request, a = .ask request ∧ request.task = p := by
  cases a with
  | ask request =>
    obtain ⟨-, rfl⟩ := LockedBus.ask_spec h
    rcases hv with hv | hv
    · rw [List.map_append, List.mem_append, List.map_singleton, List.mem_singleton] at hv
      rcases hv with hv | rfl
      · exact Or.inl (Or.inl hv)
      · exact Or.inr ⟨request, rfl, rfl⟩
    · exact Or.inl (Or.inr hv)
  | grant =>
    obtain ⟨request, waiting, bus, hwaiting, hbus, rfl⟩ := LockedBus.grant_spec h
    left
    unfold LockedBus.Busy
    rw [hwaiting]
    rcases hv with hv | hv
    · exact Or.inl (List.mem_cons_of_mem _ hv)
    · cases request with
      | publish task subject msg =>
        rcases (LocalBus.mem_calls_publish hbus).1 hv with rfl | hv
        · exact Or.inl List.mem_cons_self
        · exact Or.inr hv
      | subscribe task subject => exact absurd hv (LocalBus.not_mem_calls_of_subscribe hbus).2
  | send task =>
    obtain ⟨bus, hbus, rfl⟩ := Option.map_eq_some_iff.1 h
    exact Or.inl (hv.imp id (LocalBus.mem_calls_send hbus).1)
  | finish task =>
    obtain ⟨bus, hbus, rfl⟩ := Option.map_eq_some_iff.1 h
    exact Or.inl (hv.imp id fun hv => ((LocalBus.mem_calls_finish hbus).2.1 hv).2)
  | abort task =>
    obtain ⟨-, rfl⟩ := LockedBus.abort_spec h
    exact Or.inl (hv.imp (fun hv => (List.filter_sublist.map _).subset hv)
      fun hv => (Finmap.mem_erase.1 hv).2)
  | recv r =>
    obtain ⟨bus, hbus, rfl⟩ := Option.map_eq_some_iff.1 h
    obtain ⟨ch, m, queue, -, -, -, rfl⟩ := LocalBus.recv_spec hbus
    exact Or.inl hv
  | drop r =>
    obtain ⟨bus, hbus, rfl⟩ := Option.map_eq_some_iff.1 h
    obtain ⟨ch, -, -, rfl⟩ := LocalBus.drop_spec hbus
    exact Or.inl hv

end Busy

/-! ### What a step does to the bus, and to a task -/

/-- The step of the bus and its lock, if it is one. -/
def lockedAction (s : WiredBus μ) : WiredAction μ → Option (LockedAction μ)
  | .work _ _ => none
  | .take _ r => some (.recv r)
  | .handle _ _ => none
  | .leave _ r => some (.drop r)
  | .abort p => if s.locked.Busy p then some (.abort p) else none
  | .ask p => (s.task p).outbox.head?.map .ask
  | .grant => some .grant
  | .send p => some (.send p)
  | .finish p => some (.finish p)

/-- The task after the step. -/
def taskAfter (s : WiredBus μ) (q : ℕ) : WiredAction μ → WiredTask μ
  | .work p requests => if q = p then { s.task p with outbox := requests } else s.task q
  | .take p r =>
    if q = p then
      { s.task p with
        handling := some (((s.locked.bus.channels.lookup r).map Channel.subject).getD "") }
    else s.task q
  | .handle p requests =>
    if q = p then { s.task p with handling := none, outbox := requests } else s.task q
  | .leave p r =>
    if q = p then { s.task p with subs := (s.task p).subs.erase r } else s.task q
  | .abort p => if q = p then { s.task p with handling := none, outbox := [] } else s.task q
  | .ask p => if q = p then { s.task p with outbox := (s.task p).outbox.tail } else s.task q
  | .grant =>
    match s.locked.waiting with
    | .subscribe p _ :: _ =>
      if q = p then { s.task p with subs := (s.task p).subs ++ [s.locked.bus.next] } else s.task q
    | _ => s.task q
  | .send _ => s.task q
  | .finish _ => s.task q

/-- **What a step does to the bus.** -/
theorem locked_step {a : WiredAction μ} (h : (wiredBus μ).step s a = some t) :
    match s.lockedAction a with
    | none => t.locked = s.locked
    | some b => (lockedBus μ).step s.locked b = some t.locked := by
  cases a with
  | work p requests =>
    obtain ⟨-, rfl⟩ := work_spec h
    rfl
  | take p r =>
    obtain ⟨-, -, ch, bus, -, hbus, rfl⟩ := take_spec h
    exact Option.map_eq_some_iff.2 ⟨bus, hbus, rfl⟩
  | handle p requests =>
    obtain ⟨-, rfl⟩ := handle_spec h
    rfl
  | leave p r =>
    obtain ⟨-, -, bus, hbus, rfl⟩ := leave_spec h
    exact Option.map_eq_some_iff.2 ⟨bus, hbus, rfl⟩
  | abort p =>
    obtain ⟨-, rfl⟩ := abort_spec h
    rw [lockedAction]
    by_cases hbusy : s.locked.Busy p
    · simp only [if_pos hbusy]
      exact if_pos hbusy
    · simp only [if_neg hbusy]
  | ask p =>
    obtain ⟨request, outbox, locked, houtbox, hlocked, rfl⟩ := ask_spec h
    rw [lockedAction, houtbox]
    exact hlocked
  | grant =>
    obtain ⟨locked, hlocked, rfl⟩ := grant_spec h
    exact hlocked
  | send p =>
    obtain ⟨bus, hbus, rfl⟩ := send_spec h
    exact Option.map_eq_some_iff.2 ⟨bus, hbus, rfl⟩
  | finish p =>
    obtain ⟨bus, hbus, rfl⟩ := finish_spec h
    exact Option.map_eq_some_iff.2 ⟨bus, hbus, rfl⟩

/-- **What a step does to a task.** -/
theorem task_step {a : WiredAction μ} (h : (wiredBus μ).step s a = some t) (q : ℕ) :
    t.task q = s.taskAfter q a := by
  cases a with
  | work p requests =>
    obtain ⟨-, rfl⟩ := work_spec h
    exact task_of_insert rfl q
  | take p r =>
    obtain ⟨-, -, ch, bus, hch, -, rfl⟩ := take_spec h
    rw [taskAfter, hch]
    exact task_of_insert rfl q
  | handle p requests =>
    obtain ⟨-, rfl⟩ := handle_spec h
    exact task_of_insert rfl q
  | leave p r =>
    obtain ⟨-, -, bus, -, rfl⟩ := leave_spec h
    exact task_of_insert rfl q
  | abort p =>
    obtain ⟨-, rfl⟩ := abort_spec h
    exact task_of_insert rfl q
  | ask p =>
    obtain ⟨request, outbox, locked, houtbox, -, rfl⟩ := ask_spec h
    rw [taskAfter, houtbox]
    exact task_of_insert rfl q
  | grant =>
    obtain ⟨locked, -, rfl⟩ := grant_spec h
    rw [taskAfter]
    cases hwaiting : s.locked.waiting with
    | nil =>
      show (Finmap.lookup q s.granted).getD .new = s.task q
      rw [granted, hwaiting, task]
    | cons request waiting =>
      cases request with
      | publish p subject msg =>
        show (Finmap.lookup q s.granted).getD .new = s.task q
        rw [granted, hwaiting, task]
      | subscribe p subject =>
        refine task_of_insert (p := p) ?_ q
        show s.granted = _
        rw [granted, hwaiting]
  | send p =>
    obtain ⟨bus, -, rfl⟩ := send_spec h
    rfl
  | finish p =>
    obtain ⟨bus, -, rfl⟩ := finish_spec h
    rfl

theorem handling_step {a : WiredAction μ} (h : (wiredBus μ).step s a = some t) (q : ℕ) :
    (t.task q).handling = (s.task q).handling ∨ (∃ r, a = .take q r) ∨
      (∃ requests, a = .handle q requests) ∨ a = .abort q := by
  rw [task_step h]
  cases a with
  | take p r =>
    by_cases heq : q = p
    · exact Or.inr (Or.inl ⟨r, heq ▸ rfl⟩)
    · exact Or.inl (by rw [taskAfter, if_neg heq])
  | handle p requests =>
    by_cases heq : q = p
    · exact Or.inr (Or.inr (Or.inl ⟨requests, heq ▸ rfl⟩))
    · exact Or.inl (by rw [taskAfter, if_neg heq])
  | abort p =>
    by_cases heq : q = p
    · exact Or.inr (Or.inr (Or.inr (heq ▸ rfl)))
    · exact Or.inl (by rw [taskAfter, if_neg heq])
  | work p requests =>
    left
    rw [taskAfter]
    split_ifs with heq <;> simp [heq]
  | leave p r =>
    left
    rw [taskAfter]
    split_ifs with heq <;> simp [heq]
  | ask p =>
    left
    rw [taskAfter]
    split_ifs with heq <;> simp [heq]
  | grant =>
    left
    rw [taskAfter]
    split
    · split_ifs with heq <;> simp [heq]
    · rfl
  | send p => exact Or.inl rfl
  | finish p => exact Or.inl rfl

theorem outbox_step {a : WiredAction μ} (h : (wiredBus μ).step s a = some t) (q : ℕ) :
    (t.task q).outbox = (s.task q).outbox ∨
      (∃ requests, (a = .work q requests ∨ a = .handle q requests) ∧
        (t.task q).outbox = requests) ∨
      (a = .abort q ∧ (t.task q).outbox = []) ∨
      a = .ask q ∧ (t.task q).outbox = (s.task q).outbox.tail := by
  rw [task_step h]
  cases a with
  | work p requests =>
    by_cases heq : q = p
    · exact Or.inr (Or.inl ⟨requests, Or.inl (heq ▸ rfl), by rw [taskAfter, if_pos heq]⟩)
    · exact Or.inl (by rw [taskAfter, if_neg heq])
  | handle p requests =>
    by_cases heq : q = p
    · exact Or.inr (Or.inl ⟨requests, Or.inr (heq ▸ rfl), by rw [taskAfter, if_pos heq]⟩)
    · exact Or.inl (by rw [taskAfter, if_neg heq])
  | abort p =>
    by_cases heq : q = p
    · exact Or.inr (Or.inr (Or.inl ⟨heq ▸ rfl, by rw [taskAfter, if_pos heq]⟩))
    · exact Or.inl (by rw [taskAfter, if_neg heq])
  | ask p =>
    by_cases heq : q = p
    · exact Or.inr (Or.inr (Or.inr ⟨heq ▸ rfl, by rw [taskAfter, if_pos heq, heq]⟩))
    · exact Or.inl (by rw [taskAfter, if_neg heq])
  | take p r =>
    left
    rw [taskAfter]
    split_ifs with heq <;> simp [heq]
  | leave p r =>
    left
    rw [taskAfter]
    split_ifs with heq <;> simp [heq]
  | grant =>
    left
    rw [taskAfter]
    split
    · split_ifs with heq <;> simp [heq]
    · rfl
  | send p => exact Or.inl rfl
  | finish p => exact Or.inl rfl

/-! ### The invariant -/

/-- Requests and calls are ones the wiring allows, whoever handles a message makes no call, and
receivers belong to those that listen. -/
structure Wf (W : Wiring) (s : WiredBus μ) : Prop where
  locked : s.locked.Wf
  listening : s.Listening W
  silent : ∀ p, (s.task p).handling ≠ none → ¬ s.Talking p
  outbox : ∀ p, ∀ q ∈ (s.task p).outbox, W.Allows p q
  waiting : ∀ q ∈ s.locked.waiting, W.Allows q.task q
  calls : ∀ p call, s.locked.bus.calls.lookup p = some call → W.Publishes p call.subject

theorem task_new (p : ℕ) : (new : WiredBus μ).task p = .new := rfl

theorem wf_new : (new : WiredBus μ).Wf W where
  locked := LockedBus.wf_new
  listening := by
    refine ⟨fun p r hr => ?_, fun p q r hr => ?_, fun r subject h => ?_⟩
    · rw [task_new] at hr
      exact absurd hr List.not_mem_nil
    · rw [task_new] at hr
      exact absurd hr List.not_mem_nil
    · cases h
  silent p h := absurd rfl h
  outbox p q hq := by
    rw [task_new] at hq
    exact absurd hq List.not_mem_nil
  waiting q hq := absurd hq List.not_mem_nil
  calls p call h := by cases h

theorem talking_of_step (hs : s.Wf W) {a : WiredAction μ} (h : (wiredBus μ).step s a = some t)
    (ht : t.Talking q) :
    s.Talking q ∨ ∃ requests, a = .work q requests ∨ a = .handle q requests := by
  rcases ht with hout | hbusy
  · rcases outbox_step h q with heq | ⟨requests, ha, -⟩ | ⟨-, hnil⟩ | ⟨-, htail⟩
    · exact Or.inl (Or.inl (heq ▸ hout))
    · exact Or.inr ⟨requests, ha⟩
    · exact absurd hnil hout
    · refine Or.inl (Or.inl fun hnil => hout ?_)
      rw [htail, hnil, List.tail_nil]
  · have hlocked := locked_step h
    cases ha : s.lockedAction a with
    | none =>
      rw [ha] at hlocked
      exact Or.inl (Or.inr (hlocked ▸ hbusy))
    | some b =>
      rw [ha] at hlocked
      rcases busy_of_step hlocked hbusy with hbusy | ⟨request, rfl, htask⟩
      · exact Or.inl (Or.inr hbusy)
      · -- it has asked for the lock, with a request of its own
        cases a with
        | ask p =>
          obtain ⟨request', outbox, locked, houtbox, -, -⟩ := ask_spec h
          rw [lockedAction, houtbox, List.head?_cons, Option.map_some, Option.some.injEq] at ha
          cases ha
          have hown := (hs.outbox p request (houtbox ▸ List.mem_cons_self)).task_eq
          rw [htask] at hown
          refine Or.inl (Or.inl ?_)
          rw [hown, houtbox]
          exact List.cons_ne_nil _ _
        | abort p =>
          rw [lockedAction] at ha
          split_ifs at ha
          cases ha
        | work p requests => cases ha
        | take p r => cases ha
        | handle p requests => cases ha
        | leave p r => cases ha
        | grant => cases ha
        | send p => cases ha
        | finish p => cases ha

theorem Wf.locked_step (hs : s.Wf W) {a : WiredAction μ} (h : (wiredBus μ).step s a = some t) :
    t.locked.Wf := by
  have hlocked := WiredBus.locked_step h
  cases ha : s.lockedAction a with
  | none =>
    rw [ha] at hlocked
    exact hlocked ▸ hs.locked
  | some b =>
    rw [ha] at hlocked
    exact hs.locked.step hlocked

theorem Wf.listening_step (hs : s.Wf W) {a : WiredAction μ}
    (h : (wiredBus μ).step s a = some t) : t.Listening W := by
  have hl := hs.listening
  -- most steps leave the receivers of the tasks alone
  have hsame : ∀ {t : WiredBus μ} {p : ℕ} {x : WiredTask μ}, t.tasks = s.tasks.insert p x →
      x.subs = (s.task p).subs → ∀ q, (t.task q).subs = (s.task q).subs := by
    intro t p x htasks hsubs q
    rw [task_of_insert htasks]
    split_ifs with heq
    · rw [hsubs, heq]
    · rfl
  cases a with
  | work p requests =>
    obtain ⟨-, rfl⟩ := work_spec h
    exact hl.congr (hsame rfl rfl) rfl
  | take p r =>
    obtain ⟨-, -, ch, bus, -, hbus, rfl⟩ := take_spec h
    exact hl.congr (hsame rfl rfl)
      (kind_step (a := .recv r) hbus (fun _ => nofun) fun _ => nofun)
  | handle p requests =>
    obtain ⟨-, rfl⟩ := handle_spec h
    exact hl.congr (hsame rfl rfl) rfl
  | leave p r =>
    obtain ⟨-, -, bus, hbus, rfl⟩ := leave_spec h
    exact hl.leave hbus rfl
  | abort p =>
    obtain ⟨-, rfl⟩ := abort_spec h
    refine hl.congr (hsame rfl rfl) ?_
    dsimp only
    split_ifs <;> rfl
  | ask p =>
    obtain ⟨request, outbox, locked, -, hlocked, rfl⟩ := ask_spec h
    obtain ⟨-, rfl⟩ := LockedBus.ask_spec hlocked
    exact hl.congr (hsame rfl rfl) rfl
  | grant =>
    obtain ⟨locked, hlocked, rfl⟩ := grant_spec h
    obtain ⟨request, waiting, bus, hwaiting, hbus, rfl⟩ := LockedBus.grant_spec hlocked
    cases request with
    | publish p subject msg =>
      have htasks : s.granted = s.tasks := by rw [granted, hwaiting]
      refine hl.congr (fun q => ?_)
        (kind_step (a := .publish p subject msg) hbus (fun _ => nofun) fun _ => nofun)
      rw [task, htasks, task]
    | subscribe p subject =>
      have hallowed := hs.waiting (.subscribe p subject) (hwaiting ▸ List.mem_cons_self)
      have htasks : s.granted = s.tasks.insert p
          { s.task p with subs := (s.task p).subs ++ [s.locked.bus.next] } := by
        rw [granted, hwaiting]
      exact hl.subscribe hs.locked.bus hbus hallowed.2
        (congrArg (WiredBus.mk ⟨bus, waiting⟩) htasks)
  | send p =>
    obtain ⟨bus, hbus, rfl⟩ := send_spec h
    exact hl.congr (fun _ => rfl)
      (kind_step (a := .send p) hbus (fun _ => nofun) fun _ => nofun)
  | finish p =>
    obtain ⟨bus, hbus, rfl⟩ := finish_spec h
    exact hl.congr (fun _ => rfl)
      (kind_step (a := .finish p) hbus (fun _ => nofun) fun _ => nofun)

theorem Wf.silent_step (hs : s.Wf W) {a : WiredAction μ} (h : (wiredBus μ).step s a = some t)
    (ht : (t.task q).handling ≠ none) : ¬ t.Talking q := by
  intro htalking
  have hbefore := talking_of_step hs h htalking
  rcases handling_step h q with heq | ⟨r, rfl⟩ | ⟨requests, rfl⟩ | rfl
  · rw [heq] at ht
    rcases hbefore with hbefore | ⟨requests, rfl | rfl⟩
    · exact hs.silent q ht hbefore
    · exact ht (work_spec h).1.1
    · obtain ⟨-, rfl⟩ := handle_spec h
      refine ht (heq.symm.trans ?_)
      rw [task_of_insert rfl q, if_pos rfl]
  · rcases hbefore with hbefore | ⟨requests, ha | ha⟩
    · exact (take_spec h).1.2 hbefore
    · cases ha
    · cases ha
  · rw [task_step h, taskAfter, if_pos rfl] at ht
    exact ht rfl
  · rw [task_step h, taskAfter, if_pos rfl] at ht
    exact ht rfl

theorem Wf.outbox_step (hs : s.Wf W) {a : WiredAction μ} (ha : W.Permits s a)
    (h : (wiredBus μ).step s a = some t) {request : LockRequest μ}
    (ht : request ∈ (t.task q).outbox) : W.Allows q request := by
  rcases WiredBus.outbox_step h q with heq | ⟨requests, rfl | rfl, heq⟩ | ⟨-, heq⟩ | ⟨-, heq⟩
  · exact hs.outbox q request (heq ▸ ht)
  · rw [heq] at ht
    rcases ha request ht with ⟨subject, msg, rfl, hstarts⟩ | ⟨subject, rfl, hlistens⟩
    · exact ⟨rfl, Or.inl hstarts⟩
    · exact ⟨rfl, hlistens⟩
  · rw [heq] at ht
    obtain ⟨taken, htaken⟩ := (handle_spec h).1
    obtain ⟨subject, msg, rfl, hanswers⟩ := ha taken htaken request ht
    exact ⟨rfl, Or.inr ⟨taken, hanswers⟩⟩
  · rw [heq] at ht
    exact absurd ht List.not_mem_nil
  · exact hs.outbox q request (List.mem_of_mem_tail (heq ▸ ht))

theorem Wf.waiting_step (hs : s.Wf W) {a : WiredAction μ} (h : (wiredBus μ).step s a = some t)
    {request : LockRequest μ} (ht : request ∈ t.locked.waiting) :
    W.Allows request.task request := by
  cases a with
  | ask p =>
    obtain ⟨request', outbox, locked, houtbox, hlocked, rfl⟩ := ask_spec h
    obtain ⟨-, rfl⟩ := LockedBus.ask_spec hlocked
    rcases List.mem_append.1 ht with ht | ht
    · exact hs.waiting request ht
    · rw [List.mem_singleton.1 ht]
      have hallowed := hs.outbox p request' (houtbox ▸ List.mem_cons_self)
      exact hallowed.task_eq.symm ▸ hallowed
  | grant =>
    obtain ⟨locked, hlocked, rfl⟩ := grant_spec h
    obtain ⟨request', waiting, bus, hwaiting, -, rfl⟩ := LockedBus.grant_spec hlocked
    exact hs.waiting request (hwaiting ▸ List.mem_cons_of_mem _ ht)
  | abort p =>
    obtain ⟨-, rfl⟩ := abort_spec h
    refine hs.waiting request ?_
    dsimp only at ht
    split_ifs at ht
    · exact (List.mem_filter.1 ht).1
    · exact ht
  | work p requests =>
    obtain ⟨-, rfl⟩ := work_spec h
    exact hs.waiting request ht
  | take p r =>
    obtain ⟨-, -, ch, bus, -, -, rfl⟩ := take_spec h
    exact hs.waiting request ht
  | handle p requests =>
    obtain ⟨-, rfl⟩ := handle_spec h
    exact hs.waiting request ht
  | leave p r =>
    obtain ⟨-, -, bus, -, rfl⟩ := leave_spec h
    exact hs.waiting request ht
  | send p =>
    obtain ⟨bus, -, rfl⟩ := send_spec h
    exact hs.waiting request ht
  | finish p =>
    obtain ⟨bus, -, rfl⟩ := finish_spec h
    exact hs.waiting request ht

theorem Wf.calls_step (hs : s.Wf W) {a : WiredAction μ} (h : (wiredBus μ).step s a = some t)
    {call : Call μ} (ht : t.locked.bus.calls.lookup q = some call) :
    W.Publishes q call.subject := by
  -- a call that is over
  have herase : ∀ {p : ℕ}, (s.locked.bus.calls.erase p).lookup q = some call →
      W.Publishes q call.subject := by
    intro p ht
    by_cases heq : q = p
    · rw [heq, Finmap.lookup_erase] at ht
      cases ht
    · rw [Finmap.lookup_erase_ne heq] at ht
      exact hs.calls q call ht
  cases a with
  | grant =>
    obtain ⟨locked, hlocked, rfl⟩ := grant_spec h
    obtain ⟨request, waiting, bus, hwaiting, hbus, rfl⟩ := LockedBus.grant_spec hlocked
    cases request with
    | publish p subject msg =>
      have hallowed := hs.waiting (.publish p subject msg) (hwaiting ▸ List.mem_cons_self)
      obtain ⟨-, rfl⟩ := LocalBus.publish_spec hbus
      by_cases heq : q = p
      · subst heq
        rw [Finmap.lookup_insert, Option.some.injEq] at ht
        rw [← ht]
        exact hallowed.2
      · rw [Finmap.lookup_insert_of_ne _ heq] at ht
        exact hs.calls q call ht
    | subscribe p subject =>
      obtain ⟨-, rfl⟩ := LocalBus.subscribe_spec hbus
      exact hs.calls q call ht
  | send p =>
    obtain ⟨bus, hbus, rfl⟩ := send_spec h
    obtain ⟨call', r, rs, ch, hcall, -, -, hcases⟩ := LocalBus.send_spec hbus
    have hcalls : bus.calls = s.locked.bus.calls.insert p { call' with remaining := rs } := by
      rcases hcases with ⟨-, -, rfl⟩ | ⟨-, rfl⟩ <;> rfl
    rw [hcalls] at ht
    by_cases heq : q = p
    · subst heq
      rw [Finmap.lookup_insert, Option.some.injEq] at ht
      rw [← ht]
      exact hs.calls q call' hcall
    · rw [Finmap.lookup_insert_of_ne _ heq] at ht
      exact hs.calls q call ht
  | finish p =>
    obtain ⟨bus, hbus, rfl⟩ := finish_spec h
    obtain ⟨-, rfl⟩ := LocalBus.finish_spec hbus
    exact herase ht
  | abort p =>
    obtain ⟨-, rfl⟩ := abort_spec h
    dsimp only at ht
    split_ifs at ht
    · exact herase ht
    · exact hs.calls q call ht
  | work p requests =>
    obtain ⟨-, rfl⟩ := work_spec h
    exact hs.calls q call ht
  | take p r =>
    obtain ⟨-, -, ch, bus, -, hbus, rfl⟩ := take_spec h
    obtain ⟨ch, m, queue, -, -, -, rfl⟩ := LocalBus.recv_spec hbus
    exact hs.calls q call ht
  | handle p requests =>
    obtain ⟨-, rfl⟩ := handle_spec h
    exact hs.calls q call ht
  | leave p r =>
    obtain ⟨-, -, bus, hbus, rfl⟩ := leave_spec h
    obtain ⟨ch, -, -, rfl⟩ := LocalBus.drop_spec hbus
    exact hs.calls q call ht
  | ask p =>
    obtain ⟨request, outbox, locked, -, hlocked, rfl⟩ := ask_spec h
    obtain ⟨-, rfl⟩ := LockedBus.ask_spec hlocked
    exact hs.calls q call ht

/-- **Every step the wiring permits keeps the invariant.** -/
theorem Wf.step (hs : s.Wf W) {a : WiredAction μ} (ha : W.Permits s a)
    (h : (wiredBus μ).step s a = some t) : t.Wf W where
  locked := hs.locked_step h
  listening := hs.listening_step h
  silent _ ht := hs.silent_step h ht
  outbox _ _ ht := hs.outbox_step ha h ht
  waiting _ ht := hs.waiting_step h ht
  calls _ _ ht := hs.calls_step h ht

end WiredBus

end W2uos
