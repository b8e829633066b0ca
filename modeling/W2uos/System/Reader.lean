import W2uos.System.Machine

/-!
# Readers of a connection

A task that opens a connection, sends its greetings, and then reads until the connection is closed,
fails or ends.  A text is handled, and a ping is answered; what else comes is passed over.  Nobody
opens the connection again.

* `reader_over` : a reader that is over stays so, and emits nothing;
* `reader_reads` : a reader that reads answers what comes up to the end of the connection;
* `reader_life` : what a reader emits in its life.
-/

/-- What is read, with texts `τ` and payloads `β`. -/
inductive Frame (τ β : Type*)
  | text (txt : τ)
  | ping (payload : β)
  | close
  /-- A frame of another kind. -/
  | other
  /-- The connection fails. -/
  | error
  deriving DecidableEq

/-- What a reader meets. -/
inductive ReaderEvent (τ β : Type*)
  /-- The connection is opened, or cannot be. -/
  | connected (ok : Bool)
  /-- A greeting has been sent, or cannot be. -/
  | sent (ok : Bool)
  | frame (frame : Frame τ β)
  /-- Nothing more will come. -/
  | ended
  deriving DecidableEq

/-- Where a reader with greetings `γ` is. -/
inductive Reader (γ : Type*)
  | connecting
  | greeting (next : γ) (rest : List γ)
  | reading
  | over
  deriving DecidableEq

/-- What a reader emits. -/
inductive ReaderOutput (γ β ω : Type*)
  | greeting (g : γ)
  | pong (payload : β)
  | handled (out : ω)
  deriving DecidableEq

section Reader

variable {τ β γ ω : Type*} {gs : List γ} {handle : τ → List ω} {s : Reader γ}

/-- Go on with the greetings that are left. -/
def Reader.greet : List γ → Reader γ
  | [] => .reading
  | g :: rest => .greeting g rest

/-- What a reader that reads makes of an event. -/
def ReaderEvent.answer (handle : τ → List ω) : ReaderEvent τ β → List (ReaderOutput γ β ω)
  | .frame (.text txt) => (handle txt).map .handled
  | .frame (.ping payload) => [.pong payload]
  | _ => []

/-- The connection lasts. -/
def ReaderEvent.lasts : ReaderEvent τ β → Bool
  | .frame .close | .frame .error | .ended => false
  | _ => true

/-- The reader. -/
def readerTask (gs : List γ) (handle : τ → List ω) :
    Machine (Reader γ) (ReaderEvent τ β) (ReaderOutput γ β ω) where
  step
    | .connecting, .connected true => (.greet gs, [])
    | .connecting, .connected false => (.over, [])
    | .greeting g rest, .sent true => (.greet rest, [.greeting g])
    | .greeting _ _, .sent false => (.over, [])
    | .reading, e => (if e.lasts then .reading else .over, e.answer handle)
    | s, _ => (s, [])

/-- What has been made of the texts. -/
def ReaderOutput.handledOnly (outs : List (ReaderOutput γ β ω)) : List ω :=
  outs.filterMap fun
    | .handled out => some out
    | _ => none

/-- The text a reader takes. -/
def Reader.takes : Reader γ → ReaderEvent τ β → Option τ
  | .reading, .frame (.text txt) => some txt
  | _, _ => none

theorem reader_handled (gs : List γ) (handle : τ → List ω) (s : Reader γ) (e : ReaderEvent τ β) :
    ReaderOutput.handledOnly ((readerTask gs handle).emit s e) =
      (s.takes e).toList.flatMap handle := by
  rcases s with _ | ⟨g, rest⟩ | _ | _ <;>
    rcases e with (_ | _) | (_ | _) | (txt | _ | _ | _ | _) | _ <;> try rfl
  -- a text that is read
  change ((handle txt).map ReaderOutput.handled).filterMap _ = _
  rw [List.filterMap_map, Reader.takes, Option.toList_some, List.flatMap_singleton]
  exact List.filterMap_some

/-- **A reader that is over stays so**, and emits nothing. -/
theorem reader_over (gs : List γ) (handle : τ → List ω) (es : List (ReaderEvent τ β)) :
    (readerTask gs handle).run .over es = .over ∧ (readerTask gs handle).output .over es = [] := by
  induction es with
  | nil => exact ⟨rfl, rfl⟩
  | cons e es ih => exact ih

/-- **A reader that reads** answers what comes before the connection ends, and is over then. -/
theorem reader_reads (gs : List γ) (handle : τ → List ω) (es : List (ReaderEvent τ β)) :
    (readerTask gs handle).run .reading es =
        (if es.all ReaderEvent.lasts then .reading else .over) ∧
      (readerTask gs handle).output .reading es =
        (es.takeWhile ReaderEvent.lasts).flatMap (ReaderEvent.answer handle) := by
  induction es with
  | nil => exact ⟨rfl, rfl⟩
  | cons e es ih =>
    have hstep : (readerTask gs handle).step .reading e =
        (if e.lasts then .reading else .over, e.answer handle) := rfl
    rw [Machine.run_cons, Machine.output_cons, Machine.next, Machine.emit, hstep, List.all_cons]
    cases hlasts : e.lasts with
    | true =>
      rw [List.takeWhile_cons_of_pos hlasts, List.flatMap_cons]
      exact ⟨ih.1, congrArg (_ ++ ·) ih.2⟩
    | false =>
      have hnone : e.answer handle = ([] : List (ReaderOutput γ β ω)) := by
        rcases e with _ | _ | (_ | _ | _ | _ | _) | _ <;> first | rfl | cases hlasts
      obtain ⟨hrun, houtput⟩ := reader_over gs handle es
      rw [List.takeWhile_cons_of_neg (by rw [hlasts]; exact Bool.false_ne_true), hnone]
      exact ⟨hrun, houtput⟩

/-- A reader with these greetings to send does not come to read, and sends some of them; or it comes
to read, after having sent them. -/
def Reader.Greets (gs : List γ) (handle : τ → List ω) (s : Reader γ) (rest : List γ)
    (es : List (ReaderEvent τ β)) : Prop :=
  ((∀ pre, pre <+: es → (readerTask gs handle).run s pre ≠ .reading) ∧
      ∃ sent, sent <+: rest ∧ (readerTask gs handle).output s es = sent.map .greeting) ∨
    ∃ pre post, es = pre ++ post ∧ (readerTask gs handle).run s pre = .reading ∧
      (readerTask gs handle).output s pre = rest.map .greeting

/-- A reader does not come to read if it does not do so after its next step. -/
theorem unread_cons {s : Reader γ} (hs : s ≠ .reading) {e : ReaderEvent τ β}
    {es : List (ReaderEvent τ β)}
    (h : ∀ pre, pre <+: es →
      (readerTask gs handle).run ((readerTask gs handle).next s e) pre ≠ .reading) :
    ∀ pre, pre <+: e :: es → (readerTask gs handle).run s pre ≠ .reading := by
  intro pre hpre
  rcases List.prefix_cons_iff.1 hpre with rfl | ⟨tail, rfl, htail⟩
  · exact hs
  · exact h tail htail

theorem greets_over {s : Reader γ} (hs : s ≠ .reading) {e : ReaderEvent τ β}
    (hstep : (readerTask gs handle).step s e = (.over, [])) (rest : List γ)
    (es : List (ReaderEvent τ β)) : s.Greets gs handle rest (e :: es) := by
  have hnext : (readerTask gs handle).next s e = .over := congrArg Prod.fst hstep
  have hemit : (readerTask gs handle).emit s e = [] := congrArg Prod.snd hstep
  refine Or.inl ⟨unread_cons hs fun pre _ => ?_, [], List.nil_prefix, ?_⟩
  · rw [hnext, (reader_over gs handle pre).1]
    exact fun heq => by cases heq
  · rw [Machine.output_cons, hemit, hnext, (reader_over gs handle es).2]
    rfl

theorem Reader.Greets.step {s t : Reader γ} {rest : List γ} {e : ReaderEvent τ β}
    {es : List (ReaderEvent τ β)} (h : t.Greets gs handle rest es) (hs : s ≠ .reading)
    (first : List γ) (hstep : (readerTask gs handle).step s e = (t, first.map .greeting)) :
    s.Greets gs handle (first ++ rest) (e :: es) := by
  have hnext : (readerTask gs handle).next s e = t := congrArg Prod.fst hstep
  have hemit : (readerTask gs handle).emit s e = first.map .greeting := congrArg Prod.snd hstep
  rcases h with ⟨hunread, sent, hsent, houtput⟩ | ⟨pre, post, rfl, hrun, houtput⟩
  · refine Or.inl ⟨unread_cons hs fun pre hpre => ?_, first ++ sent, ?_, ?_⟩
    · rw [hnext]
      exact hunread pre hpre
    · exact (List.prefix_append_right_inj first).2 hsent
    · rw [Machine.output_cons, hemit, hnext, houtput, List.map_append]
  · refine Or.inr ⟨e :: pre, post, rfl, ?_, ?_⟩
    · rw [Machine.run_cons, hnext, hrun]
    · rw [Machine.output_cons, hemit, hnext, houtput, List.map_append]

/-- From its greetings on, a reader sends some of them, or comes to read. -/
theorem greets_greet (gs : List γ) (handle : τ → List ω) (rest : List γ)
    (es : List (ReaderEvent τ β)) : (Reader.greet rest).Greets gs handle rest es := by
  induction es generalizing rest with
  | nil =>
    cases rest with
    | nil => exact Or.inr ⟨[], [], rfl, rfl, rfl⟩
    | cons g rest =>
      refine Or.inl ⟨fun pre hpre => ?_, [], List.nil_prefix, rfl⟩
      rw [List.prefix_nil.1 hpre]
      exact fun heq => by cases heq
  | cons e es ih =>
    cases rest with
    | nil => exact Or.inr ⟨[], e :: es, rfl, rfl, rfl⟩
    | cons g rest =>
      have hs : Reader.greeting g rest ≠ .reading := fun heq => by cases heq
      rcases e with ok | (_ | _) | frame | _
      · exact (ih (g :: rest)).step hs [] rfl
      · exact greets_over hs rfl _ es
      · exact (ih rest).step hs [g] rfl
      · exact (ih (g :: rest)).step hs [] rfl
      · exact (ih (g :: rest)).step hs [] rfl

theorem greets_connecting (gs : List γ) (handle : τ → List ω) (es : List (ReaderEvent τ β)) :
    Reader.connecting.Greets gs handle gs es := by
  have hs : (Reader.connecting : Reader γ) ≠ .reading := fun heq => by cases heq
  induction es with
  | nil =>
    refine Or.inl ⟨fun pre hpre => ?_, [], List.nil_prefix, rfl⟩
    rw [List.prefix_nil.1 hpre]
    exact hs
  | cons e es ih =>
    rcases e with (_ | _) | ok | frame | _
    · exact greets_over hs rfl gs es
    · exact (greets_greet gs handle gs es).step hs [] rfl
    · exact ih.step hs [] rfl
    · exact ih.step hs [] rfl
    · exact ih.step hs [] rfl

/-- The texts among events. -/
def ReaderEvent.texts (es : List (ReaderEvent τ β)) : List τ :=
  es.filterMap fun
    | .frame (.text txt) => some txt
    | _ => none

theorem ReaderOutput.handledOnly_append (outs outs' : List (ReaderOutput γ β ω)) :
    handledOnly (outs ++ outs') = handledOnly outs ++ handledOnly outs' := List.filterMap_append

theorem ReaderOutput.handledOnly_greeting (gs : List γ) :
    handledOnly (gs.map .greeting : List (ReaderOutput γ β ω)) = [] := by
  rw [handledOnly, List.filterMap_map]
  exact List.filterMap_eq_nil_iff.2 fun _ _ => rfl

theorem ReaderOutput.handledOnly_answer (handle : τ → List ω) (es : List (ReaderEvent τ β)) :
    handledOnly (es.flatMap (ReaderEvent.answer handle) : List (ReaderOutput γ β ω)) =
      (ReaderEvent.texts es).flatMap handle := by
  induction es with
  | nil => rfl
  | cons e es ih =>
    rw [List.flatMap_cons, handledOnly_append, ih]
    rcases e with _ | _ | (txt | _ | _ | _ | _) | _ <;> try rfl
    -- a text
    have htxt : handledOnly (ReaderEvent.answer handle (.frame (.text txt)) :
        List (ReaderOutput γ β ω)) = handle txt := by
      rw [handledOnly, ReaderEvent.answer, List.filterMap_map]
      exact List.filterMap_some
    rw [htxt]
    rfl

/-- **The life of a reader** that has just been spawned, or never is: it does not come to read, and
makes nothing of the texts; or it sends its greetings, and then handles the texts that come before
the connection ends. -/
theorem reader_life (gs : List γ) (handle : τ → List ω) {s : Reader γ}
    (hs : s = .connecting ∨ s = .over) (es : List (ReaderEvent τ β)) :
    (ReaderOutput.handledOnly ((readerTask gs handle).output s es) = [] ∧
        ∀ pre, pre <+: es → (readerTask gs handle).run s pre ≠ .reading) ∨
      ∃ pre post, es = pre ++ post ∧ (readerTask gs handle).run s pre = .reading ∧
        (readerTask gs handle).output s pre = gs.map .greeting ∧
          ReaderOutput.handledOnly ((readerTask gs handle).output s es) =
            (ReaderEvent.texts (post.takeWhile ReaderEvent.lasts)).flatMap handle := by
  rcases hs with rfl | rfl
  · rcases greets_connecting gs handle es with
      ⟨hunread, sent, -, houtput⟩ | ⟨pre, post, rfl, hrun, houtput⟩
    · refine Or.inl ⟨?_, hunread⟩
      rw [houtput, ReaderOutput.handledOnly_greeting]
    · refine Or.inr ⟨pre, post, rfl, hrun, houtput, ?_⟩
      rw [Machine.output_append, houtput, hrun, (reader_reads gs handle post).2,
        ReaderOutput.handledOnly_append, ReaderOutput.handledOnly_greeting,
        ReaderOutput.handledOnly_answer, List.nil_append]
  · refine Or.inl ⟨?_, fun pre _ => ?_⟩
    · rw [(reader_over gs handle es).2]
      rfl
    · rw [(reader_over gs handle pre).1]
      exact fun heq => by cases heq

end Reader
