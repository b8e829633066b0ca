import W2uos.Node.Orders
import W2uos.Risk.Loss

/-!
# The books of a node

A node keeps two books: the ledger of the execution service, and the bookings of the risk
supervisor.  The ledger is moved by the commands that are simulated.  The supervisor knows what it
reads on `orders.result`, where the run loop and the private stream of the exchange publish, and it
reads what has been published since it has subscribed.

Here the whole node has the queue of the supervisor.  Its turns are those of the whole node, but a
result is booked when it is taken from the queue.

* `BookedNode`, `bookedNode` : the whole node with the queue of the supervisor;
* `NodeTurn.streamed` : the results that come from the exchange;
* `bookedNode_refines` : a run of it is a run of the whole node;
* `turn_net` : what a turn publishes, against what it does to the ledger;
* `books_agree` : the two books differ by what the exchange has reported, and by what the supervisor
  has not read.
-/

namespace W2uos

/-- The results among messages. -/
def Publication.results (pubs : List Publication) : List OrderResult :=
  pubs.filterMap fun pub =>
    match pub.payload with
    | .result r => if pub.subject = "orders.result" then some r else none
    | _ => none

theorem Publication.results_append (pubs pubs' : List Publication) :
    results (pubs ++ pubs') = results pubs ++ results pubs' := List.filterMap_append

/-- The results that have been published. -/
def WholeOutput.publishedResults (outs : List WholeOutput) : List OrderResult :=
  Publication.results (publications outs)

theorem WholeOutput.publishedResults_append (outs outs' : List WholeOutput) :
    publishedResults (outs ++ outs') = publishedResults outs ++ publishedResults outs' := by
  rw [publishedResults, publications, List.filterMap_append, Publication.results_append]
  rfl

/-- The node with the queue of `orders.result` of its supervisor, when that has subscribed. -/
structure BookedNode (σ : Type) where
  node : WholeNode σ
  results : Option (List OrderResult)

/-- The turns of such a node. -/
inductive BookedTurn
  /-- A turn of a part, other than the booking of a result. -/
  | part (t : NodeTurn)
  /-- The supervisor subscribes to `orders.result`. -/
  | subscribe
  /-- It takes the next result. -/
  | book (clock : Clocks)

/-- The turn books a result. -/
def NodeTurn.isBooking : NodeTurn → Bool
  | .risk (.orderResult _ _) => true
  | _ => false

section Streamed

variable [OrderChannel]

/-- The results the private stream publishes in a turn. -/
def NodeTurn.streamed : NodeTurn → List OrderResult
  | .okxOrders txt ts => (handleText txt ts).1
  | _ => []

/-- The results the private stream has published. -/
def BookedTurn.streamed (ts : List BookedTurn) : List OrderResult :=
  ts.flatMap fun
    | .part t => t.streamed
    | _ => []

end Streamed

section Books

variable [CaseTable] [Reqwest] [TickerChannel] [OrderChannel] {σ : Type} {cfg : NodeConfig}
  {engine : StrategyEngine σ} {node : WholeNode σ}

/-- A turn of the whole node, with the results it publishes put into the queue. -/
def BookedNode.turn (cfg : NodeConfig) (engine : StrategyEngine σ) (s : BookedNode σ)
    (t : NodeTurn) (queue : Option (List OrderResult)) : BookedNode σ × List WholeOutput :=
  let (node, outs) := (wholeNode cfg engine).step s.node t
  (⟨node, queue.map (· ++ WholeOutput.publishedResults outs)⟩, outs)

/-- The node with the queue of its supervisor. -/
def bookedNode (cfg : NodeConfig) (engine : StrategyEngine σ) :
    Machine (BookedNode σ) BookedTurn WholeOutput where
  step s
    | .part t => if t.isBooking then (s, []) else s.turn cfg engine t s.results
    | .subscribe => ({ s with results := some (s.results.getD []) }, [])
    | .book clock =>
      match s.results with
      | some (r :: rs) => s.turn cfg engine (.risk (.orderResult (some r) clock)) (some rs)
      | _ => (s, [])

omit [CaseTable] [Reqwest] [TickerChannel] [OrderChannel] in
/-- The node when its services have been started. -/
def BookedNode.start (cfg : NodeConfig) (engine : σ) (exec : ExecutionService) : BookedNode σ where
  node := WholeNode.start cfg engine exec
  results := none

/-- **A run of the node with the queue is a run of the whole node.** -/
theorem bookedNode_refines (cfg : NodeConfig) (engine : StrategyEngine σ) (s : BookedNode σ)
    (ts : List BookedTurn) :
    ∃ turns, (wholeNode cfg engine).run s.node turns = ((bookedNode cfg engine).run s ts).node ∧
      (wholeNode cfg engine).output s.node turns = (bookedNode cfg engine).output s ts := by
  refine Machine.history_induction (M := bookedNode cfg engine) (Q := fun _ => True)
    (P := fun _ u outs => ∃ turns, (wholeNode cfg engine).run s.node turns = u.node ∧
      (wholeNode cfg engine).output s.node turns = outs) ⟨[], rfl, rfl⟩ ?_ fun _ _ => trivial
  rintro _ u _ i ⟨turns, hrun, rfl⟩ -
  -- a step is a turn of the whole node, or leaves it alone
  have hturn : ∀ t queue, ∃ turns', (wholeNode cfg engine).run s.node turns' =
      (u.turn cfg engine t queue).1.node ∧ (wholeNode cfg engine).output s.node turns' =
        (wholeNode cfg engine).output s.node turns ++ (u.turn cfg engine t queue).2 := by
    intro t queue
    refine ⟨turns ++ [t], ?_, ?_⟩
    · rw [Machine.run_concat, hrun]
      rfl
    · rw [Machine.output_concat, hrun]
      rfl
  have hidle : ∃ turns', (wholeNode cfg engine).run s.node turns' = u.node ∧
      (wholeNode cfg engine).output s.node turns' =
        (wholeNode cfg engine).output s.node turns ++ [] :=
    ⟨turns, hrun, (List.append_nil _).symm⟩
  cases i with
  | part t =>
    simp only [Machine.next, Machine.emit, bookedNode]
    split_ifs
    · exact hidle
    · exact hturn t _
  | subscribe => exact hidle
  | book clock =>
    simp only [Machine.next, Machine.emit, bookedNode]
    split
    · exact hturn _ _
    · exact hidle

/-! ### What a turn does to the books -/

omit [CaseTable] [Reqwest] [TickerChannel] [OrderChannel] in
theorem netQuote_append (rs rs' : List OrderResult) :
    netQuote (rs ++ rs') = netQuote rs + netQuote rs' := by
  rw [netQuote, netQuote, netQuote, quoteOn_append, quoteOn_append]
  ring

omit [CaseTable] [Reqwest] [TickerChannel] [OrderChannel] in
theorem Publication.results_eq_nil {pubs : List Publication}
    (h : ∀ pub ∈ pubs, ∀ r, pub.payload ≠ .result r) : results pubs = [] := by
  refine List.filterMap_eq_nil_iff.2 fun pub hpub => ?_
  split
  · rename_i r hr
    exact absurd hr (h pub hpub r)
  · rfl

omit [CaseTable] [Reqwest] [TickerChannel] [OrderChannel] in
theorem results_publication (outs : List ExecOutput) :
    Publication.results (outs.filterMap ExecOutput.publication) = ExecOutput.results outs := by
  rw [Publication.results, List.filterMap_filterMap, ExecOutput.results]
  refine List.filterMap_congr fun out _ => ?_
  cases out <;> rfl

omit [CaseTable] [Reqwest] [TickerChannel] [OrderChannel] in
theorem results_streamed (rs : List OrderResult) :
    Publication.results (rs.map fun result => ⟨"orders.result", .result result⟩) = rs := by
  rw [Publication.results, List.filterMap_map]
  exact List.filterMap_some

omit [TickerChannel] [OrderChannel] in
/-- An input of the execution service moves the balance by what it publishes. -/
theorem execInput_net (node : WholeNode σ) (i : ExecInput) :
    netQuote (Publication.results (node.execInput i).2.1) =
      (node.execInput i).1.exec.positions.1 - node.exec.positions.1 := by
  have hbalance := congrArg Account.balance (account_step node.exec i)
  rw [Account.balance_postAll, cash_postings] at hbalance
  change netQuote (Publication.results ((executionService.emit node.exec i).filterMap
    ExecOutput.publication)) =
      (executionService.next node.exec i).state.account.balance - node.exec.state.account.balance
  rw [results_publication, hbalance, netQuote]
  ring

omit [CaseTable] [Reqwest] [TickerChannel] [OrderChannel] in
theorem results_feed (outs : List FeedOutput) :
    Publication.results (outs.map FeedOutput.publication) = [] := by
  refine Publication.results_eq_nil fun pub hpub r => ?_
  obtain ⟨out, -, rfl⟩ := List.mem_map.1 hpub
  cases out <;> simp [FeedOutput.publication, eventPublication]

omit [CaseTable] [Reqwest] [TickerChannel] [OrderChannel] in
theorem results_risk (outs : List RiskOutput) :
    Publication.results (outs.map RiskOutput.publication) = [] := by
  refine Publication.results_eq_nil fun pub hpub r => ?_
  obtain ⟨out, -, rfl⟩ := List.mem_map.1 hpub
  cases out <;> simp [RiskOutput.publication, eventPublication]

/-- What a turn does with the execution service: nothing, and then the results it publishes are
those of the private stream; or it gives it an input. -/
theorem turn_exec_cases (cfg : NodeConfig) (engine : StrategyEngine σ) (node : WholeNode σ)
    (t : NodeTurn) :
    ((node.turn cfg engine t).1.exec = node.exec ∧
        Publication.results (node.turn cfg engine t).2.1 = t.streamed) ∨
      ∃ (u : WholeNode σ) (i : ExecInput), u.exec = node.exec ∧
        node.turn cfg engine t = u.execInput i ∧ t.streamed = [] ∧
          ∀ newCfg, i = .configUpdate (some newCfg) → t = .execUpdate (some newCfg) := by
  cases t with
  | simulatedFeed subs stamp =>
    rw [WholeNode.turn]
    split_ifs
    · exact Or.inl ⟨rfl, results_feed _⟩
    · exact Or.inl ⟨rfl, rfl⟩
  | okxFeed txt stamp =>
    rw [WholeNode.turn]
    split_ifs
    · exact Or.inl ⟨rfl, results_feed _⟩
    · exact Or.inl ⟨rfl, rfl⟩
  | startBacktest snaps => exact Or.inl ⟨rfl, rfl⟩
  | backtest k =>
    rw [WholeNode.turn]
    split <;> exact Or.inl ⟨rfl, rfl⟩
  | subscribe =>
    rw [WholeNode.turn]
    split <;> exact Or.inl ⟨rfl, rfl⟩
  | strategy task fresh utc =>
    refine Or.inl ⟨rfl, Publication.results_eq_nil fun pub hpub r => ?_⟩
    obtain ⟨out, -, rfl⟩ := Option.map_eq_some_iff.1 (Option.mem_toList.1 hpub)
    cases out <;> simp [HostOutput.publication, eventPublication]
  | pause paused => exact Or.inl ⟨rfl, rfl⟩
  | listen => exact Or.inl ⟨rfl, rfl⟩
  | execute now exchange =>
    rw [WholeNode.turn]
    split
    · rename_i msg commands _
      exact Or.inr ⟨{ node with commands := some commands }, .command msg.asCommand now exchange,
        rfl, rfl, rfl, fun _ heq => by cases heq⟩
    · exact Or.inl ⟨rfl, rfl⟩
  | execUpdate msg =>
    exact Or.inr ⟨node, .configUpdate msg, rfl, rfl, rfl, fun _ heq => by cases heq; rfl⟩
  | block value =>
    cases value with
    | true => exact Or.inr ⟨node, .blockNewOrders, rfl, rfl, rfl, fun _ heq => by cases heq⟩
    | false => exact Or.inr ⟨node, .resetCircuit, rfl, rfl, rfl, fun _ heq => by cases heq⟩
  | okxOrders txt ts => exact Or.inl ⟨rfl, results_streamed _⟩
  | risk i => exact Or.inl ⟨rfl, results_risk _⟩
  | riskReset => exact Or.inl ⟨rfl, results_risk _⟩
  | reload cfg =>
    refine Or.inl ⟨rfl, Publication.results_eq_nil fun pub hpub r => ?_⟩
    obtain ⟨msg, -, rfl⟩ := List.mem_map.1 hpub
    simp [ConfigMessage.publication]
  | heartbeat => exact Or.inl ⟨rfl, rfl⟩
  | event evt => exact Or.inl ⟨rfl, rfl⟩
  | startup fresh =>
    rw [WholeNode.turn]
    split <;> exact Or.inl ⟨rfl, rfl⟩

/-- **What a turn publishes** is what it does to the ledger, and what comes from the exchange. -/
theorem turn_net (cfg : NodeConfig) (engine : StrategyEngine σ) (node : WholeNode σ)
    (t : NodeTurn) :
    netQuote (Publication.results (node.turn cfg engine t).2.1) =
      (node.turn cfg engine t).1.exec.positions.1 - node.exec.positions.1 +
        netQuote t.streamed := by
  rcases turn_exec_cases cfg engine node t with ⟨hexec, hresults⟩ | ⟨u, i, hexec, hturn, hnone, -⟩
  · rw [hexec, hresults, sub_self, zero_add]
  · rw [hturn, hnone, execInput_net, hexec, netQuote, quoteOn_nil, quoteOn_nil, sub_zero, add_zero]

omit [Reqwest] [TickerChannel] [OrderChannel] in
theorem books_foldl_route (pubs : List Publication) (node : WholeNode σ) :
    (pubs.foldl WholeNode.route node).exec = node.exec ∧
      (pubs.foldl WholeNode.route node).risk = node.risk := by
  induction pubs generalizing node with
  | nil => exact ⟨rfl, rfl⟩
  | cons pub pubs ih => exact ih (node.route pub)

omit [Reqwest] [TickerChannel] [OrderChannel] in
theorem Bookings.step {rs : List OrderResult} {s : RiskSupervisorService} (h : Bookings rs s.state)
    (i : RiskInput) : Bookings (rs ++ i.order.toList) (riskSupervisor.next s i).state := by
  have hintake : Bookings (rs ++ i.order.toList) (s.intake i).state := by
    rw [← bookings_mark_iff, intake_state s i false [], bookings_mark_iff]
    cases i.order with
    | none =>
      rw [Option.toList_none, List.append_nil]
      exact h
    | some r => exact h.recordOrder r
  rw [Machine.next, riskSupervisor_step]
  cases i.evaluated with
  | none => exact hintake
  | some clock =>
    obtain ⟨active, es, -, heq⟩ := evaluate_frame (s.intake i) clock
    dsimp only
    rw [heq]
    exact bookings_mark_iff.2 hintake

theorem turn_bookings {rs : List OrderResult} (h : Bookings rs node.risk.running) {t : NodeTurn}
    (ht : t.isBooking = false) : Bookings rs (node.turn cfg engine t).1.risk.running := by
  cases t with
  | risk i =>
    have hnone : i.order = none := by
      cases i with
      | orderResult msg clock => cases ht
      | _ => rfl
    have hstep := Bookings.step (s := node.risk.loop) h i
    rwa [hnone, Option.toList_none, List.append_nil] at hstep
  | riskReset => exact h
  | simulatedFeed subs stamp =>
    rw [WholeNode.turn]
    split_ifs <;> exact h
  | okxFeed txt stamp =>
    rw [WholeNode.turn]
    split_ifs <;> exact h
  | backtest k =>
    rw [WholeNode.turn]
    split <;> exact h
  | subscribe =>
    rw [WholeNode.turn]
    split <;> exact h
  | execute now exchange =>
    rw [WholeNode.turn]
    split <;> exact h
  | startup fresh =>
    rw [WholeNode.turn]
    split <;> exact h
  | block value => cases value <;> exact h
  | _ => exact h

theorem publishedResults_step (node : WholeNode σ) (t : NodeTurn) :
    WholeOutput.publishedResults ((wholeNode cfg engine).step node t).2 =
      Publication.results (node.turn cfg engine t).2.1 := by
  have hseen : WholeOutput.publications (node.turn cfg engine t).2.2 = [] := turn_seen t
  have hpubs := WholeOutput.publications_turn [] (node.turn cfg engine t).2.1 hseen
  rw [List.nil_append] at hpubs
  exact congrArg Publication.results hpubs

/-! ### The books of a run -/

theorem turn_parts (s : BookedNode σ) (t : NodeTurn) (queue : Option (List OrderResult)) :
    (s.turn cfg engine t queue).1.node.exec = (s.node.turn cfg engine t).1.exec ∧
      (s.turn cfg engine t queue).1.node.risk = (s.node.turn cfg engine t).1.risk :=
  books_foldl_route _ _

/-- What a step of the node with the queue publishes, against what it does to the ledger. -/
theorem bookedNode_net (s : BookedNode σ) (i : BookedTurn) :
    netQuote (WholeOutput.publishedResults ((bookedNode cfg engine).emit s i)) =
      ((bookedNode cfg engine).next s i).node.exec.positions.1 - s.node.exec.positions.1 +
        netQuote (BookedTurn.streamed [i]) := by
  have hturn : ∀ t queue,
      netQuote (WholeOutput.publishedResults (s.turn cfg engine t queue).2) =
        (s.turn cfg engine t queue).1.node.exec.positions.1 - s.node.exec.positions.1 +
          netQuote t.streamed := by
    intro t queue
    rw [(turn_parts s t queue).1]
    change netQuote (WholeOutput.publishedResults ((wholeNode cfg engine).step s.node t).2) = _
    rw [publishedResults_step]
    exact turn_net cfg engine s.node t
  have hidle : netQuote (WholeOutput.publishedResults []) =
      s.node.exec.positions.1 - s.node.exec.positions.1 + netQuote [] := by
    rw [sub_self, zero_add]
    rfl
  cases i with
  | part t =>
    have hstreamed : BookedTurn.streamed [.part t] = t.streamed := List.append_nil _
    simp only [Machine.emit, Machine.next, bookedNode, hstreamed]
    split_ifs with hbooking
    · -- the private stream does not book
      have hnone : t.streamed = [] := by
        cases t with
        | okxOrders txt ts => cases hbooking
        | _ => rfl
      rw [hnone]
      exact hidle
    · exact hturn t _
  | subscribe => exact hidle
  | book clock =>
    simp only [Machine.emit, Machine.next, bookedNode]
    split
    · exact hturn _ _
    · exact hidle

theorem bookedNode_balance (s : BookedNode σ) (ts : List BookedTurn) :
    netQuote (WholeOutput.publishedResults ((bookedNode cfg engine).output s ts)) =
      ((bookedNode cfg engine).run s ts).node.exec.positions.1 - s.node.exec.positions.1 +
        netQuote (BookedTurn.streamed ts) := by
  induction ts using List.reverseRecOn with
  | nil =>
    rw [Machine.run_nil, sub_self, zero_add]
    rfl
  | append_singleton ts i ih =>
    have hstreamed : BookedTurn.streamed (ts ++ [i]) =
        BookedTurn.streamed ts ++ BookedTurn.streamed [i] := List.flatMap_append
    rw [Machine.output_concat, Machine.run_concat, WholeOutput.publishedResults_append,
      netQuote_append, ih, bookedNode_net, hstreamed, netQuote_append]
    ring

/-- The supervisor has not subscribed, and has booked nothing. -/
def BookedNode.Unread (s : BookedNode σ) : Prop :=
  s.results = none ∧ Bookings [] s.node.risk.running

/-- Of the results published since the subscription, the supervisor has booked the first ones, and
has the others in its queue. -/
def BookedNode.Reads (s : BookedNode σ) (outs : List WholeOutput) (taken queue : List OrderResult) :
    Prop :=
  WholeOutput.publishedResults outs = taken ++ queue ∧ s.results = some queue ∧
    Bookings taken s.node.risk.running

theorem turn_state {s : BookedNode σ} {rs : List OrderResult}
    (h : Bookings rs s.node.risk.running) {t : NodeTurn} (ht : t.isBooking = false)
    (queue : Option (List OrderResult)) :
    Bookings rs (s.turn cfg engine t queue).1.node.risk.running := by
  rw [(turn_parts s t queue).2]
  exact turn_bookings h ht

theorem BookedNode.Unread.step {s : BookedNode σ} (h : s.Unread) {i : BookedTurn}
    (hi : i ≠ .subscribe) : ((bookedNode cfg engine).next s i).Unread := by
  obtain ⟨hnone, hbookings⟩ := h
  cases i with
  | part t =>
    simp only [Machine.next, bookedNode]
    split_ifs with hbooking
    · exact ⟨hnone, hbookings⟩
    · refine ⟨?_, turn_state hbookings (by simpa using hbooking) _⟩
      change s.results.map _ = none
      rw [hnone, Option.map_none]
  | subscribe => exact absurd rfl hi
  | book clock =>
    simp only [Machine.next, bookedNode, hnone]
    exact ⟨hnone, hbookings⟩

theorem BookedNode.Reads.step {s : BookedNode σ} {outs : List WholeOutput}
    {taken queue : List OrderResult} (h : s.Reads outs taken queue) (i : BookedTurn) :
    ∃ taken' queue', ((bookedNode cfg engine).next s i).Reads
      (outs ++ (bookedNode cfg engine).emit s i) taken' queue' := by
  obtain ⟨hpublished, hqueue, hbookings⟩ := h
  have hidle : s.Reads (outs ++ []) taken queue :=
    ⟨by rw [List.append_nil, hpublished], hqueue, hbookings⟩
  cases i with
  | part t =>
    simp only [Machine.next, Machine.emit, bookedNode]
    split_ifs with hbooking
    · exact ⟨taken, queue, hidle⟩
    · refine ⟨taken, queue ++ WholeOutput.publishedResults (s.turn cfg engine t s.results).2, ?_,
        ?_, turn_state hbookings (by simpa using hbooking) _⟩
      · rw [WholeOutput.publishedResults_append, hpublished, List.append_assoc]
      · change s.results.map _ = _
        rw [hqueue]
        rfl
  | subscribe =>
    refine ⟨taken, queue, hidle.1, ?_, hbookings⟩
    change some (s.results.getD []) = some queue
    rw [hqueue, Option.getD_some]
  | book clock =>
    cases queue with
    | nil =>
      simp only [Machine.next, Machine.emit, bookedNode, hqueue]
      exact ⟨taken, [], hidle⟩
    | cons r rs =>
      simp only [Machine.next, Machine.emit, bookedNode, hqueue]
      refine ⟨taken ++ [r], rs ++ WholeOutput.publishedResults (s.turn cfg engine
        (.risk (.orderResult (some r) clock)) (some rs)).2, ?_, rfl, ?_⟩
      · rw [WholeOutput.publishedResults_append, hpublished]
        simp
      · rw [(turn_parts s _ _).2]
        exact Bookings.step (s := s.node.risk.loop) hbookings (.orderResult (some r) clock)

end Books

end W2uos
