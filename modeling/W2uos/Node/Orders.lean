import Mathlib.Data.List.Forall2
import Mathlib.Data.List.ReduceOption
import W2uos.Node.Whole
import W2uos.Strategy.Sequential

/-!
# Orders of the whole node

The way of an order through the node: the host publishes it for a snapshot, the execution service
takes it from its queue, and a request may go out for it.  On this way nothing is lost, nothing is
done twice, and nothing overtakes.

* `orders_carried_out` : every command is handled once, in the order of publication, and at most one
  request goes out for it;
* `orders_planned` : the published commands are those that the engine, called once for every
  snapshot of each of its markets, has planned, and the order of `main`.
-/

namespace W2uos

/-! ### What is published -/

/-- What has been published. -/
def WholeOutput.publications (outs : List WholeOutput) : List Publication :=
  outs.filterMap fun
    | .published pub => some pub
    | _ => none

/-- The commands among messages. -/
def Publication.commands (pubs : List Publication) : List OrderCommand :=
  pubs.filterMap fun pub =>
    match pub.payload with
    | .command cmd => if pub.subject = ordersCommand then some cmd else none
    | _ => none

/-- The snapshots among messages. -/
def Publication.snapshots (pubs : List Publication) : List MarketSnapshot :=
  pubs.filterMap fun pub =>
    match pub.payload with
    | .snapshot snap => some snap
    | _ => none

/-- The commands that have been published on `orders.command`. -/
def WholeOutput.publishedCommands (outs : List WholeOutput) : List OrderCommand :=
  Publication.commands (publications outs)

/-- The snapshots that have been published. -/
def WholeOutput.snapshots (outs : List WholeOutput) : List MarketSnapshot :=
  Publication.snapshots (publications outs)

theorem WholeOutput.publications_of_seen (cmds : List OrderCommand) (rs : List OkxOrderRequest) :
    publications (cmds.map .handled ++ rs.map .submitted) = [] := by
  refine List.filterMap_eq_nil_iff.2 fun out hout => ?_
  rcases List.mem_append.1 hout with hout | hout
  · obtain ⟨cmd, -, rfl⟩ := List.mem_map.1 hout
    rfl
  · obtain ⟨request, -, rfl⟩ := List.mem_map.1 hout
    rfl

theorem WholeOutput.publications_turn (outs : List WholeOutput) (pubs : List Publication)
    {seen : List WholeOutput} (hseen : publications seen = []) :
    publications (outs ++ (pubs.map .published ++ seen)) = publications outs ++ pubs := by
  have hpubs : publications (pubs.map .published) = pubs := by
    rw [publications, List.filterMap_map]
    exact List.filterMap_some
  rw [publications, List.filterMap_append, List.filterMap_append]
  change publications outs ++ (publications (pubs.map .published) ++ publications seen) = _
  rw [hpubs, hseen, List.append_nil]

theorem WholeOutput.publishedCommands_turn (outs : List WholeOutput) (pubs : List Publication)
    {seen : List WholeOutput} (hseen : publications seen = []) :
    publishedCommands (outs ++ (pubs.map .published ++ seen)) =
      publishedCommands outs ++ Publication.commands pubs := by
  rw [publishedCommands, publications_turn outs pubs hseen]
  exact List.filterMap_append

theorem WholeOutput.snapshots_turn (outs : List WholeOutput) (pubs : List Publication)
    {seen : List WholeOutput} (hseen : publications seen = []) :
    snapshots (outs ++ (pubs.map .published ++ seen)) =
      snapshots outs ++ Publication.snapshots pubs := by
  rw [snapshots, publications_turn outs pubs hseen]
  exact List.filterMap_append

theorem Publication.commands_eq_nil {pubs : List Publication}
    (h : ∀ pub ∈ pubs, pub.subject ≠ ordersCommand) : commands pubs = [] := by
  refine List.filterMap_eq_nil_iff.2 fun pub hpub => ?_
  split
  · exact if_neg (h pub hpub)
  · rfl

section Turns

variable [CaseTable] [Reqwest] [TickerChannel] [OrderChannel] {σ : Type} {cfg : NodeConfig}
  {engine : StrategyEngine σ} {node : WholeNode σ} {outs : List WholeOutput}

/-! ### Delivery -/

omit [Reqwest] [TickerChannel] [OrderChannel] in
/-- What the delivery of messages does to the queue of the execution service, if those on its
subject are commands. -/
theorem commands_foldl_route {pubs : List Publication}
    (h : ∀ pub ∈ pubs, pub.subject = ordersCommand → ∃ cmd, pub.payload = .command cmd)
    (node : WholeNode σ) :
    (pubs.foldl WholeNode.route node).commands =
      node.commands.map (· ++ (Publication.commands pubs).map .command) := by
  induction pubs generalizing node with
  | nil => simp [Publication.commands]
  | cons pub pubs ih =>
    rw [List.forall_mem_cons] at h
    rw [List.foldl_cons, ih h.2]
    have hsplit : Publication.commands (pub :: pubs) =
        Publication.commands [pub] ++ Publication.commands pubs := by
      rw [← List.singleton_append]
      exact List.filterMap_append
    rw [hsplit]
    by_cases hsubject : pub.subject = ordersCommand
    · obtain ⟨cmd, hpayload⟩ := h.1 hsubject
      have hone : Publication.commands [pub] = [cmd] := by
        simp [Publication.commands, hpayload, hsubject]
      have hroute : (node.route pub).commands = node.commands.map (· ++ [pub.payload]) :=
        if_pos hsubject
      rw [hroute, hone, hpayload, Option.map_map]
      refine congrArg (Option.map · node.commands) (funext fun queue => ?_)
      simp
    · have hnone : Publication.commands [pub] = [] := by
        refine Publication.commands_eq_nil fun pub' hpub' => ?_
        rw [List.mem_singleton.1 hpub']
        exact hsubject
      rw [(route_commands node pub).2.2.2 hsubject, hnone, List.nil_append]

omit [Reqwest] [TickerChannel] [OrderChannel] in
theorem host_foldl_route (pubs : List Publication) (node : WholeNode σ) :
    (pubs.foldl WholeNode.route node).host =
      (Publication.snapshots pubs).foldl StrategyHost.deliver node.host := by
  induction pubs generalizing node with
  | nil => rfl
  | cons pub pubs ih =>
    rw [List.foldl_cons, ih, WholeNode.route]
    cases hpayload : pub.payload with
    | snapshot snap =>
      have hcons : Publication.snapshots (pub :: pubs) = snap :: Publication.snapshots pubs := by
        simp [Publication.snapshots, hpayload]
      rw [hcons, List.foldl_cons]
    | _ =>
      have hcons : Publication.snapshots (pub :: pubs) = Publication.snapshots pubs := by
        simp [Publication.snapshots, hpayload]
      rw [hcons]

omit [Reqwest] [TickerChannel] [OrderChannel] in
theorem startup_foldl_route (pubs : List Publication) (node : WholeNode σ) :
    (pubs.foldl WholeNode.route node).startup = node.startup := by
  induction pubs generalizing node with
  | nil => rfl
  | cons pub pubs ih => exact ih (node.route pub)

/-! ### The commands of a turn -/

theorem turn_payloads (t : NodeTurn) :
    ∀ pub ∈ (node.turn cfg engine t).2.1, pub.subject = ordersCommand →
      ∃ cmd, pub.payload = .command cmd := by
  by_cases hby : t.Bystander
  · exact fun pub hpub hsubject =>
      absurd hsubject ((turn_idle cfg engine node hby).subjects pub hpub)
  intro pub hpub hsubject
  cases t with
  | strategy task fresh utc =>
    change pub ∈ ((node.host.step engine task fresh utc).2.map HostOutput.publication).toList
      at hpub
    rw [Option.mem_toList, Option.map_eq_some_iff] at hpub
    obtain ⟨out, -, rfl⟩ := hpub
    cases out with
    | order cmd => exact ⟨cmd, rfl⟩
    | log evt => simp [HostOutput.publication, eventPublication, ordersCommand] at hsubject
  | subscribe =>
    simp only [WholeNode.turn] at hpub
    split at hpub <;> cases hpub
  | listen => cases hpub
  | execute now exchange =>
    simp only [WholeNode.turn] at hpub
    split at hpub
    · exact absurd hsubject (exec_subject _ pub hpub)
    · cases hpub
  | startup fresh =>
    simp only [WholeNode.turn] at hpub
    split at hpub
    · cases hpub
    · rw [List.mem_singleton.1 hpub]
      exact ⟨_, rfl⟩
    · cases hpub
    · cases hpub
  | _ => exact absurd trivial hby

theorem turn_seen (t : NodeTurn) :
    WholeOutput.publications (node.turn cfg engine t).2.2 = [] := by
  by_cases hby : t.Bystander
  · rw [(turn_idle cfg engine node hby).outputs]
    rfl
  cases t with
  | execute now exchange =>
    rw [WholeNode.turn]
    split
    · exact WholeOutput.publications_of_seen _ _
    · rfl
  | startup fresh =>
    rw [WholeNode.turn]
    split <;> rfl
  | subscribe =>
    rw [WholeNode.turn]
    split <;> rfl
  | strategy task fresh utc => rfl
  | listen => rfl
  | _ => exact absurd trivial hby

/-! ### What becomes of the commands -/

/-- What the execution service has done with the commands published since it listens: it has handled
the first of them, in their order, and the others are in its queue; for each command it has handled
at most one request has gone out, the one a client makes of it, and these in the same order. -/
def CarriedOut (node : WholeNode σ) (outs : List WholeOutput) : Prop :=
  ∃ (waiting : List OrderCommand) (done : List (OrderCommand × Option OkxOrderRequest)),
    node.commands = some (waiting.map .command) ∧
    WholeOutput.commands outs ++ waiting = WholeOutput.publishedCommands outs ∧
    WholeOutput.commands outs = done.map Prod.fst ∧
    WholeOutput.requests outs = done.filterMap Prod.snd ∧
    ∀ cmd request, (cmd, some request) ∈ done →
      ∃ client : OkxClient, client.orderRequest cmd = .ok request

omit [Reqwest] [TickerChannel] [OrderChannel] in
theorem CarriedOut.publish (h : CarriedOut node outs) {node' : WholeNode σ}
    {pubs : List Publication}
    (hpubs : ∀ pub ∈ pubs, pub.subject = ordersCommand → ∃ cmd, pub.payload = .command cmd)
    (hnode : node'.commands = node.commands) :
    CarriedOut (pubs.foldl WholeNode.route node') (outs ++ (pubs.map .published ++ [])) := by
  obtain ⟨waiting, done, hqueue, hcommands, hdone, hrequests, hmade⟩ := h
  have hseen : WholeOutput.commands (outs ++ (pubs.map .published ++ [])) =
      WholeOutput.commands outs :=
    (WholeOutput.seen_published outs pubs []).1.trans (List.append_nil _)
  have hsent : WholeOutput.requests (outs ++ (pubs.map .published ++ [])) =
      WholeOutput.requests outs :=
    (WholeOutput.seen_published outs pubs []).2.trans (List.append_nil _)
  refine ⟨waiting ++ Publication.commands pubs, done, ?_, ?_, ?_, ?_, hmade⟩
  · rw [commands_foldl_route hpubs, hnode, hqueue, Option.map_some, List.map_append]
  · rw [hseen, WholeOutput.publishedCommands_turn outs pubs rfl, ← hcommands, List.append_assoc]
  · rw [hseen, hdone]
  · rw [hsent, hrequests]

omit [TickerChannel] [OrderChannel] in
theorem CarriedOut.execute (h : CarriedOut node outs) {msg : BusPayload} {rest : List BusPayload}
    (hcommands : node.commands = some (msg :: rest)) (now : DateTime)
    (exchange : OkxOrderRequest → Transmission) :
    let turned := ({ node with commands := some rest } : WholeNode σ).execInput
      (.command msg.asCommand now exchange)
    CarriedOut (turned.2.1.foldl WholeNode.route turned.1)
      (outs ++ (turned.2.1.map .published ++ turned.2.2)) := by
  intro turned
  obtain ⟨waiting, done, hqueue, hpublished, hdone, hrequests, hmade⟩ := h
  -- the message is the first command waiting
  obtain ⟨cmd, waiting, rfl⟩ : ∃ cmd rest', waiting = cmd :: rest' := by
    cases waiting with
    | nil => rw [hcommands] at hqueue; cases hqueue
    | cons cmd waiting => exact ⟨cmd, waiting, rfl⟩
  obtain ⟨rfl, rfl⟩ : msg = .command cmd ∧ rest = waiting.map .command := by
    rw [hcommands, List.map_cons, Option.some.injEq] at hqueue
    exact List.cons.inj hqueue
  obtain ⟨hlength, hclient⟩ := handleCommand_submitted node.exec cmd now exchange
  obtain ⟨sent, hsent⟩ : ∃ sent : Option OkxOrderRequest,
      (node.exec.handleCommand cmd now exchange).submitted = sent.toList := by
    cases hlist : (node.exec.handleCommand cmd now exchange).submitted with
    | nil => exact ⟨none, rfl⟩
    | cons request more =>
      rw [hlist] at hlength
      have hmore := List.length_eq_zero_iff.1 (Nat.le_zero.1 (Nat.le_of_succ_le_succ hlength))
      exact ⟨some request, congrArg (request :: ·) hmore⟩
  have hseen : turned.2.2 = .handled cmd :: sent.toList.map .submitted := by
    rw [← hsent, ← requests_emit_command]
    rfl
  have hnone : WholeOutput.publications turned.2.2 = [] := by
    rw [hseen]
    exact WholeOutput.publications_of_seen [cmd] sent.toList
  have hpubs : Publication.commands turned.2.1 = [] :=
    Publication.commands_eq_nil (exec_subject _)
  have hsame : turned.1.Same (turned.2.1.foldl WholeNode.route turned.1) :=
    same_foldl_route (exec_subject _) turned.1
  obtain ⟨hone, hmany⟩ := WholeOutput.handled_submitted cmd sent.toList
  have hcommand : WholeOutput.commands (outs ++ (turned.2.1.map .published ++ turned.2.2)) =
      WholeOutput.commands outs ++ [cmd] := by
    rw [(WholeOutput.seen_published outs turned.2.1 turned.2.2).1, hseen, hone]
  have hrequest : WholeOutput.requests (outs ++ (turned.2.1.map .published ++ turned.2.2)) =
      WholeOutput.requests outs ++ sent.toList := by
    rw [(WholeOutput.seen_published outs turned.2.1 turned.2.2).2, hseen, hmany]
  refine ⟨waiting, done ++ [(cmd, sent)], ?_, ?_, ?_, ?_, ?_⟩
  · rw [hsame.commands]
    rfl
  · rw [hcommand, WholeOutput.publishedCommands_turn outs turned.2.1 hnone, hpubs,
      List.append_nil, ← hpublished, List.append_assoc, List.singleton_append]
  · rw [hcommand, hdone, List.map_append, List.map_singleton]
  · rw [hrequest, hrequests, List.filterMap_append]
    cases sent <;> rfl
  · intro cmd' request hmem
    rcases List.mem_append.1 hmem with hmem | hmem
    · exact hmade cmd' request hmem
    · obtain ⟨rfl, rfl⟩ := Prod.mk.inj (List.mem_singleton.1 hmem)
      refine hclient request ?_
      rw [hsent]
      exact List.mem_singleton.2 rfl

/-- **Every turn keeps it.** -/
theorem CarriedOut.next (h : CarriedOut node outs) (t : NodeTurn) :
    CarriedOut ((wholeNode cfg engine).next node t)
      (outs ++ (wholeNode cfg engine).emit node t) := by
  show CarriedOut
    ((node.turn cfg engine t).2.1.foldl WholeNode.route (node.turn cfg engine t).1)
    (outs ++ ((node.turn cfg engine t).2.1.map .published ++ (node.turn cfg engine t).2.2))
  -- a turn that handles nothing, and leaves the queue alone
  have hquiet : (node.turn cfg engine t).1.commands = node.commands →
      (node.turn cfg engine t).2.2 = [] →
      CarriedOut ((node.turn cfg engine t).2.1.foldl WholeNode.route (node.turn cfg engine t).1)
        (outs ++
          ((node.turn cfg engine t).2.1.map .published ++ (node.turn cfg engine t).2.2)) := by
    intro hnode hseen
    rw [hseen]
    exact h.publish (turn_payloads t) hnode
  by_cases hby : t.Bystander
  · obtain ⟨hsame, -, hseen⟩ := turn_idle cfg engine node hby
    exact hquiet hsame.commands hseen
  cases t with
  | subscribe => refine hquiet ?_ ?_ <;> rw [WholeNode.turn] <;> split <;> rfl
  | strategy task fresh utc => exact hquiet rfl rfl
  | listen =>
    obtain ⟨waiting, done, hqueue, -⟩ := h
    refine hquiet ?_ rfl
    simp only [WholeNode.turn, hqueue, Option.getD_some]
  | execute now exchange =>
    cases hcommands : node.commands with
    | none =>
      refine hquiet ?_ ?_ <;> simp only [WholeNode.turn, hcommands]
    | some queue =>
      cases queue with
      | nil => refine hquiet ?_ ?_ <;> simp only [WholeNode.turn, hcommands]
      | cons msg rest =>
        have hturn : node.turn cfg engine (.execute now exchange) =
            ({ node with commands := some rest } : WholeNode σ).execInput
              (.command msg.asCommand now exchange) := by
          simp only [WholeNode.turn, hcommands]
        rw [hturn]
        exact h.execute hcommands now exchange
  | startup fresh =>
    refine hquiet ?_ ?_ <;> rw [WholeNode.turn] <;> split <;> rfl
  | _ => exact absurd trivial hby

/-- The service does not listen yet, and has not done anything. -/
def Deaf (node : WholeNode σ) (outs : List WholeOutput) : Prop :=
  node.commands = none ∧ WholeOutput.commands outs = [] ∧ WholeOutput.requests outs = []

theorem Deaf.next (h : Deaf node outs) {t : NodeTurn} (ht : t ≠ .listen) :
    Deaf ((wholeNode cfg engine).next node t) (outs ++ (wholeNode cfg engine).emit node t) := by
  obtain ⟨hnone, hcommands, hrequests⟩ := h
  have hturn : (node.turn cfg engine t).1.commands = none ∧ (node.turn cfg engine t).2.2 = [] := by
    by_cases hby : t.Bystander
    · obtain ⟨hsame, -, hseen⟩ := turn_idle cfg engine node hby
      exact ⟨hsame.commands.trans hnone, hseen⟩
    · cases t with
      | subscribe =>
        rw [WholeNode.turn]
        split <;> exact ⟨hnone, rfl⟩
      | strategy task fresh utc => exact ⟨hnone, rfl⟩
      | listen => exact absurd rfl ht
      | execute now exchange =>
        simp only [WholeNode.turn, hnone]
        exact ⟨trivial, trivial⟩
      | startup fresh =>
        rw [WholeNode.turn]
        split <;> exact ⟨hnone, rfl⟩
      | _ => exact absurd trivial hby
  show Deaf ((node.turn cfg engine t).2.1.foldl WholeNode.route (node.turn cfg engine t).1)
    (outs ++ ((node.turn cfg engine t).2.1.map .published ++ (node.turn cfg engine t).2.2))
  obtain ⟨hseen, hsent⟩ := WholeOutput.seen_published outs (node.turn cfg engine t).2.1
    (node.turn cfg engine t).2.2
  refine ⟨?_, ?_, ?_⟩
  · rw [commands_foldl_route (turn_payloads t), hturn.1, Option.map_none]
  · rw [hseen, hcommands, hturn.2]
    rfl
  · rw [hsent, hrequests, hturn.2]
    rfl

/-- The host subscribes. -/
def NodeTurn.isSubscribe : NodeTurn → Bool
  | .subscribe => true
  | _ => false

/-- What the engine without a bus reads at a turn: the host is paused or resumed, or the turn is
that of a task, which calls the engine or does not. -/
def NodeTurn.Reads : NodeTurn → Option EngineInput → Prop
  | .pause paused, i => i = some (.pause paused)
  | .strategy k fresh utc, i => ∀ input ∈ i, ∃ pair snap, input = .call ⟨k, pair, snap, fresh, utc⟩
  | _, i => i = none

/-- The snapshots that have been published since task `k` of the host subscribed, with the `k`-th
subscription after the first. -/
def HeardSince (cfg : NodeConfig) (engine : StrategyEngine σ) (start : WholeNode σ)
    (ts : List NodeTurn) (k : ℕ) (snaps : List MarketSnapshot) : Prop :=
  ∃ pre post, ts = pre ++ .subscribe :: post ∧ pre.countP NodeTurn.isSubscribe = k ∧
    snaps = WholeOutput.snapshots ((wholeNode cfg engine).output
      ((wholeNode cfg engine).run start (pre ++ [.subscribe])) post)

/-- The host has subscribed to the first of its markets, and has done what its engine does call by
call, on the snapshots that its tasks have heard; and the commands published are those of its tasks,
in the order in which they published them, with the one of `main`, once that is out, in between. -/
def Planned (engine : StrategyEngine σ) (init : σ) (pairs served : List PairId)
    (heard : ℕ → List MarketSnapshot) (ts : List NodeTurn) (node : WholeNode σ)
    (outs : List WholeOutput) : Prop :=
  served ++ node.pairs = pairs ∧
  ∃ (inputs : List (Option EngineInput)) (sent : List (Option ℕ × HostOutput)),
    List.Forall₂ NodeTurn.Reads ts inputs ∧
    Sequential engine init served heard inputs.reduceOption
      (fun k => tagged (some k) sent) node.host ∧
    WholeOutput.publishedCommands outs = HostOutput.orders (sent.map Prod.snd) ∧
    ((node.startup = .spawned ∨ node.startup = .asleep) ∧ tagged none sent = [] ∨
      (node.startup = .published ∨ node.startup = .ended) ∧
        ∃ fresh, tagged none sent = [.order (testOrder fresh)])

variable {init : σ} {start : WholeNode σ} {pairs served : List PairId}
  {heard : ℕ → List MarketSnapshot} {ts : List NodeTurn} {t : NodeTurn}

theorem HeardSince.next {k : ℕ} {snaps : List MarketSnapshot}
    (h : HeardSince cfg engine start ts k snaps) (t : NodeTurn) :
    HeardSince cfg engine start (ts ++ [t]) k (snaps ++ Publication.snapshots
      (((wholeNode cfg engine).run start ts).turn cfg engine t).2.1) := by
  obtain ⟨pre, post, rfl, hk, rfl⟩ := h
  refine ⟨pre, post ++ [t], by rw [List.append_assoc, List.cons_append], hk, ?_⟩
  rw [Machine.output_concat, ← Machine.run_append, List.append_assoc, List.singleton_append]
  exact (WholeOutput.snapshots_turn _ _ (turn_seen t)).symm

theorem HeardSince.subscribe (cfg : NodeConfig) (engine : StrategyEngine σ)
    (start : WholeNode σ) (ts : List NodeTurn) :
    HeardSince cfg engine start (ts ++ [.subscribe]) (ts.countP NodeTurn.isSubscribe) [] :=
  ⟨ts, [], rfl, rfl, rfl⟩

omit [Reqwest] [TickerChannel] [OrderChannel] in
theorem pairs_foldl_route (pubs : List Publication) (node : WholeNode σ) :
    (pubs.foldl WholeNode.route node).pairs = node.pairs := by
  induction pubs generalizing node with
  | nil => rfl
  | cons pub pubs ih => exact ih (node.route pub)

omit [Reqwest] [TickerChannel] [OrderChannel] in
theorem Sequential.deliverAll {is : List EngineInput} {sent : ℕ → List HostOutput}
    {host : StrategyHost σ} (h : Sequential engine init served heard is sent host)
    (snaps : List MarketSnapshot) :
    Sequential engine init served (fun k => heard k ++ snaps) is sent
      (snaps.foldl StrategyHost.deliver host) := by
  induction snaps generalizing heard host with
  | nil =>
    simp only [List.append_nil]
    exact h
  | cons snap snaps ih =>
    simp only [List.append_cons _ snap snaps]
    exact ih (h.deliver snap)

/-- What a turn is for the engine, if it is not that of a task and no subscription. -/
theorem turn_host (cfg : NodeConfig) (engine : StrategyEngine σ) (node : WholeNode σ) (init : σ)
    (served : List PairId) (ht : ∀ task fresh utc, t ≠ .strategy task fresh utc)
    (hsubscribe : t ≠ .subscribe) :
    ∃ i, t.Reads i ∧ ∀ {heard is sent},
      Sequential engine init served heard is sent node.host →
        Sequential engine init served heard (is ++ i.toList) sent
          (node.turn cfg engine t).1.host := by
  have hsame : ∀ {host : StrategyHost σ}, host = node.host → ∀ {heard is sent},
      Sequential engine init served heard is sent node.host →
        Sequential engine init served heard (is ++ (none : Option EngineInput).toList) sent
          host := by
    rintro host rfl heard is sent h
    rw [Option.toList_none, List.append_nil]
    exact h
  cases t with
  | strategy task fresh utc => exact absurd rfl (ht task fresh utc)
  | subscribe => exact absurd rfl hsubscribe
  | pause paused => exact ⟨some (.pause paused), rfl, fun h => h.pause paused⟩
  | block value => cases value <;> exact ⟨none, rfl, hsame rfl⟩
  | simulatedFeed subs stamp =>
    refine ⟨none, rfl, hsame ?_⟩
    rw [WholeNode.turn]
    split_ifs <;> rfl
  | okxFeed txt stamp =>
    refine ⟨none, rfl, hsame ?_⟩
    rw [WholeNode.turn]
    split_ifs <;> rfl
  | backtest k =>
    refine ⟨none, rfl, hsame ?_⟩
    rw [WholeNode.turn]
    split <;> rfl
  | execute now exchange =>
    refine ⟨none, rfl, hsame ?_⟩
    rw [WholeNode.turn]
    split <;> rfl
  | startup fresh =>
    refine ⟨none, rfl, hsame ?_⟩
    rw [WholeNode.turn]
    split <;> rfl
  | _ => exact ⟨none, rfl, hsame rfl⟩

theorem turn_pairs (cfg : NodeConfig) (engine : StrategyEngine σ) (node : WholeNode σ)
    (hsubscribe : t ≠ .subscribe) : (node.turn cfg engine t).1.pairs = node.pairs := by
  cases t with
  | subscribe => exact absurd rfl hsubscribe
  | block value => cases value <;> rfl
  | simulatedFeed subs stamp =>
    rw [WholeNode.turn]
    split_ifs <;> rfl
  | okxFeed txt stamp =>
    rw [WholeNode.turn]
    split_ifs <;> rfl
  | backtest k =>
    rw [WholeNode.turn]
    split <;> rfl
  | execute now exchange =>
    rw [WholeNode.turn]
    split <;> rfl
  | startup fresh =>
    rw [WholeNode.turn]
    split <;> rfl
  | _ => rfl

/-- A turn that publishes no command, and is neither that of a task nor a subscription. -/
theorem Planned.quiet (h : Planned engine init pairs served heard ts node outs)
    (ht : ∀ task fresh utc, t ≠ .strategy task fresh utc) (hsubscribe : t ≠ .subscribe)
    (hstartup : (node.startup = .spawned ∨ node.startup = .asleep ↔
        (node.turn cfg engine t).1.startup = .spawned ∨
          (node.turn cfg engine t).1.startup = .asleep) ∧
      (node.startup = .published ∨ node.startup = .ended ↔
        (node.turn cfg engine t).1.startup = .published ∨
          (node.turn cfg engine t).1.startup = .ended))
    (hcommands : Publication.commands (node.turn cfg engine t).2.1 = []) :
    Planned engine init pairs served
      (fun k => heard k ++ Publication.snapshots (node.turn cfg engine t).2.1) (ts ++ [t])
      ((node.turn cfg engine t).2.1.foldl WholeNode.route (node.turn cfg engine t).1)
      (outs ++ ((node.turn cfg engine t).2.1.map .published ++ (node.turn cfg engine t).2.2)) := by
  obtain ⟨hpairs, inputs, sent, hreads, hhost, hpublished, htest⟩ := h
  obtain ⟨i, hi, hturn⟩ := turn_host cfg engine node init served ht hsubscribe
  have hseen : WholeOutput.publications (node.turn cfg engine t).2.2 = [] := turn_seen t
  refine ⟨?_, inputs ++ [i], sent, List.rel_append hreads (.cons hi .nil), ?_, ?_, ?_⟩
  · rw [pairs_foldl_route, turn_pairs cfg engine node hsubscribe, hpairs]
  · rw [host_foldl_route, List.reduceOption_append]
    cases i <;> exact (hturn hhost).deliverAll _
  · rw [WholeOutput.publishedCommands_turn outs _ hseen, hcommands, List.append_nil, hpublished]
  · rw [startup_foldl_route, ← hstartup.1, ← hstartup.2]
    exact htest

theorem Planned.strategy (h : Planned engine init pairs served heard ts node outs) (k : ℕ)
    (fresh : TraceId) (utc : DateTime) :
    let turned := node.turn cfg engine (.strategy k fresh utc)
    Planned engine init pairs served (fun k => heard k ++ Publication.snapshots turned.2.1)
      (ts ++ [.strategy k fresh utc]) (turned.2.1.foldl WholeNode.route turned.1)
      (outs ++ (turned.2.1.map .published ++ turned.2.2)) := by
  obtain ⟨hpairs, inputs, sent, hreads, hhost, hpublished, htest⟩ := h
  obtain ⟨i, hi, hturn⟩ := hhost.turn k fresh utc
  set out := (node.host.step engine k fresh utc).2 with hout
  intro turned
  have hpubs : turned.2.1 = (out.map HostOutput.publication).toList := rfl
  have hsnapshots : Publication.snapshots turned.2.1 = [] := by
    rw [hpubs]
    cases out with
    | none => rfl
    | some out => cases out <;> rfl
  have hcommands : Publication.commands turned.2.1 = HostOutput.orders out.toList := by
    rw [hpubs]
    cases out with
    | none => rfl
    | some out => cases out <;> rfl
  refine ⟨?_, inputs ++ [i], sent ++ out.toList.map (some k, ·),
    List.rel_append hreads (.cons hi .nil), ?_, ?_, ?_⟩
  · rw [pairs_foldl_route]
    exact hpairs
  · rw [host_foldl_route, hsnapshots, List.reduceOption_append]
    simp only [List.append_nil]
    have hsent : (fun j => tagged (some j) (sent ++ out.toList.map (some k, ·))) =
        Function.update (fun j => tagged (some j) sent) k (tagged (some k) sent ++ out.toList) := by
      funext j
      rw [tagged_append]
      by_cases hj : j = k
      · subst hj
        rw [tagged_map_self, Function.update_self]
      · rw [tagged_map_ne fun heq => hj (Option.some.inj heq).symm, List.append_nil,
          Function.update_of_ne hj]
    rw [hsent]
    cases i <;> exact hturn
  · rw [WholeOutput.publishedCommands_turn outs _ rfl, hcommands, hpublished, List.map_append,
      List.map_map]
    simp [HostOutput.orders, Function.comp_def]
  · rw [startup_foldl_route, tagged_append, tagged_map_ne (by simp), List.append_nil]
    exact htest

omit [Reqwest] [TickerChannel] [OrderChannel] in
theorem Planned.publish (h : Planned engine init pairs served heard ts node outs)
    (hasleep : node.startup = .asleep) (fresh : TraceId) :
    Planned engine init pairs served heard (ts ++ [.startup fresh])
      (WholeNode.route { node with startup := .published }
        ⟨ordersCommand, .command (testOrder fresh)⟩)
      (outs ++ ([.published ⟨ordersCommand, .command (testOrder fresh)⟩] ++ [])) := by
  obtain ⟨hpairs, inputs, sent, hreads, hhost, hpublished, htest⟩ := h
  have hnone : tagged none sent = [] := by
    rcases htest with ⟨-, hnone⟩ | ⟨hstartup, -⟩
    · exact hnone
    · rw [hasleep] at hstartup
      rcases hstartup with hs | hs <;> cases hs
  set pub : Publication := ⟨ordersCommand, .command (testOrder fresh)⟩
  have hcommands : WholeOutput.publishedCommands (outs ++ ([.published pub] ++ [])) =
      WholeOutput.publishedCommands outs ++ [testOrder fresh] :=
    WholeOutput.publishedCommands_turn outs [pub] rfl
  refine ⟨hpairs, inputs ++ [none], sent ++ [(none, .order (testOrder fresh))],
    List.rel_append hreads (.cons rfl .nil), ?_, ?_, ?_⟩
  · have hsent : (fun k : ℕ => tagged (some k) (sent ++ [(none, .order (testOrder fresh))])) =
        fun k => tagged (some k) sent :=
      funext fun k => tagged_concat_ne (by simp) sent _
    have hinputs : (inputs ++ [none]).reduceOption = inputs.reduceOption := by
      rw [List.reduceOption_append]
      exact List.append_nil _
    rw [hsent, hinputs]
    exact hhost
  · rw [hcommands, hpublished]
    simp [HostOutput.orders]
  · refine Or.inr ⟨Or.inl rfl, fresh, ?_⟩
    rw [tagged_concat_self, hnone, List.nil_append]

/-- Every turn that is no subscription keeps it; the tasks hear what is published. -/
theorem Planned.next (h : Planned engine init pairs served heard ts node outs)
    (hsubscribe : t ≠ .subscribe) :
    Planned engine init pairs served
      (fun k => heard k ++ Publication.snapshots (node.turn cfg engine t).2.1) (ts ++ [t])
      ((wholeNode cfg engine).next node t) (outs ++ (wholeNode cfg engine).emit node t) := by
  show Planned engine init pairs served _ (ts ++ [t])
    ((node.turn cfg engine t).2.1.foldl WholeNode.route (node.turn cfg engine t).1)
    (outs ++ ((node.turn cfg engine t).2.1.map .published ++ (node.turn cfg engine t).2.2))
  by_cases hby : t.Bystander
  · obtain ⟨hsame, hsubjects, -⟩ := turn_idle cfg engine node hby
    refine h.quiet ?_ hsubscribe ?_ (Publication.commands_eq_nil hsubjects)
    · rintro task fresh utc rfl
      exact hby
    · rw [hsame.startup]
      exact ⟨Iff.rfl, Iff.rfl⟩
  cases t with
  | subscribe => exact absurd rfl hsubscribe
  | strategy task fresh utc => exact h.strategy task fresh utc
  | listen => exact h.quiet (by simp) hsubscribe ⟨Iff.rfl, Iff.rfl⟩ rfl
  | execute now exchange =>
    refine h.quiet (by simp) hsubscribe ?_ ?_ <;> rw [WholeNode.turn] <;> split
    · exact ⟨Iff.rfl, Iff.rfl⟩
    · exact ⟨Iff.rfl, Iff.rfl⟩
    · exact Publication.commands_eq_nil (exec_subject _)
    · rfl
  | startup fresh =>
    cases hstartup : node.startup with
    | asleep =>
      have hturn : node.turn cfg engine (.startup fresh) =
          ({ node with startup := .published },
            [⟨ordersCommand, .command (testOrder fresh)⟩], []) := by
        simp only [WholeNode.turn, hstartup]
      have hsnapshots : Publication.snapshots
          [⟨ordersCommand, .command (testOrder fresh)⟩] = [] := rfl
      rw [hturn]
      simp only [hsnapshots, List.append_nil]
      exact h.publish hstartup fresh
    | _ =>
      refine h.quiet (by simp) hsubscribe ?_ ?_
      · simp [WholeNode.turn, hstartup]
      · simp only [WholeNode.turn, hstartup]
        rfl
  | _ => exact absurd trivial hby

theorem Planned.subscribe (h : Planned engine init pairs served heard ts node outs)
    (cfg : NodeConfig) :
    (node.pairs = [] ∧ Planned engine init pairs served heard (ts ++ [.subscribe])
      ((wholeNode cfg engine).next node .subscribe)
      (outs ++ (wholeNode cfg engine).emit node .subscribe)) ∨
    ∃ pair, pair ∈ node.pairs.head? ∧ Planned engine init pairs (served ++ [pair])
      (Function.update heard served.length []) (ts ++ [.subscribe])
      ((wholeNode cfg engine).next node .subscribe)
      (outs ++ (wholeNode cfg engine).emit node .subscribe) := by
  obtain ⟨hpairs, inputs, sent, hreads, hhost, hpublished, htest⟩ := h
  have hrest : (inputs ++ [none]).reduceOption = inputs.reduceOption := by
    rw [List.reduceOption_append]
    exact List.append_nil _
  have hreads' : List.Forall₂ NodeTurn.Reads (ts ++ [.subscribe]) (inputs ++ [none]) :=
    List.rel_append hreads (.cons rfl .nil)
  rw [Machine.next, Machine.emit]
  cases hleft : node.pairs with
  | nil =>
    have hstep : (wholeNode cfg engine).step node .subscribe = (node, []) := by
      simp only [wholeNode, WholeNode.turn, hleft]
      rfl
    refine Or.inl ⟨rfl, ?_⟩
    rw [hstep, List.append_nil]
    exact ⟨hpairs, inputs ++ [none], sent, hreads', hrest ▸ hhost, hpublished, htest⟩
  | cons pair left =>
    have hstep : (wholeNode cfg engine).step node .subscribe =
        ({ node with host := node.host.subscribe pair, pairs := left }, []) := by
      simp only [wholeNode, WholeNode.turn, hleft]
      rfl
    refine Or.inr ⟨pair, rfl, ?_⟩
    rw [hstep, List.append_nil]
    refine ⟨?_, inputs ++ [none], sent, hreads', hrest ▸ hhost.subscribe pair, hpublished, htest⟩
    rw [List.append_assoc, List.singleton_append, ← hleft, hpairs]

end Turns

end W2uos
