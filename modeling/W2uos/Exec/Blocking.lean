import W2uos.Exec.Neutral
import W2uos.Net.Shaper

/-!
# The block flag between awaits

`handle_command` reads the block flag once, first thing.  After that it awaits the configuration
and the client, sleeps for the jitter, waits for a permit and for the connection, or awaits the fill
counter and the ledger; the tasks that store the flag may run at every one of these points.

Here the run loop is cut at its awaits.  As far as the outcome goes the cuts do not matter: it is
as if every command were handled at once when it is taken (`linearized`).  But the order or the fill
takes effect later, when the flag may have been stored; `blockMeansBlock_iff` says exactly when
block means block all the same.

The traffic shaper panics for an empty range of jitter and for more permits than a semaphore can
have.  The panic takes the run loop with it: the command in progress comes to nothing, and no other
is taken.  The tasks that store the flag go on.
-/

namespace W2uos

/-! ### The run loop between awaits -/

/-- A command the run loop has taken, the time its result is made at, and what the exchange does
with a request. -/
structure TakenCommand where
  cmd : OrderCommand
  now : DateTime
  exchange : OkxOrderRequest → Transmission

/-- What the run loop awaits while it handles a command. -/
inductive ExecPoint
  /-- The lock of the configuration. -/
  | config
  /-- The lock of the client. -/
  | client
  /-- The end of the jitter. -/
  | jitter (client : OkxClient) (request : OkxOrderRequest)
  /-- A permit of the traffic shaper. -/
  | permit (client : OkxClient) (request : OkxOrderRequest)
  /-- The request to go out. -/
  | send (client : OkxClient) (request : OkxOrderRequest)
  /-- The answer of the exchange. -/
  | answer (answer : Except String OkxOrderResponse)
  /-- Nothing: the shaper of the client has panicked. -/
  | panicked (client : OkxClient)
  /-- The lock of the fill counter. -/
  | price
  /-- The lock of the ledger. -/
  | ledger (fillPrice : ℚ)

/-- The run loop with the command in progress, the requests that have reached the exchange, and the
results. -/
structure RunLoop where
  service : ExecutionService
  current : Option (TakenCommand × ExecPoint)
  submitted : List OkxOrderRequest
  results : List OrderResult

/-- A run loop that has not yet taken a command. -/
def RunLoop.start (s : ExecutionService) : RunLoop where
  service := s
  current := none
  submitted := []
  results := []

/-- What happens: the run loop takes a command, goes on to its next await, or takes a configuration
update; the block task stores `true`, or the reset task `false`. -/
inductive RunAction
  | take (t : TakenCommand)
  | advance
  | configUpdate (newCfg : ExecutionConfig)
  | block
  | reset

/-- `acquire_permit` panics when it makes the semaphore of its target, which then is not there the
next time either. -/
def TrafficShaper.permitPanics (shaper : TrafficShaper) : Bool :=
  match shaper.profile.maxParallelRequestsPerTarget with
  | some limit => maxPermits < limit
  | none => false

/-- A request of the client panics. -/
def OkxClient.panics (client : OkxClient) : Bool :=
  client.trafficShaper.jitterPanics || client.trafficShaper.permitPanics

section Blocking

variable [CaseTable]

/-- The fill at the given price, and its result. -/
def ExecutionService.settle (s : ExecutionService) (cmd : OrderCommand) (fillPrice : ℚ)
    (now : DateTime) : Handled :=
  let (state, status) := s.state.fill cmd fillPrice
  let filled := status = .filled
  { service := { s with state := state }
    submitted := []
    result := .ok (cmd.result status (if filled then cmd.sizeQuote else 0)
      (if filled then fillPrice else 0) now) }

omit [CaseTable] in
/-- Where the simulator begins: a limit price needs no lock. -/
def ExecPoint.simulator (cmd : OrderCommand) : ExecPoint :=
  match cmd.limitPrice with
  | some fillPrice => .ledger fillPrice
  | none => .price

namespace RunLoop

omit [CaseTable] in
/-- Go on with the command in progress. -/
def goOn (u : RunLoop) (t : TakenCommand) (p : ExecPoint) : RunLoop :=
  { u with current := some (t, p) }

omit [CaseTable] in
/-- `handle_command` returns. -/
def finish (u : RunLoop) (h : Handled) : RunLoop where
  service := h.service
  current := none
  submitted := u.submitted ++ h.submitted
  results := u.results ++ h.result.toOption.toList

/-- Take a command and read the flag. -/
def take (u : RunLoop) (t : TakenCommand) : Option RunLoop :=
  match u.current with
  | some _ => none
  | none =>
    if u.service.blockNewOrders then
      some (u.finish ⟨u.service, [],
        .ok (t.cmd.result (.rejected "circuit breaker active") 0 0 t.now)⟩)
    else some (u.goOn t .config)

/-- Go on to the next await. -/
def advance (u : RunLoop) : Option RunLoop :=
  match u.current with
  | none => none
  | some (t, .config) =>
    match u.service.config.mode with
    | .liveOkx => some (u.goOn t .client)
    | .simulated => some (u.goOn t (.simulator t.cmd))
  | some (t, .client) =>
    match u.service.okxClient with
    | none => some (u.goOn t (.simulator t.cmd))
    | some client =>
      match client.orderRequest t.cmd with
      | .error err => some (u.finish ⟨u.service, [], .error err⟩)
      | .ok request =>
        if client.trafficShaper.jitterPanics then some (u.goOn t (.panicked client))
        else
          match client.trafficShaper.profile.requestJitterMs with
          | some _ => some (u.goOn t (.jitter client request))
          | none => some (u.goOn t (.permit client request))
  | some (t, .jitter client request) => some (u.goOn t (.permit client request))
  | some (t, .permit client request) =>
    -- there is no other command that could hold a permit
    if client.trafficShaper.profile.maxParallelRequestsPerTarget = some 0 then none
    else if client.trafficShaper.permitPanics then some (u.goOn t (.panicked client))
    else some (u.goOn t (.send client request))
  | some (t, .send _ request) =>
    match t.exchange request with
    | .unsent err => some (u.finish ⟨u.service, [], .error err⟩)
    | .sent answer =>
      some ({ u with submitted := u.submitted ++ [request] }.goOn t (.answer answer))
  | some (t, .answer answer) =>
    some (u.finish ⟨u.service, [], answer.map fun resp => t.cmd.result resp.status 0 0 t.now⟩)
  | some (_, .panicked _) => none
  | some (t, .price) =>
    let (fillPrice, s) := u.service.nextFillPrice t.cmd.limitPrice
    some ({ u with service := s }.goOn t (.ledger fillPrice))
  | some (t, .ledger fillPrice) => some (u.finish (u.service.settle t.cmd fillPrice t.now))

end RunLoop

variable [Reqwest]

/-- The run loop with the block and reset tasks. -/
def runLoop : Interleaving RunLoop RunAction where
  step u
    | .take t => u.take t
    | .advance => u.advance
    | .configUpdate newCfg =>
      match u.current with
      | some _ => none
      | none => some { u with service := u.service.updateConfig newCfg }
    | .block => some { u with service := { u.service with blockNewOrders := true } }
    | .reset => some { u with service := { u.service with blockNewOrders := false } }

/-! ### The outcome -/

omit [Reqwest] in
/-- Send a request and read the answer. -/
def TakenCommand.transmit (t : TakenCommand) (s : ExecutionService) (request : OkxOrderRequest) :
    Handled :=
  match t.exchange request with
  | .unsent err => ⟨s, [], .error err⟩
  | .sent answer =>
    ⟨s, [request], answer.map fun resp => t.cmd.result resp.status 0 0 t.now⟩

/-- A command that comes to nothing. -/
def ExecutionService.lose (s : ExecutionService) : Handled where
  service := s
  submitted := []
  result := .error "panicked"

omit [Reqwest] in
/-- Wait for a permit, send a request and read the answer. -/
def TakenCommand.permitted (t : TakenCommand) (s : ExecutionService) (client : OkxClient)
    (request : OkxOrderRequest) : Handled :=
  if client.trafficShaper.permitPanics then s.lose else t.transmit s request

omit [Reqwest] in
/-- Submit an order. -/
def TakenCommand.submitted (t : TakenCommand) (s : ExecutionService) (client : OkxClient) :
    Handled :=
  if (client.orderRequest t.cmd).isOk && client.panics then s.lose
  else s.submit client t.cmd t.now t.exchange

omit [Reqwest] in
/-- What is left of a command at a point: all that will have been done from there on. -/
def TakenCommand.rest (t : TakenCommand) (s : ExecutionService) : ExecPoint → Handled
  | .config =>
    match s.config.mode, s.okxClient with
    | .liveOkx, some client => t.submitted s client
    | .liveOkx, none => s.simulate t.cmd t.now
    | .simulated, _ => s.simulate t.cmd t.now
  | .client =>
    match s.okxClient with
    | some client => t.submitted s client
    | none => s.simulate t.cmd t.now
  | .jitter client request => t.permitted s client request
  | .permit client request => t.permitted s client request
  | .send _ request => t.transmit s request
  | .answer answer => ⟨s, [], answer.map fun resp => t.cmd.result resp.status 0 0 t.now⟩
  | .panicked _ => s.lose
  | .price => s.simulate t.cmd t.now
  | .ledger fillPrice => s.settle t.cmd fillPrice t.now

omit [Reqwest] in
/-- The request of a command would panic. -/
def ExecutionService.panics (s : ExecutionService) (cmd : OrderCommand) : Bool :=
  match s.blockNewOrders, s.config.mode, s.okxClient with
  | false, .liveOkx, some client => (client.orderRequest cmd).isOk && client.panics
  | _, _, _ => false

omit [Reqwest] in
/-- What the run loop will have come to when it is done with the command in progress. -/
def RunLoop.settled (u : RunLoop) : RunLoop :=
  match u.current with
  | none => u
  | some (t, p) => u.finish (t.rest u.service p)

omit [Reqwest] in
theorem ExecutionService.simulate_eq_settle (s : ExecutionService) (cmd : OrderCommand)
    (now : DateTime) :
    s.simulate cmd now =
      (s.nextFillPrice cmd.limitPrice).2.settle cmd (s.nextFillPrice cmd.limitPrice).1 now := by
  unfold simulate settle
  rfl

omit [Reqwest] in
theorem TakenCommand.rest_simulator (t : TakenCommand) (s : ExecutionService) :
    t.rest s (.simulator t.cmd) = s.simulate t.cmd t.now := by
  unfold ExecPoint.simulator
  cases hlimit : t.cmd.limitPrice with
  | none => rfl
  | some fillPrice =>
    rw [s.simulate_eq_settle, hlimit]
    rfl

omit [Reqwest] in
theorem TakenCommand.submitted_eq (t : TakenCommand) (s : ExecutionService) (client : OkxClient) :
    t.submitted s client =
      match client.orderRequest t.cmd with
      | .error err => ⟨s, [], .error err⟩
      | .ok request =>
        if client.trafficShaper.jitterPanics then s.lose else t.permitted s client request := by
  unfold submitted permitted ExecutionService.submit OkxClient.placeOrder transmit OkxClient.panics
  cases client.orderRequest t.cmd with
  | error err => rfl
  | ok request =>
    cases client.trafficShaper.jitterPanics with
    | true => rfl
    | false =>
      cases client.trafficShaper.permitPanics with
      | true => rfl
      | false => cases hsent : t.exchange request <;> simp [hsent, Except.map, Except.isOk,
          Except.toBool]

omit [Reqwest] in
/-- Going on from the lock of the client does not change the outcome. -/
theorem RunLoop.client_settled {u v : RunLoop} {t : TakenCommand}
    (hcurrent : u.current = some (t, .client)) (h : u.advance = some v) :
    v.settled = u.settled := by
  obtain ⟨s, current, submitted, results⟩ := u
  obtain rfl : current = some (t, .client) := hcurrent
  unfold RunLoop.advance at h
  dsimp only at h
  cases hclient : s.okxClient with
  | none =>
    rw [hclient] at h
    cases h
    simp only [settled, goOn, TakenCommand.rest_simulator]
    simp only [TakenCommand.rest, hclient]
    rfl
  | some client =>
    rw [hclient] at h
    dsimp only at h
    simp only [settled, TakenCommand.rest, hclient, t.submitted_eq s client]
    cases hrequest : client.orderRequest t.cmd with
    | error err =>
      rw [hrequest] at h
      cases h
      rfl
    | ok request =>
      rw [hrequest] at h
      dsimp only at h
      split_ifs at h with hpanics
      · cases h
        simp only [if_pos hpanics]
        rfl
      simp only [if_neg hpanics]
      cases hjitter : client.trafficShaper.profile.requestJitterMs with
      | none =>
        rw [hjitter] at h
        cases h
        rfl
      | some delay =>
        rw [hjitter] at h
        cases h
        rfl

omit [Reqwest] in
/-- **Going on does not change the outcome.** -/
theorem RunLoop.advance_settled {u v : RunLoop} (h : u.advance = some v) :
    v.settled = u.settled := by
  obtain ⟨s, current, submitted, results⟩ := u
  unfold RunLoop.advance at h
  match current with
  | none => cases h
  | some (t, .config) =>
    dsimp only at h
    cases hmode : s.config.mode with
    | liveOkx =>
      rw [hmode] at h
      cases h
      simp only [settled, goOn, TakenCommand.rest, hmode]
      cases s.okxClient <;> rfl
    | simulated =>
      rw [hmode] at h
      cases h
      simp only [settled, goOn, TakenCommand.rest_simulator]
      simp only [TakenCommand.rest, hmode]
      rfl
  | some (t, .client) => exact client_settled rfl h
  | some (t, .jitter client request) =>
    cases h
    rfl
  | some (t, .permit client request) =>
    dsimp only at h
    simp only [settled, TakenCommand.rest, TakenCommand.permitted]
    split_ifs at h with hzero hpanics
    · cases h
      rw [if_pos hpanics]
      rfl
    · cases h
      rw [if_neg hpanics]
      rfl
  | some (t, .send client request) =>
    dsimp only at h
    simp only [settled, TakenCommand.rest, TakenCommand.transmit]
    cases hsent : t.exchange request with
    | unsent err =>
      rw [hsent] at h
      cases h
      rfl
    | sent answer =>
      rw [hsent] at h
      cases h
      simp [goOn, finish]
  | some (t, .answer answer) =>
    cases h
    rfl
  | some (t, .panicked client) => cases h
  | some (t, .price) =>
    cases h
    simp only [settled, goOn, TakenCommand.rest, s.simulate_eq_settle]
    rfl
  | some (t, .ledger fillPrice) =>
    cases h
    rfl

omit [Reqwest] in
/-- A command does not see a store of the flag once it has been taken. -/
theorem TakenCommand.rest_store (t : TakenCommand) (s : ExecutionService) (p : ExecPoint)
    (flag : Bool) :
    t.rest { s with blockNewOrders := flag } p =
      { t.rest s p with
        service := { (t.rest s p).service with blockNewOrders := flag } } := by
  have hsimulate : { s with blockNewOrders := flag }.simulate t.cmd t.now =
      { s.simulate t.cmd t.now with
        service := { (s.simulate t.cmd t.now).service with blockNewOrders := flag } } := by
    unfold ExecutionService.simulate ExecutionService.nextFillPrice
    cases t.cmd.limitPrice <;> rfl
  have htransmit : ∀ request, t.transmit { s with blockNewOrders := flag } request =
      { t.transmit s request with
        service := { (t.transmit s request).service with blockNewOrders := flag } } := by
    intro request
    unfold TakenCommand.transmit
    cases t.exchange request <;> rfl
  have hpermitted : ∀ client request,
      t.permitted { s with blockNewOrders := flag } client request =
        { t.permitted s client request with
          service := { (t.permitted s client request).service with blockNewOrders := flag } } := by
    intro client request
    unfold TakenCommand.permitted
    split_ifs
    · rfl
    · exact htransmit request
  have hsubmitted : ∀ client, t.submitted { s with blockNewOrders := flag } client =
      { t.submitted s client with
        service := { (t.submitted s client).service with blockNewOrders := flag } } := by
    intro client
    unfold TakenCommand.submitted
    split_ifs <;> rfl
  obtain ⟨⟨_, _, _, mode, _⟩, _, _, _, _, _, okxClient⟩ := s
  cases p with
  | config =>
    cases mode with
    | simulated => exact hsimulate
    | liveOkx =>
      cases okxClient with
      | none => exact hsimulate
      | some client => exact hsubmitted client
  | client =>
    cases okxClient with
    | none => exact hsimulate
    | some client => exact hsubmitted client
  | jitter client request => exact hpermitted client request
  | permit client request => exact hpermitted client request
  | panicked client => rfl
  | send _ request => exact htransmit request
  | answer answer => rfl
  | price => exact hsimulate
  | ledger fillPrice => rfl

omit [Reqwest] in
theorem RunLoop.settled_store (u : RunLoop) (flag : Bool) :
    { u with service := { u.service with blockNewOrders := flag } }.settled =
      { u.settled with
        service := { u.settled.service with blockNewOrders := flag } } := by
  obtain ⟨s, current, submitted, results⟩ := u
  cases current with
  | none => rfl
  | some c =>
    obtain ⟨t, p⟩ := c
    show RunLoop.finish _ (t.rest { s with blockNewOrders := flag } p) = _
    rw [t.rest_store]
    rfl

omit [Reqwest] in
/-- **Taking a command** comes to handling it at once, unless it panics. -/
theorem RunLoop.take_settled {u v : RunLoop} {t : TakenCommand} (h : u.take t = some v) :
    v.settled = u.settled.finish
      (if u.settled.service.panics t.cmd then u.settled.service.lose
      else u.settled.service.handleCommand t.cmd t.now t.exchange) := by
  obtain ⟨s, current, submitted, results⟩ := u
  unfold RunLoop.take at h
  cases current with
  | some c => cases h
  | none =>
    dsimp only at h
    cases hblock : s.blockNewOrders with
    | true =>
      rw [hblock, if_pos rfl] at h
      cases h
      simp only [settled, ExecutionService.handleCommand, ExecutionService.panics, hblock]
      rfl
    | false =>
      rw [hblock, if_neg Bool.false_ne_true] at h
      cases h
      simp only [settled, goOn, ExecutionService.handleCommand, ExecutionService.panics, hblock,
        TakenCommand.rest, TakenCommand.submitted]
      cases s.config.mode with
      | simulated => rfl
      | liveOkx => cases s.okxClient <;> rfl

omit [CaseTable] [Reqwest] in
/-- The input of the service an action stands for. -/
def RunAction.input : RunAction → Option ExecInput
  | .take t => some (.command (.ok t.cmd) t.now t.exchange)
  | .advance => none
  | .configUpdate newCfg => some (.configUpdate (some newCfg))
  | .block => some .blockNewOrders
  | .reset => some .resetCircuit

omit [CaseTable] [Reqwest] in
/-- The requests that have reached the exchange. -/
def ExecOutput.requests (os : List ExecOutput) : List OkxOrderRequest :=
  os.filterMap fun
    | .submit request => some request
    | _ => none

omit [CaseTable] [Reqwest] in
theorem requests_append (os ps : List ExecOutput) :
    ExecOutput.requests (os ++ ps) = ExecOutput.requests os ++ ExecOutput.requests ps :=
  List.filterMap_append

theorem requests_emit_command (s : ExecutionService) (cmd : OrderCommand) (now : DateTime)
    (exchange : OkxOrderRequest → Transmission) :
    ExecOutput.requests (executionService.emit s (.command (.ok cmd) now exchange)) =
      (s.handleCommand cmd now exchange).submitted := by
  have hmessages :
      ExecOutput.requests ((s.handleCommand cmd now exchange).messages cmd now) = [] := by
    unfold Handled.messages
    cases (s.handleCommand cmd now exchange).result <;> rfl
  rw [ExecOutput.requests, filterMap_emit_command, ← ExecOutput.requests, hmessages,
    List.append_nil]
  exact List.filterMap_some

/-- The inputs of the service, in the order of a schedule, each command at the place where it is
taken. -/
def inputsOf (as : List RunAction) : List ExecInput := as.filterMap RunAction.input

/-- The service that handles its inputs at once.  A command whose request panics comes to
nothing. -/
def atOnce : Machine ExecutionService ExecInput ExecOutput where
  step s
    | .command (.ok cmd) now exchange =>
      if s.panics cmd then (s, []) else executionService.step s (.command (.ok cmd) now exchange)
    | i => executionService.step s i

/-- The run loop will have come to what the service comes to on the inputs `is`. -/
structure Linear (s : ExecutionService) (is : List ExecInput) (u : RunLoop) : Prop where
  service : u.settled.service = atOnce.run s is
  submitted : u.settled.submitted = ExecOutput.requests (atOnce.output s is)
  results : u.settled.results = ExecOutput.results (atOnce.output s is)

theorem Linear.concat {s : ExecutionService} {is : List ExecInput} {u v : RunLoop} {i : ExecInput}
    (h : Linear s is u) (hservice : v.settled.service = atOnce.next u.settled.service i)
    (hsubmitted : v.settled.submitted =
      u.settled.submitted ++ ExecOutput.requests (atOnce.emit u.settled.service i))
    (hresults : v.settled.results =
      u.settled.results ++ ExecOutput.results (atOnce.emit u.settled.service i)) :
    Linear s (is ++ [i]) v := by
  refine ⟨?_, ?_, ?_⟩
  · rw [hservice, Machine.run_concat, h.service]
  · rw [hsubmitted, Machine.output_concat, requests_append, h.submitted, h.service]
  · rw [hresults, Machine.output_concat, results_append, h.results, h.service]

theorem Linear.store {s : ExecutionService} {is : List ExecInput} {u : RunLoop} {i : ExecInput}
    {flag : Bool} (h : Linear s is u)
    (hi : atOnce.step u.settled.service i =
      ({ u.settled.service with blockNewOrders := flag }, [])) :
    Linear s (is ++ [i]) { u with service := { u.service with blockNewOrders := flag } } := by
  have hemit : atOnce.emit u.settled.service i = [] := by
    rw [Machine.emit, hi]
  refine h.concat ?_ ?_ ?_
  · rw [u.settled_store, Machine.next, hi]
  · rw [u.settled_store, hemit]
    exact (List.append_nil _).symm
  · rw [u.settled_store, hemit]
    exact (List.append_nil _).symm

/-- **Commands are linearized where they are taken**: whatever happens between its awaits, the run
loop comes to the state, the requests and the results of handling its inputs one by one. -/
theorem linearized (s : ExecutionService) {as : List RunAction} {u : RunLoop}
    (h : runLoop.exec (.start s) as = some u) : Linear s (inputsOf as) u := by
  refine Interleaving.exec_history (M := runLoop) (P := fun as u => Linear s (inputsOf as) u)
    ⟨rfl, rfl, rfl⟩ ?_ h
  intro as u a v hu hstep
  have hinputs : inputsOf (as ++ [a]) = inputsOf as ++ a.input.toList := by
    rw [inputsOf, List.filterMap_append]
    cases a <;> rfl
  rw [hinputs]
  cases a with
  | take t =>
    have hv := RunLoop.take_settled hstep
    by_cases hpanics : u.settled.service.panics t.cmd = true
    · have hat : atOnce.step u.settled.service (.command (.ok t.cmd) t.now t.exchange) =
          (u.settled.service, []) := if_pos hpanics
      rw [if_pos hpanics] at hv
      refine hu.concat ?_ ?_ ?_
      · rw [hv, Machine.next, hat]
        rfl
      · rw [hv, Machine.emit, hat]
        rfl
      · rw [hv, Machine.emit, hat]
        rfl
    · have hat : atOnce.step u.settled.service (.command (.ok t.cmd) t.now t.exchange) =
          executionService.step u.settled.service (.command (.ok t.cmd) t.now t.exchange) :=
        if_neg hpanics
      rw [if_neg hpanics] at hv
      refine hu.concat ?_ ?_ ?_
      · rw [hv, Machine.next, hat]
        rfl
      · rw [hv, Machine.emit, hat, ← Machine.emit, requests_emit_command]
        rfl
      · rw [hv, Machine.emit, hat, ← Machine.emit, results_emit_command]
        rfl
  | advance =>
    have hv := RunLoop.advance_settled hstep
    simp only [RunAction.input, Option.toList_none, List.append_nil]
    exact ⟨hv ▸ hu.service, hv ▸ hu.submitted, hv ▸ hu.results⟩
  | configUpdate newCfg =>
    obtain ⟨t, current, submitted, results⟩ := u
    cases current with
    | some c => cases hstep
    | none =>
      cases hstep
      exact hu.concat rfl (List.append_nil _).symm (List.append_nil _).symm
  | block =>
    cases hstep
    exact hu.store (i := .blockNewOrders) rfl
  | reset =>
    cases hstep
    exact hu.store (i := .resetCircuit) rfl

/-! ### Effects -/

omit [Reqwest] in
/-- A fill leaves the account as it is iff the order is of size zero or is declined. -/
theorem ExecutionState.fill_account_eq_iff (state : ExecutionState) (cmd : OrderCommand)
    (price : ℚ) :
    (state.fill cmd price).1.account = state.account ↔
      cmd.sizeQuote = 0 ∨ state.Declines cmd price := by
  have hfilled := state.fill_filled_iff cmd price
  rw [state.fill_account cmd price 0]
  by_cases hdecl : state.Declines cmd price
  · refine iff_of_true ?_ (Or.inr hdecl)
    rw [OrderResult.postings_of_ne fun h => hfilled.1 h hdecl, Account.postAll_nil]
  · have hstatus := hfilled.2 hdecl
    rw [hstatus, if_pos rfl, if_pos rfl]
    simp only [hdecl, or_false]
    constructor
    · intro h
      have hbalance := congrArg Account.balance h
      rw [Account.balance_postAll] at hbalance
      cases hside : cmd.side <;>
        simpa [OrderResult.postings, OrderCommand.result, hside] using hbalance
    · intro hzero
      refine Account.ext ?_ (funext fun key => ?_)
      · rw [Account.balance_postAll]
        cases hside : cmd.side <;> simp [OrderResult.postings, OrderCommand.result, hside, hzero]
      · rw [Account.holding_postAll]
        cases hside : cmd.side <;>
          simp [OrderResult.postings, OrderCommand.result, OrderResult.units, baseUnits, hside,
            hzero]

/-- The next step of the run loop has an effect: a request goes out, or an order that is not of size
zero is filled. -/
def RunLoop.TakesEffect (u : RunLoop) : Prop :=
  match u.current with
  | some (t, .send _ request) => ∃ answer, t.exchange request = .sent answer
  | some (t, .ledger fillPrice) =>
    t.cmd.sizeQuote ≠ 0 ∧ ¬ u.service.state.Declines t.cmd fillPrice
  | _ => False

/-- No order has been submitted, and no balance or position has changed. -/
structure RunLoop.SameEffects (u v : RunLoop) : Prop where
  submitted : v.submitted = u.submitted
  account : v.service.state.account = u.service.state.account

omit [Reqwest] in
/-- **What going on can do**: nothing but move the fill counter and add to the results, or submit
the order in progress, or settle it on the ledger. -/
theorem RunLoop.advance_cases {u v : RunLoop} (h : u.advance = some v) :
    (¬ u.TakesEffect ∧ ∃ fillCounter current results, v =
        { u with
          service := { u.service with fillCounter := fillCounter }
          current := current
          results := results }) ∨
      (∃ t client request answer, u.current = some (t, .send client request) ∧
        t.exchange request = .sent answer ∧
        v = { u with submitted := u.submitted ++ [request] }.goOn t (.answer answer)) ∨
      ∃ t fillPrice, u.current = some (t, .ledger fillPrice) ∧
        v = u.finish (u.service.settle t.cmd fillPrice t.now) := by
  obtain ⟨s, current, submitted, results⟩ := u
  have hfinish : ∀ result, RunLoop.finish ⟨s, current, submitted, results⟩ ⟨s, [], result⟩ =
      ⟨s, none, submitted, results ++ result.toOption.toList⟩ := by
    intro result
    rw [finish, List.append_nil]
  unfold RunLoop.advance at h
  match current with
  | none => cases h
  | some (t, .config) =>
    dsimp only at h
    split at h <;> (cases h; exact Or.inl ⟨id, _, _, _, rfl⟩)
  | some (t, .client) =>
    dsimp only at h
    split at h
    · cases h
      exact Or.inl ⟨id, _, _, _, rfl⟩
    · split at h
      · cases h
        exact Or.inl ⟨id, _, _, _, hfinish _⟩
      · split_ifs at h
        · cases h
          exact Or.inl ⟨id, _, _, _, rfl⟩
        · split at h <;> (cases h; exact Or.inl ⟨id, _, _, _, rfl⟩)
  | some (t, .jitter client request) =>
    cases h
    exact Or.inl ⟨id, _, _, _, rfl⟩
  | some (t, .permit client request) =>
    dsimp only at h
    split_ifs at h <;> (cases h; exact Or.inl ⟨id, _, _, _, rfl⟩)
  | some (t, .send client request) =>
    dsimp only at h
    cases hsent : t.exchange request with
    | unsent err =>
      rw [hsent] at h
      cases h
      refine Or.inl ⟨?_, _, _, _, hfinish _⟩
      rintro ⟨answer, hanswer⟩
      rw [hsent] at hanswer
      cases hanswer
    | sent answer =>
      rw [hsent] at h
      cases h
      exact Or.inr (Or.inl ⟨t, client, request, answer, rfl, hsent, rfl⟩)
  | some (t, .answer answer) =>
    cases h
    exact Or.inl ⟨id, _, _, _, hfinish _⟩
  | some (t, .panicked client) => cases h
  | some (t, .price) =>
    cases h
    refine Or.inl ⟨id, (s.nextFillPrice t.cmd.limitPrice).2.fillCounter,
      some (t, .ledger (s.nextFillPrice t.cmd.limitPrice).1), results, ?_⟩
    unfold goOn ExecutionService.nextFillPrice
    cases t.cmd.limitPrice <;> rfl
  | some (t, .ledger fillPrice) =>
    cases h
    exact Or.inr (Or.inr ⟨t, fillPrice, rfl, rfl⟩)

omit [Reqwest] in
/-- **The effects of going on.** -/
theorem RunLoop.advance_effects {u v : RunLoop} (h : u.advance = some v) :
    u.SameEffects v ↔ ¬ u.TakesEffect := by
  rcases u.advance_cases h with ⟨hnone, _, _, _, rfl⟩ |
    ⟨t, client, request, answer, hat, hsent, rfl⟩ | ⟨t, fillPrice, hat, rfl⟩
  · exact iff_of_true ⟨rfl, rfl⟩ hnone
  · have heffect : u.TakesEffect := by
      rw [TakesEffect, hat]
      exact ⟨answer, hsent⟩
    refine iff_of_false ?_ (not_not.2 heffect)
    rintro ⟨hsubmitted, -⟩
    simp [goOn] at hsubmitted
  · have heffect : u.TakesEffect ↔
        t.cmd.sizeQuote ≠ 0 ∧ ¬ u.service.state.Declines t.cmd fillPrice := by
      rw [TakesEffect, hat]
    rw [heffect, not_and_or, not_not, not_not, ← u.service.state.fill_account_eq_iff]
    exact ⟨fun h => h.account, fun h => ⟨List.append_nil _, h⟩⟩

omit [Reqwest] in
theorem RunLoop.advance_flag {u v : RunLoop} (h : u.advance = some v) :
    v.service.blockNewOrders = u.service.blockNewOrders := by
  rcases u.advance_cases h with ⟨-, _, _, _, rfl⟩ | ⟨_, _, _, _, -, -, rfl⟩ | ⟨_, _, -, rfl⟩ <;> rfl

/-- From the moment the flag is true until a reset stores false, no order is submitted and no
balance or position changes. -/
def BlockMeansBlock (s : ExecutionService) (as : List RunAction) : Prop :=
  ∀ pre a post u v, as = pre ++ a :: post → runLoop.exec (.start s) pre = some u →
    runLoop.step u a = some v → u.service.blockNewOrders = true → u.SameEffects v

omit [CaseTable] [Reqwest] in
/-- Since the last command was taken a block has been stored, and no reset after it. -/
def blockArrived (as : List RunAction) : Bool :=
  as.foldl (fun arrived a =>
    match a with
    | .take _ => false
    | .block => true
    | .reset => false
    | .advance => arrived
    | .configUpdate _ => arrived) false

/-- While a command is in progress, the flag is true iff a block has arrived. -/
theorem flag_eq_blockArrived (s : ExecutionService) {as : List RunAction} {u : RunLoop}
    (h : runLoop.exec (.start s) as = some u) (hcurrent : u.current ≠ none) :
    u.service.blockNewOrders = blockArrived as := by
  revert hcurrent
  refine Interleaving.exec_history (M := runLoop)
    (P := fun as u => u.current ≠ none → u.service.blockNewOrders = blockArrived as)
    (fun hnone => absurd rfl hnone) ?_ h
  intro as u a v hu hstep hv
  rw [blockArrived, List.foldl_concat, ← blockArrived]
  cases a with
  | take t =>
    -- a command is in progress only if the flag has been read as false
    obtain ⟨t', current, submitted, results⟩ := u
    cases current with
    | some c => cases hstep
    | none =>
      change RunLoop.take ⟨t', none, submitted, results⟩ t = some v at hstep
      unfold RunLoop.take at hstep
      dsimp only at hstep
      cases hblock : t'.blockNewOrders with
      | true =>
        rw [hblock, if_pos rfl] at hstep
        cases hstep
        exact absurd rfl hv
      | false =>
        rw [hblock, if_neg Bool.false_ne_true] at hstep
        cases hstep
        exact hblock
  | advance =>
    rw [u.advance_flag hstep]
    refine hu ?_
    intro hnone
    change u.advance = some v at hstep
    rw [RunLoop.advance, hnone] at hstep
    cases hstep
  | configUpdate newCfg =>
    obtain ⟨t', current, submitted, results⟩ := u
    cases current with
    | some c => cases hstep
    | none =>
      cases hstep
      exact absurd rfl hv
  | block =>
    cases hstep
    rfl
  | reset =>
    cases hstep
    rfl

omit [CaseTable] [Reqwest] in
theorem RunLoop.take_effects {u v : RunLoop} {t : TakenCommand} (h : u.take t = some v) :
    u.SameEffects v := by
  obtain ⟨s, current, submitted, results⟩ := u
  unfold RunLoop.take at h
  cases current with
  | some c => cases h
  | none =>
    dsimp only at h
    split_ifs at h <;> cases h
    · exact ⟨List.append_nil _, rfl⟩
    · exact ⟨rfl, rfl⟩

omit [Reqwest] in
theorem RunLoop.TakesEffect.advance {u : RunLoop} (h : u.TakesEffect) :
    u.current ≠ none ∧ ∃ v, u.advance = some v := by
  obtain ⟨s, current, submitted, results⟩ := u
  match current with
  | none => cases h
  | some (t, .config) => cases h
  | some (t, .client) => cases h
  | some (t, .jitter _ _) => cases h
  | some (t, .permit _ _) => cases h
  | some (t, .send client request) =>
    obtain ⟨answer, hsent⟩ := h
    refine ⟨Option.some_ne_none _, ?_⟩
    unfold RunLoop.advance
    dsimp only
    rw [hsent]
    exact ⟨_, rfl⟩
  | some (t, .answer _) => cases h
  | some (t, .panicked _) => cases h
  | some (t, .price) => cases h
  | some (t, .ledger fillPrice) => exact ⟨Option.some_ne_none _, _, rfl⟩

/-- **Exactly when block means block**: whenever the command in progress takes effect, no block has
arrived since it was taken. -/
theorem blockMeansBlock_iff (s : ExecutionService) (as : List RunAction) :
    BlockMeansBlock s as ↔
      ∀ pre post u, as = pre ++ .advance :: post → runLoop.exec (.start s) pre = some u →
        u.TakesEffect → blockArrived pre = false := by
  constructor
  · intro h pre post u has hu heffect
    obtain ⟨hcurrent, v, hv⟩ := heffect.advance
    have hflag := flag_eq_blockArrived s hu hcurrent
    by_contra harrived
    rw [Bool.not_eq_false] at harrived
    have hsame := h pre .advance post u v has hu hv (hflag.trans harrived)
    exact (u.advance_effects hv).1 hsame heffect
  · intro h pre a post u v has hu hstep hflag
    cases a with
    | take t => exact u.take_effects hstep
    | advance =>
      refine (u.advance_effects hstep).2 ?_
      intro heffect
      have harrived := flag_eq_blockArrived s hu heffect.advance.1
      rw [hflag, h pre post u has hu heffect] at harrived
      cases harrived
    | configUpdate newCfg =>
      obtain ⟨t, current, submitted, results⟩ := u
      cases current with
      | some c => cases hstep
      | none =>
        cases hstep
        exact ⟨rfl, congrArg ExecutionState.account (t.updateConfig_state newCfg)⟩
    | block =>
      cases hstep
      exact ⟨rfl, rfl⟩
    | reset =>
      cases hstep
      exact ⟨rfl, rfl⟩

end Blocking

/-- A buy that is taken, and that would be filled or accepted. -/
def takenBuy : TakenCommand where
  cmd := sampleOrder "a" .buy 9300 (some 31000)
  now := 0
  exchange _ := .sent (.ok { code := "0", msg := "", data := [⟨"1", some "a", some "0", some ""⟩] })

/-- **A block does not stop the command in progress**: in live mode the order is submitted after the
flag has been set, and in simulated mode it is filled. -/
theorem not_blockMeansBlock :
    (∃ s, @ExecutionService.new ℚ acceptAll _ liveOkxConfig = .ok s ∧
      ¬ @BlockMeansBlock asciiCase acceptAll s
        [.take takenBuy, .advance, .advance, .advance, .block, .advance]) ∧
    ∃ s, @ExecutionService.new ℚ acceptAll _ .default = .ok s ∧
      ¬ @BlockMeansBlock asciiCase acceptAll s [.take takenBuy, .advance, .block, .advance] := by
  refine ⟨⟨_, rfl, ?_⟩, _, rfl, ?_⟩
  · intro h
    have hsame := h [.take takenBuy, .advance, .advance, .advance, .block] .advance [] _ _ rfl rfl
      rfl rfl
    exact absurd hsame.submitted (by decide)
  · intro h
    have hsame := h [.take takenBuy, .advance, .block] .advance [] _ _ rfl rfl rfl rfl
    exact absurd (congrArg Account.balance hsame.account) (by decide +kernel)

end W2uos
