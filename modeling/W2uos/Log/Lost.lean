import W2uos.Exec.HotUpdate
import W2uos.Log.Trades

/-!
# Lost commands

The run loop answers a command with a result and a trade record, also when the breaker or the
exchange turns it down.  A command whose call of the exchange fails is not answered: the branch of
the error publishes a log event and nothing else, even if the order has left the node by then.

* `call_error_iff` : a command ends in an error exactly if its call fails;
* `noneLost_iff` : exactly when no command of a run is lost.
-/

namespace W2uos

/-- The request is not sent, or its answer fails to arrive. -/
def Transmission.Fails : Transmission → Prop
  | .unsent _ => True
  | .sent answer => ∃ err, answer = .error err

section Lost

variable [CaseTable]

/-- The call of the exchange fails: there is no passphrase to sign in with, the request is not sent,
or its answer fails to arrive. -/
def OkxClient.CallFails (client : OkxClient) (cmd : OrderCommand)
    (exchange : OkxOrderRequest → Transmission) : Prop :=
  client.credentials.passphrase = none ∨
    ∃ request, client.orderRequest cmd = .ok request ∧ (exchange request).Fails

/-- The command is for the exchange, and the call fails. -/
def ExecutionService.CallFails (s : ExecutionService) (cmd : OrderCommand)
    (exchange : OkxOrderRequest → Transmission) : Prop :=
  s.blockNewOrders = false ∧ s.config.mode = .liveOkx ∧
    ∃ client, s.okxClient = some client ∧ client.CallFails cmd exchange

/-- The command has a result, among those the run loop publishes for it and those the private stream
reports, and the run loop publishes one trade record for it. -/
def Answered (cmd : OrderCommand) (messages : List ExecOutput) (streamed : List OrderResult) :
    Prop :=
  (∃ r ∈ ExecOutput.results messages ++ streamed, r.commandId = cmd.id) ∧
    (ExecOutput.trades messages).map (·.id) = [cmd.id]

/-! ### One command -/

theorem OkxClient.placeOrder_error_iff (client : OkxClient) (cmd : OrderCommand)
    (exchange : OkxOrderRequest → Transmission) :
    (∃ err, (client.placeOrder cmd exchange).2 = .error err) ↔ client.CallFails cmd exchange := by
  unfold placeOrder CallFails
  cases hpass : client.credentials.passphrase with
  | none =>
    have hrequest : client.orderRequest cmd = .error "OKX passphrase required" := by
      rw [orderRequest, hpass]
      rfl
    rw [hrequest]
    exact iff_of_true ⟨_, rfl⟩ (Or.inl rfl)
  | some passphrase =>
    obtain ⟨request, hrequest⟩ : ∃ request, client.orderRequest cmd = .ok request := by
      rw [orderRequest, hpass]
      exact ⟨_, rfl⟩
    rw [hrequest]
    dsimp only
    cases hexchange : exchange request with
    | unsent err => simp [hexchange, Transmission.Fails]
    | sent answer => simp [hexchange, Transmission.Fails]

/-- **A command ends in an error** exactly if its call of the exchange fails. -/
theorem call_error_iff (s : ExecutionService) (cmd : OrderCommand) (now : DateTime)
    (exchange : OkxOrderRequest → Transmission) :
    (∃ err, (s.handleCommand cmd now exchange).result = .error err) ↔ s.CallFails cmd exchange := by
  unfold ExecutionService.CallFails
  rcases s.handleCommand_cases cmd now exchange with ⟨hblock, heq⟩ |
    ⟨client, hblock, hmode, hclient, heq⟩ | ⟨hblock, hclient, heq⟩
  · rw [heq, hblock]
    simp
  · have herror : (∃ err, (s.submit client cmd now exchange).result = .error err) ↔
        ∃ err, (client.placeOrder cmd exchange).2 = .error err := by
      unfold ExecutionService.submit
      dsimp only
      cases (client.placeOrder cmd exchange).2 <;> simp [Except.map]
    rw [heq, herror, client.placeOrder_error_iff, hclient]
    simp [hblock, hmode]
  · rw [heq, s.simulate_result]
    refine iff_of_false (by simp) ?_
    rintro ⟨-, hmode, client, hsome, -⟩
    rw [hclient hmode] at hsome
    cases hsome

theorem handleCommand_commandId {s : ExecutionService} {cmd : OrderCommand} {now : DateTime}
    {exchange : OkxOrderRequest → Transmission} {r : OrderResult}
    (hr : (s.handleCommand cmd now exchange).result = .ok r) : r.commandId = cmd.id := by
  have hfate := s.fate_spec cmd now exchange
  rw [hr, Except.toOption, Option.map_some] at hfate
  obtain ⟨standing, -, hnote⟩ := Option.map_eq_some_iff.1 hfate.symm
  exact (congrArg Prod.fst hnote).symm

variable [Reqwest]

/-- A command that ends in an error has neither a result nor a trade record of the run loop. -/
theorem emit_error {s : ExecutionService} {cmd : OrderCommand} {now : DateTime}
    {exchange : OkxOrderRequest → Transmission} {err : String}
    (herr : (s.handleCommand cmd now exchange).result = .error err) :
    ExecOutput.results (executionService.emit s (.command (.ok cmd) now exchange)) = [] ∧
      ExecOutput.trades (executionService.emit s (.command (.ok cmd) now exchange)) = [] := by
  rw [results_emit_command, trades_emit_command, herr]
  exact ⟨rfl, rfl⟩

/-- **A command is answered** exactly if its call of the exchange does not fail. -/
theorem answered_iff (s : ExecutionService) (cmd : OrderCommand) (now : DateTime)
    (exchange : OkxOrderRequest → Transmission) (streamed : List OrderResult) :
    Answered cmd (executionService.emit s (.command (.ok cmd) now exchange)) streamed ↔
      ¬ s.CallFails cmd exchange := by
  rw [← call_error_iff s cmd now exchange]
  cases hr : (s.handleCommand cmd now exchange).result with
  | error err =>
    refine iff_of_false ?_ (not_not_intro ⟨err, rfl⟩)
    rintro ⟨-, htrades⟩
    rw [(emit_error hr).2] at htrades
    cases htrades
  | ok r =>
    have hid := handleCommand_commandId hr
    refine iff_of_true ⟨⟨r, ?_, hid⟩, ?_⟩ (by simp)
    · rw [results_emit_command, hr]
      exact List.mem_append_left _ (List.mem_singleton_self r)
    · rw [trades_emit_command, hr]
      exact congrArg (fun id => [id]) hid

/-! ### Whole runs -/

/-- Every command of the run is answered, whatever the private stream reports meanwhile. -/
def NoneLost (s : ExecutionService) (is : List ExecInput) (streamed : List OrderResult) : Prop :=
  ∀ pre cmd now exchange post, is = pre ++ .command (.ok cmd) now exchange :: post →
    Answered cmd
      (executionService.emit (executionService.run s pre) (.command (.ok cmd) now exchange))
      streamed

/-- **Exactly when no command is lost**: if no call of the exchange fails. -/
theorem noneLost_iff (s : ExecutionService) (is : List ExecInput) (streamed : List OrderResult) :
    NoneLost s is streamed ↔
      ∀ pre cmd now exchange post, is = pre ++ .command (.ok cmd) now exchange :: post →
        ¬ (executionService.run s pre).CallFails cmd exchange := by
  refine forall_congr' fun pre => forall_congr' fun cmd => forall_congr' fun now =>
    forall_congr' fun exchange => forall_congr' fun post => forall_congr' fun _ => ?_
  exact answered_iff _ cmd now exchange streamed

end Lost

/-- An order whose answer does not arrive. -/
def unanswered : List ExecInput :=
  [.command (.ok (sampleOrder "a" .buy 1000 (some 100))) 0 fun _ => .sent (.error "timed out")]

/-- **A lost command**: the order has left the node, and the run loop publishes neither a result nor
a trade record. -/
theorem not_noneLost :
    ∃ s, @ExecutionService.new ℚ acceptAll _ liveOkxConfig = .ok s ∧
      ((sampleService.output s unanswered).filterMap fun
        | .submit request => some request.clOrdId
        | _ => none) = ["a"] ∧
      ExecOutput.results (sampleService.output s unanswered) = [] ∧
      ¬ @NoneLost asciiCase acceptAll s unanswered [] := by
  refine ⟨_, rfl, by decide +kernel, by decide +kernel, fun h => ?_⟩
  obtain ⟨-, htrade⟩ := h [] (sampleOrder "a" .buy 1000 (some 100)) 0
    (fun _ => .sent (.error "timed out")) [] rfl
  exact absurd htrade (by decide +kernel)

end W2uos
