import W2uos.Exec.Neutral
import W2uos.Exec.Stream

/-!
# The trade log

The run loop publishes a result and a trade record for every command it has an answer for; the
private stream publishes results only.  The log service stores the records one after the other, a
later one in the place of an earlier one with its id.

A record knows two outcomes: an order the exchange has accepted is recorded as rejected.  So the log
tells what the run loop knew last, and disagrees with the results whenever the stream knows more.

* `lookup_upserted` : a table of replaced rows holds the last row of every key;
* `trading_run` : results and records of a run are those of its reports;
* `tradeLogAgrees_iff` : exactly when the trade log agrees with the results.
-/

/-! ### Tables of replaced rows -/

section Upserted

variable {κ α β : Type*} [DecidableEq κ]

/-- The table after inserting or replacing the given rows, one after the other. -/
def upserted (key : α → κ) (rows : List α) : Finmap fun _ : κ => α :=
  rows.foldl (fun table row => table.insert (key row) row) ∅

theorem upserted_concat (key : α → κ) (rows : List α) (row : α) :
    upserted key (rows ++ [row]) = (upserted key rows).insert (key row) row := by
  rw [upserted, List.foldl_concat]
  rfl

/-- **The last row of a key stays.** -/
theorem lookup_upserted (key : α → κ) (rows : List α) (k : κ) :
    (upserted key rows).lookup k = (rows.filter (key · = k)).getLast? := by
  induction rows using List.reverseRecOn with
  | nil => rfl
  | append_singleton rows row ih =>
    rw [upserted_concat, List.filter_append]
    by_cases hk : key row = k
    · rw [List.filter_cons_of_pos (by simpa using hk), List.filter_nil, List.getLast?_concat, ← hk,
        Finmap.lookup_insert]
    · rw [List.filter_cons_of_neg (by simpa using hk), List.filter_nil, List.append_nil,
        Finmap.lookup_insert_of_ne _ (Ne.symm hk), ih]

/-- The last of the elements with a key, under a map that keeps the keys. -/
theorem getLast?_filter_map (f : α → β) (key : β → κ) (l : List α) (k : κ) :
    ((l.map f).filter (key · = k)).getLast? =
      ((l.filter fun a => key (f a) = k).getLast?).map f := by
  rw [List.filter_map, List.getLast?_map]
  rfl

end Upserted

namespace W2uos

/-! ### Stream, run loop and log service -/

/-- The execution service with its private stream, and the log service. -/
structure Trading where
  exec : ExecutionService
  /-- The private stream has been spawned. -/
  streaming : Bool
  /-- What the stream has still to publish. -/
  outbox : List OrderResult
  /-- The trade records in the queue of the log service, oldest first. -/
  records : List TradeRecord
  /-- The table of trades. -/
  trades : Finmap fun _ : String => TradeRecord

/-- A service that has just begun to run, and an empty table. -/
def Trading.start (s : ExecutionService) : Trading where
  exec := s
  streaming := s.config.mode = .liveOkx && s.config.okx.isSome
  outbox := []
  records := []
  trades := ∅

/-- What they react to: an input of the execution service, a text from the exchange with the times
its updates are handled at, the turn of the stream to publish the next result, and the turn of the
log service to store the next record. -/
inductive TradingInput
  | exec (i : ExecInput)
  | text (txt : String) (ts : List DateTime)
  | publish
  | store

/-- The trade records among the messages. -/
def ExecOutput.trades (os : List ExecOutput) : List TradeRecord :=
  os.filterMap fun
    | .trade record => some record
    | _ => none

section Trading

variable [CaseTable] [Reqwest] [OrderChannel]

/-- The services as a machine that puts results on `orders.result`. -/
def trading : Machine Trading TradingInput OrderResult where
  step t
    | .exec i =>
      ({ t with
          exec := executionService.next t.exec i
          records := t.records ++ ExecOutput.trades (executionService.emit t.exec i) },
        ExecOutput.results (executionService.emit t.exec i))
    | .text txt ts =>
      (if t.streaming then { t with outbox := t.outbox ++ (handleText txt ts).1 } else t, [])
    | .publish =>
      match t.outbox with
      | [] => (t, [])
      | result :: outbox => ({ t with outbox := outbox }, [result])
    | .store =>
      match t.records with
      | [] => (t, [])
      | trade :: records =>
        ({ t with records := records, trades := t.trades.insert trade.id trade }, [])

omit [CaseTable] [Reqwest] [OrderChannel] in
/-- The stored record of the id says Filled iff some result with this id does, and Rejected iff the
last result with this id does. -/
def TradeLogAgrees (t : Trading) (results : List OrderResult) (id : String) : Prop :=
  ((∃ trade, t.trades.lookup id = some trade ∧ trade.status = .filled) ↔
      ∃ r ∈ results, r.commandId = id ∧ r.status = .filled) ∧
    ((∃ trade reason, t.trades.lookup id = some trade ∧ trade.status = .rejected reason) ↔
      ∃ r reason, (results.filter (·.commandId = id)).getLast? = some r ∧
        r.status = .rejected reason)

end Trading

/-! ### What there is to report about orders -/

/-- How an order stands. -/
inductive Standing
  | accepted
  | filled
  | rejected
  deriving DecidableEq

/-- How an order with this status stands. -/
def OrderStatus.standing : OrderStatus → Standing
  | .new => .accepted
  | .filled => .filled
  | .rejected _ => .rejected

/-- A report on an order, by the run loop or by the stream. -/
structure OrderReport where
  id : String
  byLoop : Bool
  standing : Standing
  deriving DecidableEq

section Reports

variable [CaseTable]

instance (state : ExecutionState) (cmd : OrderCommand) (price : ℚ) :
    Decidable (state.Declines cmd price) :=
  match hside : cmd.side with
  | .buy => decidable_of_iff (state.balanceUsdt < cmd.sizeQuote)
      (by simp [ExecutionState.Declines, hside])
  | .sell => decidable_of_iff
      (state.positions.amount (symbolKey cmd.symbol) < baseUnits cmd.sizeQuote price)
      (by simp [ExecutionState.Declines, hside])

/-- What the run loop has to report about a command: the breaker turns it down; the exchange turns
it down, accepts it, or cannot be reached; the simulator fills or declines it. -/
def ExecutionService.fate (s : ExecutionService) (cmd : OrderCommand)
    (exchange : OkxOrderRequest → Transmission) : Option Standing :=
  if s.blockNewOrders then some .rejected
  else
    match s.config.mode, s.okxClient with
    | .liveOkx, some client =>
      match (client.placeOrder cmd exchange).2 with
      | .error _ => none
      | .ok resp => some resp.status.standing
    | _, _ => some (if s.state.Declines cmd (s.priceOf cmd) then .rejected else .filled)

/-- What the run loop has to report about an input. -/
def ExecutionService.reports (s : ExecutionService) : ExecInput → List OrderReport
  | .command (.ok cmd) _ exchange =>
    ((s.fate cmd exchange).map fun standing => ⟨cmd.id, true, standing⟩).toList
  | _ => []

/-- The execution service and the updates the stream has not yet reported. -/
structure OrderStory where
  exec : ExecutionService
  streaming : Bool
  updates : List OkxOrderData

/-- The story of a service that has just begun to run. -/
def OrderStory.start (s : ExecutionService) : OrderStory where
  exec := s
  streaming := s.config.mode = .liveOkx && s.config.okx.isSome
  updates := []

/-- The reports on orders, as a machine. -/
def orderReports [Reqwest] [OrderChannel] : Machine OrderStory TradingInput OrderReport where
  step y
    | .exec i => ({ y with exec := executionService.next y.exec i }, y.exec.reports i)
    | .text txt _ =>
      (if y.streaming then { y with updates := y.updates ++ updatesOf txt } else y, [])
    | .publish =>
      match y.updates with
      | [] => (y, [])
      | data :: updates =>
        ({ y with updates := updates }, [⟨data.commandId, false, data.status.standing⟩])
    | .store => (y, [])

/-! ### The reports of a run -/

/-- What a result says about its order. -/
def OrderResult.note (r : OrderResult) : String × Standing := (r.commandId, r.status.standing)

/-- What a report says about its order. -/
def OrderReport.note (e : OrderReport) : String × Standing := (e.id, e.standing)

/-- What a trade record says about its order. -/
def TradeRecord.note (trade : TradeRecord) : String × Bool := (trade.id, trade.status = .filled)

/-- What is recorded of a report. -/
def OrderReport.recorded (e : OrderReport) : String × Bool := (e.id, e.standing = .filled)

omit [CaseTable] in
theorem TradeStatus.ne_filled_iff {status : TradeStatus} :
    ¬ status = .filled ↔ ∃ reason, status = .rejected reason := by
  cases status <;> simp

omit [CaseTable] in
theorem Standing.ne_filled_iff {standing : Standing} :
    ¬ standing = .filled ↔ standing = .rejected ∨ standing = .accepted := by
  cases standing <;> simp

omit [CaseTable] in
@[simp] theorem OrderStatus.standing_filled {status : OrderStatus} :
    status.standing = .filled ↔ status = .filled := by
  cases status <;> simp [standing]

omit [CaseTable] in
theorem OrderStatus.standing_rejected {status : OrderStatus} :
    status.standing = .rejected ↔ ∃ reason, status = .rejected reason := by
  cases status <;> simp [standing]

theorem ExecutionState.fill_standing (state : ExecutionState) (cmd : OrderCommand) (price : ℚ) :
    (state.fill cmd price).2.standing =
      if state.Declines cmd price then .rejected else .filled := by
  by_cases hdecl : state.Declines cmd price
  · rw [if_pos hdecl]
    unfold ExecutionState.Declines at hdecl
    unfold ExecutionState.fill
    cases hside : cmd.side with
    | buy =>
      rw [hside] at hdecl
      simp [not_le.2 hdecl, OrderStatus.standing]
    | sell =>
      rw [hside] at hdecl
      simp [not_le.2 hdecl, OrderStatus.standing]
  · rw [if_neg hdecl, (state.fill_filled_iff cmd price).2 hdecl]
    rfl

/-- **The run loop answers** a command as its fate is. -/
theorem ExecutionService.fate_spec (s : ExecutionService) (cmd : OrderCommand) (now : DateTime)
    (exchange : OkxOrderRequest → Transmission) :
    (s.handleCommand cmd now exchange).result.toOption.map OrderResult.note =
      (s.fate cmd exchange).map fun standing => (cmd.id, standing) := by
  rcases s.handleCommand_cases cmd now exchange with ⟨hblock, heq⟩ |
    ⟨client, hblock, hmode, hclient, heq⟩ | ⟨hblock, hclient, heq⟩
  · rw [heq, fate, if_pos hblock]
    rfl
  · rw [heq, fate, if_neg (by simp [hblock]), hmode, hclient]
    unfold ExecutionService.submit
    dsimp only
    cases (client.placeOrder cmd exchange).2 <;> rfl
  · have hfate : s.fate cmd exchange =
        some (if s.state.Declines cmd (s.priceOf cmd) then .rejected else .filled) := by
      rw [fate, if_neg (by simp [hblock])]
      cases hmode : s.config.mode with
      | simulated => rfl
      | liveOkx => rw [hclient hmode]
    rw [heq, s.simulate_result, hfate, ← ExecutionState.fill_standing]
    rfl

variable [Reqwest] in
theorem trades_emit_command (s : ExecutionService) (cmd : OrderCommand) (now : DateTime)
    (exchange : OkxOrderRequest → Transmission) :
    ExecOutput.trades (executionService.emit s (.command (.ok cmd) now exchange)) =
      ((s.handleCommand cmd now exchange).result.toOption.map (·.tradeRecord cmd)).toList := by
  rw [ExecOutput.trades, filterMap_emit_command, List.filterMap_eq_nil_iff.2 fun _ _ => rfl,
    List.nil_append, Handled.messages]
  cases (s.handleCommand cmd now exchange).result <;> rfl

omit [CaseTable] in
theorem OrderResult.tradeRecord_note (r : OrderResult) (cmd : OrderCommand) :
    (r.tradeRecord cmd).note = (r.commandId, decide (r.status.standing = .filled)) := by
  unfold TradeRecord.note OrderResult.tradeRecord
  cases r.status <;> rfl

variable [Reqwest] in
/-- **The reports of an input** are those of its results and records. -/
theorem reports_spec (s : ExecutionService) (i : ExecInput) :
    (ExecOutput.results (executionService.emit s i)).map OrderResult.note =
        (s.reports i).map OrderReport.note ∧
      (ExecOutput.trades (executionService.emit s i)).map TradeRecord.note =
        (s.reports i).map OrderReport.recorded ∧
      ∀ e ∈ s.reports i, e.byLoop = true := by
  cases i with
  | command msg now exchange =>
    cases msg with
    | error err => exact ⟨rfl, rfl, by simp [ExecutionService.reports]⟩
    | ok cmd =>
      have hfate := s.fate_spec cmd now exchange
      rw [results_emit_command, trades_emit_command, ExecutionService.reports]
      cases hresult : (s.handleCommand cmd now exchange).result with
      | error err =>
        rw [hresult, Except.toOption, Option.map_none, eq_comm, Option.map_eq_none_iff] at hfate
        rw [hfate]
        exact ⟨rfl, rfl, by simp⟩
      | ok r =>
        rw [hresult, Except.toOption, Option.map_some, eq_comm, Option.map_eq_some_iff] at hfate
        obtain ⟨standing, hstanding, hnote⟩ := hfate
        rw [hstanding]
        have hid : cmd.id = r.commandId := congrArg Prod.fst hnote
        have hstatus : standing = r.status.standing := congrArg Prod.snd hnote
        refine ⟨?_, ?_, by simp⟩
        · simp [Except.toOption, OrderResult.note, OrderReport.note, hid, hstatus]
        · simp [Except.toOption, OrderResult.tradeRecord_note, OrderReport.recorded, hid, hstatus]
  | configUpdate msg =>
    cases msg <;> exact ⟨rfl, rfl, by simp [ExecutionService.reports]⟩
  | blockNewOrders => exact ⟨rfl, rfl, by simp [ExecutionService.reports]⟩
  | resetCircuit => exact ⟨rfl, rfl, by simp [ExecutionService.reports]⟩

omit [CaseTable] in
/-- The reports `es` account for the results `rs` and the trade records. -/
structure Follows (es : List OrderReport) (rs : List OrderResult) (t : Trading) (y : OrderStory) :
    Prop where
  exec : t.exec = y.exec
  streaming : t.streaming = y.streaming
  updates : List.Forall₂ OkxOrderData.Reported y.updates t.outbox
  results : rs.map OrderResult.note = es.map OrderReport.note
  trades : ∃ stored, t.trades = upserted TradeRecord.id stored ∧
    (stored ++ t.records).map TradeRecord.note =
      (es.filter (·.byLoop)).map OrderReport.recorded

variable [Reqwest] [OrderChannel]

/-- **The step lemma of the reports.** -/
theorem Follows.step {es : List OrderReport} {rs : List OrderResult} {t : Trading} {y : OrderStory}
    (h : Follows es rs t y) (i : TradingInput) :
    Follows (es ++ orderReports.emit y i) (rs ++ trading.emit t i) (trading.next t i)
      (orderReports.next y i) := by
  obtain ⟨stored, htable, hstored⟩ := h.trades
  cases i with
  | exec i =>
    obtain ⟨hresults, htrades, hloop⟩ := reports_spec t.exec i
    refine ⟨?_, h.streaming, h.updates, ?_, stored, htable, ?_⟩
    · exact congrArg (executionService.next · i) h.exec
    · show (rs ++ ExecOutput.results (executionService.emit t.exec i)).map _ =
        (es ++ y.exec.reports i).map _
      rw [List.map_append, List.map_append, h.results, hresults, h.exec]
    · show (stored ++ (t.records ++ ExecOutput.trades (executionService.emit t.exec i))).map _ =
        ((es ++ y.exec.reports i).filter _).map _
      rw [← List.append_assoc, List.map_append, hstored, htrades, ← h.exec, List.filter_append,
        List.filter_eq_self.2 hloop, List.map_append]
  | text txt ts =>
    by_cases hstreaming : t.streaming = true
    · have hnext : trading.next t (.text txt ts) =
          { t with outbox := t.outbox ++ (handleText txt ts).1 } := if_pos hstreaming
      have hnext' : orderReports.next y (.text txt ts) =
          { y with updates := y.updates ++ updatesOf txt } := if_pos (h.streaming ▸ hstreaming)
      rw [hnext, hnext']
      show Follows (es ++ []) (rs ++ []) _ _
      rw [List.append_nil, List.append_nil]
      exact ⟨h.exec, h.streaming, List.rel_append h.updates (handleText_spec txt ts), h.results,
        h.trades⟩
    · have hnext : trading.next t (.text txt ts) = t := if_neg hstreaming
      have hnext' : orderReports.next y (.text txt ts) = y := if_neg (h.streaming ▸ hstreaming)
      rw [hnext, hnext']
      show Follows (es ++ []) (rs ++ []) _ _
      rwa [List.append_nil, List.append_nil]
  | publish =>
    have hupdates := h.updates
    unfold Machine.emit Machine.next trading orderReports
    cases hout : t.outbox with
    | nil =>
      rw [hout, List.forall₂_nil_right_iff] at hupdates
      simpa [hout, hupdates] using h
    | cons r outbox =>
      rw [hout, List.forall₂_cons_right_iff] at hupdates
      obtain ⟨data, updates, hreported, hrest, hy⟩ := hupdates
      simp only [hout, hy]
      refine ⟨h.exec, h.streaming, hrest, ?_, stored, htable, ?_⟩
      · have hnote : r.note = (data.commandId, data.status.standing) := by
          rw [OrderResult.note, hreported.commandId, hreported.status]
        rw [List.map_append, List.map_append, h.results, List.map_singleton, hnote]
        rfl
      · rw [List.filter_append, List.filter_cons_of_neg (by simp), List.filter_nil,
          List.append_nil]
        exact hstored
  | store =>
    show Follows (es ++ []) _ _ _
    unfold Machine.emit Machine.next trading
    cases hrecords : t.records with
    | nil =>
      simp only [hrecords, List.append_nil]
      exact h
    | cons trade records =>
      simp only [hrecords, List.append_nil]
      rw [hrecords] at hstored
      refine ⟨h.exec, h.streaming, h.updates, h.results, stored ++ [trade], ?_, ?_⟩
      · rw [upserted_concat, htable]
      · rw [List.append_assoc]
        exact hstored

/-- The reports of a run. -/
def reportsOf (s : ExecutionService) (is : List TradingInput) : List OrderReport :=
  orderReports.output (.start s) is

/-- **Results and records of a run** are those of its reports. -/
theorem trading_run (s : ExecutionService) (is : List TradingInput) :
    Follows (reportsOf s is) (trading.output (.start s) is) (trading.run (.start s) is)
      (orderReports.run (.start s) is) := by
  unfold reportsOf
  induction is using List.reverseRecOn with
  | nil => exact ⟨rfl, rfl, List.Forall₂.nil, rfl, [], rfl, rfl⟩
  | append_singleton is i ih =>
    rw [Machine.output_concat, Machine.output_concat, Machine.run_concat, Machine.run_concat]
    exact ih.step i

end Reports

/-! ### The account of an order -/

/-- What the reports on an order come to. -/
structure OrderAccount where
  /-- What the run loop has reported last. -/
  recorded : Option Standing
  /-- What the stream has reported last since then. -/
  updated : Option Standing
  /-- Somebody has reported a fill. -/
  filled : Bool
  deriving DecidableEq

/-- Before any report. -/
def OrderAccount.start : OrderAccount := ⟨none, none, false⟩

/-- One more report. -/
def OrderAccount.next (a : OrderAccount) (e : OrderReport) : OrderAccount :=
  let filled := a.filled || e.standing = .filled
  if e.byLoop then ⟨some e.standing, none, filled⟩ else ⟨a.recorded, some e.standing, filled⟩

/-- The account of the order with the given id. -/
def accountOf (es : List OrderReport) (id : String) : OrderAccount :=
  (es.filter (·.id = id)).foldl OrderAccount.next .start

/-- The log is in step with the results: the run loop has filled the order, and the stream has not
cancelled it since; or the run loop has seen it rejected, nobody has filled it, and the stream has
said nothing since or that it is cancelled; or the run loop has seen it accepted, nobody has filled
it, and the stream has said since that it is cancelled; or the run loop has said nothing, nobody has
filled it, and the stream has not cancelled it. -/
def OrderAccount.InStep (a : OrderAccount) : Prop :=
  match a.recorded with
  | some .filled => a.updated ≠ some .rejected
  | some .rejected => a.filled = false ∧ (a.updated = none ∨ a.updated = some .rejected)
  | some .accepted => a.filled = false ∧ a.updated = some .rejected
  | none => a.filled = false ∧ a.updated ≠ some .rejected

instance : (a : OrderAccount) → Decidable a.InStep
  | ⟨some .filled, updated, _⟩ => inferInstanceAs (Decidable (updated ≠ some .rejected))
  | ⟨some .rejected, updated, filled⟩ =>
    inferInstanceAs (Decidable (filled = false ∧ (updated = none ∨ updated = some .rejected)))
  | ⟨some .accepted, updated, filled⟩ =>
    inferInstanceAs (Decidable (filled = false ∧ updated = some .rejected))
  | ⟨none, updated, filled⟩ =>
    inferInstanceAs (Decidable (filled = false ∧ updated ≠ some .rejected))

theorem foldl_account (es : List OrderReport) :
    let a := es.foldl OrderAccount.next .start
    a.recorded = ((es.filter (·.byLoop)).getLast?).map (·.standing) ∧
      a.updated.or a.recorded = es.getLast?.map (·.standing) ∧
      (a.filled = true ↔ ∃ e ∈ es, e.standing = .filled) := by
  induction es using List.reverseRecOn with
  | nil => exact ⟨rfl, rfl, by simp [OrderAccount.start]⟩
  | append_singleton es e ih =>
    obtain ⟨hrecorded, hlast, hfilled⟩ := ih
    rw [List.foldl_concat, List.getLast?_concat, List.filter_append]
    generalize es.foldl OrderAccount.next .start = a at hrecorded hlast hfilled ⊢
    have hfill : (a.next e).filled = true ↔ ∃ e' ∈ es ++ [e], e'.standing = .filled := by
      have hnext : (a.next e).filled = (a.filled || e.standing = .filled) := by
        unfold OrderAccount.next
        cases e.byLoop <;> rfl
      rw [hnext, Bool.or_eq_true, hfilled]
      simp [or_and_right, exists_or]
    refine ⟨?_, ?_, hfill⟩
    · cases hloop : e.byLoop <;> simp [OrderAccount.next, hloop, hrecorded]
    · cases hloop : e.byLoop <;> simp [OrderAccount.next, hloop]

/-- **In step** means that the run loop has recorded a fill iff there is one, and something else iff
the last report is a rejection. -/
theorem OrderAccount.inStep_iff {a : OrderAccount}
    (h : a.recorded = some .filled → a.filled = true) :
    a.InStep ↔ (a.recorded = some .filled ↔ a.filled = true) ∧
      (a.recorded = some .rejected ∨ a.recorded = some .accepted ↔
        a.updated.or a.recorded = some .rejected) := by
  unfold InStep
  cases hrecorded : a.recorded with
  | none => simp
  | some standing =>
    cases standing with
    | filled =>
      have hfilled := h hrecorded
      cases a.updated <;> simp [hfilled]
    | rejected => cases a.updated <;> simp
    | accepted => cases a.updated <;> simp

section Agreement

variable [CaseTable] [Reqwest] [OrderChannel]

/-- **Exactly when the trade log agrees with the results**: when all records are stored, the log is
in step with the reports on the order. -/
theorem tradeLogAgrees_iff (s : ExecutionService) (is : List TradingInput) (id : String)
    (hstored : (trading.run (.start s) is).records = []) :
    TradeLogAgrees (trading.run (.start s) is) (trading.output (.start s) is) id ↔
      (accountOf (reportsOf s is) id).InStep := by
  have hfollows := trading_run s is
  obtain ⟨hrecorded, hlast, hfilled⟩ := foldl_account ((reportsOf s is).filter (·.id = id))
  have hresults := hfollows.results
  obtain ⟨stored, htable, hnotes⟩ := hfollows.trades
  rw [hstored, List.append_nil] at hnotes
  unfold accountOf
  generalize (trading.run (.start s) is) = t at *
  generalize (trading.output (.start s) is) = rs at *
  generalize reportsOf s is = es at *
  generalize ((es.filter (·.id = id)).foldl OrderAccount.next .start) = a at *
  -- the stored record is the last one the run loop has made
  have hrow : (t.trades.lookup id).map (fun trade => decide (trade.status = .filled)) =
      a.recorded.map fun standing => decide (standing = .filled) := by
    have hkey := getLast?_filter_map TradeRecord.note Prod.fst stored id
    have hkey' := getLast?_filter_map OrderReport.recorded Prod.fst (es.filter (·.byLoop)) id
    rw [hnotes, hkey'] at hkey
    have hsnd := congrArg (Option.map Prod.snd) hkey
    rw [Option.map_map, Option.map_map] at hsnd
    have hcomm : (es.filter (·.byLoop)).filter (·.id = id) =
        (es.filter (·.id = id)).filter (·.byLoop) := List.filter_comm ..
    rw [htable, lookup_upserted, hrecorded, Option.map_map, ← hcomm]
    exact hsnd.symm
  have hfill : (∃ r ∈ rs, r.commandId = id ∧ r.status = .filled) ↔ a.filled = true := by
    have hmem : (id, Standing.filled) ∈ rs.map OrderResult.note ↔
        (id, Standing.filled) ∈ es.map OrderReport.note := by rw [hresults]
    rw [hfilled]
    simpa [OrderResult.note, OrderReport.note, and_assoc] using hmem
  have hend : ((rs.filter (·.commandId = id)).getLast?).map (·.status.standing) =
      a.updated.or a.recorded := by
    have hkey := getLast?_filter_map OrderResult.note Prod.fst rs id
    have hkey' := getLast?_filter_map OrderReport.note Prod.fst es id
    rw [hresults, hkey'] at hkey
    have hsnd := congrArg (Option.map Prod.snd) hkey
    rw [Option.map_map, Option.map_map] at hsnd
    rw [hlast]
    exact hsnd.symm
  have hone : (∃ trade, t.trades.lookup id = some trade ∧ trade.status = .filled) ↔
      a.recorded = some .filled := by
    have htrue := congrArg (· = some true) hrow
    simpa [Option.map_eq_some_iff] using htrue
  have htwo : (∃ trade reason, t.trades.lookup id = some trade ∧ trade.status = .rejected reason) ↔
      a.recorded = some .rejected ∨ a.recorded = some .accepted := by
    have hfalse := congrArg (· = some false) hrow
    simpa [Option.map_eq_some_iff, TradeStatus.ne_filled_iff, Standing.ne_filled_iff, and_or_left,
      exists_or] using hfalse
  have hthree : (∃ r reason, (rs.filter (·.commandId = id)).getLast? = some r ∧
      r.status = .rejected reason) ↔ a.updated.or a.recorded = some .rejected := by
    rw [← hend, Option.map_eq_some_iff]
    simp only [OrderStatus.standing_rejected, exists_and_left]
  rw [TradeLogAgrees, hone, htwo, hfill, hthree, OrderAccount.inStep_iff]
  intro hrec
  rw [hrecorded, Option.map_eq_some_iff] at hrec
  obtain ⟨e, he, hstanding⟩ := hrec
  exact hfilled.2 ⟨e, List.mem_of_mem_filter (List.mem_of_getLast? he), hstanding⟩

end Agreement

/-- The services on ASCII symbols, with a stream that reads the updates of an order in two parts. -/
abbrev sampleTrading : Machine Trading TradingInput OrderResult :=
  @trading asciiCase acceptAll twoPartChannel

/-- A buy that the simulator fills. -/
def simulatedFill : List TradingInput :=
  [.exec (.command (.ok (sampleOrder "a" .buy 9300 (some 31000))) 0 fun _ => .unsent "unreachable"),
    .store]

theorem tradeLogAgrees_iff_sample :
    ∃ s, @ExecutionService.new ℚ acceptAll _ .default = .ok s ∧
      TradeLogAgrees (sampleTrading.run (.start s) simulatedFill)
        (sampleTrading.output (.start s) simulatedFill) "a" := by
  refine ⟨_, rfl, ?_⟩
  refine (@tradeLogAgrees_iff asciiCase acceptAll twoPartChannel _ simulatedFill "a"
    (by decide +kernel)).2 ?_
  decide +kernel

/-- A buy that the exchange accepts, and then reports as filled. -/
def liveFill : List TradingInput :=
  [.exec (.command (.ok (sampleOrder "a" .buy 9300 (some 31000))) 0 fun _ =>
      .sent (.ok { code := "0", msg := "", data := [⟨"1", some "a", some "0", some ""⟩] })),
    .text finalText [1], .publish, .store]

/-- **The trade log contradicts the results**: an order that the exchange accepts is recorded as
rejected, and stays so when its result is Filled. -/
theorem not_tradeLogAgrees :
    ∃ s, @ExecutionService.new ℚ acceptAll _ liveOkxConfig = .ok s ∧
      ¬ TradeLogAgrees (sampleTrading.run (.start s) liveFill)
        (sampleTrading.output (.start s) liveFill) "a" := by
  refine ⟨_, rfl, ?_⟩
  rintro ⟨hfilled, -⟩
  obtain ⟨trade, hlookup, hstatus⟩ := hfilled.2 (by decide +kernel)
  have hrow := congrArg (Option.map (·.status)) hlookup
  rw [Option.map_some, hstatus] at hrow
  exact absurd hrow (by decide +kernel)

end W2uos
