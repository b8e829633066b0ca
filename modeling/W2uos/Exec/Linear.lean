import W2uos.Exec.Blocking

/-!
# The run loop as one service

Cut at its awaits, the run loop comes to what the service comes to that handles its inputs at once.
What is in progress is finished in a few steps, whatever the other tasks do with the flag, unless
its client has no permit to give, or panics.
-/

namespace W2uos

/-- How many awaits there are at most until the command is done. -/
def ExecPoint.left : ExecPoint → ℕ
  | .config => 6
  | .client => 5
  | .jitter _ _ => 4
  | .permit _ _ => 3
  | .send _ _ => 2
  | .answer _ => 1
  | .panicked _ => 0
  | .price => 2
  | .ledger _ => 1

/-- The same for a run loop. -/
def RunLoop.left (u : RunLoop) : ℕ := (u.current.map fun c => c.2.left).getD 0

/-- The command in progress waits for a permit of a client that allows no request. -/
def RunLoop.Starves (u : RunLoop) : Prop :=
  ∃ t client request, u.current = some (t, .permit client request) ∧
    client.trafficShaper.profile.maxParallelRequestsPerTarget = some 0

/-- The shaper of the command in progress has panicked, and the run loop is no more. -/
def RunLoop.Panicked (u : RunLoop) : Prop :=
  ∃ t client, u.current = some (t, .panicked client) ∧ client.panics = true

/-- Only a client that panics has done so. -/
def RunLoop.Sound (u : RunLoop) : Prop :=
  ∀ t client, u.current = some (t, .panicked client) → client.panics = true

section Linear

variable [CaseTable] {u : RunLoop}

omit [CaseTable] in
theorem RunLoop.left_le (u : RunLoop) : u.left ≤ 6 := by
  obtain ⟨s, current, submitted, results⟩ := u
  match current with
  | none => exact Nat.zero_le 6
  | some (t, p) => cases p <;> simp [left, ExecPoint.left]

omit [CaseTable] in
theorem ExecPoint.simulator_left (cmd : OrderCommand) : (ExecPoint.simulator cmd).left ≤ 2 := by
  unfold ExecPoint.simulator
  cases cmd.limitPrice <;> simp [left]

/-- **Going on comes nearer to the end**, if the loop is not dead; only the wait for a permit can be
without one. -/
theorem RunLoop.advance_left (h : u.current ≠ none) (hpermit : ¬ u.Starves)
    (hlives : ∀ t client, u.current ≠ some (t, .panicked client)) :
    ∃ v, u.advance = some v ∧ v.left < u.left := by
  obtain ⟨s, current, submitted, results⟩ := u
  match current with
  | none => exact absurd rfl h
  | some (t, .config) =>
    have hsim := ExecPoint.simulator_left t.cmd
    cases hmode : s.config.mode with
    | liveOkx =>
      simp only [advance, hmode]
      exact ⟨_, rfl, Nat.lt_succ_self 5⟩
    | simulated =>
      simp only [advance, hmode]
      exact ⟨_, rfl, show (ExecPoint.simulator t.cmd).left < 6 by omega⟩
  | some (t, .client) =>
    have hsim := ExecPoint.simulator_left t.cmd
    cases hclient : s.okxClient with
    | none =>
      simp only [advance, hclient]
      exact ⟨_, rfl, show (ExecPoint.simulator t.cmd).left < 5 by omega⟩
    | some client =>
      cases hrequest : client.orderRequest t.cmd with
      | error err =>
        simp only [advance, hclient, hrequest]
        exact ⟨_, rfl, Nat.succ_pos 4⟩
      | ok request =>
        by_cases hpanics : client.trafficShaper.jitterPanics = true
        · simp only [advance, hclient, hrequest, if_pos hpanics]
          exact ⟨_, rfl, Nat.succ_pos 4⟩
        cases hjitter : client.trafficShaper.profile.requestJitterMs with
        | some delay =>
          simp only [advance, hclient, hrequest, if_neg hpanics, hjitter]
          exact ⟨_, rfl, Nat.lt_succ_self 4⟩
        | none =>
          simp only [advance, hclient, hrequest, if_neg hpanics, hjitter]
          exact ⟨_, rfl, show 3 < 5 by omega⟩
  | some (t, .jitter client request) => exact ⟨_, rfl, Nat.lt_succ_self 3⟩
  | some (t, .permit client request) =>
    have hsome : client.trafficShaper.profile.maxParallelRequestsPerTarget ≠ some 0 :=
      fun hzero => hpermit ⟨t, client, request, rfl, hzero⟩
    simp only [advance, if_neg hsome]
    by_cases hpanics : client.trafficShaper.permitPanics = true
    · rw [if_pos hpanics]
      exact ⟨_, rfl, Nat.succ_pos 2⟩
    · rw [if_neg hpanics]
      exact ⟨_, rfl, Nat.lt_succ_self 2⟩
  | some (t, .send client request) =>
    cases hsent : t.exchange request with
    | unsent err =>
      simp only [advance, hsent]
      exact ⟨_, rfl, Nat.succ_pos 1⟩
    | sent answer =>
      simp only [advance, hsent]
      exact ⟨_, rfl, Nat.lt_succ_self 1⟩
  | some (t, .answer answer) => exact ⟨_, rfl, Nat.succ_pos 0⟩
  | some (t, .panicked client) => exact absurd rfl (hlives t client)
  | some (t, .price) => exact ⟨_, rfl, Nat.lt_succ_self 1⟩
  | some (t, .ledger fillPrice) => exact ⟨_, rfl, Nat.succ_pos 0⟩

omit [CaseTable] in
theorem RunLoop.sound_goOn (u : RunLoop) (t : TakenCommand) {p : ExecPoint}
    (hp : ∀ client, p = .panicked client → client.panics = true) : (u.goOn t p).Sound := by
  intro t' client heq
  exact hp client (Prod.mk.inj (Option.some.inj heq)).2

/-- **Going on panics only if the client does.** -/
theorem RunLoop.Sound.advance {v : RunLoop} (h : u.advance = some v) : v.Sound := by
  obtain ⟨s, current, submitted, results⟩ := u
  have hdone : ∀ {u : RunLoop} {handled : Handled}, (u.finish handled).Sound :=
    fun t client heq => by cases heq
  have hsim : ∀ cmd client, ExecPoint.simulator cmd = .panicked client → client.panics = true := by
    intro cmd client heq
    unfold ExecPoint.simulator at heq
    split at heq <;> cases heq
  unfold RunLoop.advance at h
  match current with
  | none => cases h
  | some (t, .config) =>
    dsimp only at h
    split at h <;> cases h
    · exact sound_goOn _ t fun _ heq => by cases heq
    · exact sound_goOn _ t (hsim t.cmd)
  | some (t, .client) =>
    dsimp only at h
    split at h
    · cases h
      exact sound_goOn _ t (hsim t.cmd)
    · split at h
      · cases h
        exact hdone
      · split_ifs at h with hpanics
        · cases h
          refine sound_goOn _ t fun client heq => ?_
          rw [← ExecPoint.panicked.inj heq, OkxClient.panics, hpanics, Bool.true_or]
        · split at h <;> (cases h; exact sound_goOn _ t fun _ heq => by cases heq)
  | some (t, .jitter client request) =>
    cases h
    exact sound_goOn _ t fun _ heq => by cases heq
  | some (t, .permit client request) =>
    dsimp only at h
    split_ifs at h with hzero hpanics
    · cases h
      refine sound_goOn _ t fun client heq => ?_
      rw [← ExecPoint.panicked.inj heq, OkxClient.panics, hpanics, Bool.or_true]
    · cases h
      exact sound_goOn _ t fun _ heq => by cases heq
  | some (t, .send client request) =>
    dsimp only at h
    split at h <;> cases h
    · exact hdone
    · exact sound_goOn _ t fun _ heq => by cases heq
  | some (t, .answer answer) =>
    cases h
    exact hdone
  | some (t, .panicked client) => cases h
  | some (t, .price) =>
    cases h
    exact sound_goOn _ t fun _ heq => by cases heq
  | some (t, .ledger fillPrice) =>
    cases h
    exact hdone

variable [Reqwest]

theorem RunLoop.sound_run (s : ExecutionService) {as : List RunAction}
    (h : runLoop.exec (.start s) as = some u) : u.Sound := by
  refine Interleaving.exec_history (M := runLoop) (P := fun _ u => u.Sound)
    (fun t client heq => by cases heq) ?_ h
  intro as u a v hu hstep
  cases a with
  | take t =>
    change u.take t = some v at hstep
    unfold RunLoop.take at hstep
    split at hstep
    · cases hstep
    · split_ifs at hstep <;> cases hstep
      · exact fun t client heq => by cases heq
      · exact sound_goOn u t fun _ heq => by cases heq
  | advance => exact .advance hstep
  | configUpdate newCfg =>
    obtain ⟨s', current, submitted, results⟩ := u
    cases current with
    | some c => cases hstep
    | none =>
      cases hstep
      exact fun t client heq => by cases heq
  | block =>
    cases hstep
    exact hu
  | reset =>
    cases hstep
    exact hu

/-- The run loop goes on until it is done with the command in progress, starves or panics. -/
theorem RunLoop.exists_settled (h : u.Sound) :
    ∃ n ≤ u.left, ∃ v, runLoop.exec u (List.replicate n .advance) = some v ∧
      v.settled = u.settled ∧ (v.current = none ∨ v.Starves ∨ v.Panicked) := by
  induction hleft : u.left using Nat.strong_induction_on generalizing u with
  | _ k ih =>
    by_cases hdone : u.current = none ∨ u.Starves ∨ u.Panicked
    · exact ⟨0, Nat.zero_le k, u, rfl, rfl, hdone⟩
    · rw [not_or, not_or] at hdone
      obtain ⟨v, hv, hlt⟩ := u.advance_left hdone.1 hdone.2.1 fun t client heq =>
        hdone.2.2 ⟨t, client, heq, h t client heq⟩
      obtain ⟨n, hn, w, hw, hsettled, hend⟩ := ih v.left (hleft ▸ hlt) (.advance hv) rfl
      refine ⟨n + 1, by omega, w, ?_, hsettled.trans (RunLoop.advance_settled hv), hend⟩
      rw [List.replicate_succ]
      exact (Interleaving.exec_cons_of_step (M := runLoop) (a := RunAction.advance) hv _).trans hw

/-- **The run loop is linearizable, and finishes its commands.**  Whatever happens between its
awaits, the run loop is on the way to the state, the requests and the results of the service that
handles the inputs at once, each command at the place where it is taken; and at most six steps
later it has come there, unless it waits for a permit of a client that allows no request, or the
command has come to nothing by a panic of its client, which ends the loop. -/
theorem run_loop_linearizes (s : ExecutionService) {as : List RunAction} {u : RunLoop}
    (h : runLoop.exec (.start s) as = some u) :
    Linear s (inputsOf as) u ∧
      ∃ n ≤ 6, ∃ v, runLoop.exec u (List.replicate n .advance) = some v ∧
        Linear s (inputsOf as) v ∧ (v = v.settled ∨ v.Starves ∨ v.Panicked) := by
  have hlinear := linearized s h
  refine ⟨hlinear, ?_⟩
  obtain ⟨n, hn, v, hv, hsettled, hend⟩ := RunLoop.exists_settled (RunLoop.sound_run s h)
  refine ⟨n, hn.trans u.left_le, v, hv, ?_, hend.imp_left fun hnone => ?_⟩
  · exact ⟨hsettled ▸ hlinear.service, hsettled ▸ hlinear.submitted, hsettled ▸ hlinear.results⟩
  · rw [RunLoop.settled, hnone]

end Linear

/-- A command of a node with an OKX account, and a block in between. -/
theorem run_loop_linearizes_live :
    ∃ s, @ExecutionService.new ℚ acceptAll _ liveOkxConfig = .ok s ∧
      ∃ u, (@runLoop asciiCase acceptAll).exec (.start s)
          [.take takenBuy, .advance, .advance, .block, .advance] = some u ∧
        let is := [.command (.ok takenBuy.cmd) takenBuy.now takenBuy.exchange, .blockNewOrders]
        @Linear asciiCase acceptAll s is u ∧
          ∃ n ≤ 6, ∃ v, (@runLoop asciiCase acceptAll).exec u (List.replicate n .advance) = some v ∧
            @Linear asciiCase acceptAll s is v ∧ (v = @RunLoop.settled asciiCase v ∨
              v.Starves ∨ v.Panicked) := by
  refine ⟨_, rfl, _, rfl, ?_⟩
  exact @run_loop_linearizes asciiCase acceptAll _
    [.take takenBuy, .advance, .advance, .block, .advance] _ rfl

end W2uos
