import Mathlib.Data.List.Induction
import W2uos.Risk.Supervisor

/-!
# The window of errors

`record_error` appends the current instant to a queue, and `prune_errors` drops the instants of more
than a minute ago from its front, up to the first that is not older, and counts what is left.  The
clock is monotonic, so the queue is in order and what is dropped is needed by no later count:
however the calls are mixed, a count is the number of errors of the last minute.

* `ErrorCall`, `errorCalls` : the two calls, and the supervisor under a sequence of them;
* `errorsWithin` : the number of errors recorded in a span of time;
* `retains_errors` : what a sequence of calls leaves in the queue;
* `pruneErrors_exact` : every call of `prune_errors` counts the errors of the last minute.
-/

namespace W2uos

/-- A call with the instant the clock shows. -/
inductive ErrorCall
  | recordError (now : Instant)
  | pruneErrors (now : Instant)
  deriving DecidableEq

namespace ErrorCall

/-- The instant of a call. -/
def instant : ErrorCall → Instant
  | recordError now => now
  | pruneErrors now => now

/-- The error a call records, if it does. -/
def recorded : ErrorCall → Option Instant
  | recordError now => some now
  | pruneErrors _ => none

/-- The clock does not go back. -/
def Ordered (calls : List ErrorCall) : Prop := (calls.map instant).Pairwise (· ≤ ·)

end ErrorCall

/-- The supervisor under the calls; a count is its output. -/
def errorCalls : Machine RiskSupervisorService ErrorCall ℕ where
  step s
    | .recordError now => ({ s with state := s.state.recordError now }, [])
    | .pruneErrors now =>
      let (count, s) := s.pruneErrors now
      (s, [count])

/-- The errors recorded by the calls, in order. -/
def recordedErrors (calls : List ErrorCall) : List Instant := calls.filterMap ErrorCall.recorded

/-- The number of errors recorded from `first` to `last`. -/
def errorsWithin (calls : List ErrorCall) (first last : Instant) : ℕ :=
  ((recordedErrors calls).filter fun t => first ≤ t ∧ t ≤ last).length

section Errors

variable {calls : List ErrorCall} {now : Instant}

theorem recordedErrors_sublist (calls : List ErrorCall) :
    (recordedErrors calls).Sublist (calls.map ErrorCall.instant) := by
  induction calls with
  | nil => exact List.Sublist.slnil
  | cons call calls ih =>
    cases call with
    | recordError t => exact ih.cons_cons t
    | pruneErrors t => exact ih.cons t

theorem recordedErrors_concat (calls : List ErrorCall) (call : ErrorCall) :
    recordedErrors (calls ++ [call]) = recordedErrors calls ++ call.recorded.toList := by
  rw [recordedErrors, List.filterMap_append]
  cases call with
  | recordError t => rfl
  | pruneErrors t => rfl

theorem recordedErrors_pairwise (h : ErrorCall.Ordered calls) :
    (recordedErrors calls).Pairwise (· ≤ ·) :=
  List.Pairwise.sublist (recordedErrors_sublist calls) h

theorem ErrorCall.Ordered.le_last {call : ErrorCall} (h : ErrorCall.Ordered (calls ++ [call])) :
    ∀ t ∈ calls.map ErrorCall.instant, t ≤ call.instant := by
  unfold ErrorCall.Ordered at h
  rw [List.map_append, List.pairwise_append] at h
  intro t ht
  exact h.2.2 t ht _ (by simp)

theorem ErrorCall.Ordered.left {call : ErrorCall} (h : ErrorCall.Ordered (calls ++ [call])) :
    ErrorCall.Ordered calls := by
  unfold ErrorCall.Ordered at h
  rw [List.map_append] at h
  exact (List.pairwise_append.1 h).1

/-- **What is in the queue**: at any time to come, only errors of more than a minute ago are
missing. -/
theorem retains_errors (s : RiskSupervisorService) (hs : s.state.lastErrors = [])
    (hle : ∀ t ∈ calls.map ErrorCall.instant, t ≤ now) :
    Window.Retains (now - fromSecs 60) (recordedErrors calls)
      (errorCalls.run s calls).state.lastErrors := by
  induction calls using List.reverseRecOn with
  | nil =>
    rw [Machine.run_nil, hs]
    exact Window.Retains.refl _ _
  | append_singleton calls call ih =>
    have hbefore := ih fun t ht => hle t (by rw [List.map_append]; exact List.mem_append_left _ ht)
    have hcall : call.instant ≤ now := hle _ (by simp)
    rw [Machine.run_concat, recordedErrors_concat]
    cases call with
    | recordError t => exact hbefore.record t
    | pruneErrors t =>
      rw [ErrorCall.recorded, Option.toList_none, List.append_nil]
      exact hbefore.prune (Int.sub_le_sub_right hcall _)

/-- **Every count is that of the last minute**, whatever was recorded and counted before. -/
theorem pruneErrors_exact (cfg : GlobalRiskConfig) (calls : List ErrorCall)
    (hordered : ErrorCall.Ordered calls) (before : List ErrorCall) (now : Instant)
    (hbefore : before ++ [.pruneErrors now] <+: calls) :
    errorCalls.emit (errorCalls.run (.new cfg) before) (.pruneErrors now) =
      [errorsWithin before (now - fromSecs 60) now] := by
  have hlast : ErrorCall.Ordered (before ++ [.pruneErrors now]) :=
    List.Pairwise.sublist (hbefore.sublist.map _) hordered
  have hle : ∀ t ∈ before.map ErrorCall.instant, t ≤ now := hlast.le_last
  have hretains := retains_errors (.new cfg) rfl hle
  have hcount := hretains.prune_eq (recordedErrors_pairwise hlast.left)
  -- no error is recorded after the instant of the count
  have hwithin : (recordedErrors before).filter (fun t => now - fromSecs 60 ≤ t) =
      (recordedErrors before).filter fun t => now - fromSecs 60 ≤ t ∧ t ≤ now := by
    refine List.filter_congr fun t ht => ?_
    have htnow : t ≤ now := hle t ((recordedErrors_sublist before).subset ht)
    simp [htnow]
  rw [Machine.emit, errorCalls, errorsWithin, ← hwithin, ← hcount]
  rfl

/-- An error of exactly a minute ago counts, and the one before it does not. -/
theorem pruneErrors_exact_sample :
    errorCalls.emit
        (errorCalls.run (.new .default)
          [.recordError 0, .pruneErrors (fromSecs 30), .recordError (fromSecs 30),
            .pruneErrors (fromSecs 60)])
        (.pruneErrors (fromSecs 90)) =
      [1] :=
  pruneErrors_exact .default
    [.recordError 0, .pruneErrors (fromSecs 30), .recordError (fromSecs 30),
      .pruneErrors (fromSecs 60), .pruneErrors (fromSecs 90)]
    (by unfold ErrorCall.Ordered; decide) _ _ List.prefix_rfl

end Errors

end W2uos
