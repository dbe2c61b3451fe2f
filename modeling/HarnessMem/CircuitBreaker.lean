import HarnessMem.Lib.Runs
import Mathlib.Data.List.Induction
import Mathlib.Data.Rat.Defs
import Mathlib.Algebra.Order.Ring.Rat
import Mathlib.Tactic.Linarith

/-! The circuit breaker of the embedding providers. Its callers are asynchronous: a result may
be reported in any later state, so a call carries the caller that makes it and the readings
of the clock it takes. -/
namespace HarnessMem.CircuitBreaker

inductive BreakerState | closed | opened | halfOpen
  deriving DecidableEq, Repr

structure CircuitBreakerOptions where
  failureThreshold : Option ℚ
  cooldownMs : Option ℚ

structure Limits where
  failureThreshold : ℚ
  cooldownMs : ℚ

def limitsOf (options : CircuitBreakerOptions) : Limits :=
  ⟨max 1 (options.failureThreshold.getD 3), max 0 (options.cooldownMs.getD 60000)⟩

structure Breaker where
  state : BreakerState
  consecutiveFailures : Nat
  lastFailureAt : Option ℚ
  openedAt : Option ℚ
  probeInFlight : Bool
  deriving DecidableEq

structure CircuitBreakerStatus where
  state : BreakerState
  consecutiveFailures : Nat
  lastFailureAt : Option ℚ
  openedAt : Option ℚ
  nextProbeAt : Option ℚ

def createCircuitBreaker : Breaker := ⟨.closed, 0, none, none, false⟩

def nextProbeAt (limits : Limits) (b : Breaker) : Option ℚ :=
  if b.state = .opened then b.openedAt.map (· + limits.cooldownMs) else none

def tryTransitionToHalfOpen (limits : Limits) (now : ℚ) (b : Breaker) : Breaker :=
  if b.state = .opened ∧ b.openedAt.any (fun openedAt => decide (openedAt + limits.cooldownMs ≤ now)) then
    {b with state := .halfOpen, probeInFlight := false}
  else b

def shouldSkip (limits : Limits) (now : ℚ) (b : Breaker) : Bool × Breaker :=
  let b := tryTransitionToHalfOpen limits now b
  (if b.state = .closed then false else if b.state = .halfOpen ∧ b.probeInFlight = false then false else true, b)

def allowProbe (limits : Limits) (now : ℚ) (b : Breaker) : Bool × Breaker :=
  let b := tryTransitionToHalfOpen limits now b
  if b.state ≠ .halfOpen then (false, b)
  else if b.probeInFlight then (false, b)
  else (true, {b with probeInFlight := true})

def recordSuccess (b : Breaker) : Breaker :=
  {b with consecutiveFailures := 0, state := .closed, openedAt := none, probeInFlight := false}

-- The clock is read once for the failure and once more where the breaker opens.
def recordFailure (limits : Limits) (failedAt openedAt : ℚ) (b : Breaker) : Breaker :=
  let b := {b with lastFailureAt := some failedAt, consecutiveFailures := b.consecutiveFailures + 1, probeInFlight := false}
  if b.state = .halfOpen then {b with state := .opened, openedAt := some openedAt}
  else if limits.failureThreshold ≤ b.consecutiveFailures then {b with state := .opened, openedAt := some openedAt}
  else b

def status (limits : Limits) (now : ℚ) (b : Breaker) : CircuitBreakerStatus × Breaker :=
  let b := tryTransitionToHalfOpen limits now b
  (⟨b.state, b.consecutiveFailures, b.lastFailureAt, b.openedAt, nextProbeAt limits b⟩, b)

inductive Call
  | shouldSkip (now : ℚ)
  | allowProbe (caller : Nat) (now : ℚ)
  | status (now : ℚ)
  | recordSuccess (caller : Nat)
  | recordFailure (caller : Nat) (failedAt openedAt : ℚ)

def Call.readings : Call → List ℚ
  | .shouldSkip now => [now]
  | .allowProbe _ now => [now]
  | .status now => [now]
  | .recordSuccess _ => []
  | .recordFailure _ failedAt openedAt => [failedAt, openedAt]

-- Whose result the call reports.
def Call.reporter : Call → Option Nat
  | .recordSuccess caller => some caller
  | .recordFailure caller _ _ => some caller
  | _ => none

def Call.succeeds : Call → Bool
  | .recordSuccess _ => true
  | _ => false

def Call.fails : Call → Bool
  | .recordFailure _ _ _ => true
  | _ => false

def step (limits : Limits) (b : Breaker) : Call → Breaker
  | .shouldSkip now => (shouldSkip limits now b).2
  | .allowProbe _ now => (allowProbe limits now b).2
  | .status now => (status limits now b).2
  | .recordSuccess _ => recordSuccess b
  | .recordFailure _ failedAt openedAt => recordFailure limits failedAt openedAt b

def admits (limits : Limits) (b : Breaker) : Call → Bool
  | .allowProbe _ now => (allowProbe limits now b).1
  | _ => false

def after (limits : Limits) (calls : List Call) : Breaker := Runs.run (step limits) createCircuitBreaker calls

theorem afterSnoc (limits : Limits) (calls : List Call) (call : Call) :
    after limits (calls ++ [call]) = step limits (after limits calls) call := Runs.runSnoc _ _ _ _

-- The clock never runs backwards.
def Clocked (calls : List Call) : Prop := (calls.flatMap Call.readings).Pairwise (· ≤ ·)

def failuresSinceSuccess (calls : List Call) : Nat := (calls.reverse.takeWhile (fun call => !call.succeeds)).countP Call.fails

-- A probe that was let through and whose caller has not reported since.
def Outstanding (limits : Limits) (calls : List Call) : Prop :=
  ∃ before caller now rest, calls = before ++ .allowProbe caller now :: rest ∧
    admits limits (after limits before) (.allowProbe caller now) = true ∧ ∀ call ∈ rest, call.reporter ≠ some caller

def Leaves (limits : Limits) (b : Breaker) (call : Call) : Prop :=
  b.state = .halfOpen ∧ (step limits b call).state ≠ .halfOpen

section
variable {limits : Limits} {now t : ℚ} {b : Breaker} {call : Call}

-- All that a look at the clock can do.
theorem transitionCases (limits : Limits) (now : ℚ) (b : Breaker) :
    tryTransitionToHalfOpen limits now b = b ∨ b.state = .opened ∧
      tryTransitionToHalfOpen limits now b = {b with state := .halfOpen, probeInFlight := false} := by
  unfold tryTransitionToHalfOpen
  split
  · rename_i due
    exact .inr ⟨due.1, rfl⟩
  · exact .inl rfl

theorem transitionEarly (since : b.openedAt = some t) (early : now < t + limits.cooldownMs) :
    tryTransitionToHalfOpen limits now b = b := by
  apply if_neg
  rintro ⟨_, due⟩
  rw [since, Option.any_some, decide_eq_true_eq] at due
  exact absurd early (not_lt.mpr due)

theorem transitionDue (opened : b.state = .opened) (since : b.openedAt = some t) (due : t + limits.cooldownMs ≤ now) :
    tryTransitionToHalfOpen limits now b = {b with state := .halfOpen, probeInFlight := false} :=
  if_pos ⟨opened, by rw [since, Option.any_some, decide_eq_true due]⟩

theorem shouldSkipNext : (shouldSkip limits now b).2 = tryTransitionToHalfOpen limits now b := rfl
theorem statusNext : (status limits now b).2 = tryTransitionToHalfOpen limits now b := rfl
variable (limits now b) in
theorem allowProbeNext : (allowProbe limits now b).2 = tryTransitionToHalfOpen limits now b ∨
    (allowProbe limits now b).1 = true ∧ (tryTransitionToHalfOpen limits now b).state = .halfOpen ∧
      (tryTransitionToHalfOpen limits now b).probeInFlight = false ∧
      (allowProbe limits now b).2 = {tryTransitionToHalfOpen limits now b with probeInFlight := true} := by
  unfold allowProbe
  dsimp only
  split
  · exact .inl rfl
  · rename_i half
    split
    · exact .inl rfl
    · rename_i free
      exact .inr ⟨rfl, not_not.mp half, by simpa using free, rfl⟩

theorem recordFailureNext (limits : Limits) (failedAt openedAt : ℚ) (b : Breaker) :
    (b.state = .halfOpen ∨ limits.failureThreshold ≤ b.consecutiveFailures + 1) ∧ recordFailure limits failedAt openedAt b =
        ⟨.opened, b.consecutiveFailures + 1, some failedAt, some openedAt, false⟩ ∨
      (b.state ≠ .halfOpen ∧ b.consecutiveFailures + 1 < limits.failureThreshold) ∧ recordFailure limits failedAt openedAt b =
        ⟨b.state, b.consecutiveFailures + 1, some failedAt, b.openedAt, false⟩ := by
  unfold recordFailure
  dsimp only
  push_cast
  split
  · rename_i half
    exact .inl ⟨.inl half, rfl⟩
  · rename_i other
    split
    · rename_i reached
      exact .inl ⟨.inr reached, rfl⟩
    · rename_i short
      exact .inr ⟨⟨other, not_le.mp short⟩, rfl⟩

variable (limits b) in
-- A call that reports nothing only looks at the clock, or takes the slot of the probe as well.
theorem quietStep (quiet : call.reporter = none) :
    ∃ now, step limits b call = tryTransitionToHalfOpen limits now b ∨
      admits limits b call = true ∧ (tryTransitionToHalfOpen limits now b).state = .halfOpen ∧
        (tryTransitionToHalfOpen limits now b).probeInFlight = false ∧
        step limits b call = {tryTransitionToHalfOpen limits now b with probeInFlight := true} := by
  cases call with
  | shouldSkip now => exact ⟨now, .inl rfl⟩
  | allowProbe caller now => exact ⟨now, allowProbeNext limits now b⟩
  | status now => exact ⟨now, .inl rfl⟩
  | recordSuccess caller => cases quiet
  | recordFailure caller failedAt openedAt => cases quiet
end

-- The probes let through along a run.
def admissions (limits : Limits) (b : Breaker) (calls : List Call) : Nat :=
  (Runs.log (step limits) (fun b call => [admits limits b call]) b calls).count true

theorem admissionsCons (limits : Limits) (b : Breaker) (call : Call) (rest : List Call) :
    admissions limits b (call :: rest) = (if admits limits b call then 1 else 0) + admissions limits (step limits b call) rest := by
  simp only [admissions, Runs.log, List.cons_append, List.nil_append, List.count_cons, beq_true]
  exact Nat.add_comm _ _

section
variable {limits : Limits} {b : Breaker} {call : Call}

theorem leavesReport (half : b.state = .halfOpen) (reports : call.reporter ≠ none) : Leaves limits b call := by
  refine ⟨half, ?_⟩
  cases call with
  | shouldSkip now => exact absurd rfl reports
  | allowProbe caller now => exact absurd rfl reports
  | status now => exact absurd rfl reports
  | recordSuccess caller =>
    have closed : (step limits b (.recordSuccess caller)).state = .closed := rfl
    rw [closed]
    decide
  | recordFailure caller failedAt openedAt =>
    rcases recordFailureNext limits failedAt openedAt b with ⟨_, next⟩ | ⟨⟨other, _⟩, _⟩
    · rw [step, next]
      exact fun same => by cases same
    · exact absurd half other

-- While the slot of the probe is taken, only a report frees it, and that leaves half-open.
theorem heldStep (half : b.state = .halfOpen) (held : b.probeInFlight = true) (stays : ¬ Leaves limits b call) :
    step limits b call = b ∧ admits limits b call = false := by
  have quiet : call.reporter = none := by
    by_contra reports
    exact stays (leavesReport half reports)
  have still : ∀ now, tryTransitionToHalfOpen limits now b = b := fun now => by
    rcases transitionCases limits now b with same | ⟨opened, _⟩
    · exact same
    · rw [half] at opened
      cases opened
  have refused : ∀ now, allowProbe limits now b = (false, b) := fun now => by
    simp only [allowProbe, still, half, ne_eq, not_true_eq_false, if_false, held, if_true]
  cases call with
  | shouldSkip now => exact ⟨still now, rfl⟩
  | allowProbe caller now => exact ⟨congrArg Prod.snd (refused now), congrArg Prod.fst (refused now)⟩
  | status now => exact ⟨still now, rfl⟩
  | recordSuccess caller => cases quiet
  | recordFailure caller failedAt openedAt => cases quiet

theorem heldRun {calls : List Call} (half : b.state = .halfOpen) (held : b.probeInFlight = true)
    (stays : Runs.Throughout (step limits) (fun b call => ¬ Leaves limits b call) b calls) : admissions limits b calls = 0 := by
  induction calls with
  | nil => rfl
  | cons call rest ih =>
    obtain ⟨same, refused⟩ := heldStep half held stays.1
    have later := ih (by rw [← same]; exact stays.2)
    rw [admissionsCons, same, refused, later]
    rfl

theorem admitsTakes (admitted : admits limits b call = true) :
    (step limits b call).state = .halfOpen ∧ (step limits b call).probeInFlight = true := by
  cases call with
  | allowProbe caller now =>
    unfold admits allowProbe at admitted
    unfold step allowProbe
    dsimp only at admitted ⊢
    split at admitted
    · cases admitted
    · rename_i half
      rw [if_neg half]
      split at admitted
      · cases admitted
      · rename_i free
        rw [if_neg free]
        exact ⟨not_not.mp half, rfl⟩
  | shouldSkip now => cases admitted
  | status now => cases admitted
  | recordSuccess caller => cases admitted
  | recordFailure caller failedAt openedAt => cases admitted

theorem oneAdmission {calls : List Call}
    (stays : Runs.Throughout (step limits) (fun b call => ¬ Leaves limits b call) b calls) : admissions limits b calls ≤ 1 := by
  induction calls generalizing b with
  | nil => exact Nat.zero_le 1
  | cons call rest ih =>
    rw [admissionsCons]
    by_cases admitted : admits limits b call = true
    · obtain ⟨half, held⟩ := admitsTakes admitted
      rw [if_pos admitted, heldRun half held stays.2]
    · rw [if_neg admitted, Nat.zero_add]
      exact ih stays.2
end

-- What holds of the breaker after any calls: it is closed below the threshold and only there.
structure Counted (limits : Limits) (calls : List Call) (b : Breaker) : Prop where
  count : b.consecutiveFailures = failuresSinceSuccess calls
  closed : b.state = .closed ↔ (b.consecutiveFailures : ℚ) < limits.failureThreshold
  since : b.state = .opened → b.openedAt.isSome

theorem failuresSnoc (calls : List Call) (call : Call) : failuresSinceSuccess (calls ++ [call]) =
    if call.succeeds then 0 else failuresSinceSuccess calls + if call.fails then 1 else 0 := by
  simp only [failuresSinceSuccess, List.reverse_append, List.reverse_singleton, List.singleton_append, List.takeWhile_cons]
  cases call.succeeds
  · simp [List.countP_cons]
  · rfl

theorem countedQuiet {limits : Limits} {calls : List Call} {call : Call} {b : Breaker} (counted : Counted limits calls b)
    (quiet : call.reporter = none) : Counted limits (calls ++ [call]) (step limits b call) := by
  have silent : failuresSinceSuccess (calls ++ [call]) = failuresSinceSuccess calls := by
    rw [failuresSnoc]
    cases call <;> first | rfl | cases quiet
  have looked : ∀ now, Counted limits (calls ++ [call]) (tryTransitionToHalfOpen limits now b) := fun now => by
    rcases transitionCases limits now b with same | ⟨opened, next⟩
    · rw [same]
      exact ⟨counted.count.trans silent.symm, counted.closed, counted.since⟩
    · rw [next]
      have beyond := counted.closed
      rw [opened] at beyond
      have reached : ¬ (b.consecutiveFailures : ℚ) < limits.failureThreshold := fun below => absurd (beyond.mpr below) (by decide)
      exact ⟨counted.count.trans silent.symm, iff_of_false (fun closed => by cases closed) reached, fun still => by cases still⟩
  obtain ⟨now, same | ⟨_, half, _, next⟩⟩ := quietStep limits b quiet
  · rw [same]
    exact looked now
  · have seen := looked now
    rw [next]
    exact ⟨seen.count, seen.closed, seen.since⟩

theorem counted (limits : Limits) (positive : 0 < limits.failureThreshold) (calls : List Call) :
    Counted limits calls (after limits calls) := by
  induction calls using List.reverseRecOn with
  | nil =>
    have none : ((after limits []).consecutiveFailures : ℚ) < limits.failureThreshold := by
      rw [show (after limits []).consecutiveFailures = 0 from rfl, Nat.cast_zero]
      exact positive
    exact ⟨rfl, iff_of_true rfl none, fun opened => by cases opened⟩
  | append_singleton calls call ih =>
    rw [afterSnoc]
    generalize after limits calls = b at ih
    by_cases quiet : call.reporter = none
    · exact countedQuiet ih quiet
    · cases call with
      | shouldSkip now => exact absurd rfl quiet
      | allowProbe caller now => exact absurd rfl quiet
      | status now => exact absurd rfl quiet
      | recordSuccess caller =>
        have none : failuresSinceSuccess (calls ++ [.recordSuccess caller]) = 0 := by rw [failuresSnoc]; rfl
        exact ⟨none.symm, iff_of_true rfl (by simpa [step, recordSuccess] using positive), fun opened => by cases opened⟩
      | recordFailure caller failedAt openedAt =>
        have more : failuresSinceSuccess (calls ++ [.recordFailure caller failedAt openedAt]) = b.consecutiveFailures + 1 := by
          rw [failuresSnoc, ih.count]
          rfl
        rcases recordFailureNext limits failedAt openedAt b with ⟨why, next⟩ | ⟨⟨other, short⟩, next⟩
        · have reached : limits.failureThreshold ≤ b.consecutiveFailures + 1 := by
            rcases why with half | reached
            · have beyond : limits.failureThreshold ≤ b.consecutiveFailures :=
                not_lt.mp fun below => by rw [ih.closed.mpr below] at half; cases half
              linarith
            · exact reached
          rw [step, next]
          refine ⟨more.symm, iff_of_false (fun closed => by cases closed) (not_lt.mpr ?_), fun _ => rfl⟩
          push_cast
          exact reached
        · have below : (b.consecutiveFailures : ℚ) < limits.failureThreshold := by linarith
          rw [step, next]
          refine ⟨more.symm, iff_of_true (ih.closed.mpr below) ?_, ih.since⟩
          push_cast
          exact short

-- The breaker has stood open since `t` or was opened anew later.
def ShutSince (t : ℚ) (b : Breaker) : Prop := b.state = .opened ∧ ∃ since, t ≤ since ∧ b.openedAt = some since

section
variable {limits : Limits} {t now : ℚ} {b : Breaker}

theorem shutLook (shut : ShutSince t b) (early : now < t + limits.cooldownMs) : tryTransitionToHalfOpen limits now b = b := by
  obtain ⟨_, since, le, openedAt⟩ := shut
  exact transitionEarly openedAt (by linarith)

theorem shutStep {call : Call} (shut : ShutSince t b) (failing : call.succeeds = false)
    (early : ∀ now ∈ call.readings, now < t + limits.cooldownMs) (ordered : ∀ now ∈ call.readings, t ≤ now) :
    ShutSince t (step limits b call) := by
  cases call with
  | shouldSkip now =>
    rw [step, shouldSkipNext, shutLook shut (early now (by simp [Call.readings]))]
    exact shut
  | allowProbe caller now =>
    have look := shutLook shut (early now (by simp [Call.readings]))
    rcases allowProbeNext limits now b with next | ⟨_, half, _⟩
    · rw [step, next, look]
      exact shut
    · rw [look, shut.1] at half
      cases half
  | status now =>
    rw [step, statusNext, shutLook shut (early now (by simp [Call.readings]))]
    exact shut
  | recordSuccess caller => cases failing
  | recordFailure caller failedAt openedAt =>
    rcases recordFailureNext limits failedAt openedAt b with ⟨_, next⟩ | ⟨_, next⟩
    · rw [step, next]
      exact ⟨rfl, openedAt, ordered openedAt (by simp [Call.readings]), rfl⟩
    · rw [step, next]
      exact shut

theorem shutRun {calls : List Call} (shut : ShutSince t b) (failing : ∀ call ∈ calls, call.succeeds = false)
    (early : ∀ now ∈ calls.flatMap Call.readings, now < t + limits.cooldownMs)
    (ordered : ∀ now ∈ calls.flatMap Call.readings, t ≤ now) : ShutSince t (Runs.run (step limits) b calls) := by
  induction calls generalizing b with
  | nil => exact shut
  | cons call rest ih =>
    simp only [List.flatMap_cons, List.mem_append] at early ordered
    have next := shutStep shut (failing call List.mem_cons_self) (fun now mem => early now (.inl mem)) (fun now mem => ordered now (.inl mem))
    exact ih next (fun call mem => failing call (List.mem_cons_of_mem _ mem)) (fun now mem => early now (.inr mem)) (fun now mem => ordered now (.inr mem))

theorem shutAnswers {caller : Nat} (shut : ShutSince t b) (early : now < t + limits.cooldownMs) :
    (shouldSkip limits now b).1 = true ∧ admits limits b (.allowProbe caller now) = false := by
  have look := shutLook shut early
  have opened : b.state = .opened := shut.1
  constructor
  · simp [shouldSkip, look, opened]
  · simp [admits, allowProbe, look, opened]
end

-- A taken slot waits for the caller that took it.
theorem heldOutstanding (limits : Limits) (calls : List Call) (held : (after limits calls).probeInFlight = true) :
    Outstanding limits calls := by
  induction calls using List.reverseRecOn with
  | nil => cases held
  | append_singleton calls call ih =>
    rw [afterSnoc] at held
    by_cases quiet : call.reporter = none
    · have kept : (after limits calls).probeInFlight = true → Outstanding limits (calls ++ [call]) := fun taken => by
        obtain ⟨before, caller, now, rest, rfl, admitted, silent⟩ := ih taken
        refine ⟨before, caller, now, rest ++ [call], by simp, admitted, fun later mem => ?_⟩
        rcases List.mem_append.mp mem with mem | mem
        · exact silent later mem
        · rw [List.mem_singleton.mp mem, quiet]
          exact fun same => by cases same
      obtain ⟨now, same | ⟨admitted, _⟩⟩ := quietStep limits (after limits calls) quiet
      · rw [same] at held
        rcases transitionCases limits now (after limits calls) with still | ⟨_, next⟩
        · rw [still] at held
          exact kept held
        · rw [next] at held
          cases held
      · cases call with
        | allowProbe caller now => exact ⟨calls, caller, now, [], rfl, admitted, fun later mem => by cases mem⟩
        | shouldSkip now => cases admitted
        | status now => cases admitted
        | recordSuccess caller => cases admitted
        | recordFailure caller failedAt openedAt => cases admitted
    · cases call with
      | shouldSkip now => exact absurd rfl quiet
      | allowProbe caller now => exact absurd rfl quiet
      | status now => exact absurd rfl quiet
      | recordSuccess caller => cases held
      | recordFailure caller failedAt openedAt =>
        rcases recordFailureNext limits failedAt openedAt (after limits calls) with ⟨_, next⟩ | ⟨_, next⟩
        · rw [step, next] at held
          cases held
        · rw [step, next] at held
          cases held

-- Without a failure nothing opens the breaker.
theorem openedStep {limits : Limits} {b : Breaker} {call : Call} (sound : call.fails = false)
    (opened : (step limits b call).state = .opened) : step limits b call = b := by
  by_cases quiet : call.reporter = none
  · have looked : ∀ now, (tryTransitionToHalfOpen limits now b).state = .opened → tryTransitionToHalfOpen limits now b = b := fun now still => by
      rcases transitionCases limits now b with same | ⟨_, next⟩
      · exact same
      · rw [next] at still
        cases still
    obtain ⟨now, same | ⟨_, half, _, next⟩⟩ := quietStep limits b quiet
    · rw [same] at opened ⊢
      exact looked now opened
    · rw [next] at opened
      cases half.symm.trans opened
  · cases call with
    | shouldSkip now => exact absurd rfl quiet
    | allowProbe caller now => exact absurd rfl quiet
    | status now => exact absurd rfl quiet
    | recordSuccess caller => cases opened
    | recordFailure caller failedAt openedAt => cases sound

theorem openedRun {limits : Limits} {b : Breaker} {calls : List Call} (sound : ∀ call ∈ calls, call.fails = false)
    (opened : (Runs.run (step limits) b calls).state = .opened) : Runs.run (step limits) b calls = b := by
  induction calls using List.reverseRecOn with
  | nil => rfl
  | append_singleton calls call ih =>
    rw [Runs.runSnoc] at opened ⊢
    have same := openedStep (sound call (by simp)) opened
    rw [same] at opened ⊢
    exact ih (fun call mem => sound call (List.mem_append_left _ mem)) opened

section
variable (options : CircuitBreakerOptions)

theorem thresholdPositive : 0 < (limitsOf options).failureThreshold := lt_of_lt_of_le one_pos (le_max_left _ _)

-- A failure that leaves the breaker open opened it now.
theorem opensNow {before : List Call} {caller : Nat} {failedAt t : ℚ}
    (opens : (after (limitsOf options) (before ++ [.recordFailure caller failedAt t])).state = .opened) :
    ShutSince t (after (limitsOf options) (before ++ [.recordFailure caller failedAt t])) := by
  have ground := counted (limitsOf options) (thresholdPositive options) before
  rw [afterSnoc] at opens ⊢
  rcases recordFailureNext (limitsOf options) failedAt t (after (limitsOf options) before) with ⟨_, next⟩ | ⟨⟨_, short⟩, next⟩
  · rw [step, next]
    exact ⟨rfl, t, le_refl t, rfl⟩
  · have closed : (after (limitsOf options) before).state = .closed := ground.closed.mpr (by linarith)
    rw [step, next] at opens
    cases closed.symm.trans opens

theorem breakerShut {before middle : List Call} {caller prober : Nat} {failedAt t now : ℚ}
    (clocked : Clocked (before ++ .recordFailure caller failedAt t :: middle ++ [.shouldSkip now]))
    (opens : (after (limitsOf options) (before ++ [.recordFailure caller failedAt t])).state = .opened)
    (failing : ∀ call ∈ middle, call.succeeds = false) (early : now < t + (limitsOf options).cooldownMs) :
    (shouldSkip (limitsOf options) now (after (limitsOf options) (before ++ .recordFailure caller failedAt t :: middle))).1 = true ∧
      admits (limitsOf options) (after (limitsOf options) (before ++ .recordFailure caller failedAt t :: middle)) (.allowProbe prober now) = false := by
  have split : before ++ .recordFailure caller failedAt t :: middle = (before ++ [.recordFailure caller failedAt t]) ++ middle := by simp
  simp only [Clocked, List.flatMap_append, List.flatMap_cons, List.flatMap_nil, List.append_nil, Call.readings,
    List.pairwise_append, List.cons_append, List.nil_append, List.pairwise_cons, List.mem_append, List.mem_cons] at clocked
  have shut : ShutSince t (after (limitsOf options) (before ++ .recordFailure caller failedAt t :: middle)) := by
    rw [split, after, Runs.runAppend]
    refine shutRun (opensNow options opens) failing (fun reading mem => ?_) (fun reading mem => ?_)
    · have le : reading ≤ now := clocked.2.2 reading (.inr (.inr (.inr mem))) now (by simp)
      linarith
    · exact clocked.1.2.1.2.1 reading mem
  exact shutAnswers shut early

theorem breakerRecovers {before rest : List Call} {now : ℚ} (sound : ∀ call ∈ rest, call.fails = false)
    (passed : ∀ t, (after (limitsOf options) before).openedAt = some t → t + (limitsOf options).cooldownMs ≤ now)
    (reported : ¬ Outstanding (limitsOf options) (before ++ rest)) :
    (shouldSkip (limitsOf options) now (after (limitsOf options) (before ++ rest))).1 = false := by
  have free : (after (limitsOf options) (before ++ rest)).probeInFlight = false := by
    by_contra held
    exact reported (heldOutstanding (limitsOf options) _ (by simpa using held))
  have ground := counted (limitsOf options) (thresholdPositive options) (before ++ rest)
  cases state : (after (limitsOf options) (before ++ rest)).state with
  | closed =>
    rcases transitionCases (limitsOf options) now (after (limitsOf options) (before ++ rest)) with same | ⟨opened, _⟩
    · simp [shouldSkip, same, state]
    · cases state.symm.trans opened
  | halfOpen =>
    rcases transitionCases (limitsOf options) now (after (limitsOf options) (before ++ rest)) with same | ⟨opened, _⟩
    · simp [shouldSkip, same, state, free]
    · cases state.symm.trans opened
  | opened =>
    obtain ⟨t, since⟩ := Option.isSome_iff_exists.mp (ground.since state)
    have kept : after (limitsOf options) (before ++ rest) = after (limitsOf options) before := by
      rw [after, Runs.runAppend] at state ⊢
      exact openedRun sound state
    have due := passed t (by rw [← kept]; exact since)
    simp [shouldSkip, transitionDue state since due]

theorem breakerAdmission :
    (∀ before middle, Runs.Throughout (step (limitsOf options)) (fun b call => ¬ Leaves (limitsOf options) b call)
        (after (limitsOf options) before) middle →
      admissions (limitsOf options) (after (limitsOf options) before) middle ≤ 1) ∧
    (∀ before caller failedAt t middle prober now,
      Clocked (before ++ .recordFailure caller failedAt t :: middle ++ [.shouldSkip now]) →
      (after (limitsOf options) (before ++ [.recordFailure caller failedAt t])).state = .opened →
      (∀ call ∈ middle, call.succeeds = false) → now < t + (limitsOf options).cooldownMs →
      (shouldSkip (limitsOf options) now (after (limitsOf options) (before ++ .recordFailure caller failedAt t :: middle))).1 = true ∧
        admits (limitsOf options) (after (limitsOf options) (before ++ .recordFailure caller failedAt t :: middle)) (.allowProbe prober now) = false) ∧
    (∀ calls, (after (limitsOf options) calls).state = .closed ↔
      (failuresSinceSuccess calls : ℚ) < (limitsOf options).failureThreshold) ∧
    ∀ before rest now, (∀ call ∈ rest, call.fails = false) →
      (∀ t, (after (limitsOf options) before).openedAt = some t → t + (limitsOf options).cooldownMs ≤ now) →
      ¬ Outstanding (limitsOf options) (before ++ rest) →
      (shouldSkip (limitsOf options) now (after (limitsOf options) (before ++ rest))).1 = false := by
  refine ⟨fun before middle stays => oneAdmission stays, ?_, fun calls => ?_, ?_⟩
  · intro before caller failedAt t middle prober now clocked opens failing early
    exact breakerShut options clocked opens failing early
  · have ground := counted (limitsOf options) (thresholdPositive options) calls
    rw [← ground.count]
    exact ground.closed
  · intro before rest now sound passed reported
    exact breakerRecovers options sound passed reported
end

def impatient : CircuitBreakerOptions := ⟨some 1, some 10⟩

theorem breakerAdmissionShuts : (shouldSkip (limitsOf impatient) 6 (after (limitsOf impatient) ([] ++ [.recordFailure 0 5 5]))).1 = true :=
  ((breakerAdmission impatient).2.1 [] 0 5 5 [] 1 6 (by unfold Clocked; decide +kernel) (by decide +kernel) (by simp) (by decide +kernel)).1

end HarnessMem.CircuitBreaker
