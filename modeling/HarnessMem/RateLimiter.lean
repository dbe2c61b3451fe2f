import HarnessMem.Js
import HarnessMem.Lib.Runs
import Mathlib.Algebra.Order.Floor.Div
import Mathlib.Data.List.Induction
import Mathlib.Data.Rat.Floor
import Mathlib.Logic.Function.Basic
import Mathlib.Tactic.FieldSimp
import Mathlib.Tactic.Linarith
import Mathlib.Tactic.Ring

/-! The token bucket limiter of the HTTP server. A bucket is refilled by whole tokens when it is
looked at, and `cleanup` drops the buckets that nobody has looked at for five minutes. -/
namespace HarnessMem.RateLimiter
open Js

structure RateLimitConfig where
  requestsPerMinute : Int
  burstSize : Int
  positive : 0 < requestsPerMinute
  bursts : 0 < burstSize

structure Bucket where
  tokens : Int
  lastRefill : Int
  deriving DecidableEq, Repr

structure ConsumeResult where
  allowed : Bool
  remaining : Int
  resetAt : Int
  deriving DecidableEq, Repr

abbrev Buckets := String → Option Bucket

def RateLimitConfig.refillRateMs (config : RateLimitConfig) : ℚ := 60000 / config.requestsPerMinute

def refilled (config : RateLimitConfig) (elapsed : Int) : Int := ⌊(elapsed : ℚ) / config.refillRateMs⌋

def resetAt (config : RateLimitConfig) (now tokens : Int) : Int := now + ⌈(1 - (tokens : ℚ)) * config.refillRateMs⌉

def refill (config : RateLimitConfig) (now : Int) (bucket : Bucket) : Bucket :=
  if 0 < refilled config (now - bucket.lastRefill) then
    ⟨min config.burstSize (bucket.tokens + refilled config (now - bucket.lastRefill)), now⟩
  else bucket

def fresh (config : RateLimitConfig) (now : Int) : Bucket := ⟨config.burstSize, now⟩

def tryConsume (config : RateLimitConfig) (key : String) (now : Int) (buckets : Buckets) : ConsumeResult × Buckets :=
  let bucket := refill config now ((buckets key).getD (fresh config now))
  if 1 ≤ bucket.tokens then
    (⟨true, bucket.tokens - 1, resetAt config now bucket.tokens⟩, Function.update buckets key (some {bucket with tokens := bucket.tokens - 1}))
  else (⟨false, 0, resetAt config now bucket.tokens⟩, Function.update buckets key (some bucket))

def peek (config : RateLimitConfig) (key : String) (now : Int) (buckets : Buckets) : ConsumeResult :=
  if let some bucket := buckets key then
    let currentTokens := min config.burstSize (bucket.tokens + refilled config (now - bucket.lastRefill))
    ⟨decide (1 ≤ currentTokens), currentTokens, resetAt config now currentTokens⟩
  else ⟨true, config.burstSize, now⟩

def stale (maxAgeMs now : Int) (bucket : Bucket) : Bool := decide (maxAgeMs < now - bucket.lastRefill)

def cleanup (maxAgeMs now : Int) (buckets : Buckets) : Buckets :=
  fun key => (buckets key).filter (fun bucket => !stale maxAgeMs now bucket)

inductive Op
  | tryConsume (key : String) (now : Int)
  | peek (key : String) (now : Int)
  | cleanup (now : Int)

def Op.now : Op → Int
  | .tryConsume _ now => now
  | .peek _ now => now
  | .cleanup now => now

def step (config : RateLimitConfig) (buckets : Buckets) : Op → Buckets
  | .tryConsume key now => (tryConsume config key now buckets).2
  | .peek _ _ => buckets
  | .cleanup now => cleanup 300000 now buckets

-- What a call decides.
def decision (config : RateLimitConfig) (buckets : Buckets) : Op → List Bool
  | .tryConsume key now => [(tryConsume config key now buckets).1.allowed]
  | .peek key now => [(peek config key now buckets).allowed]
  | .cleanup _ => []

-- When a request of the key is let through.
def admission (config : RateLimitConfig) (key : String) (buckets : Buckets) : Op → List Int
  | .tryConsume asked now => if asked = key ∧ (tryConsume config asked now buckets).1.allowed = true then [now] else []
  | _ => []

def noBuckets : Buckets := fun _ => none

def after (config : RateLimitConfig) (ops : List Op) : Buckets := Runs.run (step config) noBuckets ops
def decisions (config : RateLimitConfig) (ops : List Op) : List Bool := Runs.log (step config) (decision config) noBuckets ops
def admissions (config : RateLimitConfig) (key : String) (ops : List Op) : List Int :=
  Runs.log (step config) (admission config key) noBuckets ops

-- The clock never runs backwards.
def Clocked (ops : List Op) : Prop := (ops.map Op.now).Pairwise (· ≤ ·)

def within (start width : Int) (time : Int) : Bool := decide (start ≤ time) && decide (time ≤ start + width)

/-! The configuration the server takes from its environment. -/

def parseInt (text : String) : Option Int :=
  let body := trimStart text.toList
  let unsigned := if body.head? = some '-' ∨ body.head? = some '+' then body.tail else body
  let digits := unsigned.takeWhile Char.isDigit
  if digits = [] then none
  else
    let magnitude : Int := digits.foldl (fun value digit => value * 10 + (digit.toNat - '0'.toNat : Nat)) 0
    some (if body.head? = some '-' then -magnitude else magnitude)

-- From here on a number is `Infinity`.
def infinite : Int := 2 ^ 1024 - 2 ^ 970

def requested (envValue : Option String) : Option Int :=
  if envValue.getD "" = "" then some 120 else parseInt (envValue.getD "")

def createRateLimiterFromEnv (envValue : Option String) : Option RateLimitConfig :=
  if envValue = some "0" then none
  else if h : 0 < (requested envValue).getD 0 ∧ (requested envValue).getD 0 < infinite then
    some ⟨(requested envValue).getD 0, max ((requested envValue).getD 0) 20, h.1, lt_of_lt_of_le h.1 (le_max_left _ _)⟩
  else none

section
variable {config : RateLimitConfig}

theorem refilledEq (elapsed : Int) : refilled config elapsed = elapsed * config.requestsPerMinute / 60000 := by
  have positive : (0 : ℚ) < config.requestsPerMinute := by exact_mod_cast config.positive
  have ratio : (elapsed : ℚ) / config.refillRateMs = ((elapsed * config.requestsPerMinute : Int) : ℚ) / ((60000 : Int) : ℚ) := by
    unfold RateLimitConfig.refillRateMs
    push_cast
    field_simp
  rw [refilled, ratio]
  exact Rat.floor_intCast_div_natCast _ 60000

-- What one slot holds once a request has looked at it, and once it has been served.
def looked (config : RateLimitConfig) (now : Int) (slot : Option Bucket) : Bucket := refill config now (slot.getD (fresh config now))
def served (bucket : Bucket) : Bucket := if 1 ≤ bucket.tokens then {bucket with tokens := bucket.tokens - 1} else bucket

theorem tryConsumeAllowed (key : String) (now : Int) (buckets : Buckets) :
    (tryConsume config key now buckets).1.allowed = decide (1 ≤ (looked config now (buckets key)).tokens) := by
  unfold tryConsume looked
  dsimp only
  split
  · rename_i enough
    exact (decide_eq_true enough).symm
  · rename_i short
    exact (decide_eq_false short).symm

theorem tryConsumeNext (key : String) (now : Int) (buckets : Buckets) :
    (tryConsume config key now buckets).2 = Function.update buckets key (some (served (looked config now (buckets key)))) := by
  unfold tryConsume looked served
  dsimp only
  split
  · rfl
  · rfl

structure Fit (config : RateLimitConfig) (now : Int) (bucket : Bucket) : Prop where
  held : 0 ≤ bucket.tokens
  capped : bucket.tokens ≤ config.burstSize
  past : bucket.lastRefill ≤ now

def FitAt (config : RateLimitConfig) (now : Int) (slot : Option Bucket) : Prop := ∀ bucket, slot = some bucket → Fit config now bucket

-- What a slot is worth, in tokens of a minute's share; an empty slot is worth a full bucket.
def worth (config : RateLimitConfig) (now : Int) (slot : Option Bucket) : Int :=
  slot.elim (60000 * config.burstSize) (fun bucket => 60000 * bucket.tokens + (now - bucket.lastRefill) * config.requestsPerMinute)

variable (config) in
theorem elapsedShare {now past : Int} (le : past ≤ now) : 0 ≤ (now - past) * config.requestsPerMinute :=
  mul_nonneg (by linarith) config.positive.le

theorem Fit.later {now later : Int} {bucket : Bucket} (fit : Fit config now bucket) (le : now ≤ later) : Fit config later bucket :=
  ⟨fit.held, fit.capped, fit.past.trans le⟩

structure Looked (config : RateLimitConfig) (now : Int) (slot : Option Bucket) (bucket : Bucket) : Prop where
  fit : Fit config now bucket
  worth : worth config now (some bucket) ≤ worth config now slot
  rest : (now - bucket.lastRefill) * config.requestsPerMinute < 60000

theorem lookedAt {now : Int} {slot : Option Bucket} (fit : FitAt config now slot) : Looked config now slot (looked config now slot) := by
  cases slot with
  | none =>
    have none : refilled config 0 = 0 := by rw [refilledEq]; simp
    have full : looked config now Option.none = fresh config now := by
      rw [looked, Option.getD_none, refill, show now - (fresh config now).lastRefill = 0 from sub_self now, none]
      rfl
    rw [full]
    exact ⟨⟨config.bursts.le, le_refl _, le_refl _⟩, by simp [worth, fresh], by simp [fresh]⟩
  | some bucket =>
    have old := fit bucket rfl
    have share := elapsedShare config old.past
    have held := old.held
    have capped := old.capped
    have bursts := config.bursts
    rw [looked, Option.getD_some, refill, refilledEq]
    split
    · rename_i more
      refine ⟨⟨?_, ?_, le_refl _⟩, ?_, ?_⟩
      · dsimp only
        omega
      · exact min_le_left _ _
      · simp only [worth, Option.elim_some, sub_self, zero_mul, add_zero]
        omega
      · simp
    · rename_i few
      exact ⟨old, le_refl _, by omega⟩

theorem servedFit {now : Int} {bucket : Bucket} (fit : Fit config now bucket) : Fit config now (served bucket) := by
  unfold served
  split
  · rename_i enough
    exact ⟨by dsimp only; omega, by have := fit.capped; dsimp only; omega, fit.past⟩
  · exact fit

-- A cleanup is harmless where every bucket it drops would by now be full again.
def Recovered (config : RateLimitConfig) (now : Int) (bucket : Bucket) : Prop :=
  config.burstSize ≤ bucket.tokens + refilled config (now - bucket.lastRefill)

def Harmless (config : RateLimitConfig) (buckets : Buckets) : Op → Prop
  | .cleanup now => ∀ key bucket, buckets key = some bucket → stale 300000 now bucket = true → Recovered config now bucket
  | _ => True

theorem stepFit {now : Int} {buckets : Buckets} {op : Op} (fit : ∀ key, FitAt config now (buckets key)) (le : now ≤ op.now) (key : String) :
    FitAt config op.now (step config buckets op key) := by
  have moved : FitAt config op.now (buckets key) := fun bucket found => (fit key bucket found).later le
  cases op with
  | tryConsume asked time =>
    rw [step, tryConsumeNext]
    by_cases same : key = asked
    · subst same
      intro bucket found
      rw [Function.update_self] at found
      obtain rfl := Option.some.inj found
      exact servedFit (lookedAt moved).fit
    · rw [Function.update_of_ne same]
      exact moved
  | peek asked time => exact moved
  | cleanup time =>
    intro bucket found
    exact moved bucket (Option.filter_eq_some_iff.mp found).1

-- The tokens a request takes and those left behind never exceed what the slot was worth.
theorem stepWorth {now : Int} {buckets : Buckets} {op : Op} (key : String) (fit : ∀ key, FitAt config now (buckets key)) (le : now ≤ op.now)
    (harmless : Harmless config buckets op) :
    60000 * ((admission config key buckets op).length : Int) + worth config op.now (step config buckets op key) ≤
      worth config now (buckets key) + (op.now - now) * config.requestsPerMinute := by
  have moved : ∀ key, FitAt config op.now (buckets key) := fun key bucket found => (fit key bucket found).later le
  have aged : worth config op.now (buckets key) ≤ worth config now (buckets key) + (op.now - now) * config.requestsPerMinute := by
    have share := elapsedShare config le
    cases held : buckets key with
    | none =>
      simp only [worth, Option.elim_none]
      omega
    | some bucket =>
      simp only [worth, Option.elim_some]
      linarith [sub_mul op.now now config.requestsPerMinute, sub_mul op.now bucket.lastRefill config.requestsPerMinute,
        sub_mul now bucket.lastRefill config.requestsPerMinute]
  cases op with
  | tryConsume asked time =>
    simp only [admission, step, tryConsumeNext, tryConsumeAllowed]
    by_cases same : asked = key
    · subst same
      have look := lookedAt (moved asked)
      have below := look.worth
      rw [Function.update_self, served]
      simp only [worth, Option.elim_some, Op.now] at below aged ⊢
      by_cases enough : 1 ≤ (looked config time (buckets asked)).tokens
      · simp only [enough, decide_true, and_self, if_true, List.length_singleton]
        push_cast
        linarith
      · simp only [enough, decide_false, Bool.false_eq_true, and_false, if_false, List.length_nil]
        push_cast
        linarith
    · rw [Function.update_of_ne (Ne.symm same), if_neg (fun both => same both.1)]
      simpa using aged
  | peek asked time => simpa [admission, step] using aged
  | cleanup time =>
    simp only [admission, step, List.length_nil]
    cases held : buckets key with
    | none => simpa [cleanup, held] using aged
    | some bucket =>
      rw [cleanup, held, Option.filter_some]
      cases gone : stale 300000 time bucket with
      | false => simpa [held] using aged
      | true =>
        have full : Recovered config time bucket := harmless key bucket held gone
        rw [Recovered, refilledEq] at full
        rw [held] at aged
        simp only [worth, Option.elim_some, Op.now] at aged
        simp only [worth, Bool.not_true, Bool.false_eq_true, if_false, Option.elim_none, Op.now, Option.elim_some]
        have part : 60000 * ((time - bucket.lastRefill) * config.requestsPerMinute / 60000) ≤ (time - bucket.lastRefill) * config.requestsPerMinute :=
          Int.mul_ediv_self_le (by decide)
        push_cast
        linarith

theorem admissionTimes {key : String} {ops : List Op} {buckets : Buckets} {time : Int}
    (mem : time ∈ Runs.log (step config) (admission config key) buckets ops) : time ∈ ops.map Op.now := by
  induction ops generalizing buckets with
  | nil => cases mem
  | cons op rest ih =>
    rw [Runs.log, List.mem_append] at mem
    rcases mem with here | later
    · cases op with
      | tryConsume asked now =>
        rw [admission] at here
        split at here
        · rw [List.mem_singleton.mp here]
          exact List.mem_cons_self
        · cases here
      | peek asked now => cases here
      | cleanup now => cases here
    · exact List.mem_cons_of_mem _ (ih later)

theorem admissionHere {key : String} {op : Op} {buckets : Buckets} {time : Int} (mem : time ∈ admission config key buckets op) : time = op.now := by
  have logged : time ∈ Runs.log (step config) (admission config key) buckets [op] := by simpa [Runs.log] using mem
  have listed := admissionTimes logged
  simpa using listed

-- Up to a given time a slot serves no more than it is worth, with what the time adds.
theorem servesUntil (key : String) (bound : Int) {ops : List Op} {buckets : Buckets} {now : Int} (fit : ∀ key, FitAt config now (buckets key))
    (positive : 0 ≤ worth config now (buckets key)) (clocked : ((now :: ops.map Op.now)).Pairwise (· ≤ ·)) (le : now ≤ bound)
    (harmless : Runs.Throughout (step config) (Harmless config) buckets ops) :
    60000 * ((Runs.log (step config) (admission config key) buckets ops).countP (fun time => decide (time ≤ bound)) : Int) ≤
      worth config now (buckets key) + (bound - now) * config.requestsPerMinute := by
  induction ops generalizing buckets now with
  | nil =>
    have share := elapsedShare config le
    simp only [Runs.log, List.countP_nil]
    push_cast
    linarith
  | cons op rest ih =>
    rw [List.map_cons, List.pairwise_cons] at clocked
    have ordered : now ≤ op.now := clocked.1 op.now List.mem_cons_self
    have share := elapsedShare config le
    by_cases early : op.now ≤ bound
    · have nextFit := stepFit fit ordered
      have spent := stepWorth key fit ordered harmless.1
      have nextWorth : 0 ≤ worth config op.now (step config buckets op key) := by
        cases held : step config buckets op key with
        | none =>
          have bursts := config.bursts
          simp only [worth, Option.elim_none]
          omega
        | some bucket =>
          have good := nextFit key bucket held
          have tokens := good.held
          have elapsed := elapsedShare config good.past
          simp only [worth, Option.elim_some]
          omega
      have later := ih nextFit nextWorth clocked.2 early harmless.2
      have count : (admission config key buckets op).countP (fun time => decide (time ≤ bound)) ≤ (admission config key buckets op).length :=
        List.countP_le_length
      rw [Runs.log, List.countP_append]
      push_cast
      have split : (bound - now) * config.requestsPerMinute = (op.now - now) * config.requestsPerMinute + (bound - op.now) * config.requestsPerMinute := by ring
      linarith [Int.ofNat_le.mpr count]
    · have none : (Runs.log (step config) (admission config key) buckets (op :: rest)).countP (fun time => decide (time ≤ bound)) = 0 := by
        rw [List.countP_eq_zero]
        intro time mem
        have listed := admissionTimes mem
        rw [List.map_cons, List.mem_cons] at listed
        have past : op.now ≤ time := by
          rcases listed with rfl | later
          · exact le_refl _
          · exact (List.pairwise_cons.mp clocked.2).1 time later
        simp only [decide_eq_true_eq]
        omega
      rw [none]
      push_cast
      linarith

-- A window opens with its first request: its bucket is at most full then.
theorem servesWithin (key : String) (start : Int) {ops : List Op} {buckets : Buckets} {now width : Int} (fit : ∀ key, FitAt config now (buckets key))
    (clocked : ((now :: ops.map Op.now)).Pairwise (· ≤ ·)) (wide : 0 ≤ width)
    (harmless : Runs.Throughout (step config) (Harmless config) buckets ops) :
    60000 * ((Runs.log (step config) (admission config key) buckets ops).countP (within start width) : Int) <
      60000 * (config.burstSize + 1) + width * config.requestsPerMinute := by
  induction ops generalizing buckets now with
  | nil =>
    have bursts := config.bursts
    have share := mul_nonneg wide config.positive.le
    simp only [Runs.log, List.countP_nil]
    push_cast
    linarith
  | cons op rest ih =>
    rw [List.map_cons, List.pairwise_cons] at clocked
    have ordered : now ≤ op.now := clocked.1 op.now List.mem_cons_self
    have nextFit := stepFit fit ordered
    rw [Runs.log, List.countP_append]
    by_cases opens : (admission config key buckets op).countP (within start width) = 0
    · rw [opens, Nat.zero_add]
      exact ih nextFit clocked.2 harmless.2
    · obtain ⟨time, mem, inside⟩ := List.countP_pos_iff.mp (Nat.pos_of_ne_zero opens)
      obtain rfl := admissionHere mem
      simp only [within, Bool.and_eq_true, decide_eq_true_eq] at inside
      cases op with
      | peek asked now => cases mem
      | cleanup now => cases mem
      | tryConsume asked here =>
        have allowed : asked = key ∧ (tryConsume config asked here buckets).1.allowed = true := by
          by_contra refused
          rw [admission, if_neg refused] at mem
          cases mem
        obtain ⟨rfl, enough⟩ := allowed
        rw [tryConsumeAllowed, decide_eq_true_eq] at enough
        have moved : FitAt config here (buckets asked) := fun bucket found => (fit asked bucket found).later ordered
        have look := lookedAt moved
        have left : step config buckets (.tryConsume asked here) asked = some (served (looked config here (buckets asked))) := by
          rw [step, tryConsumeNext, Function.update_self]
        have value : worth config here (step config buckets (.tryConsume asked here) asked) =
            60000 * ((looked config here (buckets asked)).tokens - 1) +
              (here - (looked config here (buckets asked)).lastRefill) * config.requestsPerMinute := by
          rw [left, served, if_pos enough]
          rfl
        have capped := look.fit.capped
        have elapsed := elapsedShare config look.fit.past
        have young := look.rest
        have later := servesUntil asked (start + width) nextFit (by rw [Op.now, value]; omega) clocked.2 inside.2 harmless.2
        rw [Op.now, value] at later
        have one : (admission config asked buckets (.tryConsume asked here)).countP (within start width) ≤ 1 := by
          refine le_trans List.countP_le_length ?_
          rw [admission]
          split
          · exact le_refl 1
          · exact Nat.zero_le 1
        have fewer : (Runs.log (step config) (admission config asked) (step config buckets (.tryConsume asked here)) rest).countP (within start width) ≤
            (Runs.log (step config) (admission config asked) (step config buckets (.tryConsume asked here)) rest).countP (fun time => decide (time ≤ start + width)) :=
          List.countP_mono_left (fun time _ inside => by simp only [within, Bool.and_eq_true] at inside; exact inside.2)
        have narrow : (start + width - here) * config.requestsPerMinute ≤ width * config.requestsPerMinute :=
          mul_le_mul_of_nonneg_right (by rw [Op.now] at inside; linarith [inside.1]) config.positive.le
        push_cast
        linarith [Int.ofNat_le.mpr one, Int.ofNat_le.mpr fewer]
end

section
variable {config : RateLimitConfig}

theorem lookedNone (now : Int) : looked config now none = fresh config now := by
  have none : refilled config 0 = 0 := by rw [refilledEq]; simp
  rw [looked, Option.getD_none, refill, show now - (fresh config now).lastRefill = 0 from sub_self now, none]
  rfl

variable (config) in
theorem staleShare {now : Int} {bucket : Bucket} (old : stale 300000 now bucket = true) :
    300001 * config.requestsPerMinute / 60000 ≤ refilled config (now - bucket.lastRefill) ∧ 0 < refilled config (now - bucket.lastRefill) := by
  have positive := config.positive
  have age : 300001 ≤ now - bucket.lastRefill := by
    have beyond := of_decide_eq_true old
    omega
  have more : 300001 * config.requestsPerMinute ≤ (now - bucket.lastRefill) * config.requestsPerMinute := mul_le_mul_of_nonneg_right age positive.le
  rw [refilledEq]
  constructor
  · exact Int.ediv_le_ediv (by decide) more
  · omega

-- A bucket that would be full again serves as a new one does.
theorem lookedRecovered {now : Int} {bucket : Bucket} (old : stale 300000 now bucket = true) (full : Recovered config now bucket) :
    looked config now (some bucket) = looked config now none := by
  rw [lookedNone, looked, Option.getD_some, refill, if_pos (staleShare config old).2, min_eq_left full]
  rfl

theorem peekAllowed {key : String} {now : Int} {buckets : Buckets} (fit : FitAt config now (buckets key)) :
    (peek config key now buckets).allowed = decide (1 ≤ (looked config now (buckets key)).tokens) := by
  cases held : buckets key with
  | none =>
    have bursts : 1 ≤ (fresh config now).tokens := config.bursts
    rw [lookedNone, decide_eq_true bursts, peek, held]
  | some bucket =>
    have good := fit bucket held
    have share := elapsedShare config good.past
    have same : min config.burstSize (bucket.tokens + refilled config (now - bucket.lastRefill)) = (looked config now (some bucket)).tokens := by
      have capped := good.capped
      rw [looked, Option.getD_some, refill]
      split
      · rfl
      · rename_i few
        rw [refilledEq] at few ⊢
        omega
    rw [← same, peek, held]

-- The first table may lack buckets that the second holds and that would be full again by now.
def Beside (config : RateLimitConfig) (now : Int) (fewer more : Buckets) : Prop :=
  ∀ key, fewer key = more key ∨ fewer key = none ∧ ∃ bucket, more key = some bucket ∧
    stale 300000 now bucket = true ∧ Recovered config now bucket

theorem besideLooked {now : Int} {fewer more : Buckets} (beside : Beside config now fewer more) (key : String) :
    looked config now (fewer key) = looked config now (more key) := by
  rcases beside key with same | ⟨gone, bucket, held, old, full⟩
  · rw [same]
  · rw [gone, held, lookedRecovered old full]

theorem besideLater {now later : Int} {fewer more : Buckets} (beside : Beside config now fewer more) (le : now ≤ later) :
    Beside config later fewer more := by
  intro key
  refine (beside key).imp_right fun ⟨gone, bucket, held, old, full⟩ => ⟨gone, bucket, held, ?_, ?_⟩
  · have beyond := of_decide_eq_true old
    exact decide_eq_true (by omega)
  · have age : (now - bucket.lastRefill) * config.requestsPerMinute ≤ (later - bucket.lastRefill) * config.requestsPerMinute :=
      mul_le_mul_of_nonneg_right (by omega) config.positive.le
    have share := Int.ediv_le_ediv (c := 60000) (by decide) age
    rw [Recovered, refilledEq] at full ⊢
    omega

theorem besideStep {now : Int} {fewer more : Buckets} {op : Op} (beside : Beside config now fewer more) (fewFit : ∀ key, FitAt config now (fewer key))
    (moreFit : ∀ key, FitAt config now (more key)) (le : now ≤ op.now) :
    decision config fewer op = decision config more op ∧ Beside config op.now (step config fewer op) (step config more op) := by
  have here := besideLater beside le
  cases op with
  | tryConsume asked time =>
    have look := besideLooked here asked
    rw [Op.now] at look
    constructor
    · simp only [decision, tryConsumeAllowed, look]
    · intro key
      simp only [step, tryConsumeNext, look]
      by_cases same : key = asked
      · subst same
        exact .inl (by rw [Function.update_self, Function.update_self])
      · rw [Function.update_of_ne same, Function.update_of_ne same]
        exact here key
  | peek asked time =>
    have look := besideLooked here asked
    rw [Op.now] at look le
    constructor
    · rw [decision, decision, peekAllowed (fun bucket found => (fewFit asked bucket found).later le),
        peekAllowed (fun bucket found => (moreFit asked bucket found).later le), look]
    · exact here
  | cleanup time =>
    refine ⟨rfl, fun key => ?_⟩
    rcases here key with same | ⟨gone, bucket, held, old, full⟩
    · exact .inl (by simp only [step, cleanup, same])
    · refine .inl ?_
      rw [Op.now] at old
      simp only [step, cleanup, gone, held, Option.filter_none, Option.filter_some, old, Bool.not_true, Bool.false_eq_true, if_false]

theorem besideRun {now : Int} {fewer more : Buckets} {ops : List Op} (beside : Beside config now fewer more) (fewFit : ∀ key, FitAt config now (fewer key))
    (moreFit : ∀ key, FitAt config now (more key)) (clocked : (now :: ops.map Op.now).Pairwise (· ≤ ·)) :
    Runs.log (step config) (decision config) fewer ops = Runs.log (step config) (decision config) more ops := by
  induction ops generalizing now fewer more with
  | nil => rfl
  | cons op rest ih =>
    rw [List.map_cons, List.pairwise_cons] at clocked
    have le : now ≤ op.now := clocked.1 op.now List.mem_cons_self
    obtain ⟨same, next⟩ := besideStep beside fewFit moreFit le
    rw [Runs.log, Runs.log, same, ih next (stepFit fewFit le) (stepFit moreFit le) clocked.2]

theorem afterFit {ops : List Op} {now : Int} (clocked : Clocked ops) (past : ∀ op ∈ ops, op.now ≤ now) (key : String) :
    FitAt config now (after config ops key) := by
  induction ops using List.reverseRecOn generalizing now key with
  | nil => exact fun bucket found => by cases found
  | append_singleton ops op ih =>
    rw [Clocked, List.map_append, List.pairwise_append] at clocked
    have before : ∀ key, FitAt config op.now (after config ops key) :=
      ih clocked.1 (fun earlier mem => clocked.2.2 earlier.now (List.mem_map_of_mem mem) op.now (by simp))
    rw [after, Runs.runSnoc]
    intro bucket found
    exact (stepFit before (le_refl op.now) key bucket found).later (past op (by simp))
end

def withinBound (config : RateLimitConfig) (ops : List Op) : Prop :=
  ∀ key start width, 0 ≤ width → ((admissions config key ops).countP (within start width) : Int) ≤
    config.burstSize + width * config.requestsPerMinute / 60000 + 1

structure Meets (config : RateLimitConfig) : Prop where
  bound : ∀ ops, Clocked ops → withinBound config ops
  steady : ∀ before now rest, Clocked (before ++ .cleanup now :: rest) →
    decisions config (before ++ .cleanup now :: rest) = decisions config (before ++ rest)
  foretold : ∀ ops key now, Clocked (ops ++ [.peek key now]) →
    (peek config key now (after config ops)).allowed = (tryConsume config key now (after config ops)).1.allowed

section
variable {config : RateLimitConfig}

theorem boundOf {ops : List Op} (clocked : Clocked ops) (harmless : Runs.Throughout (step config) (Harmless config) noBuckets ops) :
    withinBound config ops := by
  intro key start width wide
  have empty : ∀ now key, FitAt config now (noBuckets key) := fun now key bucket found => by cases found
  have first : ∃ now : Int, (now :: ops.map Op.now).Pairwise (· ≤ ·) := by
    cases ops with
    | nil => exact ⟨0, List.pairwise_singleton _ _⟩
    | cons op rest =>
      refine ⟨op.now, List.pairwise_cons.mpr ⟨fun later mem => ?_, clocked⟩⟩
      rcases List.mem_cons.mp mem with rfl | mem
      · exact le_refl _
      · exact (List.pairwise_cons.mp clocked).1 later mem
  obtain ⟨now, ordered⟩ := first
  have served := servesWithin key start (empty now) ordered wide harmless
  rw [admissions]
  omega

theorem steadyOf {before rest : List Op} {now : Int} (clocked : Clocked (before ++ .cleanup now :: rest))
    (harmless : Harmless config (after config before) (.cleanup now)) :
    decisions config (before ++ .cleanup now :: rest) = decisions config (before ++ rest) := by
  rw [Clocked, List.map_append, List.map_cons, List.pairwise_append] at clocked
  have fit : ∀ key, FitAt config now (after config before key) :=
    afterFit clocked.1 (fun op mem => clocked.2.2 op.now (List.mem_map_of_mem mem) now List.mem_cons_self)
  have swept : ∀ key, FitAt config now (step config (after config before) (.cleanup now) key) := stepFit fit (le_refl now)
  have beside : Beside config now (step config (after config before) (.cleanup now)) (after config before) := by
    intro key
    cases held : after config before key with
    | none => exact .inl (by simp only [step, cleanup, held, Option.filter_none])
    | some bucket =>
      cases old : stale 300000 now bucket with
      | false => exact .inl (by simp only [step, cleanup, held, Option.filter_some, old, Bool.not_false, if_true])
      | true =>
        refine .inr ⟨?_, bucket, rfl, old, harmless key bucket held old⟩
        simp only [step, cleanup, held, Option.filter_some, old, Bool.not_true, Bool.false_eq_true, if_false]
  rw [decisions, decisions, Runs.logAppend, Runs.logAppend, Runs.log]
  exact congrArg _ (besideRun beside swept fit clocked.2.1)

theorem foretoldOf {ops : List Op} {key : String} {now : Int} (clocked : Clocked (ops ++ [.peek key now])) :
    (peek config key now (after config ops)).allowed = (tryConsume config key now (after config ops)).1.allowed := by
  rw [Clocked, List.map_append, List.pairwise_append] at clocked
  have fit : FitAt config now (after config ops key) :=
    afterFit clocked.1 (fun op mem => clocked.2.2 op.now (List.mem_map_of_mem mem) now (by simp [Op.now])) key
  rw [peekAllowed fit, tryConsumeAllowed]

theorem harmlessOf (refills : config.burstSize ≤ 300001 * config.requestsPerMinute / 60000) {now : Int} {buckets : Buckets} {op : Op}
    (fit : ∀ key, FitAt config now (buckets key)) : Harmless config buckets op := by
  cases op with
  | tryConsume asked time => trivial
  | peek asked time => trivial
  | cleanup time =>
    intro key bucket held old
    have share := (staleShare config old).1
    have tokens := (fit key bucket held).held
    rw [Recovered]
    linarith

theorem harmlessRun (refills : config.burstSize ≤ 300001 * config.requestsPerMinute / 60000) {now : Int} {buckets : Buckets} {ops : List Op}
    (fit : ∀ key, FitAt config now (buckets key)) (clocked : (now :: ops.map Op.now).Pairwise (· ≤ ·)) :
    Runs.Throughout (step config) (Harmless config) buckets ops := by
  induction ops generalizing now buckets with
  | nil => trivial
  | cons op rest ih =>
    rw [List.map_cons, List.pairwise_cons] at clocked
    exact ⟨harmlessOf refills fit, ih (stepFit fit (clocked.1 op.now List.mem_cons_self)) clocked.2⟩

-- Requests at one instant take the tokens one by one.
theorem drains {key : String} {now : Int} {bucket : Bucket} (young : (now - bucket.lastRefill) * config.requestsPerMinute < 60000) (n : Nat)
    {buckets : Buckets} (look : looked config now (buckets key) = bucket) (enough : (n : Int) ≤ bucket.tokens) :
    Runs.log (step config) (decision config) buckets (List.replicate n (.tryConsume key now)) = List.replicate n true ∧
      looked config now (Runs.run (step config) buckets (List.replicate n (.tryConsume key now)) key) = {bucket with tokens := bucket.tokens - n} ∧
      (0 < n → Runs.run (step config) buckets (List.replicate n (.tryConsume key now)) key = some {bucket with tokens := bucket.tokens - n}) := by
  induction n generalizing buckets bucket with
  | zero =>
    refine ⟨rfl, ?_, fun positive => absurd positive (lt_irrefl 0)⟩
    rw [List.replicate_zero, Runs.runNil, look, Nat.cast_zero, sub_zero]
  | succ n ih =>
    push_cast at enough ⊢
    have one : 1 ≤ bucket.tokens := by omega
    have next : step config buckets (.tryConsume key now) key = some {bucket with tokens := bucket.tokens - 1} := by
      rw [step, tryConsumeNext, Function.update_self, look, served, if_pos one]
    have again : looked config now (step config buckets (.tryConsume key now) key) = {bucket with tokens := bucket.tokens - 1} := by
      have few : ¬ 0 < refilled config (now - bucket.lastRefill) := by
        rw [refilledEq]
        omega
      rw [next, looked, Option.getD_some, refill, if_neg few]
    have left : bucket.tokens - 1 - n = bucket.tokens - (n + 1) := by ring
    have still : (now - ({bucket with tokens := bucket.tokens - 1} : Bucket).lastRefill) * config.requestsPerMinute < 60000 := young
    have more : (n : Int) ≤ ({bucket with tokens := bucket.tokens - 1} : Bucket).tokens := by dsimp only; omega
    obtain ⟨answers, rest, slot⟩ := ih still again more
    simp only [left] at rest slot
    refine ⟨?_, rest, fun _ => ?_⟩
    · rw [List.replicate_succ, Runs.log, answers, decision, tryConsumeAllowed, look, decide_eq_true one]
      rfl
    · rw [List.replicate_succ, Runs.runCons]
      cases n with
      | zero => rw [List.replicate_zero, Runs.runNil, next, Nat.cast_zero, zero_add]
      | succ n => exact slot (Nat.succ_pos n)
end

-- The requests of one client that empty its bucket, and those it makes five minutes later.
def rush (config : RateLimitConfig) : List Op := List.replicate config.burstSize.toNat (.tryConsume "" 0)
def share (config : RateLimitConfig) : Nat := (300001 * config.requestsPerMinute / 60000).toNat
def comeback (config : RateLimitConfig) : List Op := List.replicate (share config + 1) (.tryConsume "" 300001)

section
variable {config : RateLimitConfig}

variable (config) in
theorem shareOf : (share config : Int) = 300001 * config.requestsPerMinute / 60000 := by
  have positive := config.positive
  exact Int.toNat_of_nonneg (by omega)

theorem rushClocked : Clocked (rush config ++ .cleanup 300001 :: comeback config) := by
  simp only [Clocked, rush, comeback, List.map_append, List.map_cons, List.map_replicate, Op.now, List.pairwise_append, List.pairwise_cons,
    List.mem_replicate, List.mem_cons, List.pairwise_replicate]
  refine ⟨.inr (le_refl _), ⟨fun time late => late.2.ge, .inr (le_refl _)⟩, fun time early later late => ?_⟩
  rcases late with rfl | late
  · omega
  · omega

theorem rushEmpties : after config (rush config) "" = some ⟨0, 0⟩ := by
  have bursts := config.bursts
  have look : looked config 0 (noBuckets "") = fresh config 0 := lookedNone 0
  have settled := (drains (by simp [fresh]) config.burstSize.toNat look (by simp only [fresh]; omega)).2.2 (by omega)
  rw [after, rush, settled, fresh, Int.toNat_of_nonneg config.bursts.le, sub_self]

theorem swept : step config (after config (rush config)) (.cleanup 300001) "" = none := by
  rw [step, cleanup, rushEmpties]
  rfl

theorem comebackServed (short : 300001 * config.requestsPerMinute / 60000 < config.burstSize) :
    Runs.log (step config) (decision config) (step config (after config (rush config)) (.cleanup 300001)) (comeback config) =
      List.replicate (share config + 1) true := by
  have shared := shareOf config
  have look : looked config 300001 (step config (after config (rush config)) (.cleanup 300001) "") = fresh config 300001 := by
    rw [swept, lookedNone]
  exact (drains (by simp [fresh]) (share config + 1) look (by simp only [fresh]; push_cast; omega)).1

theorem comebackRefused (short : 300001 * config.requestsPerMinute / 60000 < config.burstSize) :
    Runs.log (step config) (decision config) (after config (rush config)) (comeback config) = List.replicate (share config) true ++ [false] := by
  have shared := shareOf config
  have positive := config.positive
  have look : looked config 300001 (after config (rush config) "") = ⟨share config, 300001⟩ := by
    have some : refilled config (300001 - 0) = share config := by rw [refilledEq, sub_zero, shareOf]
    rw [rushEmpties, looked, Option.getD_some, refill]
    simp only [some]
    rw [if_pos (by omega), zero_add, min_eq_right (by omega)]
  obtain ⟨answers, left, _⟩ := drains (by simp) (share config) look (le_refl _)
  rw [comeback, List.replicate_succ', Runs.logAppend, answers, Runs.log, decision, tryConsumeAllowed, left]
  simp [Runs.log]

end

-- Of the configurations the server can start with, those below four requests a minute refill too slowly.
theorem environmentRefills {envValue : Option String} {config : RateLimitConfig} (accepted : createRateLimiterFromEnv envValue = some config) :
    config.burstSize ≤ 300001 * config.requestsPerMinute / 60000 ↔ 4 ≤ config.requestsPerMinute := by
  unfold createRateLimiterFromEnv at accepted
  split at accepted
  · cases accepted
  · by_cases fits : 0 < (requested envValue).getD 0 ∧ (requested envValue).getD 0 < infinite
    · rw [dif_pos fits, Option.some_inj] at accepted
      subst accepted
      dsimp only
      omega
    · rw [dif_neg fits] at accepted
      cases accepted

def slow : RateLimitConfig := ⟨1, 20, by decide, by decide⟩

def stampede : List Op := List.replicate 20 (.tryConsume "" 0) ++ .cleanup 300001 :: List.replicate 20 (.tryConsume "" 300001)

end HarnessMem.RateLimiter
