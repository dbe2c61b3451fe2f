import HarnessMem.Lib.Runs
import Mathlib.Data.List.Count
import Mathlib.Order.Basic

/-! The queue in which the MCP server keeps events while the memory server does not answer, and
any number of flushes over it, each waiting for the sends of the items it has taken out. -/
namespace HarnessMem.LocalRetryQueue

def maxQueueSize : Nat := 10000
def maxRetryCount : Nat := 3

-- The last two fields are not the code's: which enqueue brought the event in, and how often it was sent.
structure QueuedEvent where
  eventJson : String
  reason : String
  queuedAt : Option String
  retryCount : Option Nat
  serial : Nat
  attempts : Nat
  deriving DecidableEq, Repr

abbrev Queue := List QueuedEvent

-- What a full queue drops for one more event, and the queue with the event.
def enqueue (event : QueuedEvent) (now : String) (queue : Queue) : Option QueuedEvent × Queue :=
  let kept := if maxQueueSize ≤ queue.length then queue.tail else queue
  (if maxQueueSize ≤ queue.length then queue.head? else none, kept ++ [{event with queuedAt := some (event.queuedAt.getD now)}])

-- The first item of a flush is the one being sent.
def send : List QueuedEvent → List QueuedEvent
  | [] => []
  | item :: rest => {item with attempts := item.attempts + 1} :: rest

def retried (item : QueuedEvent) : QueuedEvent :=
  {item with reason := "retry_flush_failed", retryCount := some (item.retryCount.getD 0 + 1)}

inductive Outcome | sent | failed | rejected
  deriving DecidableEq

structure System where
  queue : Queue
  flushes : List (List QueuedEvent)
  sent : List QueuedEvent
  exhausted : List QueuedEvent
  dropped : List QueuedEvent
  issued : Nat

inductive Call
  | enqueue (eventJson reason : String) (queuedAt : Option String) (retryCount : Option Nat) (now : String)
  | flush
  | settle (flush : Nat) (outcome : Outcome) (now : String)

def push (event : QueuedEvent) (now : String) (s : System) : System :=
  {s with queue := (enqueue event now s.queue).2, dropped := s.dropped ++ (enqueue event now s.queue).1.toList}

-- The item that a flush is sending, and those it has not attempted.
def sending (s : System) (flush : Nat) : Option (QueuedEvent × List QueuedEvent) :=
  (s.flushes[flush]?).bind fun items => items.head?.map fun item => (item, items.tail)

def proceed (flush : Nat) (rest : List QueuedEvent) (s : System) : System := {s with flushes := s.flushes.set flush (send rest)}

def settle (flush : Nat) (now : String) (item : QueuedEvent) (rest : List QueuedEvent) (s : System) : Outcome → System
  | .sent => proceed flush rest {s with sent := s.sent ++ [item]}
  | .failed =>
    if item.retryCount.getD 0 + 1 ≤ maxRetryCount then proceed flush rest (push (retried item) now s)
    else proceed flush rest {s with exhausted := s.exhausted ++ [item]}
  | .rejected => {s with flushes := s.flushes.set flush []}

def step (s : System) : Call → System
  | .enqueue eventJson reason queuedAt retryCount now =>
    {push ⟨eventJson, reason, queuedAt, retryCount, s.issued, 0⟩ now s with issued := s.issued + 1}
  | .flush => {s with queue := [], flushes := s.flushes ++ [send s.queue]}
  | .settle flush outcome now => (sending s flush).elim s (fun live => settle flush now live.1 live.2 s outcome)

def idle : System := ⟨[], [], [], [], [], 0⟩

def after (calls : List Call) : System := Runs.run step idle calls

-- Everywhere an event can be: waiting, taken out by a flush, or settled in one of three ways.
def places (s : System) : List QueuedEvent := s.queue ++ s.flushes.flatten ++ s.sent ++ s.exhausted ++ s.dropped

def located (serial : Nat) (events : List QueuedEvent) : Nat := events.countP (fun event => event.serial == serial)

def Conserved (s : System) : Prop := ∀ serial < s.issued, located serial (places s) = 1

-- Whether the call puts an event into the queue.
def pushes (s : System) : Call → Bool
  | .enqueue _ _ _ _ _ => true
  | .flush => false
  | .settle flush outcome _ => (sending s flush).any fun live => outcome == .failed && decide (live.1.retryCount.getD 0 + 1 ≤ maxRetryCount)

-- What the call drops from a full queue, with what is left of it.
def overflow (s : System) (call : Call) : List (QueuedEvent × List QueuedEvent) :=
  if pushes s call ∧ maxQueueSize ≤ s.queue.length then s.queue.head?.toList.map (fun head => (head, s.queue.tail)) else []

def queuedBefore (a b : QueuedEvent) : Prop := a.queuedAt.getD "" ≤ b.queuedAt.getD ""

structure Keeps (calls : List Call) : Prop where
  conserved : Conserved (after calls)
  attempts : ∀ event ∈ places (after calls), event.attempts ≤ maxRetryCount + 1
  capacity : (after calls).queue.length ≤ maxQueueSize
  oldest : ∀ drop ∈ Runs.log step overflow idle calls, ∀ kept ∈ drop.2, queuedBefore drop.1 kept

-- No send rejects, and no event comes into a full queue whose head is younger than another entry.
def Sound (s : System) (call : Call) : Prop :=
  (∀ flush now, call = .settle flush .rejected now → sending s flush = none) ∧
  (pushes s call = true → maxQueueSize ≤ s.queue.length → ∀ head, s.queue.head? = some head → ∀ kept ∈ s.queue.tail, queuedBefore head kept)

section
variable (serial : Nat)

@[simp] theorem locatedNil : located serial [] = 0 := rfl
@[simp] theorem locatedCons (event : QueuedEvent) (rest : List QueuedEvent) :
    located serial (event :: rest) = located serial rest + if event.serial = serial then 1 else 0 := by
  simp [located, List.countP_cons]
@[simp] theorem locatedAppend (before rest : List QueuedEvent) :
    located serial (before ++ rest) = located serial before + located serial rest := List.countP_append

@[simp] theorem locatedSend (items : List QueuedEvent) : located serial (send items) = located serial items := by
  cases items <;> simp [send]

theorem locatedSet {flushes : List (List QueuedEvent)} {flush : Nat} {old : List QueuedEvent} (here : flushes[flush]? = some old)
    (items : List QueuedEvent) :
    located serial (flushes.set flush items).flatten + located serial old = located serial flushes.flatten + located serial items := by
  induction flushes generalizing flush with
  | nil => simp at here
  | cons first rest ih =>
    cases flush with
    | zero =>
      obtain rfl := Option.some.inj here
      simp only [List.set_cons_zero, List.flatten_cons, locatedAppend]
      omega
    | succ flush =>
      have below : rest[flush]? = some old := by simpa using here
      have later := ih below
      simp only [List.set_cons_succ, List.flatten_cons, locatedAppend]
      omega

theorem locatedEnqueue (event : QueuedEvent) (now : String) (queue : Queue) :
    located serial (enqueue event now queue).2 + located serial (enqueue event now queue).1.toList =
      located serial queue + if event.serial = serial then 1 else 0 := by
  unfold enqueue
  dsimp only
  by_cases full : maxQueueSize ≤ queue.length
  · cases queue with
    | nil => exact absurd full (by decide)
    | cons head rest =>
      simp only [full, if_true, List.tail_cons, List.head?_cons, Option.toList_some, locatedAppend, locatedCons, locatedNil]
      omega
  · simp [full]

theorem locatedPush (event : QueuedEvent) (now : String) (s : System) :
    located serial (places (push event now s)) = located serial (places s) + if event.serial = serial then 1 else 0 := by
  have moved := locatedEnqueue serial event now s.queue
  simp only [places, push, locatedAppend]
  omega
end

theorem sendingOf {s : System} {flush : Nat} {item : QueuedEvent} {rest : List QueuedEvent} (live : sending s flush = some (item, rest)) :
    s.flushes[flush]? = some (item :: rest) := by
  obtain ⟨items, here, split⟩ := Option.bind_eq_some_iff.mp live
  cases items with
  | nil => cases split
  | cons first others =>
    obtain ⟨rfl, rfl⟩ := Prod.mk.inj (Option.some.inj split)
    exact here

theorem locatedProceed (serial : Nat) {flush : Nat} {old : List QueuedEvent} (rest : List QueuedEvent) {s : System} (here : s.flushes[flush]? = some old) :
    located serial (places (proceed flush rest s)) + located serial old = located serial (places s) + located serial rest := by
  have moved := locatedSet serial here (send rest)
  rw [locatedSend] at moved
  simp only [places, proceed, locatedAppend]
  omega

-- What a rejected send takes with it: its own item, and all that the flush had not attempted.
def lost (s : System) : Call → List QueuedEvent
  | .settle flush .rejected _ => (sending s flush).elim [] (fun live => live.1 :: live.2)
  | _ => []

def brings : Call → Bool
  | .enqueue _ _ _ _ _ => true
  | _ => false

theorem stepIssued (s : System) (call : Call) : (step s call).issued = s.issued + if brings call then 1 else 0 := by
  cases call with
  | enqueue eventJson reason queuedAt retryCount now => rfl
  | flush => rfl
  | settle flush outcome now =>
    rw [step]
    cases sending s flush with
    | none => rfl
    | some live =>
      cases outcome with
      | sent => rfl
      | failed =>
        simp only [Option.elim_some, settle]
        split
        · rfl
        · rfl
      | rejected => rfl

-- The account of one step: nothing appears but what an enqueue brings, nothing goes but what a rejection takes.
theorem stepLocated (serial : Nat) (s : System) (call : Call) :
    located serial (places (step s call)) + located serial (lost s call) =
      located serial (places s) + if brings call = true ∧ serial = s.issued then 1 else 0 := by
  cases call with
  | enqueue eventJson reason queuedAt retryCount now =>
    have moved := locatedPush serial ⟨eventJson, reason, queuedAt, retryCount, s.issued, 0⟩ now s
    have same : places (step s (.enqueue eventJson reason queuedAt retryCount now)) =
        places (push ⟨eventJson, reason, queuedAt, retryCount, s.issued, 0⟩ now s) := rfl
    have none : lost s (.enqueue eventJson reason queuedAt retryCount now) = [] := rfl
    rw [same, moved, none, locatedNil, brings]
    simp only [true_and, eq_comm, Nat.add_zero]
  | flush =>
    simp only [step, places, lost, brings, List.flatten_append, List.flatten_cons, List.flatten_nil, List.append_nil, List.nil_append,
      locatedAppend, locatedSend, locatedNil, Bool.false_eq_true, false_and, if_false]
    omega
  | settle flush outcome now =>
    have quiet : brings (.settle flush outcome now) = false := rfl
    rw [step, quiet, if_neg (by simp), Nat.add_zero]
    cases live : sending s flush with
    | none =>
      have none : lost s (.settle flush outcome now) = [] := by
        cases outcome with
        | sent => rfl
        | failed => rfl
        | rejected => rw [lost, live]; rfl
      rw [none]
      rfl
    | some pair =>
      obtain ⟨item, rest⟩ := pair
      have here := sendingOf live
      rw [Option.elim_some]
      cases outcome with
      | sent =>
        have moved := locatedProceed serial rest (s := {s with sent := s.sent ++ [item]}) here
        simp only [settle, lost, locatedNil, locatedCons] at moved ⊢
        simp only [places, locatedAppend, locatedCons, locatedNil] at moved ⊢
        omega
      | failed =>
        simp only [settle, lost, locatedNil]
        split
        · have kept : (push (retried item) now s).flushes[flush]? = some (item :: rest) := here
          have moved := locatedProceed serial rest kept
          have pushed := locatedPush serial (retried item) now s
          have same : (retried item).serial = item.serial := rfl
          rw [locatedCons] at moved
          rw [same] at pushed
          omega
        · have moved := locatedProceed serial rest (s := {s with exhausted := s.exhausted ++ [item]}) here
          simp only [places, locatedAppend, locatedCons, locatedNil] at moved ⊢
          omega
      | rejected =>
        have moved := locatedSet serial here []
        simp only [settle, lost, live, Option.elim_some, places, locatedAppend, locatedCons, locatedNil] at moved ⊢
        omega

-- An event that waits was not sent more often than its count says.
def Waiting (event : QueuedEvent) : Prop := event.attempts ≤ maxRetryCount ∧ event.attempts ≤ event.retryCount.getD 0

def Flying (items : List QueuedEvent) : Prop :=
  (∀ item, items.head? = some item → item.attempts ≤ maxRetryCount + 1 ∧ item.attempts ≤ item.retryCount.getD 0 + 1) ∧
    ∀ item ∈ items.tail, Waiting item

structure Bounded (s : System) : Prop where
  capacity : s.queue.length ≤ maxQueueSize
  waiting : ∀ event ∈ s.queue, Waiting event
  flying : ∀ items ∈ s.flushes, Flying items
  settled : ∀ event ∈ s.sent ++ s.exhausted ++ s.dropped, event.attempts ≤ maxRetryCount + 1

theorem flyingNil : Flying [] := ⟨fun _ head => (by cases head), fun _ mem => (by cases mem)⟩

theorem sendFlying {items : List QueuedEvent} (waiting : ∀ item ∈ items, Waiting item) : Flying (send items) := by
  cases items with
  | nil => exact flyingNil
  | cons first rest =>
    refine ⟨fun item head => ?_, fun item mem => waiting item (List.mem_cons_of_mem _ mem)⟩
    obtain rfl := Option.some.inj head
    obtain ⟨few, counted⟩ := waiting first List.mem_cons_self
    exact ⟨Nat.succ_le_succ few, Nat.succ_le_succ counted⟩

theorem pushBounded {event : QueuedEvent} {s : System} (now : String) (bounded : Bounded s) (fits : Waiting event) : Bounded (push event now s) := by
  have fresh : Waiting {event with queuedAt := some (event.queuedAt.getD now)} := fits
  have space := bounded.capacity
  have positive : 0 < maxQueueSize := by decide
  refine ⟨?_, fun held mem => ?_, bounded.flying, fun held mem => ?_⟩
  · simp only [push, enqueue, List.length_append, List.length_singleton]
    split
    · rw [List.length_tail]
      omega
    · omega
  · simp only [push, enqueue, List.mem_append, List.mem_singleton] at mem
    rcases mem with mem | rfl
    · refine bounded.waiting held ?_
      split at mem
      · exact List.mem_of_mem_tail mem
      · exact mem
    · exact fresh
  · simp only [push, ← List.append_assoc] at mem
    rcases List.mem_append.mp mem with old | gone
    · exact bounded.settled held old
    · have here : held ∈ s.queue := by
        rw [Option.mem_toList, enqueue] at gone
        dsimp only at gone
        split at gone
        · exact List.mem_of_mem_head? gone
        · cases gone
      exact Nat.le_succ_of_le (bounded.waiting held here).1

theorem proceedBounded {rest : List QueuedEvent} {s : System} (flush : Nat) (bounded : Bounded s) (waiting : ∀ item ∈ rest, Waiting item) :
    Bounded (proceed flush rest s) := by
  refine ⟨bounded.capacity, bounded.waiting, fun items mem => ?_, bounded.settled⟩
  rcases List.mem_or_eq_of_mem_set mem with old | rfl
  · exact bounded.flying items old
  · exact sendFlying waiting

theorem settledBounded {item : QueuedEvent} {s : System} (bounded : Bounded s) (few : item.attempts ≤ maxRetryCount + 1) :
    Bounded {s with sent := s.sent ++ [item]} ∧ Bounded {s with exhausted := s.exhausted ++ [item]} := by
  constructor
  · refine ⟨bounded.capacity, bounded.waiting, bounded.flying, fun event mem => ?_⟩
    simp only [List.mem_append, List.mem_singleton] at mem
    rcases mem with ((old | rfl) | old) | old
    · exact bounded.settled event (by simp [old])
    · exact few
    · exact bounded.settled event (by simp [old])
    · exact bounded.settled event (by simp [old])
  · refine ⟨bounded.capacity, bounded.waiting, bounded.flying, fun event mem => ?_⟩
    simp only [List.mem_append, List.mem_singleton] at mem
    rcases mem with (old | old | rfl) | old
    · exact bounded.settled event (by simp [old])
    · exact bounded.settled event (by simp [old])
    · exact few
    · exact bounded.settled event (by simp [old])

theorem stepBounded {s : System} (call : Call) (bounded : Bounded s) : Bounded (step s call) := by
  cases call with
  | enqueue eventJson reason queuedAt retryCount now =>
    have fits : Waiting ⟨eventJson, reason, queuedAt, retryCount, s.issued, 0⟩ := ⟨Nat.zero_le _, Nat.zero_le _⟩
    have pushed := pushBounded now bounded fits
    exact ⟨pushed.capacity, pushed.waiting, pushed.flying, pushed.settled⟩
  | flush =>
    refine ⟨Nat.zero_le _, fun event mem => (by cases mem), fun items mem => ?_, bounded.settled⟩
    simp only [step, List.mem_append, List.mem_singleton] at mem
    rcases mem with old | rfl
    · exact bounded.flying items old
    · exact sendFlying bounded.waiting
  | settle flush outcome now =>
    rw [step]
    cases live : sending s flush with
    | none => exact bounded
    | some pair =>
      obtain ⟨item, rest⟩ := pair
      have flying := bounded.flying _ (List.mem_of_getElem? (sendingOf live))
      obtain ⟨few, counted⟩ := flying.1 item rfl
      have waiting : ∀ later ∈ rest, Waiting later := flying.2
      rw [Option.elim_some]
      cases outcome with
      | sent => exact proceedBounded flush (settledBounded bounded few).1 waiting
      | failed =>
        simp only [settle]
        split
        · rename_i again
          have fits : Waiting (retried item) := ⟨Nat.le_trans counted again, counted⟩
          exact proceedBounded flush (pushBounded now bounded fits) waiting
        · exact proceedBounded flush (settledBounded bounded few).2 waiting
      | rejected =>
        refine ⟨bounded.capacity, bounded.waiting, fun items mem => ?_, bounded.settled⟩
        rcases List.mem_or_eq_of_mem_set mem with old | rfl
        · exact bounded.flying items old
        · exact flyingNil

theorem boundedPlaces {s : System} (bounded : Bounded s) : ∀ event ∈ places s, event.attempts ≤ maxRetryCount + 1 := by
  intro event mem
  simp only [places, List.mem_append, List.mem_flatten] at mem
  rcases mem with (((queued | ⟨items, taken, mem⟩) | gone) | gone) | gone
  · exact Nat.le_succ_of_le (bounded.waiting event queued).1
  · have flying := bounded.flying items taken
    cases items with
    | nil => cases mem
    | cons first rest =>
      rcases List.mem_cons.mp mem with rfl | later
      · exact (flying.1 event rfl).1
      · exact Nat.le_succ_of_le (flying.2 event later).1
  · exact bounded.settled event (by simp [gone])
  · exact bounded.settled event (by simp [gone])
  · exact bounded.settled event (by simp [gone])

-- Every serial given out was given to one event, and none beyond.
structure Ground (s : System) : Prop where
  bounded : Bounded s
  fresh : ∀ serial, s.issued ≤ serial → located serial (places s) = 0
  once : ∀ serial, located serial (places s) ≤ 1

theorem groundStep {s : System} (call : Call) (ground : Ground s) : Ground (step s call) := by
  have issued := stepIssued s call
  refine ⟨stepBounded call ground.bounded, fun serial later => ?_, fun serial => ?_⟩
  · have account := stepLocated serial s call
    have none := ground.fresh serial
    by_cases brought : brings call = true
    · rw [if_pos brought] at issued
      rw [if_neg (by omega)] at account
      omega
    · rw [if_neg brought] at issued
      rw [if_neg (fun both => brought both.1)] at account
      omega
  · have account := stepLocated serial s call
    have once := ground.once serial
    have none := ground.fresh serial
    split at account
    · rename_i new
      omega
    · omega

theorem groundIdle : Ground idle :=
  ⟨⟨Nat.zero_le _, fun _ mem => (by cases mem), fun _ mem => (by cases mem), fun _ mem => (by cases mem)⟩, fun _ _ => rfl, fun _ => Nat.zero_le _⟩

theorem locatedMem {event : QueuedEvent} {events : List QueuedEvent} (mem : event ∈ events) : 0 < located event.serial events :=
  List.countP_pos_iff.mpr ⟨event, mem, by simp⟩

theorem conservedStep {s : System} (call : Call) (ground : Ground s) : Conserved (step s call) ↔ Conserved s ∧ lost s call = [] := by
  have issued := stepIssued s call
  constructor
  · intro conserved
    have settled : ∀ serial < s.issued, located serial (places s) = 1 ∧ located serial (lost s call) = 0 := by
      intro serial known
      have account := stepLocated serial s call
      have once := ground.once serial
      have here := conserved serial (by omega)
      rw [if_neg (by omega)] at account
      omega
    refine ⟨fun serial known => (settled serial known).1, ?_⟩
    cases gone : lost s call with
    | nil => rfl
    | cons item rest =>
      have taken : 0 < located item.serial (lost s call) := locatedMem (by rw [gone]; exact List.mem_cons_self)
      have account := stepLocated item.serial s call
      by_cases known : item.serial < s.issued
      · have none := (settled item.serial known).2
        omega
      · have none := ground.fresh item.serial (by omega)
        have quiet : brings call = false := by
          cases call with
          | enqueue eventJson reason queuedAt retryCount now => cases gone
          | flush => rfl
          | settle flush outcome now => rfl
        rw [quiet, if_neg (by simp)] at account
        omega
  · rintro ⟨conserved, kept⟩ serial known
    have account := stepLocated serial s call
    rw [kept, locatedNil] at account
    by_cases brought : brings call = true ∧ serial = s.issued
    · have none := ground.fresh serial (by omega)
      rw [if_pos brought] at account
      omega
    · rw [if_neg brought] at account
      have old : serial < s.issued := by
        by_cases new : brings call = true
        · rw [if_pos new] at issued
          have other : serial ≠ s.issued := fun same => brought ⟨new, same⟩
          omega
        · rw [if_neg new] at issued
          omega
      have here := conserved serial old
      omega

theorem lostNone {s : System} {call : Call} : lost s call = [] ↔ ∀ flush now, call = .settle flush .rejected now → sending s flush = none := by
  constructor
  · rintro none flush now rfl
    rw [lost] at none
    cases live : sending s flush with
    | none => rfl
    | some pair =>
      rw [live] at none
      cases none
  · intro quiet
    cases call with
    | enqueue eventJson reason queuedAt retryCount now => rfl
    | flush => rfl
    | settle flush outcome now =>
      cases outcome with
      | sent => rfl
      | failed => rfl
      | rejected => rw [lost, quiet flush now rfl]; rfl

theorem overflowOldest {s : System} {call : Call} : (∀ drop ∈ overflow s call, ∀ kept ∈ drop.2, queuedBefore drop.1 kept) ↔
    (pushes s call = true → maxQueueSize ≤ s.queue.length → ∀ head, s.queue.head? = some head → ∀ kept ∈ s.queue.tail, queuedBefore head kept) := by
  unfold overflow
  by_cases full : pushes s call = true ∧ maxQueueSize ≤ s.queue.length
  · rw [if_pos full]
    simp only [List.mem_map, Option.mem_toList, forall_exists_index, and_imp, forall_apply_eq_imp_iff₂]
    exact ⟨fun all _ _ => all, fun all => all full.1 full.2⟩
  · rw [if_neg full]
    exact iff_of_true (fun drop mem => by cases mem) (fun pushed long => absurd ⟨pushed, long⟩ full)

theorem soundIff {calls : List Call} : Runs.Throughout step Sound idle calls ↔
    Runs.Throughout step (fun s call => lost s call = []) idle calls ∧
      Runs.Throughout step (fun s call => ∀ drop ∈ overflow s call, ∀ kept ∈ drop.2, queuedBefore drop.1 kept) idle calls := by
  rw [← Runs.throughoutAnd]
  refine Runs.throughoutIff step (fun s call _ => ?_) (Runs.throughoutOf step (fun _ _ => trivial) idle calls)
  rw [lostNone, overflowOldest]
  rfl

theorem queueKeeps (calls : List Call) : Keeps calls ↔ Runs.Throughout step Sound idle calls := by
  have everywhere : Runs.Throughout step (fun _ _ => True) idle calls := Runs.throughoutOf step (fun _ _ => trivial) idle calls
  have exactly : Ground (after calls) ∧
      (Conserved (after calls) ↔ Conserved idle ∧ Runs.Throughout step (fun s call => lost s call = []) idle calls) :=
    Runs.exactRun step (fun s call ground _ => groundStep call ground) (fun s call ground _ => conservedStep call ground) groundIdle everywhere
  have start : Conserved idle := fun serial below => absurd below (Nat.not_lt_zero serial)
  rw [soundIff, ← Runs.logForall]
  constructor
  · intro keeps
    exact ⟨(exactly.2.mp keeps.conserved).2, keeps.oldest⟩
  · rintro ⟨lossless, oldest⟩
    exact ⟨exactly.2.mpr ⟨start, lossless⟩, boundedPlaces exactly.1.bounded, exactly.1.bounded.capacity, oldest⟩

def fatal : List Call :=
  [.enqueue "x" "vps_down" none none "2026-01-01T00:00:00.000Z", .enqueue "y" "vps_down" none none "2026-01-01T00:00:01.000Z",
    .flush, .settle 0 .rejected "2026-01-01T00:00:02.000Z"]

theorem rejectionLoses : (after fatal).issued = 2 ∧ places (after fatal) = [] ∧ ¬ Keeps fatal := by
  have gone : places (after fatal) = [] := by decide
  refine ⟨rfl, gone, fun keeps => ?_⟩
  have first := keeps.conserved 0 (by decide)
  rw [gone] at first
  cases first

end HarnessMem.LocalRetryQueue
