import HarnessMem.Lib.Outbox
import HarnessMem.Lib.Runs
import Mathlib.Data.List.Induction

/-! The managed backend: its connection state, the replication queue and the flush that empties it
a batch at a time, under any interleaving of calls, timer ticks and answers of the event store. -/
namespace HarnessMem.ManagedBackend
open Outbox

inductive ConnectionState where | connecting | connected | degraded | disconnected
  deriving DecidableEq, Repr

-- `replicationInProgress`, with what the flush in progress waits for.
inductive Flight (Event : Type*) where
  | idle
  | appending (batch : List Event)
  | projecting

structure Backend (Event : Type*) where
  adapter : Bool
  eventStore : Bool
  connectionState : ConnectionState
  lastReplicationAt : Option String
  lastError : Option String
  replicationQueue : List Event
  flight : Flight Event
  flushTimer : Bool
  -- A `shutdown` call waits for the flush it started; this many others are about to go on.
  draining : Bool
  resuming : Nat

section
variable {Event : Type*}

def new : Backend Event := ⟨false, false, .disconnected, none, none, [], .idle, false, false, 0⟩

def maxQueueSize : Nat := 1000
def batchSize : Nat := 100

def isConnected (b : Backend Event) : Bool := b.connectionState = .connected && b.adapter

def enqueueForRetry (b : Backend Event) (event : Event) : Backend Event :=
  let queue := if maxQueueSize ≤ b.replicationQueue.length then b.replicationQueue.drop 1 else b.replicationQueue
  { b with replicationQueue := queue ++ [event] }

-- The flush up to its first wait.
def flushReplicationQueue (b : Backend Event) : Backend Event :=
  match b.flight with
  | .idle =>
    if b.replicationQueue.isEmpty || !b.eventStore then b
    else { b with
      replicationQueue := b.replicationQueue.drop batchSize
      flight := .appending (b.replicationQueue.take batchSize) }
  | _ => b

def replicateEvent (b : Backend Event) (event : Event) : Backend Event :=
  if isConnected b then flushReplicationQueue (enqueueForRetry b event) else enqueueForRetry b event

-- The flush ends: a `shutdown` call that waits for it goes on.
def flushEnds (b : Backend Event) : Backend Event :=
  { b with flight := .idle, draining := false, resuming := if b.draining then b.resuming + 1 else b.resuming }

def appendResolves (inserted : Nat) (now : String) (b : Backend Event) : Backend Event :=
  match b.flight with
  | .appending _ =>
    let stored := { b with lastReplicationAt := some now, lastError := none }
    if 0 < inserted then { stored with flight := .projecting } else flushEnds stored
  | _ => b

-- A failed projection only leaves its message.
def projectEnds (failure : Option String) (b : Backend Event) : Backend Event :=
  match b.flight with
  | .projecting => flushEnds { b with lastError := failure.or b.lastError }
  | _ => b

def appendRejects (message : String) (b : Backend Event) : Backend Event :=
  match b.flight with
  | .appending batch =>
    flushEnds { b with
      replicationQueue := batch ++ b.replicationQueue, lastError := some message, connectionState := .degraded }
  | _ => b

def close (b : Backend Event) : Backend Event := { b with adapter := false, connectionState := .disconnected }

-- `shutdown` up to its first wait; with nothing to flush it closes at once.
def shutdown (b : Backend Event) : Backend Event :=
  let stopped := { b with flushTimer := false }
  if !b.replicationQueue.isEmpty && isConnected b then
    let flushed := flushReplicationQueue stopped
    match b.flight with
    | .idle => if b.eventStore then { flushed with draining := true } else { flushed with resuming := b.resuming + 1 }
    | _ => { flushed with resuming := b.resuming + 1 }
  else close stopped

def shutdownResumes (b : Backend Event) : Backend Event :=
  if 0 < b.resuming then close { b with resuming := b.resuming - 1 } else b

inductive Input (Event : Type*) where
  | initializeStarts
  | adapterOpens
  | initialized
  | initializeFails (message : String)
  | replicateEvent (event : Event)
  | tick
  | appendResolves (inserted : Nat) (now : String)
  | appendRejects (message : String)
  | projectEnds (failure : Option String)
  | shutdown
  | shutdownResumes

def step (b : Backend Event) : Input Event → Backend Event
  | .initializeStarts => { b with connectionState := .connecting }
  | .adapterOpens => { b with adapter := true }
  | .initialized => { b with eventStore := true, connectionState := .connected, lastError := none, flushTimer := true }
  | .initializeFails message => { b with connectionState := .degraded, lastError := some message }
  | .replicateEvent event => replicateEvent b event
  | .tick => if b.flushTimer then flushReplicationQueue b else b
  | .appendResolves inserted now => appendResolves inserted now b
  | .appendRejects message => appendRejects message b
  | .projectEnds failure => projectEnds failure b
  | .shutdown => shutdown b
  | .shutdownResumes => shutdownResumes b

def inFlight (b : Backend Event) : List Event :=
  match b.flight with
  | .appending batch => batch
  | _ => []

def held (b : Backend Event) : List Event := inFlight b ++ b.replicationQueue

-- What a step does to the history: what it enqueues, what it has appended, what it drops.
def enqueues (_ : Backend Event) : Input Event → List Event
  | .replicateEvent event => [event]
  | _ => []
def appends (b : Backend Event) : Input Event → List Event
  | .appendResolves _ _ => inFlight b
  | _ => []
def drops (b : Backend Event) : Input Event → List Event
  | .replicateEvent _ => if maxQueueSize ≤ b.replicationQueue.length then b.replicationQueue.take 1 else []
  | _ => []

def after (inputs : List (Input Event)) : Backend Event := Runs.run step new inputs
def enqueued (inputs : List (Input Event)) : List Event := Runs.log step enqueues new inputs
def appended (inputs : List (Input Event)) : List Event := Runs.log step appends new inputs
def dropped (inputs : List (Input Event)) : List Event := Runs.log step drops new inputs

-- No operation loses or reorders what is held: it moves between the queue and the batch in flight.
theorem heldFlush (b : Backend Event) : held (flushReplicationQueue b) = held b := by
  unfold flushReplicationQueue
  split
  · rename_i idle
    split
    · rfl
    · simp [held, inFlight, idle]
  · rfl

theorem heldResolves (inserted : Nat) (now : String) (b : Backend Event) :
    held b = inFlight b ++ held (appendResolves inserted now b) := by
  unfold appendResolves
  split
  · rename_i batch flying
    by_cases some : 0 < inserted
    · simp [held, inFlight, flying, some]
    · simp [held, inFlight, flying, some, flushEnds]
  · rename_i still
    cases flying : b.flight with
    | appending batch => exact absurd flying (still batch)
    | _ => simp [inFlight, flying]

theorem heldRejects (message : String) (b : Backend Event) : held (appendRejects message b) = held b := by
  unfold appendRejects
  split
  · rename_i batch flying
    simp [held, inFlight, flying, flushEnds]
  · rfl

theorem heldProject (failure : Option String) (b : Backend Event) : held (projectEnds failure b) = held b := by
  unfold projectEnds
  split
  · rename_i flying
    simp [held, inFlight, flying, flushEnds]
  · rfl

theorem heldShutdown (b : Backend Event) : held (shutdown b) = held b := by
  have flushed : held (flushReplicationQueue { b with flushTimer := false }) = held b := heldFlush _
  unfold shutdown
  split
  · dsimp only
    split
    · split
      · exact flushed
      · exact flushed
    · exact flushed
  · rfl

theorem heldResumes (b : Backend Event) : held (shutdownResumes b) = held b := by
  unfold shutdownResumes
  split <;> rfl

theorem heldReplicate (b : Backend Event) (event : Event) :
    held (replicateEvent b event) = inFlight b ++ (enqueueForRetry b event).replicationQueue := by
  unfold replicateEvent
  split
  · exact heldFlush _
  · rfl

theorem accountedStep {entered sent gone : List Event} {b : Backend Event} (old : Accounted entered sent (held b) gone)
    (input : Input Event) :
    Accounted (entered ++ enqueues b input) (sent ++ appends b input) (held (step b input)) (gone ++ drops b input) := by
  have same : ∀ {later : Backend Event}, held later = held b → Accounted (entered ++ []) (sent ++ []) (held later) (gone ++ []) := by
    intro later eq
    simpa [eq] using old
  cases input with
  | replicateEvent event =>
    simp only [step, enqueues, appends, drops, heldReplicate, enqueueForRetry, List.append_nil, ← List.append_assoc]
    refine Accounted.enter ?_ event
    split
    · rename_i full
      cases queue : b.replicationQueue with
      | nil => simp [queue, maxQueueSize] at full
      | cons oldest rest =>
        rw [held, queue] at old
        exact old.drop
    · simpa [held] using old
  | appendResolves inserted now =>
    rw [heldResolves inserted now b] at old
    simpa [enqueues, drops, appends, step] using old.send
  | appendRejects message => exact same (heldRejects message b)
  | projectEnds failure => exact same (heldProject failure b)
  | shutdown => exact same (heldShutdown b)
  | shutdownResumes => exact same (heldResumes b)
  | tick =>
    refine same ?_
    simp only [step]
    split
    · exact heldFlush b
    · rfl
  | initializeStarts | adapterOpens | initialized | initializeFails message => exact same rfl

theorem accountedRun (inputs : List (Input Event)) :
    Accounted (enqueued inputs) (appended inputs) (held (after inputs)) (dropped inputs) := by
  induction inputs using List.reverseRecOn with
  | nil => exact .empty
  | append_singleton inputs input ih =>
    have next := accountedStep ih input
    simpa [enqueued, appended, dropped, after, Runs.logAppend, Runs.log, Runs.runSnoc] using next

-- A batch that failed fits back into the queue.
def PutBackFits (b : Backend Event) : Input Event → Prop
  | .appendRejects _ => (inFlight b).length + b.replicationQueue.length ≤ maxQueueSize
  | _ => True

theorem flushShorter (b : Backend Event) : (flushReplicationQueue b).replicationQueue.length ≤ b.replicationQueue.length := by
  unfold flushReplicationQueue
  split
  · split
    · exact Nat.le_refl _
    · simp
  · exact Nat.le_refl _

theorem enqueueBounded {b : Backend Event} (bounded : b.replicationQueue.length ≤ maxQueueSize) (event : Event) :
    (enqueueForRetry b event).replicationQueue.length ≤ maxQueueSize := by
  simp only [enqueueForRetry, List.length_append, List.length_singleton]
  split
  · simp only [List.length_drop]
    simp only [maxQueueSize] at *
    omega
  · omega

theorem replicateBounded {b : Backend Event} (bounded : b.replicationQueue.length ≤ maxQueueSize) (event : Event) :
    (replicateEvent b event).replicationQueue.length ≤ maxQueueSize := by
  unfold replicateEvent
  split
  · exact Nat.le_trans (flushShorter _) (enqueueBounded bounded event)
  · exact enqueueBounded bounded event

@[simp] theorem resolvesQueue (inserted : Nat) (now : String) (b : Backend Event) :
    (appendResolves inserted now b).replicationQueue = b.replicationQueue := by
  unfold appendResolves
  split
  · dsimp only
    split <;> rfl
  · rfl

@[simp] theorem projectQueue (failure : Option String) (b : Backend Event) :
    (projectEnds failure b).replicationQueue = b.replicationQueue := by
  unfold projectEnds
  split <;> rfl

theorem rejectsQueue (message : String) (b : Backend Event) :
    (appendRejects message b).replicationQueue = inFlight b ++ b.replicationQueue := by
  unfold appendRejects inFlight
  cases b.flight <;> rfl

theorem shutdownShorter (b : Backend Event) : (shutdown b).replicationQueue.length ≤ b.replicationQueue.length := by
  have flushed := flushShorter { b with flushTimer := false }
  unfold shutdown
  split
  · dsimp only
    split
    · split
      · exact flushed
      · exact flushed
    · exact flushed
  · exact Nat.le_refl _

theorem boundStep (b : Backend Event) (input : Input Event) (bounded : b.replicationQueue.length ≤ maxQueueSize) :
    (step b input).replicationQueue.length ≤ maxQueueSize ↔ PutBackFits b input := by
  cases input with
  | appendRejects message =>
    simp only [step, PutBackFits, rejectsQueue, List.length_append]
  | replicateEvent event => exact iff_of_true (replicateBounded bounded event) trivial
  | appendResolves inserted now => exact iff_of_true (by simpa [step] using bounded) trivial
  | projectEnds failure => exact iff_of_true (by simpa [step] using bounded) trivial
  | shutdown => exact iff_of_true (Nat.le_trans (shutdownShorter b) bounded) trivial
  | tick =>
    refine iff_of_true ?_ trivial
    simp only [step]
    split
    · exact Nat.le_trans (flushShorter b) bounded
    · exact bounded
  | shutdownResumes =>
    refine iff_of_true ?_ trivial
    simp only [step, shutdownResumes]
    split <;> exact bounded
  | initializeStarts | adapterOpens | initialized | initializeFails message => exact iff_of_true bounded trivial

theorem fifoWithinBound (inputs : List (Input Event)) :
    (∀ before, before <+: inputs →
        Accounted (enqueued before) (appended before) (held (after before)) (dropped before) ∧
          (after before).replicationQueue.length ≤ maxQueueSize) ↔
      Runs.Throughout step PutBackFits new inputs := by
  have room : (new : Backend Event).replicationQueue.length ≤ maxQueueSize := Nat.zero_le _
  have bound : (∀ before, before <+: inputs → (after before).replicationQueue.length ≤ maxQueueSize) ↔
      Runs.Throughout step PutBackFits new inputs := Runs.everyPrefix step boundStep room inputs
  rw [← bound]
  exact forall₂_congr (fun before _ => and_iff_right (accountedRun before))

-- While a batch is in flight the queue only fills.
theorem queueFills (events : List Event) {b : Backend Event} {batch : List Event} (flying : b.flight = .appending batch)
    (room : b.replicationQueue.length + events.length ≤ maxQueueSize) :
    let filled := Runs.run step b (events.map .replicateEvent)
    filled.flight = .appending batch ∧ filled.replicationQueue.length = b.replicationQueue.length + events.length := by
  induction events generalizing b with
  | nil => exact ⟨flying, rfl⟩
  | cons event rest ih =>
    rw [List.length_cons] at room
    have enqueued : step b (.replicateEvent event) = enqueueForRetry b event := by
      have still : (enqueueForRetry b event).flight = .appending batch := flying
      simp only [step, replicateEvent, flushReplicationQueue, still, ite_self]
    have longer : (enqueueForRetry b event).replicationQueue.length = b.replicationQueue.length + 1 := by
      simp only [enqueueForRetry]
      rw [if_neg (by omega), List.length_append, List.length_singleton]
    obtain ⟨kept, length⟩ := ih (b := enqueueForRetry b event) flying (by omega)
    simp only [List.map_cons, Runs.runCons, enqueued]
    refine ⟨kept, ?_⟩
    rw [length, longer, List.length_cons]
    omega

end

-- One event in flight, a full queue behind it, and the append fails.
def overflowInputs : List (Input Nat) :=
  [.adapterOpens, .initialized, .replicateEvent 0] ++ (List.replicate maxQueueSize 1).map .replicateEvent ++
    [.appendRejects "connection terminated"]

theorem putBackOverflows : (after overflowInputs).replicationQueue.length = maxQueueSize + 1 := by
  have started : (after [.adapterOpens, .initialized, .replicateEvent 0]).flight = .appending [0] := rfl
  have filled := queueFills (List.replicate maxQueueSize 1) started (by rw [List.length_replicate]; exact Nat.le_refl _)
  obtain ⟨flying, length⟩ := filled
  rw [after, overflowInputs, Runs.runAppend, Runs.runAppend, Runs.runCons, Runs.runNil, step, rejectsQueue,
    List.length_append, inFlight]
  rw [after] at flying length
  rw [flying, length, List.length_replicate]
  rfl

end HarnessMem.ManagedBackend
