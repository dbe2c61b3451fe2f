import HarnessMem.ManagedBackend
import HarnessMem.Recorder

/-! What brings a managed backend back after a failed append, what that means for writes in managed
mode, and what `shutdown` drains. -/
namespace HarnessMem.ManagedBackend

section
variable {Event : Type*}

-- `initialize` completes with its adapter in place.
def Reconnects (b : Backend Event) : Input Event → Prop
  | .initialized => b.adapter = true
  | .adapterOpens => b.connectionState = .connected
  | _ => False

def Disconnects (b : Backend Event) : Input Event → Prop
  | .initializeStarts | .initializeFails _ => True
  | .appendRejects _ => ∃ batch, b.flight = .appending batch
  | .shutdown => (!b.replicationQueue.isEmpty && isConnected b) = false
  | .shutdownResumes => 0 < b.resuming
  | _ => False

theorem connectedIff (b : Backend Event) : isConnected b = true ↔ b.connectionState = .connected ∧ b.adapter = true := by
  simp [isConnected]

theorem flushConnected (b : Backend Event) : isConnected (flushReplicationQueue b) = isConnected b := by
  unfold flushReplicationQueue
  split
  · split <;> rfl
  · rfl

theorem replicateConnected (b : Backend Event) (event : Event) : isConnected (replicateEvent b event) = isConnected b := by
  unfold replicateEvent
  split
  · exact flushConnected _
  · rfl

theorem resolvesConnected (inserted : Nat) (now : String) (b : Backend Event) :
    isConnected (appendResolves inserted now b) = isConnected b := by
  unfold appendResolves
  split
  · dsimp only
    split <;> rfl
  · rfl

theorem projectConnected (failure : Option String) (b : Backend Event) : isConnected (projectEnds failure b) = isConnected b := by
  unfold projectEnds
  split <;> rfl

theorem rejectsConnected (message : String) (b : Backend Event) :
    isConnected (appendRejects message b) = true ↔ isConnected b = true ∧ ¬ ∃ batch, b.flight = .appending batch := by
  unfold appendRejects
  cases b.flight <;> simp [isConnected, flushEnds]

theorem shutdownConnected (b : Backend Event) :
    isConnected (shutdown b) = true ↔ (!b.replicationQueue.isEmpty && isConnected b) = true := by
  have flushed : isConnected (flushReplicationQueue { b with flushTimer := false }) = isConnected b := flushConnected _
  unfold shutdown
  split
  · rename_i open_
    have still : isConnected (flushReplicationQueue { b with flushTimer := false }) = true := by
      rw [flushed]
      exact (Bool.and_eq_true_iff.mp open_).2
    refine iff_of_true ?_ open_
    dsimp only
    split
    · split <;> exact still
    · exact still
  · rename_i shut
    exact iff_of_false (by simp [close, isConnected]) shut

theorem connectedStep (b : Backend Event) (input : Input Event) :
    isConnected (step b input) = true ↔ Reconnects b input ∨ isConnected b = true ∧ ¬ Disconnects b input := by
  cases input with
  | replicateEvent event => simp [step, replicateConnected, Reconnects, Disconnects]
  | appendResolves inserted now => simp [step, resolvesConnected, Reconnects, Disconnects]
  | projectEnds failure => simp [step, projectConnected, Reconnects, Disconnects]
  | appendRejects message => simp only [step, rejectsConnected, Reconnects, Disconnects, false_or]
  | shutdown =>
    simp only [step, shutdownConnected, Reconnects, Disconnects, false_or, Bool.not_eq_false]
    exact ⟨fun still => ⟨(Bool.and_eq_true_iff.mp still).2, still⟩, fun still => still.2⟩
  | shutdownResumes =>
    simp only [step, shutdownResumes, Reconnects, Disconnects, false_or]
    split
    · rename_i pending
      simp [close, isConnected, pending]
    · rename_i none
      simp [none]
  | tick =>
    simp only [step, Reconnects, Disconnects, false_or, not_false_eq_true, and_true]
    split
    · rw [flushConnected]
    · rfl
  | initializeStarts => simp [step, isConnected, Reconnects, Disconnects]
  | initializeFails message => simp [step, isConnected, Reconnects, Disconnects]
  | initialized =>
    simp only [step, connectedIff, Reconnects, Disconnects, true_and, not_false_eq_true, and_true]
    exact ⟨.inl, fun cases => cases.elim id And.right⟩
  | adapterOpens =>
    simp only [step, connectedIff, Reconnects, Disconnects, and_true, not_false_eq_true]
    exact ⟨.inl, fun cases => cases.elim id And.left⟩

-- Some `initialize` completed, and nothing has disconnected the backend since.
def Reinitialized (b : Backend Event) (inputs : List (Input Event)) : Prop :=
  ∃ early i late, inputs = early ++ i :: late ∧ Reconnects (Runs.run step b early) i ∧
    Runs.Throughout step (fun s i => ¬ Disconnects s i) (Runs.run step b (early ++ [i])) late

theorem connectedAgain {b : Backend Event} (off : isConnected b = false) (inputs : List (Input Event)) :
    isConnected (Runs.run step b inputs) = true ↔ Reinitialized b inputs := by
  rw [Runs.lastSet step (P := fun b => isConnected b = true) connectedStep]
  exact ⟨fun cases => cases.elim (fun on => absurd on.1 (by simp [off])) id, .inr⟩

theorem failedOff {b : Backend Event} (failed : ∃ batch, b.flight = .appending batch) (message : String) :
    isConnected (step b (.appendRejects message)) = false :=
  Bool.eq_false_of_not_eq_true fun still => ((rejectsConnected message b).mp still).2 failed

-- The settings of a managed server with this backend.
def managed (env : Recorder.Ambient) (b : Backend Event) : Recorder.Ambient :=
  { env with managedRequired := true, managedConnected := isConnected b }

-- The event gets as far as the write gate.
def Admissible (host : Host) (env : Recorder.Ambient) (e : Recorder.EventEnvelope) : Prop :=
  env.captureEnabled = true ∧ ¬ (e.project = "" ∨ e.sessionId = "" ∨ e.eventType = "" ∨ e.platform = "") ∧
    (∃ project, env.normalizeProject e.project = .ok project) ∧
    Text.isBlockedTag (Text.normalizeTags host e.privacyTags) = false

def refused : Recorder.Outcome → Bool
  | .failClosed _ => true
  | _ => false

theorem writeNotRefused (host : Host) (env : Recorder.Ambient) (allowQueue : Bool) (e : Recorder.EventEnvelope)
    (d : Recorder.Draft) (temporal : Temporal) (db : Db) :
    refused (Recorder.write host env allowQueue e d temporal db).2 = false := by
  unfold Recorder.write
  split
  · rfl
  · rename_i recorded _
    cases recorded <;> rfl

theorem writeGate {host : Host} {env : Recorder.Ambient} {e : Recorder.EventEnvelope}
    (admissible : Admissible host env e) (allowQueue : Bool) (db : Db) (b : Backend Event) :
    refused (Recorder.recordEvent host (managed env b) allowQueue e db).2 = !isConnected b := by
  obtain ⟨capture, fields, ⟨project, normalized⟩, allowed⟩ := admissible
  have captureOn : (managed env b).captureEnabled = true := capture
  have named : (managed env b).normalizeProject e.project = .ok project := normalized
  have open_ : Text.isBlockedTag (Recorder.draft host (managed env b) e project).privacyTags = false := allowed
  unfold Recorder.recordEvent
  rw [if_neg (by rw [captureOn]; exact Bool.noConfusion), if_neg fields, named]
  dsimp only
  rw [if_neg (by rw [open_]; exact Bool.noConfusion)]
  cases connected : isConnected b with
  | false => rw [if_pos ⟨rfl, connected⟩]; rfl
  | true =>
    rw [if_neg (fun closed => by simp [managed, connected] at closed)]
    split
    · rfl
    · split
      · rfl
      · exact writeNotRefused _ _ _ _ _ _ _

theorem recoversIff (before mid : List (Input Event)) (message : String) (inserted : Nat) (now : String)
    (failed : ∃ batch, (after before).flight = .appending batch) :
    let failure := before ++ [.appendRejects message]
    let success := failure ++ mid ++ [.appendResolves inserted now]
    (isConnected (after success) = true ↔ Reinitialized (after failure) mid) ∧
      ∀ (host : Host) (env : Recorder.Ambient) (e : Recorder.EventEnvelope) (allowQueue : Bool) (db : Db),
        Admissible host env e →
          (refused (Recorder.recordEvent host (managed env (after success)) allowQueue e db).2 = false ↔
            Reinitialized (after failure) mid) := by
  intro failure success
  have off : isConnected (after failure) = false := by
    rw [after, Runs.runSnoc]
    exact failedOff failed message
  have again : isConnected (after success) = true ↔ Reinitialized (after failure) mid := by
    rw [after, Runs.runSnoc, step, resolvesConnected, Runs.runAppend]
    exact connectedAgain off mid
  refine ⟨again, fun host env e allowQueue db admissible => ?_⟩
  rw [writeGate admissible, Bool.not_eq_false', again]

end

-- One event in flight at a fresh, connected backend.
def oneFlying : List (Input Nat) := [.adapterOpens, .initialized, .replicateEvent 0]

theorem recoversOnce :
    isConnected (after (oneFlying ++ [.appendRejects "timeout"] ++ [.initializeStarts, .initialized, .tick] ++
        [.appendResolves 1 "2026-01-01T00:00:00Z"])) = true ↔
      Reinitialized (after (oneFlying ++ [.appendRejects "timeout"])) [.initializeStarts, .initialized, .tick] :=
  (recoversIff oneFlying [.initializeStarts, .initialized, .tick] "timeout" 1 "2026-01-01T00:00:00Z" ⟨[0], rfl⟩).1

-- The next tick appends the event after all; the backend stays degraded.
theorem staysDegraded :
    let retried := oneFlying ++ [.appendRejects "timeout", .tick, .appendResolves 1 "2026-01-01T00:00:00Z", .projectEnds none]
    appended retried = [0] ∧ (after retried).lastError = none ∧ (after retried).connectionState = .degraded :=
  ⟨rfl, rfl, rfl⟩

section
variable {Event : Type*}

-- Once connected the event store is there.
def Ready (b : Backend Event) : Prop := b.connectionState = .connected → b.eventStore = true

theorem flushReady {b : Backend Event} (ready : Ready b) : Ready (flushReplicationQueue b) := by
  unfold flushReplicationQueue
  split
  · split <;> exact ready
  · exact ready

theorem closeReady (b : Backend Event) : Ready (close b) := fun connected => ConnectionState.noConfusion connected

theorem shutdownReady {b : Backend Event} (ready : Ready b) : Ready (shutdown b) := by
  have flushed : Ready (flushReplicationQueue { b with flushTimer := false }) := flushReady ready
  unfold shutdown
  split
  · dsimp only
    split
    · split <;> exact flushed
    · exact flushed
  · exact closeReady _

theorem readyStep (b : Backend Event) (input : Input Event) (ready : Ready b) : Ready (step b input) := by
  cases input with
  | initialized => exact fun _ => rfl
  | initializeStarts | initializeFails message => exact fun connected => ConnectionState.noConfusion connected
  | adapterOpens => exact ready
  | replicateEvent event =>
    simp only [step, replicateEvent]
    split
    · exact flushReady ready
    · exact ready
  | tick =>
    simp only [step]
    split
    · exact flushReady ready
    · exact ready
  | appendResolves inserted now =>
    simp only [step, appendResolves]
    split
    · split <;> exact ready
    · exact ready
  | appendRejects message =>
    simp only [step, appendRejects]
    split
    · exact fun connected => ConnectionState.noConfusion connected
    · exact ready
  | projectEnds failure =>
    simp only [step, projectEnds]
    split <;> exact ready
  | shutdown => exact shutdownReady ready
  | shutdownResumes =>
    simp only [step, shutdownResumes]
    split
    · exact closeReady _
    · exact ready

theorem afterReady (inputs : List (Input Event)) : Ready (after inputs) :=
  Runs.invariant step readyStep (fun connected => ConnectionState.noConfusion connected) inputs

-- What may happen while `shutdown` waits: appends succeed, projections end, a timer ticks.
def Quiet : Input Event → Prop
  | .appendResolves _ _ | .projectEnds _ | .tick => True
  | _ => False

theorem quietQueue {b : Backend Event} (stopped : b.flushTimer = false) {input : Input Event} (quiet : Quiet input) :
    (step b input).replicationQueue = b.replicationQueue ∧ (step b input).flushTimer = false := by
  cases input with
  | tick => simp [step, stopped]
  | appendResolves inserted now =>
    refine ⟨resolvesQueue inserted now b, ?_⟩
    simp only [step, appendResolves]
    split
    · split <;> exact stopped
    · exact stopped
  | projectEnds failure =>
    refine ⟨projectQueue failure b, ?_⟩
    simp only [step, projectEnds]
    split <;> exact stopped
  | _ => exact quiet.elim

theorem quietQueues {b : Backend Event} (stopped : b.flushTimer = false) (inputs : List (Input Event))
    (quiet : ∀ i ∈ inputs, Quiet i) : (Runs.run step b inputs).replicationQueue = b.replicationQueue := by
  let Held := fun s : Backend Event => s.replicationQueue = b.replicationQueue ∧ s.flushTimer = false
  have keep : ∀ s i, Quiet i → Held s → Held (step s i) :=
    fun s i ok held => ⟨(quietQueue held.2 ok).1.trans held.1, (quietQueue held.2 ok).2⟩
  have start : Held b := ⟨rfl, stopped⟩
  exact (Runs.invariantOn step keep start inputs quiet).1

theorem quietCalm {b : Backend Event} (calm : b.draining = false ∧ b.resuming = 0) {input : Input Event} (quiet : Quiet input) :
    (step b input).draining = false ∧ (step b input).resuming = 0 := by
  cases input with
  | tick =>
    simp only [step, flushReplicationQueue]
    split
    · split
      · split <;> exact calm
      · exact calm
    · exact calm
  | appendResolves inserted now =>
    simp only [step, appendResolves]
    split
    · split
      · exact calm
      · simp [flushEnds, calm]
    · exact calm
  | projectEnds failure =>
    simp only [step, projectEnds]
    split
    · simp [flushEnds, calm]
    · exact calm
  | _ => exact quiet.elim

-- The stages of the flush a `shutdown` call waits for.
def Draining (batch : List Event) (b : Backend Event) (sent : List Event) : Prop :=
  b.flushTimer = false ∧
    (b.flight = .appending batch ∧ b.draining = true ∧ b.resuming = 0 ∧ sent = [] ∨
      b.flight = .projecting ∧ b.draining = true ∧ b.resuming = 0 ∧ sent = batch ∨
      b.flight = .idle ∧ sent = batch)

theorem drainingStep {batch sent : List Event} {b : Backend Event} (stage : Draining batch b sent) {input : Input Event}
    (quiet : Quiet input) : Draining batch (step b input) (sent ++ appends b input) := by
  have stopped := (quietQueue stage.1 quiet).2
  obtain ⟨timer, stages⟩ := stage
  refine ⟨stopped, ?_⟩
  cases input with
  | tick => simpa [step, timer, appends] using stages
  | appendResolves inserted now =>
    rcases stages with ⟨flying, draining, none, rfl⟩ | ⟨flying, draining, none, rfl⟩ | ⟨flying, rfl⟩
    · by_cases some : 0 < inserted
      · exact .inr (.inl (by simp [step, appendResolves, appends, inFlight, flying, some, draining, none]))
      · exact .inr (.inr (by simp [step, appendResolves, appends, inFlight, flying, some, flushEnds]))
    · exact .inr (.inl (by simp [step, appendResolves, appends, inFlight, flying, draining, none]))
    · exact .inr (.inr (by simp [step, appendResolves, appends, inFlight, flying]))
  | projectEnds failure =>
    rcases stages with ⟨flying, draining, none, rfl⟩ | ⟨flying, draining, none, rfl⟩ | ⟨flying, rfl⟩
    · exact .inl (by simp [step, projectEnds, appends, flying, draining, none])
    · exact .inr (.inr (by simp [step, projectEnds, appends, flying, flushEnds]))
    · exact .inr (.inr (by simp [step, projectEnds, appends, flying]))
  | _ => exact quiet.elim

theorem drainingRun {batch : List Event} {b : Backend Event} (stage : Draining batch b []) (inputs : List (Input Event))
    (quiet : ∀ i ∈ inputs, Quiet i) : Draining batch (Runs.run step b inputs) (Runs.log step appends b inputs) := by
  induction inputs using List.reverseRecOn with
  | nil => exact stage
  | append_singleton inputs input ih =>
    have before := ih (fun i mem => quiet i (List.mem_append_left _ mem))
    have next := drainingStep before (quiet input (by simp))
    simpa [Runs.runSnoc, Runs.logAppend, Runs.log] using next

theorem shutdownCases {b : Backend Event} (ready : Ready b) :
    ((b.replicationQueue = [] ∨ isConnected b = false) ∧ shutdown b = close { b with flushTimer := false }) ∨
      (b.replicationQueue ≠ [] ∧ isConnected b = true) ∧
        (b.flight ≠ .idle ∧ shutdown b = { b with flushTimer := false, resuming := b.resuming + 1 } ∨
          b.flight = .idle ∧ shutdown b = { b with
            flushTimer := false
            replicationQueue := b.replicationQueue.drop batchSize
            flight := .appending (b.replicationQueue.take batchSize)
            draining := true }) := by
  by_cases goes : b.replicationQueue ≠ [] ∧ isConnected b = true
  · refine .inr ⟨goes, ?_⟩
    have guard : (!b.replicationQueue.isEmpty && isConnected b) = true := by simp [goes]
    have store : b.eventStore = true := ready ((connectedIff b).mp goes.2).1
    have some : b.replicationQueue.isEmpty = false := by simpa using goes.1
    cases flying : b.flight with
    | idle =>
      refine .inr ⟨rfl, ?_⟩
      rw [shutdown, if_pos guard]
      simp [flushReplicationQueue, flying, store, goes.1]
    | appending batch => exact .inl ⟨by simp, by simp only [shutdown, guard, if_true, flushReplicationQueue, flying]⟩
    | projecting => exact .inl ⟨by simp, by simp only [shutdown, guard, if_true, flushReplicationQueue, flying]⟩
  · refine .inl ⟨?_, ?_⟩
    · by_cases empty : b.replicationQueue = []
      · exact .inl empty
      · exact .inr (Bool.eq_false_of_not_eq_true fun connected => goes ⟨empty, connected⟩)
    · have guard : ¬ (!b.replicationQueue.isEmpty && isConnected b) = true := by simpa using goes
      simp only [shutdown, if_neg guard]

-- What happens from a `shutdown` call until it resolves, when every append succeeds.
def Resolves (b : Backend Event) (waits : List (Input Event)) : Prop :=
  (shutdown b).draining = false ∧ (shutdown b).resuming = 0 ∧ waits = [] ∨
    ∃ quiet, waits = quiet ++ [.shutdownResumes] ∧ (∀ i ∈ quiet, Quiet i) ∧
      0 < (Runs.run step (shutdown b) quiet).resuming

-- One batch takes the whole queue, and nothing is in its way.
def Drains (b : Backend Event) : Prop :=
  isConnected b = true ∧ b.flight = .idle ∧ b.replicationQueue.length ≤ batchSize

theorem resumesQueue (b : Backend Event) : (shutdownResumes b).replicationQueue = b.replicationQueue := by
  unfold shutdownResumes
  split <;> rfl

-- The queue when the call resolves, and what was appended meanwhile.
theorem resolvedQueue {b : Backend Event} (ready : Ready b) (calm : b.draining = false ∧ b.resuming = 0)
    {waits : List (Input Event)} (resolves : Resolves b waits) :
    let queue := (Runs.run step (shutdown b) waits).replicationQueue
    let sent := Runs.log step appends (shutdown b) waits
    (b.replicationQueue = [] ∨ isConnected b = false) ∧ queue = b.replicationQueue ∧ sent = [] ∨
      (b.replicationQueue ≠ [] ∧ isConnected b = true) ∧
        (b.flight ≠ .idle ∧ queue = b.replicationQueue ∨
          b.flight = .idle ∧ queue = b.replicationQueue.drop batchSize ∧ sent = b.replicationQueue.take batchSize) := by
  rcases shutdownCases ready with ⟨closes, eq⟩ | ⟨goes, ⟨busy, eq⟩ | ⟨idle, eq⟩⟩
  · refine .inl ⟨closes, ?_⟩
    rcases resolves with ⟨_, _, rfl⟩ | ⟨quiet, _, allQuiet, pending⟩
    · rw [Runs.runNil, eq]
      exact ⟨rfl, rfl⟩
    · have keep : ∀ (s : Backend Event) i, Quiet i → s.draining = false ∧ s.resuming = 0 →
          (step s i).draining = false ∧ (step s i).resuming = 0 :=
        fun _ _ ok still => quietCalm still ok
      have start : (shutdown b).draining = false ∧ (shutdown b).resuming = 0 := by rw [eq]; exact calm
      have still := Runs.invariantOn step keep start quiet allQuiet
      rw [still.2] at pending
      exact absurd pending (Nat.lt_irrefl 0)
  · refine .inr ⟨goes, .inl ⟨busy, ?_⟩⟩
    rcases resolves with ⟨_, none, _⟩ | ⟨quiet, rfl, allQuiet, _⟩
    · rw [eq] at none
      cases none
    · rw [Runs.runSnoc, step, resumesQueue, quietQueues (by rw [eq]) quiet allQuiet, eq]
  · refine .inr ⟨goes, .inr ⟨idle, ?_⟩⟩
    rcases resolves with ⟨waiting, _, _⟩ | ⟨quiet, rfl, allQuiet, pending⟩
    · rw [eq] at waiting
      cases waiting
    · have stage : Draining (b.replicationQueue.take batchSize) (shutdown b) [] := by
        rw [eq]
        exact ⟨rfl, .inl ⟨rfl, rfl, calm.2, rfl⟩⟩
      obtain ⟨_, stages⟩ := drainingRun stage quiet allQuiet
      have done : Runs.log step appends (shutdown b) quiet = b.replicationQueue.take batchSize := by
        rcases stages with ⟨_, _, none, _⟩ | ⟨_, _, none, _⟩ | ⟨_, sent⟩
        · exact absurd pending (by omega)
        · exact absurd pending (by omega)
        · exact sent
      refine ⟨?_, ?_⟩
      · rw [Runs.runSnoc, step, resumesQueue, quietQueues (by rw [eq]) quiet allQuiet, eq]
      · rw [Runs.logAppend, done]
        exact List.append_nil _

theorem idleHeld {b : Backend Event} (idle : b.flight = .idle) : held b = b.replicationQueue := by
  simp [held, inFlight, idle]

theorem shutdownDrainsIff (inputs waits : List (Input Event))
    (calm : (after inputs).draining = false ∧ (after inputs).resuming = 0) (resolves : Resolves (after inputs) waits) :
    let final := inputs ++ .shutdown :: waits
    ((after final).replicationQueue = [] ∧ appended final = appended inputs ++ held (after inputs) ↔
        held (after inputs) = [] ∨ Drains (after inputs)) ∧
      ((after final).replicationQueue = [] ∧ (after inputs).replicationQueue <:+ appended final ↔
        (after inputs).replicationQueue = [] ∨ Drains (after inputs)) := by
  intro final
  have run : after final = Runs.run step (shutdown (after inputs)) waits := Runs.runAppend step new inputs _
  have sent : appended final = appended inputs ++ Runs.log step appends (shutdown (after inputs)) waits :=
    Runs.logAppend step appends new inputs _
  have outcome := resolvedQueue (afterReady inputs) calm resolves
  rw [run, sent, List.append_cancel_left_eq]
  generalize after inputs = b at outcome ⊢
  rcases outcome with ⟨closes, queue, none⟩ | ⟨⟨some, connected⟩, ⟨busy, queue⟩ | ⟨idle, queue, batch⟩⟩
  · rw [queue, none]
    have stuck : Drains b → b.replicationQueue = [] := fun drains =>
      closes.elim id (fun off => absurd drains.1 (by simp [off]))
    constructor
    · constructor
      · exact fun all => .inl all.2.symm
      · rintro (empty | drains)
        · exact ⟨(List.append_eq_nil_iff.mp empty).2, empty.symm⟩
        · exact ⟨stuck drains, (idleHeld drains.2.1 ▸ stuck drains).symm⟩
    · constructor
      · exact fun all => .inl all.1
      · rintro (empty | drains)
        · exact ⟨empty, empty ▸ List.nil_suffix⟩
        · exact ⟨stuck drains, stuck drains ▸ List.nil_suffix⟩
  · rw [queue]
    have never : ¬ Drains b := fun drains => busy drains.2.1
    have full : held b ≠ [] := fun empty => some (List.append_eq_nil_iff.mp empty).2
    exact ⟨iff_of_false (fun all => some all.1) (fun any => any.elim full never),
      iff_of_false (fun all => some all.1) (fun any => any.elim some never)⟩
  · rw [queue, batch, idleHeld idle]
    have fits : b.replicationQueue.length ≤ batchSize ↔ Drains b := ⟨fun short => ⟨connected, idle, short⟩, fun drains => drains.2.2⟩
    rw [List.drop_eq_nil_iff, fits, or_iff_right some]
    constructor
    · exact ⟨And.left, fun drains => ⟨drains, List.take_of_length_le drains.2.2⟩⟩
    · refine ⟨And.left, fun drains => ⟨drains, ?_⟩⟩
      rw [List.take_of_length_le drains.2.2]
      exact List.suffix_append _ _

end

theorem drainsOnce :
    let final : List (Input Nat) := [.replicateEvent 0, .adapterOpens, .initialized, .shutdown,
      .appendResolves 1 "2026-01-01T00:00:00Z", .projectEnds none, .shutdownResumes]
    (after final).replicationQueue = [] ∧ appended final = [0] := by
  have drains := shutdownDrainsIff [.replicateEvent 0, .adapterOpens, .initialized]
    [.appendResolves 1 "2026-01-01T00:00:00Z", .projectEnds none, .shutdownResumes] ⟨rfl, rfl⟩
    (.inr ⟨[.appendResolves 1 "2026-01-01T00:00:00Z", .projectEnds none], rfl, by simp [Quiet], by decide⟩)
  exact drains.1.mpr (.inr ⟨rfl, rfl, by decide⟩)

-- An event behind the batch in flight, and the last of a queue longer than one batch, are left.
theorem shutdownLeavesQueue :
    (after ([.adapterOpens, .initialized, .replicateEvent 0, .replicateEvent 1, .shutdown, .shutdownResumes] :
        List (Input Nat))).replicationQueue = [1] ∧
      (after ((List.range 101).map .replicateEvent ++ [.adapterOpens, .initialized, .shutdown,
        .appendResolves 100 "2026-01-01T00:00:00Z", .projectEnds none, .shutdownResumes])).replicationQueue = [100] := by
  decide +kernel

end HarnessMem.ManagedBackend
