import HarnessMem.Recorder

/-! `recordEvent` when statements fail: which failures end the call, which are swallowed, and
what the tables hold when the call does not answer ok. -/
namespace HarnessMem.Recorder
open Text

inductive Statement where
  | privacyStrip | dedupProbe | gateWarn
  | begin | session | event | existing | relink | observation
  | tag (n : Nat) | privacyTag (n : Nat) | vector (n : Nat) | privacyFilter | commit
  | enqueue
  deriving DecidableEq, Repr

-- What the transaction tries and goes on without.
inductive BestEffort where
  | provenance | entities | relations | links | supersedes | autoLinker | nuggets
  deriving DecidableEq, Repr

-- One call's failures. A failed statement leaves nothing; a best-effort step that fails leaves
-- what its earlier statements wrote, and none of them writes an event or an observation.
structure Faults where
  statement : Statement → Option EmbeddingFailure
  step : BestEffort → Option (Db → Db)
  events : ∀ s left, step s = some left → ∀ db, (left db).events = db.events
  observations : ∀ s left, step s = some left → ∀ db, (left db).observations = db.observations
  retryQueue : ∀ s left, step s = some left → ∀ db, (left db).retryQueue = db.retryQueue

namespace Faults

def none : Faults := ⟨fun _ => .none, fun _ => .none, by simp, by simp, by simp⟩

-- Every statement but the given one succeeds.
def only (s : Statement) (failure : EmbeddingFailure) : Faults :=
  ⟨fun t => if t = s then some failure else .none, fun _ => .none, by simp, by simp, by simp⟩

def Clear (faults : Faults) (statements : List Statement) : Prop := ∀ s ∈ statements, faults.statement s = .none

-- Statements in turn: the first one that fails throws.
def run (faults : Faults) (statements : List Statement) : Except String Unit :=
  match statements.findSome? faults.statement with
  | some failure => .error failure.message
  | .none => .ok ()

-- A write whose failure is caught and logged.
def caught (faults : Faults) (s : Statement) (write : Db → Db) (db : Db) : Db :=
  if faults.statement s = .none then write db else db

def attempt (faults : Faults) (s : BestEffort) (whole : Db → Db) (db : Db) : Db :=
  match faults.step s with
  | .none => whole db
  | some left => left db

theorem runOk {faults : Faults} {statements : List Statement} {u : Unit} :
    faults.run statements = .ok u ↔ faults.Clear statements := by
  unfold run Clear
  cases found : statements.findSome? faults.statement with
  | none => simpa using found
  | some failure =>
    refine iff_of_false (by simp) (fun clear => ?_)
    obtain ⟨s, mem, fails⟩ := List.exists_of_findSome?_eq_some found
    simp [clear s mem] at fails

@[simp] theorem noneRun (statements : List Statement) : none.run statements = .ok () :=
  runOk.mpr (fun _ _ => rfl)
@[simp] theorem noneCaught (s : Statement) (write : Db → Db) (db : Db) : none.caught s write db = write db := rfl
@[simp] theorem noneAttempt (s : BestEffort) (whole : Db → Db) (db : Db) : none.attempt s whole db = whole db := rfl

end Faults

section
variable (faults : Faults) (host : Host) (env : Ambient) (e : EventEnvelope) (d : Draft) (temporal : Temporal) (db : Db)

def storeVectors : Nat → List Vector → List Vector → List Vector × Option EmbeddingFailure
  | _, [], stored => (stored, none)
  | n, row :: rest, stored =>
    match faults.statement (.vector n) with
    | some failure => (stored, some failure)
    | none => storeVectors (n + 1) rest (upsertVectorRow stored row)

def upsertVectorWith (observationId content createdAt : String) : Db × Option EmbeddingFailure :=
  if env.vectorDisabled then (db, none)
  else match vectorVariants env content with
    | .error failure => (db, some failure)
    | .ok variants =>
      let rows := variants.map (fun (model, vector) =>
        (⟨observationId, model, env.vectorDimension, vector, createdAt, env.clock 5⟩ : Vector))
      let stored := storeVectors faults 0 rows db.vectors
      ({db with vectors := stored.1}, stored.2)

def embedWith : Except String (Db × Option String) :=
  let tried := upsertVectorWith faults env db d.observationId (d.rawText.getD d.redactedContent) d.timestamp
  match tried.2 with
  | none => .ok (tried.1, none)
  | some failure =>
    if e.eventType = "checkpoint" ∧ isRetryableWriteEmbeddingFailure host failure then
      .ok (tried.1, some failure.message)
    else .error failure.message

def provenanceWith : Db :=
  if e.eventType = "tool_use" then faults.attempt .provenance (storeProvenance host env e d) db else db

def enrichWith : Db :=
  let mined := faults.attempt .entities (extractAndStoreEntities d.observationId d.redactedContent d.timestamp) db
  let related := faults.attempt .relations
    (extractAndStoreGraphRelations host d.observationId d.redactedContent d.tags d.timestamp temporal) mined
  let linked := faults.attempt .links (autoLinkObservation host d.observationId e.sessionId d.timestamp) related
  let updated := faults.attempt .supersedes
    (autoSupersedes host env d.observationId d.project d.observationType d.redactedContent d.timestamp) linked
  let auto := if env.autoLinkSemantic then
      faults.attempt .autoLinker (runAutoLinker host d.observationId e.sessionId d.timestamp) updated
    else updated
  if env.vectorDisabled then auto
  else faults.attempt .nuggets (insertNuggets host env d.observationId d.redactedContent d.timestamp) auto

def tagStatements : List Statement :=
  (List.range d.tags.length).map .tag ++ (List.range d.privacyTags.length).map .privacyTag

def createObservationWith : Except String (Db × Option String) := do
  let expiresAt ← normalizeExpiresAt host e.expiresAt
  faults.run [.observation]
  let observations ← upsertObservation (observationRow env e d temporal expiresAt) db.observations
  faults.run (tagStatements d)
  let tagged := storeTags env d "privacy" d.privacyTags (storeTags env d "tag" d.tags {db with observations})
  let (embedded, warning) ← embedWith faults host env e d (provenanceWith faults host env e d tagged)
  let enriched := enrichWith faults host env e d temporal embedded
  faults.run (if isPrivateTag d.privacyTags then [.privacyFilter] else [])
  return (auditPrivacy env e d enriched, warning)

-- The lookup runs for a hash that is not empty.
def lookup : List Statement := if (truthy d.contentDedupeHash).isSome then [.existing] else []

def storeWith : Except String (Db × Recorded) := do
  faults.run (lookup d)
  match existingObservation d db with
  | some id =>
    faults.run [.relink]
    return (linkExisting d id db, .duplicateContent id)
  | none =>
    let (after, warning) ← createObservationWith faults host env e d temporal db
    return (after, .created warning)

def transactionWith : Except String (Db × Recorded) := do
  faults.run [.begin, .session, .event]
  let started := ensureSession env e d db
  let stored ← if started.events.any (taken d) then .ok (started, Recorded.duplicateEvent)
    else storeWith faults host env e d temporal (insertEvent env e d started)
  faults.run [.commit]
  return stored

-- A probe that fails counts as no hit.
def evaluateGateWith : Option (String × Option String) :=
  match closureCheckL1 env d.redactedContent with
  | (some refused, _) => some refused
  | (none, tag) =>
    if faults.statement .dedupProbe = none ∧ dedupCheckL1 d.contentDedupeHash db then some ("dedup_collision_l1", tag)
    else none

def gateWith : Except String Db :=
  if env.gateEnabled then
    match evaluateGateWith faults env d db with
    | none => .ok db
    | some refused =>
      if env.gateMode = .block then .error refused.1
      else .ok (faults.caught .gateWarn (auditGate host env e d refused) db)
  else .ok db

-- The transaction's error is caught; a retry row that cannot be written is not.
def writeWith (allowQueue : Bool) : Db × Outcome :=
  match transactionWith faults host env e d temporal db with
  | .ok (after, recorded) => (after, answer env e d temporal recorded)
  | .error message =>
    if allowQueue then
      match faults.statement .enqueue with
      | none => (enqueueRetry env e message db, .failed message)
      | some failure => (db, .thrown failure.message)
    else (db, .failed message)

def recordChecked (allowQueue : Bool) : Db × Outcome :=
  let stripped := faults.caught .privacyStrip (auditStrip host env e d) db
  match gateWith faults host env e d stripped with
  | .error reason => (stripped, .gated reason)
  | .ok passed =>
    match temporalAnchors host e d.timestamp with
    | .error message => (passed, .thrown message)
    | .ok temporal => writeWith faults host env e d temporal passed allowQueue
end

def recordEventWith (faults : Faults) (host : Host) (env : Ambient) (allowQueue : Bool) (e : EventEnvelope)
    (db : Db) : Db × Outcome :=
  if env.captureEnabled = false then (db, .captureOff)
  else if e.project = "" ∨ e.sessionId = "" ∨ e.eventType = "" ∨ e.platform = "" then
    (db, .invalid requiredMessage)
  else match env.normalizeProject e.project with
    | .error message => (db, .invalid message)
    | .ok project =>
      let d := draft host env e project
      if isBlockedTag d.privacyTags then (db, .blocked)
      else if env.managedRequired ∧ env.managedConnected = false then (db, .failClosed failCloseMessage)
      else recordChecked faults host env e d db allowQueue

section
variable {host : Host} {env : Ambient} {e : EventEnvelope} {d : Draft} {temporal : Temporal}

theorem storeVectorsNone (n : Nat) (rows stored : List Vector) :
    storeVectors .none n rows stored = (rows.foldl upsertVectorRow stored, none) := by
  induction rows generalizing n stored with
  | nil => rfl
  | cons row rest ih => exact ih (n + 1) (upsertVectorRow stored row)

theorem embedNone (db : Db) : embedWith .none host env e d db = embed host env e d db := by
  unfold embedWith embed upsertVectorWith upsertVector
  by_cases off : env.vectorDisabled
  · simp [off]
  · cases found : vectorVariants env (d.rawText.getD d.redactedContent) with
    | error failure => simp [off, bind, Except.bind]
    | ok variants => simp [off, bind, Except.bind, storeVectorsNone, pure, Except.pure]

theorem enrichNone (db : Db) : enrichWith .none host env e d temporal db = enrich host env e d temporal db := by
  unfold enrichWith enrich
  by_cases off : env.vectorDisabled
  · simp [off, insertNuggets]
  · simp [off]

theorem createNone (db : Db) :
    createObservationWith .none host env e d temporal db = createObservation host env e d temporal db := by
  have provenance : ∀ db, provenanceWith .none host env e d db = storeProvenance host env e d db := by
    intro db
    unfold provenanceWith storeProvenance
    split <;> simp [*]
  unfold createObservationWith createObservation
  simp only [Faults.noneRun, embedNone, enrichNone, provenance]
  rfl

-- Without failures this is the call as it stands.
theorem transactionNone (db : Db) :
    transactionWith .none host env e d temporal db = transaction host env e d temporal db := by
  unfold transactionWith transaction storeWith
  simp only [Faults.noneRun, createNone]
  by_cases used : (ensureSession env e d db).events.any (taken d)
  · simp [used, bind, Except.bind, pure, Except.pure]
  · simp only [used]
    cases existingObservation d (insertEvent env e d (ensureSession env e d db)) with
    | some id => rfl
    | none => cases createObservation host env e d temporal (insertEvent env e d (ensureSession env e d db)) <;> rfl

theorem gateNone (db : Db) : gateWith .none host env e d db = gate host env e d db := by
  have verdict : evaluateGateWith .none env d db = evaluateGate env d db := by
    unfold evaluateGateWith evaluateGate
    rcases closureCheckL1 env d.redactedContent with ⟨none | refused, tag⟩
    · simp [Faults.none]
    · rfl
  unfold gateWith gate
  rw [verdict]
  rfl

theorem writeNone (allowQueue : Bool) (db : Db) :
    writeWith .none host env e d temporal db allowQueue = write host env allowQueue e d temporal db := by
  unfold writeWith write
  rw [transactionNone]
  cases transaction host env e d temporal db with
  | ok stored => rfl
  | error message => cases allowQueue <;> rfl

theorem recordNone (allowQueue : Bool) (db : Db) :
    recordEventWith .none host env allowQueue e db = recordEvent host env allowQueue e db := by
  unfold recordEventWith recordEvent recordChecked
  simp only [gateNone, writeNone, Faults.noneCaught]
  all_goals rfl
end

-- A computation ends well when its first part does and what follows does too.
theorem okBind {α β : Type} {first : Except String α} {next : α → Except String β} :
    (∃ result, (first >>= next) = .ok result) ↔ ∃ value, first = .ok value ∧ ∃ result, next value = .ok result := by
  constructor
  · rintro ⟨result, ok⟩
    obtain ⟨value, held, rest⟩ := Js.bindOk ok
    exact ⟨value, held, result, rest⟩
  · rintro ⟨value, held, result, rest⟩
    exact ⟨result, by rw [held]; exact rest⟩

-- What stops the vectors: the embedding, or the first row that cannot be written.
def vectorFailure (faults : Faults) (env : Ambient) (content : String) : Option EmbeddingFailure :=
  if env.vectorDisabled then none
  else match vectorVariants env content with
    | .error failure => some failure
    | .ok variants => (List.range variants.length).findSome? (fun n => faults.statement (.vector n))

-- The unique index on live hashes stands against the row: another live row has the hash, and
-- the row's own, if it is there already, is live as well.
def Claimed (d : Draft) (rows : List Observation) : Prop :=
  d.contentDedupeHash.isSome = true ∧
    (∃ other ∈ rows, other.id ≠ d.observationId ∧ other.live = true ∧ other.contentDedupeHash = d.contentDedupeHash) ∧
    ∀ own, rows.find? (fun old => old.id = d.observationId) = some own → own.live = true

section
variable (faults : Faults) (host : Host) (env : Ambient) (e : EventEnvelope) (d : Draft) (db : Db)

structure Creates (rows : List Observation) : Prop where
  expiry : ∃ expiresAt, normalizeExpiresAt host e.expiresAt = .ok expiresAt
  unclaimed : ¬ Claimed d rows
  statements : faults.Clear (.observation :: tagStatements d)
  embedded : ∀ failure, vectorFailure faults env (d.rawText.getD d.redactedContent) = some failure →
    e.eventType = "checkpoint" ∧ isRetryableWriteEmbeddingFailure host failure = true
  filtered : isPrivateTag d.privacyTags = true → faults.Clear [.privacyFilter]

def Stores : Prop :=
  faults.Clear (lookup d) ∧
    ((existingObservation d db).isSome = true ∧ faults.Clear [.relink] ∨
      existingObservation d db = none ∧ Creates faults host env e d db.observations)

-- When the transaction goes through, said of the tables before the call.
def Commits : Prop :=
  faults.Clear [.begin, .session, .event, .commit] ∧
    (db.events.any (taken d) = true ∨ Stores faults host env e d db)
end

section
variable {faults : Faults} {host : Host} {env : Ambient} {e : EventEnvelope} {d : Draft}

theorem storeVectorsFailure (n : Nat) (rows stored : List Vector) :
    (storeVectors faults n rows stored).2 =
      (List.range' n rows.length).findSome? (fun n => faults.statement (.vector n)) := by
  induction rows generalizing n stored with
  | nil => rfl
  | cons row rest ih =>
    rw [storeVectors, List.length_cons, List.range'_succ, List.findSome?_cons]
    cases faults.statement (.vector n) with
    | none => exact ih (n + 1) (upsertVectorRow stored row)
    | some failure => rfl

theorem upsertVectorFailure (db : Db) (observationId content createdAt : String) :
    (upsertVectorWith faults env db observationId content createdAt).2 = vectorFailure faults env content := by
  unfold upsertVectorWith vectorFailure
  split
  · rfl
  · cases vectorVariants env content with
    | error failure => rfl
    | ok variants =>
      simp only
      rw [storeVectorsFailure, List.length_map, List.range_eq_range']

theorem embedOk (db : Db) :
    (∃ result, embedWith faults host env e d db = .ok result) ↔
      ∀ failure, vectorFailure faults env (d.rawText.getD d.redactedContent) = some failure →
        e.eventType = "checkpoint" ∧ isRetryableWriteEmbeddingFailure host failure = true := by
  unfold embedWith
  simp only [upsertVectorFailure]
  cases vectorFailure faults env (d.rawText.getD d.redactedContent) with
  | none => simp
  | some failure =>
    by_cases swallowed : e.eventType = "checkpoint" ∧ isRetryableWriteEmbeddingFailure host failure = true
    · simp [swallowed]
    · simp [swallowed]

theorem upsertOk (temporal : Temporal) (expiresAt : Option String) (rows : List Observation) :
    (∃ after, upsertObservation (observationRow env e d temporal expiresAt) rows = .ok after) ↔ ¬ Claimed d rows := by
  have held : hashTaken (observationRow env e d temporal expiresAt) rows = true ↔ d.contentDedupeHash.isSome = true ∧
      ∃ other ∈ rows, other.id ≠ d.observationId ∧ other.live = true ∧ other.contentDedupeHash = d.contentDedupeHash := by
    simp only [hashTaken, Bool.and_eq_true, List.any_eq_true, decide_eq_true_eq, ne_eq, and_assoc]
    exact Iff.rfl
  unfold Claimed
  rw [← and_assoc, ← held]
  unfold upsertObservation
  have own : (observationRow env e d temporal expiresAt).id = d.observationId := rfl
  rw [own]
  cases rows.find? (fun old => decide (old.id = d.observationId)) with
  | none => by_cases clash : hashTaken (observationRow env e d temporal expiresAt) rows <;> simp [clash]
  | some old =>
    by_cases clash : hashTaken (observationRow env e d temporal expiresAt) rows
    · cases live : old.live <;> simp [clash, live]
    · simp [clash]

theorem createOk (temporal : Temporal) (db : Db) :
    (∃ result, createObservationWith faults host env e d temporal db = .ok result) ↔
      Creates faults host env e d db.observations := by
  unfold createObservationWith
  simp only [okBind, Faults.runOk, exists_const]
  constructor
  · rintro ⟨expiresAt, expiry, written, rows, free, tagged, embedded, stored, filtered, -⟩
    refine ⟨⟨expiresAt, expiry⟩, (upsertOk temporal expiresAt _).mp ⟨rows, free⟩, ?_, ?_, ?_⟩
    · intro s mem
      rcases List.mem_cons.mp mem with rfl | later
      · exact written _ List.mem_cons_self
      · exact tagged s later
    · exact (embedOk _).mp ⟨embedded, stored⟩
    · intro secret
      simpa [secret] using filtered
  · rintro ⟨⟨expiresAt, expiry⟩, free, statements, embedded, filtered⟩
    obtain ⟨rows, stored⟩ := (upsertOk temporal expiresAt _).mpr free
    obtain ⟨result, embeds⟩ := (embedOk (provenanceWith faults host env e d (storeTags env d "privacy" d.privacyTags
      (storeTags env d "tag" d.tags {db with observations := rows})))).mpr embedded
    refine ⟨expiresAt, expiry, ?_, rows, stored, fun s mem => statements s (List.mem_cons_of_mem _ mem),
      result, embeds, ?_, _, rfl⟩
    · intro s mem
      exact statements s (List.mem_singleton.mp mem ▸ List.mem_cons_self)
    · split
      · exact filtered ‹_›
      · exact fun s mem => nomatch mem

theorem storeOk (temporal : Temporal) (db : Db) :
    (∃ result, storeWith faults host env e d temporal db = .ok result) ↔ Stores faults host env e d db := by
  unfold storeWith Stores
  simp only [okBind, Faults.runOk, exists_const]
  cases found : existingObservation d db with
  | some id => simp [okBind, Faults.runOk, pure, Except.pure]
  | none =>
    rw [← createOk temporal]
    simp [okBind, pure, Except.pure]

theorem storesSame {a b : Db} (observations : b.observations = a.observations) :
    Stores faults host env e d b ↔ Stores faults host env e d a := by
  simp only [Stores, existingObservation, observations]

theorem commitsSame {a b : Db} (events : b.events = a.events) (observations : b.observations = a.observations) :
    Commits faults host env e d b ↔ Commits faults host env e d a := by
  simp only [Commits, events, storesSame observations]

theorem transactionOk (temporal : Temporal) (db : Db) :
    (∃ result, transactionWith faults host env e d temporal db = .ok result) ↔ Commits faults host env e d db := by
  have session := ensureSessionSame env e d db
  rw [← commitsSame session.events session.observations]
  unfold transactionWith Commits
  simp only [okBind, Faults.runOk, exists_const]
  generalize ensureSession env e d db = started
  have inserted : Stores faults host env e d (insertEvent env e d started) ↔ Stores faults host env e d started :=
    storesSame rfl
  have ends : faults.Clear [.begin, .session, .event, .commit] ↔
      faults.Clear [.begin, .session, .event] ∧ faults.Clear [.commit] := by
    simp [Faults.Clear, and_assoc]
  rw [ends, ← inserted, ← storeOk temporal]
  by_cases used : started.events.any (taken d)
  · simp [used, okBind, Faults.runOk, pure, Except.pure]
  · simp only [used, if_false, okBind, Faults.runOk, exists_const, pure, Except.pure, Bool.false_eq_true, false_or]
    constructor
    · rintro ⟨opened, stored, ok, committed, -⟩
      exact ⟨⟨opened, committed⟩, stored, ok⟩
    · rintro ⟨⟨opened, committed⟩, stored, ok⟩
      exact ⟨opened, stored, ok, committed, stored, rfl⟩
end

def Outcome.ok : Outcome → Bool
  | .captureOff | .blocked | .duplicateEvent .. | .duplicateContent .. | .created .. => true
  | .invalid _ | .failClosed _ | .gated _ | .thrown _ | .failed _ => false

-- Every table as before, but for at most one new row of the retry queue.
def Untouched (before after : Db) : Prop :=
  ∃ rows, rows.length ≤ 1 ∧ after = {before with retryQueue := before.retryQueue ++ rows}

def Atomic (before : Db) (result : Db × Outcome) : Prop :=
  result.2.ok = false → Untouched before result.1 ∧ ∀ message, result.2 ≠ .thrown message

theorem untouchedRefl (db : Db) : Untouched db db := ⟨[], by simp⟩

-- The checks that come before anything is written.
structure Admitted (host : Host) (env : Ambient) (e : EventEnvelope) (project : String) : Prop where
  capture : env.captureEnabled = true
  fields : ¬ (e.project = "" ∨ e.sessionId = "" ∨ e.eventType = "" ∨ e.platform = "")
  named : env.normalizeProject e.project = .ok project
  stored : isBlockedTag (normalizeTags host e.privacyTags) = false
  durable : ¬ (env.managedRequired = true ∧ env.managedConnected = false)

section
variable (faults : Faults) (host : Host) (env : Ambient) (e : EventEnvelope) (d : Draft) (db : Db)

-- A private block was cut out, and the audit row about it was written.
def StripLogged : Prop := d.stripped ≠ [] ∧ faults.statement .privacyStrip = none
def Refused : Prop := env.gateEnabled = true ∧ (evaluateGateWith faults env d db).isSome = true
def GateLogged : Prop := Refused faults env d db ∧ faults.statement .gateWarn = none

instance : Decidable (StripLogged faults d) := inferInstanceAs (Decidable (_ ∧ _))
instance : Decidable (Refused faults env d db) := inferInstanceAs (Decidable (_ ∧ _))
instance : Decidable (GateLogged faults env d db) := inferInstanceAs (Decidable (_ ∧ _))

def stripNotes : List String := if StripLogged faults d then ["privacy_strip"] else []
def gateNotes : List String := if GateLogged faults env d db then ["ddouns_gate_warn"] else []

-- The audit rows written before the transaction: a refusal in block mode comes first.
def notes : List String :=
  stripNotes faults d ++ if Refused faults env d db ∧ env.gateMode = .block then [] else gateNotes faults env d db

def Guarded (allowQueue : Bool) : Prop :=
  if Refused faults env d db ∧ env.gateMode = .block then stripNotes faults d = []
  else (∃ temporal, temporalAnchors host e d.timestamp = .ok temporal) ∧
    (Commits faults host env e d db ∨
      stripNotes faults d ++ gateNotes faults env d db = [] ∧ (allowQueue = true → faults.Clear [.enqueue]))
end

-- The audit log gained rows of these actions, and nothing else is new.
def Noted (actions : List String) (before after : Db) : Prop :=
  ∃ rows, rows.map Audit.action = actions ∧ after = {before with auditLog := before.auditLog ++ rows}

theorem notedRefl (db : Db) : Noted [] db db := ⟨[], rfl, by simp⟩

theorem notedTrans {p q : List String} {a b c : Db} (first : Noted p a b) (second : Noted q b c) :
    Noted (p ++ q) a c := by
  obtain ⟨xs, rfl, rfl⟩ := first
  obtain ⟨ys, rfl, rfl⟩ := second
  exact ⟨xs ++ ys, List.map_append, by simp⟩

theorem notedRows {actions : List String} {before after : Db} (noted : Noted actions before after) :
    after.events = before.events ∧ after.observations = before.observations := by
  obtain ⟨rows, -, rfl⟩ := noted
  exact ⟨rfl, rfl⟩

-- The retry row aside, the tables are untouched exactly when no audit row was written.
theorem notedUntouched {actions : List String} {before after : Db} (noted : Noted actions before after)
    (queued : List Retry) (one : queued.length ≤ 1) :
    Untouched before {after with retryQueue := after.retryQueue ++ queued} ↔ actions = [] := by
  obtain ⟨rows, rfl, rfl⟩ := noted
  constructor
  · rintro ⟨others, -, same⟩
    have log : before.auditLog ++ rows = before.auditLog := congrArg Db.auditLog same
    simpa using log
  · intro none
    obtain rfl := List.map_eq_nil_iff.mp none
    exact ⟨queued, one, by simp⟩

section
variable {faults : Faults} {host : Host} {env : Ambient} {e : EventEnvelope} {d : Draft} {db : Db}

variable (faults host env e d db) in
theorem stripNoted : Noted (stripNotes faults d) db (faults.caught .privacyStrip (auditStrip host env e d) db) := by
  unfold stripNotes StripLogged Faults.caught auditStrip
  by_cases written : faults.statement .privacyStrip = none
  · by_cases cut : d.stripped = []
    · simpa [written, cut] using notedRefl db
    · simp only [written, cut, if_true, if_false, ne_eq, not_false_eq_true, and_true]
      exact ⟨[_], rfl, rfl⟩
  · simpa [written] using notedRefl db

theorem evaluateSame {before : Db} (observations : before.observations = db.observations) :
    evaluateGateWith faults env d before = evaluateGateWith faults env d db := by
  unfold evaluateGateWith dedupCheckL1
  rw [observations]

variable (host e) in
theorem gateRefuses (refused : Refused faults env d db) (block : env.gateMode = .block) :
    ∃ reason, gateWith faults host env e d db = .error reason := by
  obtain ⟨on, some⟩ := refused
  obtain ⟨refused, verdict⟩ := Option.isSome_iff_exists.mp some
  exact ⟨refused.1, by simp [gateWith, on, verdict, block]⟩

variable (host e) in
theorem gatePasses (lets : ¬ (Refused faults env d db ∧ env.gateMode = .block)) :
    ∃ after, gateWith faults host env e d db = .ok after ∧ Noted (gateNotes faults env d db) db after := by
  unfold gateWith gateNotes GateLogged
  by_cases on : env.gateEnabled = true
  · cases verdict : evaluateGateWith faults env d db with
    | none => exact ⟨db, by simp [on], by simpa [Refused, verdict] using notedRefl db⟩
    | some refused =>
      have refuses : Refused faults env d db := ⟨on, by simp [verdict]⟩
      have mode : env.gateMode ≠ .block := fun block => lets ⟨refuses, block⟩
      refine ⟨faults.caught .gateWarn (auditGate host env e d refused) db, by simp [on, mode], ?_⟩
      unfold Faults.caught
      by_cases written : faults.statement .gateWarn = none
      · simp only [written, refuses, if_true, and_true]
        exact ⟨[_], rfl, rfl⟩
      · simpa [written] using notedRefl db
  · exact ⟨db, by simp [on], by simpa [Refused, on] using notedRefl db⟩

theorem answerOk (temporal : Temporal) (recorded : Recorded) : (answer env e d temporal recorded).ok = true := by
  cases recorded <;> rfl

-- What the last stage leaves when it does not answer ok.
inductive Wrong (faults : Faults) (env : Ambient) (e : EventEnvelope) (allowQueue : Bool) (passed : Db) :
    Db × Outcome → Prop where
  | queued (on : allowQueue = true) (clear : faults.Clear [.enqueue]) (message : String) :
      Wrong faults env e allowQueue passed (enqueueRetry env e message passed, .failed message)
  | unqueued (off : allowQueue = false) (message : String) :
      Wrong faults env e allowQueue passed (passed, .failed message)
  | thrown (on : allowQueue = true) (stuck : ¬ faults.Clear [.enqueue]) (message : String) :
      Wrong faults env e allowQueue passed (passed, .thrown message)

variable (faults host env e d) in
theorem writeCases (temporal : Temporal) (passed : Db) (allowQueue : Bool) :
    (∃ stored, transactionWith faults host env e d temporal passed = .ok stored ∧
        writeWith faults host env e d temporal passed allowQueue = (stored.1, answer env e d temporal stored.2)) ∨
      (¬ Commits faults host env e d passed ∧
        Wrong faults env e allowQueue passed (writeWith faults host env e d temporal passed allowQueue)) := by
  rw [← transactionOk temporal]
  unfold writeWith
  cases transactionWith faults host env e d temporal passed with
  | ok stored => exact .inl ⟨stored, rfl, rfl⟩
  | error message =>
    refine .inr ⟨by simp, ?_⟩
    cases allowQueue with
    | true =>
      cases failing : faults.statement .enqueue with
      | none => exact .queued rfl (fun s mem => List.mem_singleton.mp mem ▸ failing) message
      | some failure => exact .thrown rfl (fun clear => by simp [clear .enqueue] at failing) failure.message
    | false => exact .unqueued rfl message

theorem writeAtomic {actions : List String} {passed : Db} (noted : Noted actions db passed) (temporal : Temporal)
    (allowQueue : Bool) :
    Atomic db (writeWith faults host env e d temporal passed allowQueue) ↔
      Commits faults host env e d db ∨ actions = [] ∧ (allowQueue = true → faults.Clear [.enqueue]) := by
  rw [← commitsSame (notedRows noted).1 (notedRows noted).2]
  rcases writeCases faults host env e d temporal passed allowQueue with ⟨stored, ok, wrote⟩ | ⟨fails, wrong⟩
  · have fine : (answer env e d temporal stored.2).ok = true := answerOk temporal stored.2
    rw [wrote]
    exact iff_of_true (fun failed => Bool.noConfusion (fine.symm.trans failed)) (.inl ((transactionOk temporal passed).mp ⟨stored, ok⟩))
  simp only [fails, false_or]
  generalize writeWith faults host env e d temporal passed allowQueue = result at wrong
  have kept : ∀ queued : List Retry, queued.length ≤ 1 →
      (Untouched db {passed with retryQueue := passed.retryQueue ++ queued} ↔ actions = []) := notedUntouched noted
  cases wrong with
  | queued on clear message =>
    rw [← kept [_] le_rfl]
    exact ⟨fun atomic => ⟨(atomic rfl).1, fun _ => clear⟩, fun fine _ => ⟨fine.1, by simp⟩⟩
  | unqueued off message =>
    rw [← kept [] (Nat.zero_le 1)]
    simp only [List.append_nil, off, Bool.false_eq_true, false_implies, and_true]
    exact ⟨fun atomic => (atomic rfl).1, fun same _ => ⟨same, by simp⟩⟩
  | thrown on stuck message =>
    exact iff_of_false (fun atomic => (atomic rfl).2 message rfl) (fun fine => stuck (fine.2 on))

variable (faults host env e d db) in
-- How a call that passed the first checks ends: at the gate, at the dates, or in the write.
theorem checkedCases (allowQueue : Bool) :
    ((Refused faults env d db ∧ env.gateMode = .block) ∧ ∃ after reason, Noted (stripNotes faults d) db after ∧
        recordChecked faults host env e d db allowQueue = (after, .gated reason)) ∨
      (¬ (Refused faults env d db ∧ env.gateMode = .block) ∧
        ∃ passed, Noted (stripNotes faults d ++ gateNotes faults env d db) db passed ∧
          ((∃ message, temporalAnchors host e d.timestamp = .error message ∧
              recordChecked faults host env e d db allowQueue = (passed, .thrown message)) ∨
            ∃ temporal, temporalAnchors host e d.timestamp = .ok temporal ∧
              recordChecked faults host env e d db allowQueue = writeWith faults host env e d temporal passed allowQueue)) := by
  have stripped : Noted _ db _ := stripNoted faults host env e d db
  unfold recordChecked
  generalize faults.caught .privacyStrip (auditStrip host env e d) db = after at stripped
  have sameVerdict : evaluateGateWith faults env d after = evaluateGateWith faults env d db :=
    evaluateSame (notedRows stripped).2
  have sameRefusal : Refused faults env d after ↔ Refused faults env d db := by rw [Refused, Refused, sameVerdict]
  have sameNotes : gateNotes faults env d after = gateNotes faults env d db :=
    if_congr (and_congr_left' sameRefusal) rfl rfl
  simp only
  by_cases refused : Refused faults env d db ∧ env.gateMode = .block
  · obtain ⟨reason, gated⟩ := gateRefuses host e (sameRefusal.mpr refused.1) refused.2
    exact .inl ⟨refused, after, reason, stripped, by rw [gated]⟩
  · obtain ⟨passed, gated, noted⟩ := gatePasses host e (fun block => refused (block.imp_left sameRefusal.mp))
    refine .inr ⟨refused, passed, sameNotes ▸ notedTrans stripped noted, ?_⟩
    rw [gated]
    cases temporalAnchors host e d.timestamp with
    | error message => exact .inl ⟨message, rfl, rfl⟩
    | ok temporal => exact .inr ⟨temporal, rfl, rfl⟩

theorem checkedAtomic (allowQueue : Bool) :
    Atomic db (recordChecked faults host env e d db allowQueue) ↔ Guarded faults host env e d db allowQueue := by
  unfold Guarded
  rcases checkedCases faults host env e d db allowQueue with
    ⟨refused, after, reason, noted, result⟩ | ⟨passes, passed, noted, ⟨message, late, result⟩ | ⟨temporal, anchors, result⟩⟩
  · have kept := notedUntouched noted [] (Nat.zero_le 1)
    rw [List.append_nil] at kept
    rw [result, if_pos refused, ← kept]
    exact ⟨fun atomic => (atomic rfl).1, fun same _ => ⟨same, by simp⟩⟩
  · rw [result, if_neg passes, late]
    exact iff_of_false (fun atomic => (atomic rfl).2 message rfl) (fun fine => by simp at fine)
  · rw [result, if_neg passes, writeAtomic noted, anchors]
    simp only [Except.ok.injEq, exists_eq', true_and]

-- Rows of these actions in the audit log and at most one retry row are all that is new.
def Leaves (actions : List String) (before after : Db) : Prop :=
  ∃ noted queued, noted.map Audit.action = actions ∧ queued.length ≤ 1 ∧
    after = {before with auditLog := before.auditLog ++ noted, retryQueue := before.retryQueue ++ queued}

theorem notedLeaves {actions : List String} {before after : Db} (noted : Noted actions before after) :
    Leaves actions before after := by
  obtain ⟨rows, action, rfl⟩ := noted
  exact ⟨rows, [], action, Nat.zero_le 1, by simp⟩

theorem notedQueues {actions : List String} {before after : Db} (noted : Noted actions before after) (row : Retry) :
    Leaves actions before {after with retryQueue := after.retryQueue ++ [row]} := by
  obtain ⟨rows, action, rfl⟩ := noted
  exact ⟨rows, [row], action, le_rfl, rfl⟩

theorem checkedLeaves {allowQueue : Bool} (failed : (recordChecked faults host env e d db allowQueue).2.ok = false) :
    Leaves (notes faults env d db) db (recordChecked faults host env e d db allowQueue).1 ∧
      ∀ message, (recordChecked faults host env e d db allowQueue).2 = .thrown message →
        temporalAnchors host e d.timestamp = .error message ∨ ¬ faults.Clear [.enqueue] := by
  unfold notes
  rcases checkedCases faults host env e d db allowQueue with
    ⟨refused, after, reason, noted, result⟩ | ⟨passes, passed, noted, ⟨message, late, result⟩ | ⟨temporal, -, result⟩⟩
  · rw [result, if_pos refused, List.append_nil]
    exact ⟨notedLeaves noted, by simp⟩
  · rw [result, if_neg passes]
    exact ⟨notedLeaves noted, fun _ thrown => .inl (Outcome.thrown.inj thrown ▸ late)⟩
  · rw [result] at failed ⊢
    rw [if_neg passes]
    rcases writeCases faults host env e d temporal passed allowQueue with ⟨stored, -, wrote⟩ | ⟨-, wrong⟩
    · have fine : (answer env e d temporal stored.2).ok = true := answerOk temporal stored.2
      rw [wrote] at failed
      exact Bool.noConfusion (fine.symm.trans failed)
    generalize writeWith faults host env e d temporal passed allowQueue = left at wrong failed
    cases wrong with
    | queued on clear message => exact ⟨notedQueues noted _, by simp⟩
    | unqueued off message => exact ⟨notedLeaves noted, by simp⟩
    | thrown on stuck message => exact ⟨notedLeaves noted, fun _ _ => .inr stuck⟩

variable (faults host env e db) in
-- A call either ends at the first checks, with nothing written, or gets past them.
theorem recordCases (allowQueue : Bool) :
    ((recordEventWith faults host env allowQueue e db).1 = db ∧
        (∀ message, (recordEventWith faults host env allowQueue e db).2 ≠ .thrown message) ∧
        ((recordEventWith faults host env allowQueue e db).2.ok = true →
          env.captureEnabled = false ∨ isBlockedTag (normalizeTags host e.privacyTags) = true) ∧
        ∀ project, ¬ Admitted host env e project) ∨
      ∃ project, Admitted host env e project ∧ recordEventWith faults host env allowQueue e db =
        recordChecked faults host env e (draft host env e project) db allowQueue := by
  unfold recordEventWith
  by_cases capture : env.captureEnabled = false
  · exact .inl ⟨by simp [capture], by simp [capture], fun _ => .inl capture,
      fun _ admitted => by simp [admitted.capture] at capture⟩
  by_cases fields : e.project = "" ∨ e.sessionId = "" ∨ e.eventType = "" ∨ e.platform = ""
  · exact .inl ⟨by simp [capture, fields], by simp [capture, fields], by simp [capture, fields, Outcome.ok],
      fun _ admitted => admitted.fields fields⟩
  cases named : env.normalizeProject e.project with
  | error message =>
    exact .inl ⟨by simp [capture, fields], by simp [capture, fields], by simp [capture, fields, Outcome.ok],
      fun _ admitted => by simp [admitted.named] at named⟩
  | ok project =>
    by_cases blocked : isBlockedTag (normalizeTags host e.privacyTags) = true
    · have tags : isBlockedTag (draft host env e project).privacyTags = true := blocked
      exact .inl ⟨by simp [capture, fields, tags], by simp [capture, fields, tags], fun _ => .inr blocked,
        fun _ admitted => by simp [admitted.stored] at blocked⟩
    have tags : isBlockedTag (draft host env e project).privacyTags = false := Bool.eq_false_iff.mpr blocked
    by_cases closed : env.managedRequired = true ∧ env.managedConnected = false
    · exact .inl ⟨by simp [capture, fields, tags, closed], by simp [capture, fields, tags, closed],
        by simp [capture, fields, tags, closed, Outcome.ok], fun _ admitted => admitted.durable closed⟩
    · exact .inr ⟨project, ⟨by simpa using capture, fields, named, by simpa using blocked, closed⟩,
        by simp [capture, fields, tags, closed]⟩
end

theorem recordAtomicIff (faults : Faults) (host : Host) (env : Ambient) (allowQueue : Bool) (e : EventEnvelope) (db : Db) :
    Atomic db (recordEventWith faults host env allowQueue e db) ↔
      ∀ project, Admitted host env e project → Guarded faults host env e (draft host env e project) db allowQueue := by
  rcases recordCases faults host env e db allowQueue with
    ⟨same, answered, -, never⟩ | ⟨project, admitted, record⟩
  · exact iff_of_true (fun _ => ⟨same.symm ▸ untouchedRefl db, answered⟩) (fun project admitted => absurd admitted (never project))
  · rw [record, checkedAtomic]
    constructor
    · intro guarded other again
      obtain rfl := Except.ok.inj (admitted.named.symm.trans again.named)
      exact guarded
    · exact fun all => all project admitted

-- What a call that does not answer ok leaves behind: its audit rows, a retry row, and no more.
theorem failureLeaves (faults : Faults) (host : Host) (env : Ambient) (allowQueue : Bool) (e : EventEnvelope) (db : Db)
    (failed : (recordEventWith faults host env allowQueue e db).2.ok = false) :
    (∃ actions, Leaves actions db (recordEventWith faults host env allowQueue e db).1 ∧
        ((∀ project, ¬ Admitted host env e project) → actions = []) ∧
        ∀ project, Admitted host env e project → actions = notes faults env (draft host env e project) db) ∧
      ∀ message, (recordEventWith faults host env allowQueue e db).2 = .thrown message →
        (∃ timestamp, temporalAnchors host e timestamp = .error message) ∨ ¬ faults.Clear [.enqueue] := by
  rcases recordCases faults host env e db allowQueue with
    ⟨same, answered, -, never⟩ | ⟨project, admitted, record⟩
  · refine ⟨⟨[], ?_, fun _ => rfl, fun project admitted => absurd admitted (never project)⟩,
      fun message thrown => absurd thrown (answered message)⟩
    rw [same]
    exact notedLeaves (notedRefl db)
  · rw [record] at failed ⊢
    obtain ⟨left, thrown⟩ := checkedLeaves failed
    refine ⟨⟨_, left, fun none => absurd admitted (none project), fun other again => ?_⟩,
      fun message broke => (thrown message broke).imp_left (fun late => ⟨_, late⟩)⟩
    rw [Except.ok.inj (admitted.named.symm.trans again.named)]

-- A private block is cut out, its audit row is written, and then the session row cannot be.
def privateEvent : EventEnvelope := plainEvent "a" "p" [("content", .str "<private>k</private>a")]
def locked : Faults := .only .session ⟨some "SQLiteError", none, "database is locked", none⟩

theorem failureLeavesOnce :
    (∃ actions, Leaves actions Db.empty (recordEventWith locked plainHost plainAmbient true privateEvent Db.empty).1 ∧
        ((∀ project, ¬ Admitted plainHost plainAmbient privateEvent project) → actions = []) ∧
        ∀ project, Admitted plainHost plainAmbient privateEvent project →
          actions = notes locked plainAmbient (draft plainHost plainAmbient privateEvent project) Db.empty) ∧
      ∀ message, (recordEventWith locked plainHost plainAmbient true privateEvent Db.empty).2 = .thrown message →
        (∃ timestamp, temporalAnchors plainHost privateEvent timestamp = .error message) ∨ ¬ locked.Clear [.enqueue] :=
  failureLeaves locked plainHost plainAmbient true privateEvent Db.empty (by decide)

theorem failureKeepsAuditRow :
    ¬ Atomic Db.empty (recordEventWith locked plainHost plainAmbient true privateEvent Db.empty) := by
  intro atomic
  obtain ⟨⟨rows, -, same⟩, -⟩ := atomic (by decide)
  have log : (recordEventWith locked plainHost plainAmbient true privateEvent Db.empty).1.auditLog = [] :=
    congrArg Db.auditLog same
  have grown : (recordEventWith locked plainHost plainAmbient true privateEvent Db.empty).1.auditLog.length = 1 := by
    decide
  simp [log] at grown

end HarnessMem.Recorder
