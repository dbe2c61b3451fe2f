import HarnessMem.Lib.Runs
import HarnessMem.RecordFaults

/-! The retry queue: events `recordEvent` put aside, and the sweep that tries them again. -/
namespace HarnessMem.RetryQueue
open Js Recorder Text

def entries? : Option Json → Option (List (String × Json))
  | some (.obj entries) => some entries
  | _ => none
def strings : Option Json → List String
  | some (.arr items) => items.filterMap (fun item => Json.text? (some item))
  | _ => []

-- A row's text was printed from an envelope, so each field is absent or of its own type.
def envelopeOf (fields : List (String × Json)) : EventEnvelope where
  eventId := Json.text? (Json.get fields "event_id")
  platform := (Json.text? (Json.get fields "platform")).getD ""
  project := (Json.text? (Json.get fields "project")).getD ""
  sessionId := (Json.text? (Json.get fields "session_id")).getD ""
  eventType := (Json.text? (Json.get fields "event_type")).getD ""
  ts := Json.text? (Json.get fields "ts")
  payload := entries? (Json.get fields "payload")
  metadata := entries? (Json.get fields "metadata")
  tags := strings (Json.get fields "tags")
  privacyTags := strings (Json.get fields "privacy_tags")
  dedupeHash := Json.text? (Json.get fields "dedupe_hash")
  correlationId := Json.text? (Json.get fields "correlation_id")
  userId := Json.text? (Json.get fields "user_id")
  teamId := Json.text? (Json.get fields "team_id")
  threadId := Json.text? (Json.get fields "thread_id")
  topic := Json.text? (Json.get fields "topic")
  expiresAt := Json.get fields "expires_at"
  eventTime := Json.get fields "event_time"
  observedAt := Json.get fields "observed_at"
  validFrom := Json.get fields "valid_from"
  validTo := Json.get fields "valid_to"
  supersedes := Json.get fields "supersedes"
  invalidatedAt := Json.get fields "invalidated_at"
  branch := Json.text? (Json.get fields "branch")

theorem getAppend (a b : List (String × Json)) (key : String) :
    Json.get (a ++ b) key = (Json.get a key).orElse (fun _ => Json.get b key) := by
  unfold Json.get
  rw [List.find?_append]
  cases a.find? (fun entry => entry.1 = key) <;> rfl
theorem getCons (entry : String × Json) (rest : List (String × Json)) (key : String) :
    Json.get (entry :: rest) key = if entry.1 = key then some entry.2 else Json.get rest key := by
  unfold Json.get
  rw [List.find?_cons]
  by_cases same : entry.1 = key <;> simp [same]
theorem getGiven (name : String) (value : Option String) (key : String) :
    Json.get (given name value) key = if name = key then value.map .str else none := by
  cases value with
  | none => simp [given, Json.get]
  | some text => simp [given, Json.get]
theorem getGivenJson (name : String) (value : Option Json) (key : String) :
    Json.get (givenJson name value) key = if name = key then value else none := by
  cases value with
  | none => simp [givenJson, Json.get]
  | some json => simp [givenJson, Json.get]

@[simp] theorem textStr (value : Option String) : Json.text? (value.map .str) = value := by
  cases value <;> rfl
@[simp] theorem textSome (text : String) : Json.text? (some (.str text)) = some text := rfl
@[simp] theorem entriesObj (value : Option (List (String × Json))) : entries? (value.map .obj) = value := by
  cases value <;> rfl
@[simp] theorem stringsTexts (tags : List String) : strings (some (texts tags)) = tags := by
  unfold strings texts
  induction tags with
  | nil => rfl
  | cons tag rest ih => exact congrArg (tag :: ·) ih

def entriesOf (e : EventEnvelope) : List (String × Json) :=
  match envelopeJson e with
  | .obj entries => entries
  | _ => []

-- Reading back what was printed gives the envelope.
theorem envelopeRead (e : EventEnvelope) : envelopeOf (entriesOf e) = e := by
  cases e
  simp [entriesOf, envelopeJson, envelopeOf, getAppend, getCons, getGiven, getGivenJson]

def nullMessage : String := "null is not an object (evaluating 'event.project')"

-- `recordEvent(parsed, { allowQueue: false })`. Only a parsed `null` has no properties to read.
def recordParsed (faults : Faults) (host : Host) (env : Ambient) (parsed : Json) (db : Db) : Db × Outcome :=
  match parsed with
  | .null => if env.captureEnabled = false then (db, .captureOff) else (db, .thrown nullMessage)
  | .obj fields => recordEventWith faults host env false (envelopeOf fields) db
  | _ => recordEventWith faults host env false (envelopeOf []) db

-- One row's turn: what the call reads, which of its statements fail, whether the DELETE or
-- UPDATE that settles the row fails, and the clock after it.
structure Attempt where
  env : Ambient
  faults : Faults
  settling : Option String
  now : Int

structure Sweep where
  shuttingDown : Bool
  force : Bool
  reading : Option String
  now : String
  attempts : Nat → Attempt

inductive Fate where
  | waiting
  | removed
  | postponed (row : Retry)
  | threw
  | unreached
  deriving DecidableEq, Repr

def Fate.left (row : Retry) : Fate → Option Retry
  | .removed => none
  | .postponed row => some row
  | .waiting | .threw | .unreached => some row

def waitSeconds (retryCount : Nat) : Nat := min 300 (2 ^ min retryCount 8)

def postpone (a : Attempt) (row : Retry) : Retry :=
  let retryCount := row.retryCount + 1
  {row with retryCount, nextRetryAt := isoText (a.now + waitSeconds retryCount * 1000), updatedAt := isoText a.now}

def settle (a : Attempt) (fate : Fate) : Fate := if a.settling.isSome then .threw else fate

def threw : Outcome → Bool
  | .thrown _ => true
  | _ => false

def answered (a : Attempt) (row : Retry) (outcome : Outcome) : Fate :=
  if threw outcome then .threw
  else settle a (if outcome.ok then .removed else .postponed (postpone a row))

def turn (host : Host) (a : Attempt) (row : Retry) (db : Db) : Db × Fate :=
  match host.parseJson row.eventJson with
  | none => (db, settle a .removed)
  | some parsed =>
    let recorded := recordParsed a.faults host a.env parsed db
    (recorded.1, answered a row recorded.2)

-- Rows are kept in id order; the first hundred that are due are read.
def select (now : String) : Nat → List Retry → List (Retry × Bool)
  | _, [] => []
  | n, row :: rest =>
    if n < 100 ∧ row.nextRetryAt ≤ now then (row, true) :: select now (n + 1) rest
    else (row, false) :: select now n rest

def abandoned (rows : List (Retry × Bool)) : List (Retry × Fate) :=
  rows.map (fun (row, due) => (row, if due then .unreached else .waiting))

-- The loop over the rows that were read, at their place in the queue. A throw leaves it.
def sweepRows (host : Host) (attempts : Nat → Attempt) : Nat → List (Retry × Bool) → Db → List (Retry × Fate) × Db
  | _, [], db => ([], db)
  | i, (row, false) :: rest, db =>
    let later := sweepRows host attempts (i + 1) rest db
    ((row, .waiting) :: later.1, later.2)
  | i, (row, true) :: rest, db =>
    let tried := turn host (attempts i) row db
    if tried.2 = .threw then ((row, .threw) :: abandoned rest, tried.1)
    else
      let later := sweepRows host attempts (i + 1) rest tried.1
      ((row, tried.2) :: later.1, later.2)

-- A sweep that is off, or that cannot read the queue, does nothing.
def Sweep.idle (s : Sweep) : Bool := (s.shuttingDown && !s.force) || s.reading.isSome

def processRetryQueue (host : Host) (s : Sweep) (db : Db) : List (Retry × Fate) × Db :=
  if s.idle then (db.retryQueue.map (·, .waiting), db)
  else
    let swept := sweepRows host s.attempts 0 (select s.now 0 db.retryQueue) db
    (swept.1, {swept.2 with retryQueue := swept.1.filterMap (fun swept => swept.2.left swept.1)})

inductive Input where
  | record (env : Ambient) (faults : Faults) (allowQueue : Bool) (e : EventEnvelope)
  | sweep (s : Sweep)

def step (host : Host) (db : Db) : Input → Db
  | .record env faults allowQueue e => (recordEventWith faults host env allowQueue e db).1
  | .sweep s => (processRetryQueue host s db).2

-- Which events there are, and what waits in the queue, whatever else changed.
def key (event : Event) : String × String := (event.eventId, event.dedupeHash)
structure Framed (before after : Db) : Prop where
  keys : after.events.map key = before.events.map key
  retryQueue : after.retryQueue = before.retryQueue

theorem framedRefl (db : Db) : Framed db db := ⟨rfl, rfl⟩
theorem framedTrans {a b c : Db} (first : Framed a b) (second : Framed b c) : Framed a c :=
  ⟨second.keys.trans first.keys, second.retryQueue.trans first.retryQueue⟩

theorem attemptFramed {faults : Faults} {s : BestEffort} {whole : Db → Db} {db : Db} (fine : Framed db (whole db)) :
    Framed db (faults.attempt s whole db) := by
  unfold Faults.attempt
  cases failed : faults.step s with
  | none => exact fine
  | some left => exact ⟨by rw [faults.events s left failed], faults.retryQueue s left failed db⟩

section
variable (faults : Faults) (host : Host) (env : Ambient) (e : EventEnvelope) (d : Draft) (temporal : Temporal) (db : Db)

theorem sessionFramed : Framed db (ensureSession env e d db) := by
  unfold ensureSession
  simp only
  split <;> exact ⟨rfl, rfl⟩

theorem provenanceFramed : Framed db (provenanceWith faults host env e d db) := by
  unfold provenanceWith
  split
  · rename_i tool
    refine attemptFramed ?_
    unfold storeProvenance
    rw [if_pos tool]
    split
    · exact framedRefl db
    · refine ⟨Tables.updateColumn key ?_ db.events, rfl⟩
      exact fun _ => rfl
  · exact framedRefl db

theorem vectorFramed (observationId content createdAt : String) :
    Framed db (upsertVectorWith faults env db observationId content createdAt).1 := by
  unfold upsertVectorWith
  split
  · exact framedRefl db
  · split <;> exact ⟨rfl, rfl⟩

theorem autoLinkFramed : Framed db (autoLinkObservation host d.observationId e.sessionId d.timestamp db) := by
  unfold autoLinkObservation
  simp only
  split <;> exact ⟨rfl, rfl⟩

theorem supersedesFramed :
    Framed db (autoSupersedes host env d.observationId d.project d.observationType d.redactedContent d.timestamp db) := by
  unfold autoSupersedes
  simp only
  split <;> exact ⟨rfl, rfl⟩

theorem nuggetsFramed : Framed db (insertNuggets host env d.observationId d.redactedContent d.timestamp db) := by
  unfold insertNuggets
  split
  · exact framedRefl db
  generalize Nuggets.splitIntoNuggets host d.redactedContent = nuggets
  induction nuggets generalizing db with
  | nil => exact framedRefl db
  | cons nugget rest ih =>
    simp only [insertNuggetsFrom]
    split
    · exact ⟨rfl, rfl⟩
    · split
      · exact ⟨(ih _).keys, (ih _).retryQueue⟩
      · exact ⟨rfl, rfl⟩

theorem minedFramed : Framed db (extractAndStoreEntities d.observationId d.redactedContent d.timestamp db) := by
  unfold extractAndStoreEntities
  exact ⟨rfl, rfl⟩

theorem relatedFramed : Framed db
    (extractAndStoreGraphRelations host d.observationId d.redactedContent d.tags d.timestamp temporal db) := by
  unfold extractAndStoreGraphRelations
  exact ⟨rfl, rfl⟩

theorem autoLinkerFramed : Framed db (runAutoLinker host d.observationId e.sessionId d.timestamp db) := by
  unfold runAutoLinker
  exact ⟨rfl, rfl⟩

theorem enrichFramed : Framed db (enrichWith faults host env e d temporal db) := by
  unfold enrichWith
  extract_lets mined related linked updated auto
  have toMined : Framed db mined := attemptFramed (minedFramed d db)
  have toRelated : Framed db related := framedTrans toMined (attemptFramed (relatedFramed host d temporal mined))
  have toLinked : Framed db linked := framedTrans toRelated (attemptFramed (autoLinkFramed host e d related))
  have toUpdated : Framed db updated := framedTrans toLinked (attemptFramed (supersedesFramed host env d linked))
  have toAuto : Framed db auto := by
    by_cases semantic : env.autoLinkSemantic
    · simpa only [auto, semantic, if_true] using framedTrans toUpdated (attemptFramed (autoLinkerFramed host e d updated))
    · simpa only [auto, semantic, Bool.false_eq_true, if_false] using toUpdated
  split
  · exact toAuto
  · exact framedTrans toAuto (attemptFramed (nuggetsFramed host env d auto))

theorem auditFramed : Framed db (auditPrivacy env e d db) := by
  unfold auditPrivacy
  simp only
  split
  · exact ⟨rfl, rfl⟩
  · exact framedRefl db
end

section
variable {faults : Faults} {host : Host} {env : Ambient} {e : EventEnvelope} {d : Draft} {temporal : Temporal} {db : Db}

theorem embedFramed {result : Db × Option String} (ok : embedWith faults host env e d db = .ok result) :
    Framed db result.1 := by
  have stored := vectorFramed faults env db d.observationId (d.rawText.getD d.redactedContent) d.timestamp
  unfold embedWith at ok
  simp only at ok
  split at ok
  · cases ok
    exact stored
  · split at ok
    · cases ok
      exact stored
    · cases ok

theorem createFramed {result : Db × Option String}
    (ok : createObservationWith faults host env e d temporal db = .ok result) : Framed db result.1 := by
  unfold createObservationWith at ok
  obtain ⟨expiresAt, -, ok⟩ := bindOk ok
  obtain ⟨-, -, ok⟩ := bindOk ok
  obtain ⟨observations, -, ok⟩ := bindOk ok
  obtain ⟨-, -, ok⟩ := bindOk ok
  obtain ⟨⟨embedded, warning⟩, written, ok⟩ := bindOk ok
  obtain ⟨-, -, ok⟩ := bindOk ok
  cases ok
  refine framedTrans (framedTrans ?_ (embedFramed written)) (framedTrans (enrichFramed faults host env e d temporal embedded) (auditFramed env e d _))
  exact ⟨(provenanceFramed faults host env e d _).keys, (provenanceFramed faults host env e d _).retryQueue⟩

-- A transaction that goes through leaves its event's id or hash on a row, and no row goes.
theorem transactionRecorded {result : Db × Recorded}
    (ok : transactionWith faults host env e d temporal db = .ok result) :
    result.1.retryQueue = db.retryQueue ∧
      ((db.events.any (taken d) = true ∧ result.1.events.map key = db.events.map key) ∨
        result.1.events.map key = db.events.map key ++ [(d.eventId, d.dedupeHash)]) := by
  have session := sessionFramed env e d db
  have rows := (ensureSessionSame env e d db).events
  unfold transactionWith at ok
  obtain ⟨-, -, ok⟩ := bindOk ok
  generalize ensureSession env e d db = started at ok session rows
  simp only at ok
  split at ok
  · rename_i used
    obtain ⟨stored, done, ok⟩ := bindOk ok
    obtain ⟨-, -, ok⟩ := bindOk ok
    cases ok
    cases done
    exact ⟨session.retryQueue, .inl ⟨rows ▸ used, session.keys⟩⟩
  · obtain ⟨stored, done, ok⟩ := bindOk ok
    obtain ⟨-, -, ok⟩ := bindOk ok
    cases ok
    have inserted : (insertEvent env e d started).events.map key = db.events.map key ++ [(d.eventId, d.dedupeHash)] := by
      rw [← session.keys]
      exact List.map_append
    suffices kept : Framed (insertEvent env e d started) result.1 from
      ⟨kept.retryQueue.trans session.retryQueue, .inr (kept.keys.trans inserted)⟩
    unfold storeWith at done
    obtain ⟨-, -, done⟩ := bindOk done
    split at done
    · obtain ⟨-, -, done⟩ := bindOk done
      cases done
      refine ⟨Tables.updateColumn key ?_ _, rfl⟩
      exact fun _ => rfl
    · obtain ⟨created, made, done⟩ := bindOk done
      cases done
      exact createFramed made

-- The default reading of `observed_at` never throws, so the time of the call does not matter.
theorem anchorsAny {a b : String} {temporal : Temporal} (ok : temporalAnchors host e a = .ok temporal) :
    ∃ other, temporalAnchors host e b = .ok other := by
  unfold temporalAnchors at ok ⊢
  obtain ⟨eventTime, first, ok⟩ := bindOk ok
  obtain ⟨observedAt, second, ok⟩ := bindOk ok
  obtain ⟨validFrom, third, ok⟩ := bindOk ok
  obtain ⟨validTo, fourth, ok⟩ := bindOk ok
  obtain ⟨invalidatedAt, fifth, -⟩ := bindOk ok
  rw [first, second, third, fourth, fifth]
  exact ⟨_, rfl⟩
end

-- The row of an event: it has the event's hash, or the id the call gave it.
def Held (host : Host) (env : Ambient) (e : EventEnvelope) (db : Db) : Prop :=
  ∃ event ∈ db.events,
    event.dedupeHash = dedupeHashOf host e ∨ event.eventId = trim ((truthy e.eventId).getD env.freshId)

-- What `recordEvent` asks of an event before the transaction, whatever the configuration.
structure Sendable (host : Host) (e : EventEnvelope) : Prop where
  stored : isBlockedTag (normalizeTags host e.privacyTags) = false
  dated : ∀ timestamp, ∃ temporal, temporalAnchors host e timestamp = .ok temporal

-- One call, as the queue sees it.
structure Took (host : Host) (env : Ambient) (allowQueue : Bool) (e : EventEnvelope) (before : Db)
    (result : Db × Outcome) : Prop where
  keys : ∀ k ∈ before.events.map key, k ∈ result.1.events.map key
  queue : ∃ rows, result.1.retryQueue = before.retryQueue ++ rows ∧
    ∀ row ∈ rows, allowQueue = true ∧ row.eventJson = Json.stringify (envelopeJson e) ∧ Sendable host e
  recorded : result.2.ok = true → env.captureEnabled = true → Sendable host e → Held host env e result.1
  thrown : ∀ message, result.2 = .thrown message → allowQueue = true ∨ ¬ Sendable host e

theorem heldKeys {host : Host} {env : Ambient} {e : EventEnvelope} {a b : Db}
    (keys : ∀ k ∈ a.events.map key, k ∈ b.events.map key) (recorded : Held host env e a) : Held host env e b := by
  obtain ⟨event, mem, same⟩ := recorded
  obtain ⟨other, held, eq⟩ := List.mem_map.mp (keys _ (List.mem_map_of_mem mem))
  obtain ⟨id, hash⟩ := Prod.mk.inj eq
  exact ⟨other, held, same.imp hash.trans id.trans⟩

theorem transactionTook {faults : Faults} {host : Host} {env : Ambient} {e : EventEnvelope} {project : String}
    {temporal : Temporal} {db : Db} {result : Db × Recorded}
    (ok : transactionWith faults host env e (draft host env e project) temporal db = .ok result) :
    (∀ k ∈ db.events.map key, k ∈ result.1.events.map key) ∧ result.1.retryQueue = db.retryQueue ∧
      Held host env e result.1 := by
  obtain ⟨queue, ⟨used, keys⟩ | keys⟩ := transactionRecorded ok
  · have kept : ∀ k ∈ db.events.map key, k ∈ result.1.events.map key := fun k mem => keys ▸ mem
    refine ⟨kept, queue, heldKeys kept ?_⟩
    obtain ⟨event, mem, same⟩ := List.any_eq_true.mp used
    have same : event.eventId = (draft host env e project).eventId ∨ event.dedupeHash = (draft host env e project).dedupeHash := by
      simpa [taken] using same
    exact ⟨event, mem, same.symm⟩
  · refine ⟨fun k mem => keys ▸ List.mem_append_left _ mem, queue, ?_⟩
    obtain ⟨event, mem, same⟩ := List.mem_map.mp (keys ▸ List.mem_append_right _ List.mem_cons_self)
    exact ⟨event, mem, .inl (Prod.mk.inj same).2⟩

theorem tookAfter {host : Host} {env : Ambient} {allowQueue : Bool} {e : EventEnvelope} {actions : List String}
    {before passed : Db} {result : Db × Outcome} (noted : Noted actions before passed)
    (took : Took host env allowQueue e passed result) : Took host env allowQueue e before result := by
  obtain ⟨rows, -, rfl⟩ := noted
  exact ⟨took.keys, took.queue, took.recorded, took.thrown⟩

theorem writeTook {faults : Faults} {host : Host} {env : Ambient} {e : EventEnvelope} {project : String}
    {temporal : Temporal} {passed : Db} (allowQueue : Bool) (sendable : Sendable host e) :
    Took host env allowQueue e passed (writeWith faults host env e (draft host env e project) temporal passed allowQueue) := by
  rcases writeCases faults host env e (draft host env e project) temporal passed allowQueue with
    ⟨stored, ok, wrote⟩ | ⟨-, wrong⟩
  · obtain ⟨keys, queue, held⟩ := transactionTook ok
    rw [wrote]
    refine ⟨keys, ⟨[], by simpa using queue, by simp⟩, fun _ _ _ => held, fun message thrown => ?_⟩
    have refused : (answer env e (draft host env e project) temporal stored.2).ok = false := congrArg Outcome.ok thrown
    exact Bool.noConfusion ((answerOk temporal stored.2).symm.trans refused)
  · generalize writeWith faults host env e (draft host env e project) temporal passed allowQueue = result at wrong
    cases wrong with
    | queued on clear message =>
      exact ⟨fun _ mem => mem, ⟨[_], rfl, fun row mem => List.mem_singleton.mp mem ▸ ⟨on, rfl, sendable⟩⟩,
        by simp [Outcome.ok], by simp⟩
    | unqueued off message => exact ⟨fun _ mem => mem, ⟨[], by simp, by simp⟩, by simp [Outcome.ok], by simp⟩
    | thrown on stuck message => exact ⟨fun _ mem => mem, ⟨[], by simp, by simp⟩, by simp [Outcome.ok], fun _ _ => .inl on⟩

theorem recordTook (faults : Faults) (host : Host) (env : Ambient) (allowQueue : Bool) (e : EventEnvelope) (db : Db) :
    Took host env allowQueue e db (recordEventWith faults host env allowQueue e db) := by
  rcases recordCases faults host env e db allowQueue with ⟨same, answered, fine, -⟩ | ⟨project, admitted, record⟩
  · refine ⟨fun k mem => by rwa [same], ⟨[], by simp [same], by simp⟩, fun ok capture sendable => ?_,
      fun message thrown => absurd thrown (answered message)⟩
    rcases fine ok with off | blocked
    · exact Bool.noConfusion (capture.symm.trans off)
    · exact Bool.noConfusion (blocked.symm.trans sendable.stored)
  rw [record]
  rcases checkedCases faults host env e (draft host env e project) db allowQueue with
    ⟨-, after, reason, noted, result⟩ | ⟨-, passed, noted, ⟨message, late, result⟩ | ⟨temporal, anchors, result⟩⟩
  · rw [result]
    exact tookAfter noted ⟨fun _ mem => mem, ⟨[], by simp, by simp⟩, by simp [Outcome.ok], by simp⟩
  · rw [result]
    refine tookAfter noted ⟨fun _ mem => mem, ⟨[], by simp, by simp⟩, by simp [Outcome.ok], fun _ _ => .inr (fun sendable => ?_)⟩
    obtain ⟨temporal, anchors⟩ := sendable.dated (draft host env e project).timestamp
    rw [late] at anchors
    cases anchors
  · rw [result]
    exact tookAfter noted (writeTook allowQueue ⟨admitted.stored, fun _ => anchorsAny anchors⟩)

-- A row that cannot be read, or that was printed from an event the call accepts.
def Queued (host : Host) (row : Retry) : Prop :=
  host.parseJson row.eventJson = none ∨
    ∃ e, host.parseJson row.eventJson = some (.obj (entriesOf e)) ∧ Sendable host e

-- What a removed row was: unreadable, or an event that has its row.
def Done (host : Host) (env : Ambient) (row : Retry) (db : Db) : Prop :=
  host.parseJson row.eventJson = none ∨
    ∃ fields, host.parseJson row.eventJson = some (.obj fields) ∧ Held host env (envelopeOf fields) db

-- The configuration lets the row be stored, or it already is.
def Open (host : Host) (env : Ambient) (row : Retry) (db : Db) : Prop :=
  env.captureEnabled = true ∨ Done host env row db

theorem doneKeys {host : Host} {env : Ambient} {row : Retry} {a b : Db}
    (keys : ∀ k ∈ a.events.map key, k ∈ b.events.map key) (done : Done host env row a) : Done host env row b :=
  done.imp_right (fun ⟨fields, parsed, held⟩ => ⟨fields, parsed, heldKeys keys held⟩)

theorem settleCases (a : Attempt) (fate : Fate) :
    (settle a fate = fate ∧ a.settling = none) ∨ (settle a fate = .threw ∧ a.settling ≠ none) := by
  unfold settle
  cases failing : a.settling <;> simp

theorem answeredCases (a : Attempt) (row : Retry) (outcome : Outcome) :
    (answered a row outcome = .threw ∧ (a.settling ≠ none ∨ ∃ message, outcome = .thrown message)) ∨
      (answered a row outcome = .removed ∧ outcome.ok = true) ∨ answered a row outcome = .postponed (postpone a row) := by
  unfold answered
  cases broke : threw outcome with
  | true =>
    refine .inl ⟨rfl, .inr ?_⟩
    cases outcome <;> simp_all [threw]
  | false =>
    rcases settleCases a (if outcome.ok then .removed else .postponed (postpone a row)) with ⟨same, -⟩ | ⟨same, failed⟩
    · simp only [same, Bool.false_eq_true, if_false]
      cases fine : outcome.ok with
      | true => exact .inr (.inl ⟨rfl, rfl⟩)
      | false => exact .inr (.inr rfl)
    · exact .inl ⟨by simpa using same, .inl failed⟩

-- One row's turn keeps the events, leaves the queue alone, and removes only what is done.
theorem turnSpec (host : Host) (a : Attempt) {row : Retry} (queued : Queued host row) (db : Db) :
    (∀ k ∈ db.events.map key, k ∈ (turn host a row db).1.events.map key) ∧
      (turn host a row db).1.retryQueue = db.retryQueue ∧
      (Open host a.env row db → (turn host a row db).2 = .removed → Done host a.env row (turn host a row db).1) ∧
      ((turn host a row db).2 = .threw → a.settling ≠ none) ∧ (turn host a row db).2 ≠ .unreached := by
  unfold turn
  rcases queued with unread | ⟨e, read, sendable⟩
  · rw [unread]
    rcases settleCases a .removed with ⟨same, fine⟩ | ⟨same, failed⟩
    · exact ⟨fun _ mem => mem, rfl, fun _ _ => .inl unread, by simp [same], by simp [same]⟩
    · exact ⟨fun _ mem => mem, rfl, fun _ _ => .inl unread, fun _ => failed, by simp [same]⟩
  · rw [read]
    have took := recordTook a.faults host a.env false e db
    have same : recordParsed a.faults host a.env (.obj (entriesOf e)) db = recordEventWith a.faults host a.env false e db := by
      rw [recordParsed, envelopeRead]
    simp only [same]
    generalize recordEventWith a.faults host a.env false e db = result at took
    obtain ⟨rows, queue, none⟩ := took.queue
    have quiet : rows = [] := List.eq_nil_iff_forall_not_mem.mpr (fun row mem => Bool.noConfusion (none row mem).1)
    refine ⟨took.keys, by rw [queue, quiet, List.append_nil], ?_⟩
    rcases answeredCases a row result.2 with ⟨fate, why⟩ | ⟨fate, fine⟩ | fate
    · refine ⟨by simp [fate], fun _ => why.resolve_right ?_, by simp [fate]⟩
      rintro ⟨message, thrown⟩
      rcases took.thrown message thrown with on | refused
      · cases on
      · exact refused sendable
    · refine ⟨fun allowed _ => ?_, by simp [fate], by simp [fate]⟩
      rcases allowed with capture | done
      · exact .inr ⟨entriesOf e, read, (envelopeRead e).symm ▸ took.recorded fine capture sendable⟩
      · exact doneKeys took.keys done
    · exact ⟨by simp [fate], by simp [fate], by simp [fate]⟩

theorem turnLeft {host : Host} {a : Attempt} {row kept : Retry} {db : Db}
    (left : (turn host a row db).2.left row = some kept) : kept.eventJson = row.eventJson := by
  have sameRow : ∀ fate : Fate, (∀ new, fate = .postponed new → new.eventJson = row.eventJson) →
      fate.left row = some kept → kept.eventJson = row.eventJson := by
    intro fate same found
    cases fate with
    | removed => cases found
    | postponed new =>
      obtain rfl := Option.some.inj found
      exact same new rfl
    | _ => exact Option.some.inj found ▸ rfl
  refine sameRow _ (fun new postponed => ?_) left
  unfold turn at postponed
  split at postponed
  · rcases settleCases a .removed with ⟨same, -⟩ | ⟨same, -⟩ <;> simp [same] at postponed
  · rename_i parsed read
    rcases answeredCases a row (recordParsed a.faults host a.env parsed db).2 with ⟨fate, -⟩ | ⟨fate, -⟩ | fate <;>
      simp only [fate, reduceCtorEq] at postponed
    obtain rfl := Fate.postponed.inj postponed
    rfl

-- Every row of the sweep is an old one, with its text; no event is lost and the queue waits.
structure Frame (rows : List (Retry × Bool)) (before : Db) (result : List (Retry × Fate) × Db) : Prop where
  rows : result.1.map Prod.fst = rows.map Prod.fst
  keys : ∀ k ∈ before.events.map key, k ∈ result.2.events.map key
  queue : result.2.retryQueue = before.retryQueue
  texts : ∀ swept ∈ result.1, ∀ kept, swept.2.left swept.1 = some kept → kept.eventJson = swept.1.eventJson

theorem sweepFrame (host : Host) (attempts : Nat → Attempt) {rows : List (Retry × Bool)}
    (queued : ∀ chosen ∈ rows, Queued host chosen.1) (i : Nat) (db : Db) :
    Frame rows db (sweepRows host attempts i rows db) := by
  induction rows generalizing i db with
  | nil => exact ⟨rfl, fun _ mem => mem, rfl, by simp [sweepRows]⟩
  | cons chosen rest ih =>
    obtain ⟨row, due⟩ := chosen
    have restQueued : ∀ chosen ∈ rest, Queued host chosen.1 := fun chosen mem => queued chosen (List.mem_cons_of_mem _ mem)
    cases due with
    | false =>
      have later := ih restQueued (i + 1) db
      refine ⟨by simp [sweepRows, later.rows], later.keys, later.queue, ?_⟩
      rintro swept (_ | ⟨_, mem⟩) kept left
      · exact Option.some.inj left ▸ rfl
      · exact later.texts swept mem kept left
    | true =>
      obtain ⟨keys, queue, -⟩ := turnSpec host (attempts i) (queued (row, true) List.mem_cons_self) db
      unfold sweepRows
      by_cases threw : (turn host (attempts i) row db).2 = .threw
      · simp only [threw, if_true]
        refine ⟨by simp [abandoned], keys, queue, ?_⟩
        rintro swept (_ | ⟨_, mem⟩) kept left
        · exact Option.some.inj left ▸ rfl
        · obtain ⟨⟨other, chosen⟩, -, rfl⟩ := List.mem_map.mp mem
          cases chosen <;> exact Option.some.inj left ▸ rfl
      · have later := ih restQueued (i + 1) (turn host (attempts i) row db).1
        simp only [threw, if_false]
        refine ⟨by simp [later.rows], fun k mem => later.keys k (keys k mem), later.queue.trans queue, ?_⟩
        rintro swept (_ | ⟨_, mem⟩) kept left
        · exact turnLeft left
        · exact later.texts swept mem kept left

-- The row's surroundings let it be stored, and its DELETE or UPDATE works unless no row is after it.
def Works (host : Host) (attempts : Nat → Attempt) (i : Nat) (rows : List (Retry × Bool)) (db : Db) : Prop :=
  ∀ j row, rows[j]? = some (row, true) → Open host (attempts (i + j)).env row db ∧
    ((attempts (i + j)).settling = none ∨ ∀ k later, j < k → rows[k]? ≠ some (later, true))

structure Swept (host : Host) (attempts : Nat → Attempt) (i : Nat) (result : List (Retry × Fate) × Db) : Prop where
  done : ∀ (j : Nat) (row : Retry), result.1[j]? = some (row, .removed) → Done host (attempts (i + j)).env row result.2
  reached : ∀ (j : Nat) (row : Retry), result.1[j]? ≠ some (row, .unreached)

theorem openKeys {host : Host} {env : Ambient} {row : Retry} {a b : Db}
    (keys : ∀ k ∈ a.events.map key, k ∈ b.events.map key) (allowed : Open host env row a) : Open host env row b :=
  allowed.imp_right (doneKeys keys)

theorem worksRest {host : Host} {attempts : Nat → Attempt} {i : Nat} {chosen : Retry × Bool} {rest : List (Retry × Bool)}
    {a b : Db} (keys : ∀ k ∈ a.events.map key, k ∈ b.events.map key) (works : Works host attempts i (chosen :: rest) a) :
    Works host attempts (i + 1) rest b := by
  intro j row due
  obtain ⟨allowed, settles⟩ := works (j + 1) row due
  rw [show i + 1 + j = i + (j + 1) by omega]
  exact ⟨openKeys keys allowed, settles.imp_right (fun last k later after => last (k + 1) later (by omega))⟩

theorem sweptCons {host : Host} {attempts : Nat → Attempt} {i : Nat} {row : Retry} {fate : Fate}
    {later : List (Retry × Fate) × Db} (here : fate = .removed → Done host (attempts i).env row later.2)
    (reached : fate ≠ .unreached) (rest : Swept host attempts (i + 1) later) :
    Swept host attempts i ((row, fate) :: later.1, later.2) where
  done j other found := by
    cases j with
    | zero =>
      obtain ⟨rfl, rfl⟩ := Prod.mk.inj (Option.some.inj found)
      exact here rfl
    | succ j =>
      have done := rest.done j other found
      rwa [show i + 1 + j = i + (j + 1) by omega] at done
  reached j other found := by
    cases j with
    | zero => exact reached (Prod.mk.inj (Option.some.inj found)).2
    | succ j => exact rest.reached j other found

-- Rows left behind by a throw are all waiting when none of them was due.
theorem abandonedSwept {host : Host} {attempts : Nat → Attempt} {i : Nat} {rest : List (Retry × Bool)} {db : Db}
    (none : ∀ (k : Nat) (later : Retry), rest[k]? ≠ some (later, true)) : Swept host attempts i (abandoned rest, db) := by
  have waits : ∀ (j : Nat) (row : Retry) (fate : Fate), (abandoned rest)[j]? = some (row, fate) → fate = .waiting := by
    intro j row fate found
    rw [abandoned, List.getElem?_map, Option.map_eq_some_iff] at found
    obtain ⟨⟨other, due⟩, chosen, same⟩ := found
    obtain ⟨-, rfl⟩ := Prod.mk.inj same
    cases due with
    | false => rfl
    | true => exact absurd chosen (none j other)
  constructor
  · exact fun j row found => nomatch waits j row _ found
  · exact fun j row found => nomatch waits j row _ found

theorem sweptRows {host : Host} {attempts : Nat → Attempt} {rows : List (Retry × Bool)}
    (queued : ∀ chosen ∈ rows, Queued host chosen.1) {i : Nat} {db : Db} (works : Works host attempts i rows db) :
    Swept host attempts i (sweepRows host attempts i rows db) := by
  induction rows generalizing i db with
  | nil => exact ⟨by simp [sweepRows], by simp [sweepRows]⟩
  | cons chosen rest ih =>
    obtain ⟨row, due⟩ := chosen
    have restQueued : ∀ chosen ∈ rest, Queued host chosen.1 := fun chosen mem => queued chosen (List.mem_cons_of_mem _ mem)
    cases due with
    | false =>
      unfold sweepRows
      exact sweptCons (by simp) (by simp) (ih restQueued (worksRest (fun _ mem => mem) works))
    | true =>
      obtain ⟨keys, -, done, failed, reached⟩ := turnSpec host (attempts i) (queued (row, true) List.mem_cons_self) db
      obtain ⟨allowed, settles⟩ := works 0 row rfl
      have removed := done allowed
      unfold sweepRows
      by_cases threw : (turn host (attempts i) row db).2 = .threw
      · -- Only the last row that is due may throw, so no row goes without its turn.
        have last := settles.resolve_left (failed threw)
        simp only [threw, if_true]
        refine sweptCons (by simp) (by simp) (abandonedSwept (fun k later => ?_))
        exact last (k + 1) later (Nat.zero_lt_succ k)
      · have later := ih restQueued (worksRest keys works)
        have frame := sweepFrame host attempts restQueued (i + 1) (turn host (attempts i) row db).1
        simp only [threw, if_false]
        exact sweptCons (fun fate => doneKeys frame.keys (removed fate)) reached later

theorem selectRows (now : String) (n : Nat) (rows : List Retry) : (select now n rows).map Prod.fst = rows := by
  induction rows generalizing n with
  | nil => rfl
  | cons row rest ih =>
    unfold select
    split
    · simp [ih]
    · simp [ih]

theorem queuedText {host : Host} {a b : Retry} (same : b.eventJson = a.eventJson) (queued : Queued host a) :
    Queued host b := by
  unfold Queued
  rwa [same]

def AllQueued (host : Host) (db : Db) : Prop := ∀ row ∈ db.retryQueue, Queued host row

-- `JSON.parse` reads back the text an event was stored as.
def Reads (host : Host) : Input → Prop
  | .record _ _ _ e => host.parseJson (Json.stringify (envelopeJson e)) = some (envelopeJson e)
  | .sweep _ => True

def Working (host : Host) (db : Db) : Input → Prop
  | .record .. => True
  | .sweep s => Works host s.attempts 0 (select s.now 0 db.retryQueue) db

-- Recording keeps every waiting row; a sweep accounts for each, removes only what is done, and
-- leaves no due row without its turn.
def Safe (host : Host) (db : Db) : Input → Prop
  | .record env faults allowQueue e => db.retryQueue <+: (recordEventWith faults host env allowQueue e db).1.retryQueue
  | .sweep s =>
    (processRetryQueue host s db).1.map Prod.fst = db.retryQueue ∧
      (processRetryQueue host s db).2.retryQueue =
        (processRetryQueue host s db).1.filterMap (fun swept => swept.2.left swept.1) ∧
      Swept host s.attempts 0 (processRetryQueue host s db)

theorem chosenQueued {host : Host} {db : Db} (queued : AllQueued host db) (now : String) (n : Nat) :
    ∀ chosen ∈ select now n db.retryQueue, Queued host chosen.1 := by
  intro chosen mem
  have row := List.mem_map_of_mem (f := Prod.fst) mem
  rw [selectRows] at row
  exact queued chosen.1 row

theorem stepQueued (host : Host) (db : Db) (i : Input) (reads : Reads host i) (queued : AllQueued host db) :
    AllQueued host (step host db i) := by
  cases i with
  | record env faults allowQueue e =>
    obtain ⟨rows, queue, new⟩ := (recordTook faults host env allowQueue e db).queue
    intro row mem
    rw [step, queue] at mem
    rcases List.mem_append.mp mem with old | added
    · exact queued row old
    · obtain ⟨-, text, sendable⟩ := new row added
      exact .inr ⟨e, by rw [text]; exact reads, sendable⟩
  | sweep s =>
    rw [step, processRetryQueue]
    by_cases idle : s.idle = true
    · rwa [if_pos idle]
    · rw [if_neg idle]
      have frame := sweepFrame host s.attempts (chosenQueued queued s.now 0) 0 db
      intro row mem
      obtain ⟨swept, held, left⟩ := List.mem_filterMap.mp mem
      refine queuedText (frame.texts swept held row left) (queued swept.1 ?_)
      rw [← selectRows s.now 0 db.retryQueue, ← frame.rows]
      exact List.mem_map_of_mem held

theorem stepSafe (host : Host) (db : Db) (i : Input) (queued : AllQueued host db) (works : Working host db i) :
    Safe host db i := by
  cases i with
  | record env faults allowQueue e =>
    obtain ⟨rows, queue, -⟩ := (recordTook faults host env allowQueue e db).queue
    exact ⟨rows, queue.symm⟩
  | sweep s =>
    rw [Safe, processRetryQueue]
    by_cases idle : s.idle = true
    · rw [if_pos idle]
      refine ⟨by simp [Function.comp_def], by simp [Fate.left, List.filterMap_map], ?_, ?_⟩ <;> simp
    · rw [if_neg idle]
      have queue := chosenQueued queued s.now 0
      have swept := sweptRows queue works
      exact ⟨(sweepFrame host s.attempts queue 0 db).rows.trans (selectRows _ _ _), rfl, swept.done, swept.reached⟩

theorem queueKept (host : Host) {start : Db} (queued : AllQueued host start) (inputs : List Input)
    (reads : ∀ i ∈ inputs, Reads host i) (works : Runs.Throughout (step host) (Working host) start inputs) :
    Runs.Throughout (step host) (Safe host) start inputs :=
  Runs.throughoutOn (step host) (stepQueued host) (stepSafe host) queued reads works

-- One event that cannot be stored at first, and a host that reads its text back.
def lateEvent : EventEnvelope := plainEvent "a" "p" []
def queueHost : Host := { plainHost with
  parseJson := fun text =>
    if text = Json.stringify (envelopeJson lateEvent) then some (envelopeJson lateEvent) else none }

def setAside : Input := .record plainAmbient locked true lateEvent
def lateSweep (captureEnabled : Bool) (settling : Option String) : Sweep :=
  ⟨false, false, none, "2026-01-01T00:00:15.000Z", fun _ => ⟨{plainAmbient with captureEnabled}, .none, settling, 0⟩⟩

theorem queueKeptOnce :
    Runs.Throughout (step queueHost) (Safe queueHost) Db.empty [setAside, .sweep (lateSweep true none)] := by
  refine queueKept queueHost (fun row mem => absurd mem List.not_mem_nil) _ (fun i mem => ?_)
    ⟨trivial, fun j row _ => ⟨.inl rfl, .inl rfl⟩, trivial⟩
  rcases List.mem_pair.mp mem with rfl | rfl
  · simp only [setAside, Reads, queueHost, if_true]
  · trivial

-- With capture off the row goes without its event; with the DELETE failing the next row waits.
theorem queueLoses :
    ¬ Runs.Throughout (step queueHost) (Safe queueHost) Db.empty [setAside, .sweep (lateSweep false none)] ∧
      ¬ Runs.Throughout (step queueHost) (Safe queueHost) Db.empty
        [setAside, setAside, .sweep (lateSweep true (some "database is locked"))] := by
  constructor
  · rintro ⟨-, ⟨-, -, swept⟩, -⟩
    have removed : (processRetryQueue queueHost (lateSweep false none) (step queueHost Db.empty setAside)).1 =
        [(⟨Json.stringify (envelopeJson lateEvent), "database is locked", 0, plainAmbient.clock 7, plainAmbient.clock 7,
          plainAmbient.clock 7⟩, .removed)] := by
      decide +kernel
    have empty : (processRetryQueue queueHost (lateSweep false none) (step queueHost Db.empty setAside)).2.events = [] := by
      decide +kernel
    rcases swept.done 0 _ (by rw [removed]; rfl) with unread | ⟨fields, -, event, mem, -⟩
    · simp [queueHost] at unread
    · rw [empty] at mem
      cases mem
  · rintro ⟨-, -, ⟨-, -, swept⟩, -⟩
    have second : ((processRetryQueue queueHost (lateSweep true (some "database is locked"))
        (step queueHost (step queueHost Db.empty setAside) setAside)).1.map Prod.snd)[1]? = some .unreached := by
      decide +kernel
    rw [List.getElem?_map, Option.map_eq_some_iff] at second
    obtain ⟨⟨row, fate⟩, found, rfl⟩ := second
    exact swept.reached 1 row found

end HarnessMem.RetryQueue
