import HarnessMem.AuditChain
import HarnessMem.Enrich
import HarnessMem.Provenance

/-! `recordEvent`: the checks before the transaction, the transaction, and the answer. -/
namespace HarnessMem.Recorder
open Js Text

def count (n : Nat) : Json := .num (toString n)

def auditStrip (host : Host) (env : Ambient) (e : EventEnvelope) (d : Draft) (db : Db) : Db :=
  if d.stripped = [] then db
  else
    let details := Json.stringify (.obj
      [("count", count d.stripped.length), ("hashes", texts d.stripped), ("project", .str d.project),
        ("session_id", .str e.sessionId), ("event_type", .str e.eventType)])
    let log := AuditChain.appendAuditChain host (env.clock 1) "privacy_strip" "observation"
      d.observationId details "system" db.auditLog
    {db with auditLog := log}

-- /<closure_evidence\b[^>]*\btag\s*=\s*["']([^"']+)["'][^>]*\/?>/i
def closureEvidence : Regex.Re :=
  let quote := Regex.Re.set (inSet "\"'")
  let inside := Regex.star (.set (notIn ">"))
  Regex.chain [Regex.wordI "<closure_evidence", .boundary, inside, .boundary, Regex.wordI "tag",
    Regex.star space, Regex.char '=', Regex.star space, quote,
    .group 1 (Regex.plus (.set (notIn "\"'"))), quote, inside, Regex.opt (Regex.char '/'), Regex.char '>']

-- `none` accepts; the tag named by the marker comes along with a refusal.
def closureCheckL1 (env : Ambient) (content : String) : Option (String × Option String) × Option String :=
  match (Regex.exec closureEvidence content).bind (fun m => Regex.capture 1 m.2) with
  | none => (none, none)
  | some found =>
    let tag := trim found
    if tag = "" then (some ("closure_evidence marker has empty tag", none), none)
    else if env.gitTagExists tag then (none, some tag)
    else (some ("closure_evidence tag '" ++ tag ++ "' does not resolve via git rev-parse", some tag), some tag)

def liveHash (hash : String) (row : Observation) : Bool :=
  row.contentDedupeHash = some hash && row.live

def dedupCheckL1 (hash : Option String) (db : Db) : Bool :=
  match truthy hash with
  | none => false
  | some hash => db.observations.any (liveHash hash)

def evaluateGate (env : Ambient) (d : Draft) (db : Db) : Option (String × Option String) :=
  match closureCheckL1 env d.redactedContent with
  | (some refused, _) => some refused
  | (none, tag) => if dedupCheckL1 d.contentDedupeHash db then some ("dedup_collision_l1", tag) else none

def auditGate (host : Host) (env : Ambient) (e : EventEnvelope) (d : Draft)
    (refused : String × Option String) (db : Db) : Db :=
  let tag := match refused.2 with | some tag => Json.str tag | none => .null
  let details := Json.stringify (.obj
    [("decision", .str "reject"), ("reasons", texts [refused.1]), ("closure_evidence", tag),
      ("project", .str d.project), ("session_id", .str e.sessionId)])
  let log := AuditChain.appendAuditChain host (env.clock 2) "ddouns_gate_warn" "event" d.eventId
    details "system" db.auditLog
  {db with auditLog := log}

def ensureSession (env : Ambient) (e : EventEnvelope) (d : Draft) (db : Db) : Db :=
  let current := env.clock 4
  let meet := fun row : Session => {row with
    startedAt := if row.startedAt ≤ d.timestamp then row.startedAt else d.timestamp
    correlationId := row.correlationId.orElse (fun _ => e.correlationId)
    updatedAt := current}
  let new : Session := ⟨e.sessionId, e.platform, d.project, d.timestamp, none, none, none,
    e.correlationId, d.userId, d.teamId, current, current⟩
  if db.sessions.any (fun row => row.sessionId = e.sessionId) then
    {db with sessions := Tables.update (fun row => row.sessionId = e.sessionId) meet db.sessions}
  else {db with sessions := db.sessions ++ [new]}

def eventRow (env : Ambient) (e : EventEnvelope) (d : Draft) : Event :=
  ⟨d.eventId, e.platform, d.project, e.sessionId, e.eventType, d.timestamp, d.redactedPayload,
    Json.stringify (texts d.tags), Json.stringify (texts d.privacyTags), d.dedupeHash, some d.observationId,
    e.correlationId, d.userId, d.teamId, env.clock 3⟩

-- `event_id` is the primary key and `dedupe_hash` is unique.
def taken (d : Draft) (row : Event) : Bool := row.eventId = d.eventId || row.dedupeHash = d.dedupeHash

def setEvent (eventId : String) (change : Event → Event) (db : Db) : Db :=
  {db with events := Tables.update (fun row => row.eventId = eventId) change db.events}

def observationRow (env : Ambient) (e : EventEnvelope) (d : Draft) (temporal : Temporal)
    (expiresAt : Option String) : Observation :=
  { id := d.observationId, eventId := some d.eventId, platform := e.platform, project := d.project
    sessionId := e.sessionId, title := some d.title, content := d.content
    contentRedacted := d.redactedContent, contentDedupeHash := d.contentDedupeHash
    rawText := d.rawText, observationType := d.observationType, memoryType := d.memoryType
    tagsJson := Json.stringify (texts d.tags), privacyTagsJson := Json.stringify (texts d.privacyTags)
    signalScore := extractSignalScore d.content, userId := d.userId, teamId := d.teamId, temporal
    threadId := trimmed e.threadId, topic := trimmed e.topic, expiresAt, branch := trimmed e.branch
    archivedAt := none, titleFts := none, contentFts := none
    createdAt := d.timestamp, updatedAt := env.clock 3 }

-- `ON CONFLICT(id) DO UPDATE`: identity, ownership, archiving and creation time stay.
def overwrite (new old : Observation) : Observation :=
  { new with
    eventId := old.eventId, platform := old.platform, project := old.project, sessionId := old.sessionId
    userId := old.userId, teamId := old.teamId, archivedAt := old.archivedAt
    titleFts := old.titleFts, contentFts := old.contentFts, createdAt := old.createdAt }

-- The partial unique index: another live row already carries the hash.
def hashTaken (row : Observation) (rows : List Observation) : Bool :=
  row.contentDedupeHash.isSome && rows.any (fun old =>
    old.id ≠ row.id && old.live && old.contentDedupeHash = row.contentDedupeHash)

def upsertObservation (row : Observation) (rows : List Observation) : Except String (List Observation) :=
  let clash := "UNIQUE constraint failed: mem_observations.content_dedupe_hash"
  match rows.find? (fun old => old.id = row.id) with
  | some old =>
    if old.live && hashTaken row rows then .error clash
    else .ok (Tables.update (fun old => old.id = row.id) (overwrite row) rows)
  | none => if hashTaken row rows then .error clash else .ok (rows ++ [row])

def insertTag (rows : List Tag) (row : Tag) : List Tag :=
  if rows.any (fun old => old.observationId = row.observationId && old.tag = row.tag && old.tagType = row.tagType)
  then rows else rows ++ [row]

def storeTags (env : Ambient) (d : Draft) (tagType : String) (tags : List String) (db : Db) : Db :=
  {db with tags := (tags.map (fun tag => ⟨d.observationId, tag, tagType, env.clock 3⟩)).foldl insertTag db.tags}

-- A `tool_use` event also names the file it touched; its event row is rewritten with it.
def storeProvenance (host : Host) (env : Ambient) (e : EventEnvelope) (d : Draft) (db : Db) : Db :=
  if e.eventType = "tool_use" then
    match Provenance.extractCodeProvenance host (payloadOf e) with
    | none => db
    | some provenance =>
      let payloadJson := Json.stringify (.obj (Json.put (payloadOf e) "code_provenance" provenance.toJson))
      setEvent d.eventId (fun row => {row with payloadJson})
        (storeTags env d "provenance" ["file:" ++ provenance.filePath] db)
  else db

-- The live observation that already carries the content hash.
def existingObservation (d : Draft) (db : Db) : Option String :=
  match truthy d.contentDedupeHash with
  | none => none
  | some hash => truthy ((db.observations.find? (liveHash hash)).map Observation.id)

-- A checkpoint is stored without its vector while the embedding model is still warming up.
def embed (host : Host) (env : Ambient) (e : EventEnvelope) (d : Draft) (db : Db) :
    Except String (Db × Option String) :=
  match upsertVector env d.observationId (d.rawText.getD d.redactedContent) d.timestamp db with
  | .ok embedded => .ok (embedded, none)
  | .error failure =>
    if e.eventType = "checkpoint" ∧ isRetryableWriteEmbeddingFailure host failure then
      .ok (db, some failure.message)
    else .error failure.message

def enrich (host : Host) (env : Ambient) (e : EventEnvelope) (d : Draft) (temporal : Temporal) (db : Db) : Db :=
  let mined := extractAndStoreEntities d.observationId d.redactedContent d.timestamp db
  let related := extractAndStoreGraphRelations host d.observationId d.redactedContent d.tags d.timestamp temporal mined
  let linked := autoLinkObservation host d.observationId e.sessionId d.timestamp related
  let updated := autoSupersedes host env d.observationId d.project d.observationType d.redactedContent d.timestamp linked
  let auto := if env.autoLinkSemantic then runAutoLinker host d.observationId e.sessionId d.timestamp updated else updated
  insertNuggets host env d.observationId d.redactedContent d.timestamp auto

def auditPrivacy (env : Ambient) (e : EventEnvelope) (d : Draft) (db : Db) : Db :=
  let details := Json.stringify (.obj [("reason", .str "private_tag"),
    ("path", .str (e.platform ++ "/" ++ d.project)), ("privacy_tags", texts d.privacyTags)])
  let row : Audit := ⟨"privacy_filter", e.platform, "event", d.eventId, details, env.clock 3, none⟩
  if isPrivateTag d.privacyTags then {db with auditLog := db.auditLog ++ [row]} else db

inductive Recorded where
  | duplicateEvent
  | duplicateContent (observationId : String)
  | created (embeddingWarning : Option String)
  deriving DecidableEq, Repr

def createObservation (host : Host) (env : Ambient) (e : EventEnvelope) (d : Draft) (temporal : Temporal)
    (db : Db) : Except String (Db × Option String) := do
  let expiresAt ← normalizeExpiresAt host e.expiresAt
  let observations ← upsertObservation (observationRow env e d temporal expiresAt) db.observations
  let tagged := storeTags env d "privacy" d.privacyTags (storeTags env d "tag" d.tags {db with observations})
  let (embedded, warning) ← embed host env e d (storeProvenance host env e d tagged)
  return (auditPrivacy env e d (enrich host env e d temporal embedded), warning)

def linkExisting (d : Draft) (observationId : String) (db : Db) : Db :=
  setEvent d.eventId (fun row => {row with observationId := some observationId}) db

def insertEvent (env : Ambient) (e : EventEnvelope) (d : Draft) (db : Db) : Db :=
  {db with events := db.events ++ [eventRow env e d]}

-- An error rolls the tables back to where the transaction began.
def transaction (host : Host) (env : Ambient) (e : EventEnvelope) (d : Draft) (temporal : Temporal)
    (db : Db) : Except String (Db × Recorded) :=
  let started := ensureSession env e d db
  if started.events.any (taken d) then .ok (started, .duplicateEvent)
  else
    let inserted := insertEvent env e d started
    match existingObservation d inserted with
    | some id => .ok (linkExisting d id inserted, .duplicateContent id)
    | none => (createObservation host env e d temporal inserted).map (fun (after, warning) => (after, .created warning))

def given (key : String) (value : Option String) : List (String × Json) :=
  (value.map (fun s => (key, Json.str s))).toList
def givenJson (key : String) (value : Option Json) : List (String × Json) := (value.map (key, ·)).toList
def envelopeJson (e : EventEnvelope) : Json :=
  .obj (given "event_id" e.eventId ++ [("platform", .str e.platform), ("project", .str e.project),
    ("session_id", .str e.sessionId), ("event_type", .str e.eventType)] ++ given "ts" e.ts ++
    givenJson "payload" (e.payload.map .obj) ++ givenJson "metadata" (e.metadata.map .obj) ++
    [("tags", texts e.tags), ("privacy_tags", texts e.privacyTags)] ++ given "dedupe_hash" e.dedupeHash ++
    given "correlation_id" e.correlationId ++ given "user_id" e.userId ++ given "team_id" e.teamId ++
    given "thread_id" e.threadId ++ given "topic" e.topic ++ givenJson "expires_at" e.expiresAt ++
    givenJson "event_time" e.eventTime ++ givenJson "observed_at" e.observedAt ++
    givenJson "valid_from" e.validFrom ++ givenJson "valid_to" e.validTo ++
    givenJson "supersedes" e.supersedes ++ givenJson "invalidated_at" e.invalidatedAt ++
    given "branch" e.branch)

def enqueueRetry (env : Ambient) (e : EventEnvelope) (reason : String) (db : Db) : Db :=
  let current := env.clock 7
  let row : Retry := ⟨Json.stringify (envelopeJson e), slice reason 0 500, 0, current, current, current⟩
  {db with retryQueue := db.retryQueue ++ [row]}

-- What goes to the stream, and what is replicated to the managed backend.
structure Created where
  id : String
  eventId : String
  dedupeHash : String
  contentDedupeHash : Option String
  platform : String
  project : String
  sessionId : String
  eventType : String
  cardType : String
  ts : String
  title : String
  content : String
  observationType : String
  memoryType : String
  temporal : Temporal
  tags : List String
  privacyTags : List String

structure StoredEvent where
  eventId : String
  platform : String
  project : String
  workspaceUid : String
  sessionId : String
  eventType : String
  ts : String
  payloadJson : String
  tagsJson : String
  privacyTagsJson : String
  dedupeHash : String
  observationId : String
  correlationId : Option String
  temporal : Temporal
  createdAt : String

def createdItem (e : EventEnvelope) (d : Draft) (temporal : Temporal) : Created :=
  ⟨d.observationId, d.eventId, d.dedupeHash, d.contentDedupeHash, e.platform, d.project, e.sessionId,
    e.eventType, if e.eventType = "session_end" then "session_summary" else e.eventType, d.timestamp,
    d.title, slice d.redactedContent 0 1200, d.observationType, d.memoryType, temporal, d.tags, d.privacyTags⟩

def storedEvent (env : Ambient) (e : EventEnvelope) (d : Draft) (temporal : Temporal) : StoredEvent :=
  ⟨d.eventId, e.platform, d.project, "", e.sessionId, e.eventType, d.timestamp, d.redactedPayload,
    Json.stringify (texts d.tags), Json.stringify (texts d.privacyTags), d.dedupeHash, d.observationId,
    truthy e.correlationId, temporal, env.clock 3⟩

inductive Outcome where
  | captureOff
  | invalid (message : String)
  | blocked
  | failClosed (message : String)
  | gated (reason : String)
  | thrown (message : String)
  | duplicateEvent (dedupeHash : String) (contentDedupeHash : Option String)
  | duplicateContent (dedupeHash : String) (contentDedupeHash : Option String)
  | created (item : Created) (replicated : StoredEvent) (embeddingWarning : Option String)
  | failed (message : String)

def requiredMessage : String :=
  "event.project / event.session_id / event.event_type / event.platform are required"
def failCloseMessage : String :=
  "managed backend is required but not connected; write blocked (fail-close)"

-- The gate either refuses, or lets the event on and may leave an audit row.
def gate (host : Host) (env : Ambient) (e : EventEnvelope) (d : Draft) (db : Db) : Except String Db :=
  if env.gateEnabled then
    match evaluateGate env d db with
    | none => .ok db
    | some refused => if env.gateMode = .block then .error refused.1 else .ok (auditGate host env e d refused db)
  else .ok db

def answer (env : Ambient) (e : EventEnvelope) (d : Draft) (temporal : Temporal) : Recorded → Outcome
  | .duplicateEvent => .duplicateEvent d.dedupeHash d.contentDedupeHash
  | .duplicateContent _ => .duplicateContent d.dedupeHash d.contentDedupeHash
  | .created warning => .created (createdItem e d temporal) (storedEvent env e d temporal) warning

def write (host : Host) (env : Ambient) (allowQueue : Bool) (e : EventEnvelope) (d : Draft)
    (temporal : Temporal) (db : Db) : Db × Outcome :=
  match transaction host env e d temporal db with
  | .error message => (if allowQueue then enqueueRetry env e message db else db, .failed message)
  | .ok (after, recorded) => (after, answer env e d temporal recorded)

def recordEvent (host : Host) (env : Ambient) (allowQueue : Bool) (e : EventEnvelope) (db : Db) : Db × Outcome :=
  if env.captureEnabled = false then (db, .captureOff)
  else if e.project = "" ∨ e.sessionId = "" ∨ e.eventType = "" ∨ e.platform = "" then
    (db, .invalid requiredMessage)
  else match env.normalizeProject e.project with
    | .error message => (db, .invalid message)
    | .ok project =>
      let d := draft host env e project
      if isBlockedTag d.privacyTags then (db, .blocked)
      else if env.managedRequired ∧ env.managedConnected = false then (db, .failClosed failCloseMessage)
      else
        let stripped := auditStrip host env e d db
        match gate host env e d stripped with
        | .error reason => (stripped, .gated reason)
        | .ok passed =>
          match temporalAnchors host e d.timestamp with
          | .error message => (passed, .thrown message)
          | .ok temporal => write host env allowQueue e d temporal passed

theorem auditStripSame (host : Host) (env : Ambient) (e : EventEnvelope) (d : Draft) (db : Db) :
    db.SameRows (auditStrip host env e d db) := by
  unfold auditStrip
  split
  · exact Db.sameRefl db
  · exact ⟨⟨rfl, rfl, rfl⟩, rfl⟩

theorem gateSame {host : Host} {env : Ambient} {e : EventEnvelope} {d : Draft} {db after : Db}
    (ok : gate host env e d db = .ok after) : db.SameRows after := by
  unfold gate at ok
  split at ok
  · split at ok
    · cases ok
      exact Db.sameRefl db
    · split at ok
      · cases ok
      · cases ok
        exact ⟨⟨rfl, rfl, rfl⟩, rfl⟩
  · cases ok
    exact Db.sameRefl db

theorem ensureSessionSame (env : Ambient) (e : EventEnvelope) (d : Draft) (db : Db) :
    db.SameRows (ensureSession env e d db) := by
  unfold ensureSession
  simp only
  split
  · exact ⟨⟨rfl, rfl, rfl⟩, rfl⟩
  · exact ⟨⟨rfl, rfl, rfl⟩, rfl⟩

theorem embedSame {host : Host} {env : Ambient} {e : EventEnvelope} {d : Draft} {db : Db}
    {result : Db × Option String} (ok : embed host env e d db = .ok result) : db.SameRows result.1 := by
  unfold embed at ok
  split at ok
  · rename_i embedded stored
    cases ok
    exact upsertVectorSame stored
  · split at ok
    · cases ok
      exact Db.sameRefl db
    · cases ok

theorem enrichKept (host : Host) (env : Ambient) (e : EventEnvelope) (d : Draft) (temporal : Temporal)
    (db : Db) : db.Kept (enrich host env e d temporal db) := by
  unfold enrich
  extract_lets mined related linked updated auto
  have toMined : db.SameRows mined := minedSame _ _ _ _
  have toRelated : db.SameRows related := Db.sameTrans toMined (relatedSame _ _ _ _ _ _ _)
  have toLinked : db.SameRows linked := Db.sameTrans toRelated (autoLinkSame _ _ _ _ _)
  have toUpdated : db.SameRows updated := Db.sameTrans toLinked (autoSupersedesSame _ _ _ _ _ _ _ _)
  have toAuto : db.SameRows auto := by
    by_cases semantic : env.autoLinkSemantic
    · simpa only [auto, semantic, if_true] using Db.sameTrans toUpdated (runAutoLinkerSame _ _ _ _ _)
    · simpa only [auto, semantic, Bool.false_eq_true, if_false] using toUpdated
  exact Db.keptTrans toAuto.toKept (insertNuggetsKept _ _ _ _ _ _)

theorem auditPrivacySame (env : Ambient) (e : EventEnvelope) (d : Draft) (db : Db) :
    db.SameRows (auditPrivacy env e d db) := by
  unfold auditPrivacy
  simp only
  split
  · exact ⟨⟨rfl, rfl, rfl⟩, rfl⟩
  · exact Db.sameRefl db

-- The payload text the provenance step writes over the stored one, when it writes at all.
def rewrittenPayload (host : Host) (e : EventEnvelope) : Option String :=
  if e.eventType = "tool_use" then
    (Provenance.extractCodeProvenance host (payloadOf e)).map
      (fun provenance => Json.stringify (.obj (Json.put (payloadOf e) "code_provenance" provenance.toJson)))
  else none

-- Tagging an observation and naming its file rewrite at most the event's own payload.
theorem storeProvenanceRows (host : Host) (env : Ambient) (e : EventEnvelope) (d : Draft) (db : Db) :
    (storeProvenance host env e d db).observations = db.observations ∧
      (storeProvenance host env e d db).events = match rewrittenPayload host e with
        | none => db.events
        | some payloadJson =>
          Tables.update (fun row => row.eventId = d.eventId) (fun row => {row with payloadJson}) db.events := by
  unfold storeProvenance rewrittenPayload
  by_cases tool : e.eventType = "tool_use"
  · cases found : Provenance.extractCodeProvenance host (payloadOf e) with
    | none => simp [tool]
    | some provenance =>
      simp only [tool, if_true, Option.map_some]
      exact ⟨rfl, rfl⟩
  · simp [tool]

-- A local server with everything optional switched off, and a bare event for it.
def plainHost : Host where
  sha256 := id
  toLowerCase := String.toLower
  parseJson := fun _ => none
  parseDate := fun _ => none
  millis := fun _ => .nan
  tokenize := fun _ => []
  similar := fun _ _ => false

def plainAmbient : Ambient where
  clock := fun _ => "2026-01-01T00:00:00.000Z"
  freshId := "fresh"
  nuggetId := fun n => "nugget" ++ toString n
  captureEnabled := true
  managedRequired := false
  managedConnected := false
  userId := none
  teamId := none
  normalizeProject := .ok
  gateEnabled := false
  gateMode := .block
  gitTagExists := fun _ => false
  rawMode := false
  autoLinkSemantic := false
  vectorDisabled := true
  vectorDimension := 0
  vectorModel := ""
  embedContent := fun _ => .ok "[]"
  passageEmbeddings := none
  jaccardThreshold := 1 / 10

def plainEvent (id project : String) (payload : List (String × Json)) : EventEnvelope where
  eventId := some id
  platform := "claude"
  project
  sessionId := "s"
  eventType := "session_end"
  ts := none
  payload
  metadata := none
  tags := []
  privacyTags := []
  dedupeHash := some id
  correlationId := none
  userId := none
  teamId := none
  threadId := none
  topic := none
  expiresAt := none
  eventTime := none
  observedAt := none
  validFrom := none
  validTo := none
  supersedes := none
  invalidatedAt := none
  branch := none

end HarnessMem.Recorder
