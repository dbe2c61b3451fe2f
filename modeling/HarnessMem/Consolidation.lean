import HarnessMem.Extractor
import HarnessMem.Lib.Leaders
import HarnessMem.Recorder

/-! The consolidation worker: the statements one session's job issues, in order, and the loop
that takes jobs off the queue. -/
namespace HarnessMem.Consolidation
open Text Recorder Extractor

-- A job's readings from outside: clock, SHA-1 and text order, the extractor mode, and what the
-- model answers for each observation.
inductive Moment where
  | insert (observation fact : Nat) | supersede (observation fact : Nat) | delete (observation : Nat)
  | merge (n : Nat) | link | audit | started | finished
  deriving DecidableEq, Repr

structure Env where
  host : Host
  sha1 : String → String
  localeCompare : String → String → Ordering
  now : Moment → String
  llmMode : Bool
  answer : Nat → Option String

structure QueueRow where
  id : Nat
  project : String
  sessionId : String
  reason : String
  status : String
  requestedAt : String
  startedAt : Option String
  finishedAt : Option String
  error : Option String
  deriving DecidableEq, Repr

structure Store where
  db : Db
  queue : List QueueRow

def active (fact : Fact) : Bool :=
  fact.mergedIntoFactId.isNone && fact.supersededBy.isNone && fact.temporal.validTo.isNone

-- The statements that write.
inductive Write where
  | insertFact (row : Fact)
  | insertTag (row : Tag)
  | supersede (factId supersededBy at' : String)
  | merge (factId into at' : String)
  | insertLink (row : Link)
  | audit (row : Audit)

-- `INSERT OR IGNORE` by primary key.
def sameFact (old row : Fact) : Bool := old.factId = row.factId
def insertFact : List Fact → Fact → List Fact := Tables.insertNew sameFact

def supersede (factId supersededBy at' : String) : List Fact → List Fact :=
  Tables.update (fun fact => fact.factId = factId && fact.supersededBy.isNone) (fun fact =>
    { fact with
      supersededBy := some supersededBy
      temporal := {fact.temporal with validTo := some at', invalidatedAt := some at'}
      updatedAt := at' })

def merge (factId into at' : String) : List Fact → List Fact :=
  Tables.update (fun fact => fact.factId = factId) (fun fact => {fact with mergedIntoFactId := some into, updatedAt := at'})

def Write.apply (db : Db) : Write → Db
  | .insertFact row => {db with facts := Consolidation.insertFact db.facts row}
  | .insertTag row => {db with tags := Recorder.insertTag db.tags row}
  | .supersede factId supersededBy at' => {db with facts := Consolidation.supersede factId supersededBy at' db.facts}
  | .merge factId into at' => {db with facts := Consolidation.merge factId into at' db.facts}
  | .insertLink row => {db with links := Recorder.insertLink db.links row}
  | .audit row => {db with auditLog := db.auditLog ++ [row]}

def run (writes : List Write) (db : Db) : Db := writes.foldl Write.apply db

structure Job where
  id : Option Nat
  project : String
  sessionId : String
  deriving DecidableEq, Repr

def createFactId (sha1 : String → String) (job : Job) (factKey sourceObservationId : String) : String :=
  "fact_" ++ slice (sha1 (job.project ++ ":" ++ job.sessionId ++ ":" ++ factKey ++ ":" ++ sourceObservationId)) 0 24

section
variable (env : Env) (job : Job)

def inputOf (row : Observation) : ExtractFactInput :=
  ⟨row.title.getD "", row.contentRedacted, if row.observationType = "" then "context" else row.observationType⟩

def factRow (n i : Nat) (row : Observation) (fact : FactCandidate) (supersedes : Option String) : Fact :=
  let validFrom := env.now (.insert n i)
  { factId := createFactId env.sha1 job fact.factKey row.id, observationId := some row.id, project := job.project
    sessionId := job.sessionId, factType := fact.factType, factKey := fact.factKey, factValue := fact.factValue
    confidence := fact.confidence, supersededBy := none
    temporal := {
      eventTime := row.temporal.eventTime
      observedAt := some (row.temporal.observedAt.getD validFrom)
      validFrom := some ((row.temporal.validFrom.orElse (fun _ => row.temporal.eventTime)).getD validFrom)
      validTo := row.temporal.validTo
      supersedes := supersedes.orElse (fun _ => row.temporal.supersedes)
      invalidatedAt := row.temporal.invalidatedAt }
    mergedIntoFactId := none, createdAt := validFrom, updatedAt := validFrom }

def insertWrites (n i : Nat) (row : Observation) (fact : FactCandidate) (supersedes : Option String) : List Write :=
  .insertFact (factRow env job n i row fact supersedes) ::
    fact.autoTags.map (fun tag => .insertTag ⟨row.id, tag, "auto", env.now (.insert n i)⟩)

def heuristicWrites (n : Nat) (row : Observation) : List Write :=
  ((heuristicExtract env.host (inputOf row)).zipIdx).flatMap (fun entry => insertWrites env job n entry.2 row entry.1 none)

def buildSupersededDecisions (newFactId : String) (oldFactIds : List String) : List (String × String) :=
  (oldFactIds.filter (fun id => id ≠ "" && id ≠ newFactId)).map (·, newFactId)

def supersedeWrites (at' newFactId : String) (oldFactIds : List String) : List Write :=
  (buildSupersededDecisions newFactId oldFactIds).map (fun decision => .supersede decision.1 decision.2 at')

-- `splice` at the first position that carries the id.
def dropFact (existing : List ExistingFact) (id : String) : List ExistingFact :=
  existing.eraseP (fun fact => fact.factId = id)

def newFactWrites (n i : Nat) (row : Observation) (fact : FactCandidate) (superseded : Option String) : List Write :=
  insertWrites env job n i row fact superseded ++
    supersedeWrites (env.now (.supersede n i)) (createFactId env.sha1 job fact.factKey row.id) superseded.toList

-- One observation in the model's mode: its statements, and the facts known afterwards.
def llmObservation (n : Nat) (row : Observation) (existing : List ExistingFact) : List Write × List ExistingFact :=
  let diff := llmExtractWithDiff env.host (env.answer n) existing
  let idOf := fun fact : FactCandidate => createFactId env.sha1 job fact.factKey row.id
  let inserts := ((diff.newFacts.zip diff.supersedes).zipIdx).flatMap (fun entry =>
    newFactWrites env job n entry.2 row entry.1.1 entry.1.2)
  let representative := ((diff.newFacts.map idOf).getLast?).getD ("invalidated_by_" ++ row.id)
  let deletes := supersedeWrites (env.now (.delete n)) representative diff.deletedFactIds
  let replaced := (diff.supersedes.filterMap id).foldl dropFact existing
  let gone := ((buildSupersededDecisions representative diff.deletedFactIds).map Prod.fst).foldl dropFact replaced
  (inserts ++ deletes, gone ++ diff.newFacts.map (fun fact => ⟨idOf fact, fact.factType, fact.factKey, fact.factValue⟩))

def llmWrites : Nat → List Observation → List ExistingFact → List Write
  | _, [], _ => []
  | n, row :: rest, existing =>
    let taken := llmObservation env job n row existing
    taken.1 ++ llmWrites (n + 1) rest taken.2

def loadExistingFacts (db : Db) : List ExistingFact :=
  (Tables.orderBy (fun a b : Fact => a.createdAt ≤ b.createdAt)
    (db.facts.filter (fun fact => fact.project = job.project && active fact))).map
    (fun fact => ⟨fact.factId, fact.factType, fact.factKey, fact.factValue⟩)

def sessionObservations (db : Db) : List Observation :=
  Tables.orderBy (fun a b : Observation => a.createdAt ≤ b.createdAt)
    (db.observations.filter (fun row => row.project = job.project && row.sessionId = job.sessionId))

def upsertWrites (db : Db) : List Write :=
  if env.llmMode then llmWrites env job 0 (sessionObservations job db) (loadExistingFacts job db)
  else ((sessionObservations job db).zipIdx).flatMap (fun entry => heuristicWrites env job entry.2 entry.1)

def tokens (host : Host) (fact : Fact) : List String :=
  ((wordsOf host (fact.factKey ++ " " ++ fact.factValue)).take 64).dedup
def similarity (host : Host) (a b : Fact) : ℚ := jaccard (tokens host a) (tokens host b)

def closer (host : Host) (fact : Fact) (best : Option Fact × ℚ) (existing : Fact) : Option Fact × ℚ :=
  let found := similarity host fact existing
  if existing.project = fact.project ∧ existing.factType = fact.factType ∧ 3 / 10 ≤ found ∧ best.2 < found then
    (some existing, found)
  else best

-- The first of the most similar ones, at the threshold or above.
def nearest (host : Host) (leaders : List Fact) (fact : Fact) : Option Fact :=
  (leaders.foldl (closer host fact) (none, 0)).1

def byAge (a b : Fact) : Bool :=
  ((env.localeCompare a.createdAt b.createdAt).then (env.localeCompare a.factId b.factId)) != .gt

def dedupeFacts (facts : List Fact) : List (Fact × Fact) :=
  (Leaders.group (nearest env.host) [] (Tables.orderBy (fun a b => byAge env a b = true) facts)).2

def sessionFacts (db : Db) : List Fact :=
  Tables.orderBy (fun a b : Fact => a.createdAt ≤ b.createdAt) (db.facts.filter (fun fact =>
    fact.project = job.project && fact.sessionId = job.sessionId && fact.mergedIntoFactId.isNone))

def mergeWrites (db : Db) : List Write :=
  ((dedupeFacts env (sessionFacts job db)).zipIdx).map (fun entry =>
    .merge entry.1.1.factId entry.1.2.factId (env.now (.merge entry.2)))

def activeFacts (db : Db) : List Fact :=
  (Tables.orderBy (fun a b : Fact => a.createdAt ≤ b.createdAt)
    (db.facts.filter (fun fact => fact.project = job.project && active fact))).take 200

-- The two links between a pair of facts; a fact without its observation has none.
def derived (host : Host) (a b : Fact) : List (String × String × ℚ) :=
  let found := similarity host a b
  let weight : ℚ := ⌊(1 / 2 + found) * 10000 + 1 / 2⌋ / 10000
  match a.observationId, b.observationId with
  | some x, some y =>
    if x ≠ y ∧ a.factType = b.factType ∧ 5 / 100 ≤ found ∧ found ≤ 35 / 100 then [(x, y, weight), (y, x, weight)] else []
  | _, _ => []

def derivedLinks (host : Host) : List Fact → List (String × String × ℚ)
  | [] => []
  | fact :: rest => rest.flatMap (derived host fact) ++ derivedLinks host rest

def linkWrites (facts : List Fact) : List Write :=
  (derivedLinks env.host facts).map (fun link => .insertLink ⟨link.1, link.2.1, "derives", link.2.2, env.now .link⟩)

structure Counts where
  extracted : Nat
  merged : Nat
  links : Nat
  deriving DecidableEq, Repr

def auditRow (reason : String) (counts : Counts) : Audit :=
  let details := Json.stringify (.obj [("project", .str job.project), ("session_id", .str job.sessionId),
    ("facts_extracted", .num (toString counts.extracted)), ("facts_merged", .num (toString counts.merged)),
    ("derives_links_created", .num (toString counts.links)), ("reason", .str reason)])
  ⟨"consolidation.run", "system", "session", job.project ++ ":" ++ job.sessionId, details, env.now .audit, none⟩

def mergedDb (db : Db) : Db := run (mergeWrites env job (run (upsertWrites env job db) db)) (run (upsertWrites env job db) db)

def counts (db : Db) : Counts :=
  let upserted := run (upsertWrites env job db) db
  let merged := mergedDb env job db
  let linked := run (linkWrites env (activeFacts job merged)) merged
  ⟨upserted.facts.length - db.facts.length, (mergeWrites env job upserted).length,
    linked.links.length - merged.links.length⟩

-- Everything a job writes, each read seeing what was written before it.
def trace (reason : String) (db : Db) : List Write :=
  upsertWrites env job db ++ mergeWrites env job (run (upsertWrites env job db) db) ++
    linkWrites env (activeFacts job (mergedDb env job db)) ++ [.audit (auditRow env job reason (counts env job db))]
end

-- Where a job throws: at the statement that marks it, with some of its writes done, or at the
-- statement that completes it.
inductive Stop where
  | mark | body (written : Nat) (message : String) | complete
  deriving DecidableEq, Repr

structure Options where
  reason : Option String
  project : Option String
  sessionId : Option String
  limit : Option Js.Number

def clampedLimit (limit : Option Js.Number) : Nat :=
  match limit with
  | some (.fin value) => if value = 0 then 20 else (max 1 (min 200 ⌊value⌋)).toNat
  | some .posInf => 200
  | some .negInf => 1
  | _ => 20

def pendingRows (store : Store) : List QueueRow := store.queue.filter (fun row => row.status = "pending")

def queuedRows (limit : Nat) (store : Store) : List QueueRow :=
  (Tables.orderBy (fun a b : QueueRow => a.requestedAt < b.requestedAt ∨ a.requestedAt = b.requestedAt ∧ a.id ≤ b.id)
    (pendingRows store)).take limit
def recentSessions (limit : Nat) (store : Store) : List Session :=
  (Tables.orderBy (fun a b : Session => b.updatedAt ≤ a.updatedAt) store.db.sessions).take limit

def loadPendingJobs (options : Options) (store : Store) : List Job :=
  match truthy options.project, truthy options.sessionId with
  | some project, some sessionId => [⟨none, project, sessionId⟩]
  | _, _ =>
    if queuedRows (clampedLimit options.limit) store ≠ [] then
      (queuedRows (clampedLimit options.limit) store).map (fun row => ⟨some row.id, row.project, row.sessionId⟩)
    else (recentSessions (clampedLimit options.limit) store).map (fun row => ⟨none, row.project, row.sessionId⟩)

def setRow (id : Option Nat) (change : QueueRow → QueueRow) (store : Store) : Store :=
  match id with
  | none => store
  | some id => {store with queue := Tables.update (fun row => row.id = id) change store.queue}

def QueueRow.running (at' : String) (row : QueueRow) : QueueRow := {row with status := "running", startedAt := some at'}
def QueueRow.completed (at' : String) (row : QueueRow) : QueueRow :=
  {row with status := "completed", finishedAt := some at', error := none}
def markRunning (env : Env) (job : Job) : Store → Store := setRow job.id (QueueRow.running (env.now .started))
def markCompleted (env : Env) (job : Job) : Store → Store := setRow job.id (QueueRow.completed (env.now .finished))

-- One turn of the loop: what is stored, and what it threw.
def runJob (env : Env) (reason : String) (stop : Option Stop) (job : Job) (store : Store) : Store × Option String :=
  let marked := markRunning env job store
  let writes := trace env job reason marked.db
  let whole := {marked with db := run writes marked.db}
  match stop with
  | none => (markCompleted env job whole, none)
  | some .mark => if job.id.isSome then (store, some "database error") else (markCompleted env job whole, none)
  | some (.body written message) => ({marked with db := run (writes.take written) marked.db}, some message)
  | some .complete => if job.id.isSome then (whole, some "database error") else (whole, none)

structure Ended where
  store : Store
  begun : List Nat
  jobsProcessed : Nat
  counts : Counts
  thrown : Option String

def addCounts (a b : Counts) : Counts := ⟨a.extracted + b.extracted, a.merged + b.merged, a.links + b.links⟩

-- The loop stops at the first job that throws.
def runJobs (env : Nat → Env) (reason : String) (stop : Nat → Option Stop) : Nat → List Job → Ended → Ended
  | _, [], ended => ended
  | n, job :: rest, ended =>
    let turn := runJob (env n) reason (stop n) job ended.store
    match turn.2 with
    | some message => {ended with store := turn.1, begun := ended.begun ++ [n], thrown := some message}
    | none => runJobs env reason stop (n + 1) rest
        { ended with
          store := turn.1
          begun := ended.begun ++ [n]
          jobsProcessed := ended.jobsProcessed + 1
          counts := addCounts ended.counts (counts (env n) job ended.store.db) }

structure ConsolidationRunStats where
  jobsProcessed : Nat
  factsExtracted : Nat
  factsMerged : Nat
  pendingJobs : Nat
  derivesLinksCreated : Nat
  deriving DecidableEq, Repr

-- What the whole call meets: how its queue query and its last count end, and where each job throws.
structure Faults where
  load : Option String
  stop : Nat → Option Stop
  count : Option String

def runStarted (store : Store) : Ended := ⟨store, [], 0, ⟨0, 0, 0⟩, none⟩

def statsOf (count : Option String) (ended : Ended) : Except String ConsolidationRunStats :=
  match ended.thrown, count with
  | some message, _ => .error message
  | none, some message => .error message
  | none, none => .ok ⟨ended.jobsProcessed, ended.counts.extracted, ended.counts.merged,
      (pendingRows ended.store).length, ended.counts.links⟩

def runConsolidationOnce (env : Nat → Env) (faults : Faults) (options : Options) (store : Store) :
    Ended × Except String ConsolidationRunStats :=
  match faults.load with
  | some message => (runStarted store, .error message)
  | none =>
    let ended := runJobs env ((truthy options.reason).getD "manual") faults.stop 0 (loadPendingJobs options store)
      (runStarted store)
    (ended, statsOf faults.count ended)

def enqueueConsolidationJob (id : Nat) (now project sessionId reason : String) (store : Store) : Store :=
  {store with queue := store.queue ++ [⟨id, project, sessionId, slice reason 0 255, "pending", now, none, none, none⟩]}

-- A plain runtime, and one observation with nothing but its text.
def plainEnv : Env where
  host := plainHost
  sha1 := id
  localeCompare := compare
  now := fun _ => "2026-01-01T00:00:00.000Z"
  llmMode := false
  answer := fun _ => none

def plainObservation (id sessionId content : String) : Observation where
  id := id
  eventId := none
  platform := "codex"
  project := "p"
  sessionId := sessionId
  title := none
  content := content
  contentRedacted := content
  contentDedupeHash := none
  rawText := none
  observationType := "context"
  memoryType := "semantic"
  tagsJson := "[]"
  privacyTagsJson := "[]"
  signalScore := 0
  userId := "default"
  teamId := none
  temporal := ⟨none, none, none, none, none, none⟩
  threadId := none
  topic := none
  expiresAt := none
  branch := none
  archivedAt := none
  titleFts := none
  contentFts := none
  createdAt := "2026-01-01T00:00:00.000Z"
  updatedAt := "2026-01-01T00:00:00.000Z"

end HarnessMem.Consolidation
