import HarnessMem.Recorder
import HarnessMem.SearchStages

/-! `search`: candidates, the check on loaded rows, ranking, superseded rows, and the answer. -/
namespace HarnessMem.Search
open Js Text Recorder Visibility TemporalState

structure Item where
  row : Observation
  state : State
  final : ℚ

inductive Response where
  | disabled
  | queryRequired
  | anchored (rows : List Observation)
  | ranked (items : List Item)

def Response.rows : Response → List Observation
  | .disabled | .queryRequired => []
  | .anchored rows => rows
  | .ranked items => items.map Item.row

section
variable (host : Host) (settings : Settings) (engine : Engine)

def searchLimit (request : SearchRequest) : Nat := clampLimit request.limit 20 1 100
def internalLimit (request : SearchRequest) : Nat :=
  if request.questionKind = some .timeline ∨ request.questionKind = some .freshness then
    min 500 (max 400 (searchLimit request * 8))
  else min 500 (searchLimit request * 5)

-- The latest interaction joins the candidates only where the query asks for it.
def latestIds (request : SearchRequest) (normal : Normalized) (db : Db) : List String :=
  if (truthy request.asOf).isSome ∨ isLatestInteractionIntent request.query = false then []
  else match getLatestInteractionContext host settings engine (normal.projectMembers.getD []) normal 400 db with
    | none => []
    | some latest => (latest.prompt.id :: (latest.response.map Observation.id).toList).filter (fun id => id ≠ "")

-- What full text, vectors, the latest interaction and links find.
def linkedIds (request : SearchRequest) (normal : Normalized) (db : Db) : List String :=
  let found := addAll (addAll [] (lexicalSearch host settings engine normal (internalLimit request) db))
    (vectorSearch host settings engine normal (internalLimit request) db)
  let seeded := addAll found (latestIds host settings engine request normal db)
  if normal.expandLinks ∧ seeded ≠ [] then
    addAll seeded (expandByLinks host settings ((engine.bestFirst normal seeded).take 10) normal db)
  else seeded

def candidateIds (request : SearchRequest) (normal : Normalized) (db : Db) : List String :=
  let linked := linkedIds host settings engine request normal db
  let expanded := if request.graphDepth.positive ∧ linked ≠ [] then
      addAll linked (expandObservationsViaGraph db linked request.graphDepth)
    else linked
  match extractFileFilterIds request.query db with
  | none => expanded
  | some tagged => addAll (expanded.filter (fun id => id ∈ tagged)) tagged

def updatedIds (db : Db) : List String :=
  (db.links.filter (fun link => link.relation = "updates" || link.relation = "superseded")).map Link.toId

def keptCandidate (normal : Normalized) (db : Db) (row : Observation) : Bool :=
  !(normal.excludeUpdated && (updatedIds db).contains row.id) && postCheck host settings normal row

def survivors (request : SearchRequest) (normal : Normalized) (db : Db) : List Observation :=
  ((candidateIds host settings engine request normal db).filterMap (loadObservation settings.now false db)).filter
    (keptCandidate host settings normal db)

def finalOrder (a b : Ranked) : Prop :=
  b.final < a.final ∨ a.final = b.final ∧
    ((engine.collate b.row.createdAt a.row.createdAt).then (engine.collate a.row.id b.row.id)) ≠ .gt
instance : DecidableRel (finalOrder engine) := fun _ _ => inferInstanceAs (Decidable (_ ∨ _ ∧ _))

-- Superseded rows are dropped, or lose half their score before the last sort.
def settle (request : SearchRequest) (superseded : List String) (ranked : List Ranked) : List Ranked :=
  if superseded = [] then ranked
  else if request.includeSuperseded = false then ranked.filter (fun entry => entry.row.id ∉ superseded)
  else Tables.orderBy (finalOrder engine) (ranked.map (fun entry =>
    if entry.row.id ∈ superseded then {entry with final := entry.final * (1 / 2)} else entry))

def rankedItems (request : SearchRequest) (normal : Normalized) (db : Db) : List Item :=
  let ranked := engine.rank normal (survivors host settings engine request normal db)
  let superseded := loadSupersededObservationIds db (ranked.map (fun entry => entry.row.id))
  ((settle engine request superseded ranked).take (searchLimit request)).map (fun entry =>
    ⟨entry.row, temporalState host settings.now request.asOf superseded entry.row, entry.final⟩)

def anchorRows (request : SearchRequest) (normal : Normalized) (db : Db) : List Observation :=
  match settings.route request.query request.questionKind with
  | none => []
  | some anchor => (temporalAnchorSearch host settings engine normal anchor (searchLimit request) db).getD []

def search (request : SearchRequest) (db : Db) : Except String Response := do
  if settings.retrievalEnabled = false then return .disabled
  if trim request.query = "" then return .queryRequired
  let normal ← normalizeRequest settings request
  let anchored := anchorRows host settings engine request normal db
  if anchored ≠ [] then return .anchored anchored
  return .ranked (rankedItems host settings engine request normal db)

end

-- A server with default settings, a bare request, and a row with nothing but an owner.
def readHost : Host := {plainHost with parseJson := fun text => if text = "[]" then some (.arr []) else none}

def plainSettings : Settings where
  now := "2026-01-01T00:00:00.000Z"
  retrievalEnabled := true
  searchExpandLinks := true
  antigravityIngestEnabled := true
  ftsEnabled := true
  vectorDisabled := true
  graphMaxHops := none
  normalizeProject := fun project => if trim project = "" then .error "project name must not be empty" else .ok (trim project)
  expandProjectSelection := fun project => [project]
  route := fun _ _ => none
  normalNamed := by
    intro project normal ok
    split at ok
    · cases ok
    · rename_i named
      obtain rfl := Except.ok.inj ok
      exact ⟨named, named⟩

def plainRequest (query : String) : SearchRequest where
  query
  project := none
  sessionId := none
  since := none
  untilDate := none
  asOf := none
  limit := .nan
  includePrivate := false
  includeArchived := false
  includeExpired := false
  strictProject := true
  expandLinks := true
  questionKind := none
  excludeUpdated := false
  includeSuperseded := true
  memoryType := none
  observationType := none
  userId := none
  teamId := none
  scope := none
  branch := none
  graphDepth := .fin 0

def plainRow (id project userId : String) : Observation where
  id
  eventId := none
  platform := "claude"
  project
  sessionId := "s"
  title := none
  content := ""
  contentRedacted := ""
  contentDedupeHash := none
  rawText := none
  observationType := "context"
  memoryType := "semantic"
  tagsJson := "[]"
  privacyTagsJson := "[]"
  signalScore := 0
  userId
  teamId := none
  temporal := ⟨none, none, none, none, none, none⟩
  threadId := none
  topic := none
  expiresAt := none
  branch := none
  archivedAt := none
  titleFts := none
  contentFts := none
  createdAt := ""
  updatedAt := ""

end HarnessMem.Search
