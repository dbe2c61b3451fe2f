import HarnessMem.TemporalState

/-! Search requests: their normal form, the conditions every SQL stage appends, and the check
made on each loaded candidate afterwards. -/
namespace HarnessMem.Search
open Js Text Recorder Visibility

inductive QuestionKind where | profile | timeline | graph | vector | hybrid | freshness
  deriving DecidableEq, Repr

structure Scope where
  project : Option String
  sessionId : Option String
  threadId : Option String
  topic : Option String
  deriving DecidableEq, Repr

structure SearchRequest where
  query : String
  project : Option String
  sessionId : Option String
  since : Option String
  untilDate : Option String
  asOf : Option String
  limit : Number
  includePrivate : Bool
  includeArchived : Bool
  includeExpired : Bool
  strictProject : Bool
  expandLinks : Bool
  questionKind : Option QuestionKind
  excludeUpdated : Bool
  includeSuperseded : Bool
  memoryType : Option (List String)
  observationType : Option (List String)
  userId : Option String
  teamId : Option String
  scope : Option Scope
  branch : Option String
  graphDepth : Number
  deriving DecidableEq, Repr

-- The request as the stages see it, with the projects its selection stands for.
structure Normalized extends SearchRequest where
  projectMembers : Option (List String)

inductive Direction where | asc | desc | around
  deriving DecidableEq, Repr
structure Anchor where
  referenceText : String
  direction : Direction
  deriving DecidableEq, Repr

-- The server's settings and the project names it knows; a blank name is refused. `route` is the first temporal anchor
-- of a timeline or freshness question, unless that anchor is a sequence.
structure Settings where
  now : String
  retrievalEnabled : Bool
  searchExpandLinks : Bool
  antigravityIngestEnabled : Bool
  ftsEnabled : Bool
  vectorDisabled : Bool
  graphMaxHops : Option Nat
  normalizeProject : String → Except String String
  expandProjectSelection : String → List String
  route : String → Option QuestionKind → Option Anchor
  normalNamed : ∀ project normal, normalizeProject project = .ok normal → trim project ≠ "" ∧ normal ≠ ""

def clampLimit (input : Number) (fallback least most : Int) : Nat :=
  match input with
  | .fin q => (max least (min most ⌊q⌋)).toNat
  | _ => fallback.toNat

def platformVisibilityFilter (settings : Settings) (row : Observation) : Bool :=
  settings.antigravityIngestEnabled || row.platform ≠ "antigravity"

def resolveProjectMembers (settings : Settings) (project : Option String) : Except String (List String) :=
  match trimmed project, project with
  | some _, some name =>
    let expanded := ((settings.expandProjectSelection name).map trim).filter (fun member => member ≠ "")
    if expanded = [] then (settings.normalizeProject name).map (fun normal => [normal]) else .ok expanded.eraseDups
  | _, _ => .ok []

def asked (value : Option String) (holds : String → Bool) : Bool :=
  match truthy value with
  | some given => holds given
  | none => true

def effectiveProject (request : SearchRequest) : Option String :=
  (request.scope.bind Scope.project).orElse (fun _ => request.project)
def effectiveSession (request : SearchRequest) : Option String :=
  (request.scope.bind Scope.sessionId).orElse (fun _ => request.sessionId)

def projectClause (request : Normalized) (row : Observation) : Bool :=
  !request.strictProject || asked (effectiveProject request.toSearchRequest) (fun project =>
    projectFilter (request.projectMembers.getD [project]) row.project)

def observationTypes (types : List String) : List String :=
  (((types.map trim).filter (fun type => type ≠ "")).map (fun type => slice type 0 100)).take 32
def oneOfTypes (types : List String) (type : String) : Bool := types.isEmpty || types.contains type

-- Every condition but the project's.
def otherClauses (host : Host) (settings : Settings) (request : SearchRequest) (row : Observation) : Bool :=
  asked (effectiveSession request) (fun session => row.sessionId = session) &&
    asked (request.scope.bind Scope.threadId) (fun thread => row.threadId = some thread) &&
    asked (request.scope.bind Scope.topic) (fun topic => row.topic = some topic) &&
    asked request.since (fun since => since ≤ row.createdAt) &&
    asked request.untilDate (fun till => row.createdAt ≤ till) &&
    asked request.asOf (fun asOf => row.createdAt ≤ asOf) &&
    oneOfTypes (request.memoryType.getD []) row.memoryType &&
    oneOfTypes (observationTypes (request.observationType.getD [])) row.observationType &&
    tenantFilter request.userId request.teamId row.userId row.teamId &&
    (match request.branch with
      | some branch => row.branch = some branch || row.branch.isNone
      | none => true) &&
    (request.includeExpired || expiredFilter settings.now row) &&
    platformVisibilityFilter settings row &&
    visibilityFilter host request.includePrivate row &&
    archivedFilter settings.now request.includeArchived row

def applyCommonFilters (host : Host) (settings : Settings) (request : Normalized) (row : Observation) : Bool :=
  projectClause request row && otherClauses host settings request.toSearchRequest row

-- A candidate that was loaded: its project by name, and its privacy tags.
def boundaryCheck (request : Normalized) (row : Observation) : Bool :=
  !request.strictProject || asked request.project (fun project => row.project = project)
def postCheck (host : Host) (settings : Settings) (request : Normalized) (row : Observation) : Bool :=
  archivedFilter settings.now false row && boundaryCheck request row &&
    (request.includePrivate || !hasPrivateVisibilityTag host (parseArrayJson host row.privacyTagsJson))

-- /\bfile:\S+/g
def fileToken : Regex.Re :=
  .seq .boundary (.seq (Regex.word "file:") (.group 1 (Regex.plus (.set (fun c => !isSpace c)))))
def filePaths (query : String) : List String := captured fileToken query
def cleanedQuery (query : String) : String :=
  let cleaned := trim (Regex.replaceAll (Regex.plus space) " " (Regex.replaceAll fileToken "" query))
  if cleaned = "" then query else cleaned

def normalizeIf (settings : Settings) (project : Option String) : Except String (Option String) :=
  match truthy project with
  | some name => (settings.normalizeProject name).map some
  | none => .ok project

def normalizeRequest (settings : Settings) (request : SearchRequest) : Except String Normalized := do
  let project ← normalizeIf settings request.project
  let projectMembers ← if (truthy request.project).isSome ∧ request.strictProject then
    (resolveProjectMembers settings request.project).map some else .ok none
  let scopeProject ← normalizeIf settings (request.scope.bind Scope.project)
  return { request with
    query := cleanedQuery request.query
    project
    projectMembers
    expandLinks := settings.searchExpandLinks && request.expandLinks
    scope := request.scope.map (fun scope => {scope with project := scopeProject}) }

example : cleanedQuery "why file:src/a.ts  slow" = "why slow" := by decide

end HarnessMem.Search
