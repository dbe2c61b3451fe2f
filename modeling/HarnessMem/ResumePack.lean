import HarnessMem.Profile
import HarnessMem.Readers

/-! `resumePack`: the latest summary, the recent observations within the token budget, the
latest interaction, recent sessions of the project, its facts, and the wake-up context. -/
namespace HarnessMem.ResumePack
open Js Text Recorder Visibility TemporalState Search Profile Readers

structure ResumePackRequest where
  project : String
  projectMembers : Option (List String)
  sessionId : Option String
  correlationId : Option String
  limit : Number
  includePrivate : Bool
  includeArchived : Bool
  maxTokens : Option Number
  userId : Option String
  teamId : Option String
  detailLevel : DetailLevel
  includePartial : Bool
  summaryOnly : Bool

-- The configured budget and the one from the environment, and the sort by importance and age.
structure Config where
  injectionEnabled : Bool
  resumePackMaxTokens : Option Number
  envMaxTokens : Number
  canonicalizeProject : String → String
  clock : Clock
  byScore : List (Observation × String) → List (Observation × String)
  byScorePerm : ∀ rows, (byScore rows).Perm rows

def resumeBudget (config : Config) (request : ResumePackRequest) : Number :=
  let requested := request.maxTokens.filter (fun n => n = .fin 0 || n.positive)
  let configured := config.resumePackMaxTokens.filter Number.positive
  let environment := match config.envMaxTokens with
    | .fin q => if 0 < q then some (Number.fin q) else none
    | _ => none
  (requested.orElse fun _ => configured.orElse fun _ => environment).getD (.fin 4000)

section
variable (host : Host) (settings : Settings) (engine : Engine) (config : Config)

-- `JOIN mem_sessions s ... AND s.correlation_id = ?`, made only for a correlation id.
def correlated (request : ResumePackRequest) (db : Db) (row : Observation) : Bool :=
  asked request.correlationId (fun correlation => db.sessions.any (fun session =>
    session.sessionId = row.sessionId && session.correlationId = some correlation))

def inOtherSession (request : ResumePackRequest) (row : Observation) : Bool :=
  asked request.sessionId (fun session => row.sessionId ≠ session)

def inScope (members : List String) (request : ResumePackRequest) (db : Db) (row : Observation) : Bool :=
  projectFilter members row.project && tenantFilter request.userId request.teamId row.userId row.teamId &&
    correlated request db row

def unhidden (request : ResumePackRequest) (row : Observation) : Bool :=
  visibilityFilter host request.includePrivate row && archivedFilter settings.now request.includeArchived row

structure LatestSummary where
  sessionId : String
  summary : Option String
  endedAt : Option String
  isPartial : Bool
  deriving DecidableEq, Repr

-- `json_extract(content_redacted, '$.summary')`, where that is a text.
def extractSummary (row : Observation) : Option String :=
  match host.parseJson row.contentRedacted with
  | some (.obj entries) =>
    match Json.get entries "summary" with
    | some (.str text) => some text
    | some (.arr items) => some (Json.stringify (.arr items))
    | some (.obj fields) => some (Json.stringify (.obj fields))
    | _ => none
  | _ => none

def newestFirst (rows : List Observation) : List Observation :=
  Tables.orderBy (fun a b : Observation => b.createdAt ≤ a.createdAt) rows

-- The last `session_end` observation of every session, and the newest of these.
def sessionEndRow (members : List String) (request : ResumePackRequest) (db : Db) : Option Observation :=
  let ends := db.observations.filter (fun row => eventType db row = some "session_end" &&
    (host.parseJson row.contentRedacted).isSome && inScope members request db row)
  let sessions := (ends.map Observation.sessionId).eraseDups
  (newestFirst (sessions.filterMap (fun session =>
    (newestFirst (ends.filter (fun row => row.sessionId = session))).head?))).head?

def summaryRow (members : List String) (request : ResumePackRequest) (db : Db) : Option Observation :=
  if request.includePartial then
    (sessionEndRow host members request db).filter (fun row =>
      (extractSummary host row).any (fun summary => trim summary ≠ ""))
  else none

-- `ORDER BY ended_at DESC`: an open session comes last.
def endedBefore (a b : Session) : Bool :=
  match a.endedAt, b.endedAt with
  | _, none => true
  | some x, some y => y ≤ x
  | none, some _ => false

def sessionSummary (members : List String) (request : ResumePackRequest) (db : Db) : Option LatestSummary :=
  let rows := db.sessions.filter (fun row => projectFilter members row.project &&
    tenantFilter request.userId request.teamId row.userId row.teamId &&
    match truthy request.correlationId with
    | some correlation => row.correlationId = some correlation
    | none => row.summary.isSome)
  ((Tables.orderBy (fun a b : Session => endedBefore a b = true) rows).head?).map
    (fun row => ⟨row.sessionId, row.summary, row.endedAt, false⟩)

def latestSummary (members : List String) (request : ResumePackRequest) (db : Db) : Option LatestSummary :=
  match summaryRow host members request db with
  | some row => some ⟨row.sessionId, extractSummary host row, some row.createdAt, like "%\"partial\"%" row.tagsJson⟩
  | none => sessionSummary members request db

def pinnedContinuity (members : List String) (request : ResumePackRequest) (db : Db) : Option Observation :=
  (newestFirst (db.observations.filter (fun row => inScope members request db row &&
    row.title = some "continuity_handoff" && like "%\"continuity_handoff\"%" row.tagsJson &&
    inOtherSession request row && unhidden host settings request row))).head?

def packLimit (request : ResumePackRequest) : Nat := clampLimit request.limit 5 1 20

def packRows (members : List String) (request : ResumePackRequest) (db : Db) : List Observation :=
  (newestFirst (db.observations.filter (fun row => inScope members request db row && inOtherSession request row &&
    unhidden host settings request row))).take (packLimit request)

def estimateTokenCount (text : String) : Nat := if trim text = "" then 1 else max 1 ((length text + 3) / 4)

-- An observation in the pack: whole, or as one line where the budget is used up.
structure PackItem where
  row : Observation
  detailed : Bool
  title : Option String
  text : String
  state : State

def nullable (value : Option String) : Json := (value.map Json.str).getD .null

def stateName : State → String
  | .current => "current" | .historical => "historical" | .superseded => "superseded" | .unknown => "unknown"

-- The first of the row's times that is not blank, and the column it is from.
def temporalEvidence (row : Observation) : Option (String × String) :=
  ([("event_time", row.temporal.eventTime), ("valid_from", row.temporal.validFrom),
    ("observed_at", row.temporal.observedAt), ("created_at", some row.createdAt)].filterMap
      (fun (kind, value) => (value.filter (fun s => trim s ≠ "")).map (kind, ·))).head?

def fullItem (row : Observation) (state : State) : Json :=
  let evidence := temporalEvidence row
  .obj [("id", .str row.id), ("type", .str "observation"), ("event_id", nullable row.eventId),
    ("platform", .str row.platform), ("project", .str row.project),
    ("canonical_project", .str (config.canonicalizeProject row.project)), ("session_id", .str row.sessionId),
    ("title", nullable row.title), ("content", .str (slice row.contentRedacted 0 800)),
    ("created_at", .str row.createdAt), ("event_time", nullable row.temporal.eventTime),
    ("observed_at", nullable row.temporal.observedAt), ("valid_from", nullable row.temporal.validFrom),
    ("valid_to", nullable row.temporal.validTo), ("supersedes", nullable row.temporal.supersedes),
    ("invalidated_at", nullable row.temporal.invalidatedAt), ("temporal_state", .str (stateName state)),
    ("temporal_anchor", nullable (evidence.map Prod.snd)),
    ("temporal_anchor_kind", .str ((evidence.map Prod.fst).getD "unknown")),
    ("tags", texts (parseArrayJson host row.tagsJson)), ("privacy_tags", texts (parseArrayJson host row.privacyTagsJson))]

def summaryLine (row : Observation) : String :=
  "- " ++ (truthy row.title).getD row.id ++ " (" ++ slice row.createdAt 0 10 ++ ")"

def fits (used : Nat) : Number → Bool
  | .posInf => true
  | .fin q => used ≤ q
  | _ => false

-- The items so far, and the tokens they use beside the summary's.
def packItem (budget : Number) (summaryTokens : Nat) (supersededIds : List String) (packed : List PackItem × Nat)
    (row : Observation) : List PackItem × Nat :=
  let state := temporalState host settings.now none supersededIds row
  let full := estimateTokenCount (Json.stringify (fullItem host config row state))
  if fits (summaryTokens + packed.2 + full) budget then
    (packed.1 ++ [⟨row, true, row.title, slice row.contentRedacted 0 800, state⟩], packed.2 + full)
  else
    (packed.1 ++ [⟨row, false, some ((truthy row.title).getD row.id), summaryLine row, state⟩],
      packed.2 + estimateTokenCount (summaryLine row))

def packItems (members : List String) (request : ResumePackRequest) (summary : Option LatestSummary) (db : Db) :
    List PackItem :=
  let rows := packRows host settings members request db
  let ranked := (config.byScore (rows.map (fun row => (row, (eventType db row).getD "")))).map Prod.fst
  let supersededIds := loadSupersededObservationIds db ((rows.map Observation.id).filter (fun id => id ≠ ""))
  let summaryTokens := (summary.map (fun latest => estimateTokenCount (latest.summary.getD ""))).getD 0
  let packed := (ranked.foldl (packItem host settings config (resumeBudget config request) summaryTokens supersededIds)
    ([], 0)).1
  packed.filter PackItem.detailed ++ packed.filter (fun item => !item.detailed)

def activeFacts (members : List String) (db : Db) : List Fact :=
  Tables.orderBy (fun a b : Fact => a.factType < b.factType ∨ a.factType = b.factType ∧
    (a.factKey < b.factKey ∨ a.factKey = b.factKey ∧ a.createdAt ≤ b.createdAt))
    (db.facts.filter (fun fact => projectFilter members fact.project && fact.mergedIntoFactId.isNone &&
      fact.supersededBy.isNone))

-- Neither the tenant nor archiving is asked about.
def resumeFilter (members : List String) (request : ResumePackRequest) (db : Db) (correlated : Bool) (row : Observation) :
    Bool :=
  projectFilter members row.project && inOtherSession request row && correlated && platformVisibilityFilter settings row &&
    visibilityFilter host request.includePrivate row

def getResumeInteractionContext (members : List String) (request : ResumePackRequest) (db : Db) : Option Interaction :=
  if members = [] then none
  else selectLatestInteractionContext host engine (interactionRows (fun row =>
    resumeFilter host settings members request db (correlated request db row) row) (max (packLimit request * 4) 40) db)

def listChainSessionIds (members : List String) (request : ResumePackRequest) (db : Db) : List String :=
  match truthy request.correlationId with
  | none => []
  | some correlation => ((db.sessions.filter (fun session => session.correlationId = some correlation &&
    projectFilter members session.project)).map Session.sessionId).filter (fun id => id ≠ "")

-- The other sessions the project's recent bullets are drawn from.
def recentProjectContext (members : List String) (request : ResumePackRequest) (latest : Option Interaction)
    (pinned : Option Observation) (db : Db) : List Interaction :=
  if members = [] then []
  else
    let turns := interactionRows (resumeFilter host settings members request db true) 120 db
    let excluded := request.sessionId.toList ++ (latest.map Interaction.sessionId).toList ++
      (pinned.map Observation.sessionId).toList ++ listChainSessionIds members request db
    (collectLatestInteractionContexts host engine turns).filter (fun context => !excluded.contains context.sessionId)

structure Pack where
  summary : Option LatestSummary
  items : List PackItem
  pinned : Option Observation
  latestInteraction : Option Interaction
  recentProjectContext : List Interaction
  facts : List Fact
  wakeUpContext : WakeUpContext

inductive PackResponse where
  | injectionDisabled
  | projectRequired
  | noBudget
  | summaryOnly (summary : Option LatestSummary)
  | full (pack : Pack)

def fullPack (members : List String) (request : ResumePackRequest) (normal : String) (db : Db) : Pack :=
  let summary := latestSummary host members request db
  let pinned := pinnedContinuity host settings members request db
  let latest := getResumeInteractionContext host settings engine members request db
  { summary
    items := packItems host settings config members request summary db
    pinned
    latestInteraction := latest
    recentProjectContext := recentProjectContext host settings engine members request latest pinned db
    facts := activeFacts members db
    wakeUpContext := buildWakeUpContext normal (buildProjectProfile host config.clock db normal) request.detailLevel }

def resumePack (request : ResumePackRequest) (db : Db) : Except String PackResponse := do
  if config.injectionEnabled = false then return .injectionDisabled
  else if request.project = "" then return .projectRequired
  else
    let normal ← settings.normalizeProject request.project
    let members ← membersOf settings request.projectMembers (some request.project)
    if resumeBudget config request = .fin 0 then return .noBudget
    else if request.summaryOnly then return .summaryOnly (latestSummary host members request db)
    else return .full (fullPack host settings engine config members request normal db)

end
end HarnessMem.ResumePack
