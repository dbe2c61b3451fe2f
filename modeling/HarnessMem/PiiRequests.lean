import HarnessMem.GoTools
import HarnessMem.PiiFilters

/-! What leaves through the tools of the two MCP servers that write: the free texts of the bodies
they send to the memory server, and which of them the PII filter has been over. -/
namespace HarnessMem.PiiRequests
open GoTools (Args Plan bool? argStringArray strings given)
open PiiFilters

/-! The writing tools of the TypeScript server. -/

structure Ts where
  encodeURIComponent : String → String
  importSource : String → Except String String
  redact : String → String

inductive Tool
  | recordCheckpoint | finalizeSession | recordEvent | deleteObservation | adminReindexVectors | adminImportClaudeMem
  | adminVerifyImport | adminConsolidationRun | addRelation | bulkAdd | bulkDelete | compress | ingest | shareToTeam
  deriving DecidableEq, Repr

section
variable (ts : Ts) (args : Args)

-- `toStringOrUndefined`; the tools that need a text refuse "" as well.
def text (key : String) : Option String := Json.text? (Json.get args key)
def need (key : String) : Option String := (text args key).filter (fun value => value ≠ "")

-- An undefined field is not sent.
def optText (key : String) : List (String × Json) := given key ((text args key).map Json.str)
def optNumber (key : String) : List (String × Json) :=
  match Json.get args key with
  | some (.num value) => [(key, .num value)]
  | _ => []
def flag (key : String) : Json := .bool ((bool? (Json.get args key)).getD false)

def send (path : String) (fields : List (String × Json)) : Plan := .call "POST" path (some (.obj fields)) false
def orRefuse (message : String) (plan : Option Plan) : Plan := plan.getD (.refuse message)

def runConsolidation : Plan :=
  send "/v1/admin/consolidation/run" (optText args "reason" ++ optText args "project" ++ optText args "session_id" ++ optNumber args "limit")

def recordCheckpoint : Plan :=
  orRefuse "session_id, title, content are required" do
    let sessionId ← need args "session_id"
    let title ← need args "title"
    let rawContent ← need args "content"
    some (send "/v1/checkpoints/record" (optText args "platform" ++ optText args "project" ++
      [("session_id", .str sessionId), ("title", .str title), ("content", .str (ts.redact rawContent)),
        ("tags", strings (argStringArray args "tags")), ("privacy_tags", strings (argStringArray args "privacy_tags"))]))

def finalizeSession : Plan :=
  orRefuse "session_id is required" do
    let sessionId ← need args "session_id"
    some (send "/v1/sessions/finalize" (optText args "platform" ++ optText args "project" ++ [("session_id", .str sessionId)] ++
      optText args "correlation_id" ++ optText args "summary_mode" ++
      [("persist_skill", flag args "persist_skill"), ("partial", flag args "partial")]))

-- `toObject` takes an array too; one without keys counts as no event.
def recordEvent : Plan :=
  match Json.get args "event" with
  | some (.obj (first :: rest)) => send "/v1/events/record" [("event", .obj (first :: rest))]
  | some (.arr (first :: rest)) => send "/v1/events/record" [("event", .arr (first :: rest))]
  | _ => .refuse "event is required"

def deleteObservation : Plan :=
  orRefuse "observation_id is required" do
    let observationId ← need args "observation_id"
    some (.call "DELETE" ("/v1/observations/" ++ ts.encodeURIComponent observationId) none false)

def adminImportClaudeMem : Plan :=
  orRefuse "source_db_path is required" do
    let sourceDbPath ← need args "source_db_path"
    some (match ts.importSource sourceDbPath with
      | .error reason => .refuse reason
      | .ok resolvedPath => send "/v1/admin/imports/claude-mem" ([("source_db_path", .str resolvedPath)] ++ optText args "project" ++
          [("dry_run", flag args "dry_run")]))

def adminVerifyImport : Plan :=
  orRefuse "job_id is required" do
    let jobId ← need args "job_id"
    some (send ("/v1/admin/imports/" ++ ts.encodeURIComponent jobId ++ "/verify") [])

def addRelation : Plan :=
  orRefuse "from_observation_id, to_observation_id, relation are required" do
    let fromId ← need args "from_observation_id"
    let toId ← need args "to_observation_id"
    let relation ← need args "relation"
    some (send "/v1/links/create" ([("from_observation_id", .str fromId), ("to_observation_id", .str toId),
      ("relation", .str relation)] ++ optNumber args "weight"))

def bulkAdd : Plan :=
  match Json.get args "events" with
  | some (.arr (first :: rest)) => .bulk (first :: rest)
  | _ => .refuse "events is required and must not be empty"

def bulkDelete : Plan :=
  if argStringArray args "ids" = [] then .refuse "ids is required and must not be empty"
  else send "/v1/observations/bulk-delete" [("ids", strings (argStringArray args "ids"))]

def ingest : Plan :=
  orRefuse "file_path and content are required" do
    let filePath ← need args "file_path"
    let content ← need args "content"
    some (send "/v1/ingest/document" ([("file_path", .str filePath), ("content", .str content)] ++ optText args "kind" ++
      optText args "project" ++ optText args "platform" ++ optText args "session_id" ++ optText args "expires_at" ++ optText args "branch"))

def shareToTeam : Plan :=
  orRefuse "observation_id is required" do
    let observationId ← need args "observation_id"
    some (orRefuse "team_id is required" do
      let teamId ← need args "team_id"
      some (send "/v1/observations/share" [("observation_id", .str observationId), ("team_id", .str teamId)]))

def plan : Tool → Plan
  | .recordCheckpoint => recordCheckpoint ts args
  | .finalizeSession => finalizeSession args
  | .recordEvent => recordEvent args
  | .deleteObservation => deleteObservation ts args
  | .adminReindexVectors => send "/v1/admin/reindex-vectors" (optNumber args "limit")
  | .adminImportClaudeMem => adminImportClaudeMem ts args
  | .adminVerifyImport => adminVerifyImport ts args
  | .adminConsolidationRun => runConsolidation args
  | .addRelation => addRelation args
  | .bulkAdd => bulkAdd args
  | .bulkDelete => bulkDelete args
  | .compress => runConsolidation args
  | .ingest => ingest args
  | .shareToTeam => shareToTeam args
end

/-! The free texts of a body. -/

mutual
def deepStrings : Json → List String
  | .str value => [value]
  | .arr items => itemStrings items
  | .obj entries => entryStrings entries
  | _ => []
def itemStrings : List Json → List String
  | [] => []
  | item :: rest => deepStrings item ++ itemStrings rest
def entryStrings : List (String × Json) → List String
  | [] => []
  | (_, value) :: rest => deepStrings value ++ entryStrings rest
end

-- title, content and tags
def fieldTexts (entries : List (String × Json)) : List String :=
  (Json.text? (Json.get entries "title")).toList ++ (Json.text? (Json.get entries "content")).toList ++ argStringArray entries "tags"

def eventTexts : Json → List String
  | .obj entries => fieldTexts entries ++ ((Json.get entries "payload").map deepStrings).getD []
  | _ => []

def freeTexts : Json → List String
  | .obj entries => fieldTexts entries ++ ((Json.get entries "event").map eventTexts).getD []
  | _ => []

-- The bodies of the requests a tool makes; `bulk_add` makes one for each event.
def bodies : Plan → List Json
  | .refuse _ => []
  | .call _ _ body _ => body.toList
  | .bulk events => events.map (fun event => .obj [("event", event)])

def sent (plan : Plan) : List String := (bodies plan).flatMap freeTexts

/-! What goes out as it was given, and what the filter has been over. -/

section
variable (args : Args)

def checkpointGiven : Option (String × String) := do
  let _ ← need args "session_id"
  let title ← need args "title"
  let content ← need args "content"
  some (title, content)

def eventsGiven : List Json :=
  match Json.get args "events" with
  | some (.arr items) => items
  | _ => []

def ingested : Option String := (need args "file_path").bind fun _ => need args "content"

def asGiven : Tool → List String
  | .recordCheckpoint => (checkpointGiven args).elim [] fun checkpoint => checkpoint.1 :: argStringArray args "tags"
  | .recordEvent => ((Json.get args "event").map eventTexts).getD []
  | .bulkAdd => (eventsGiven args).flatMap eventTexts
  | .ingest => (ingested args).toList
  | _ => []

def masked : Tool → Option String
  | .recordCheckpoint => (checkpointGiven args).map Prod.snd
  | _ => none

end

@[simp] theorem getNil (key : String) : Json.get [] key = none := rfl

@[simp] theorem getCons (field : String × Json) (rest : List (String × Json)) (key : String) :
    Json.get (field :: rest) key = if field.1 = key then some field.2 else Json.get rest key := by
  unfold Json.get
  rw [List.find?_cons]
  by_cases same : field.1 = key <;> simp [same]

@[simp] theorem getAppend (front back : List (String × Json)) (key : String) :
    Json.get (front ++ back) key = (Json.get front key).or (Json.get back key) := by
  induction front with
  | nil => rfl
  | cons field rest ih =>
    rw [List.cons_append, getCons, getCons, ih]
    by_cases same : field.1 = key <;> simp [same]

@[simp] theorem getGiven (name : String) (value : Option Json) (key : String) :
    Json.get (given name value) key = if name = key then value else none := by
  cases value with
  | none => simp [given, Json.get]
  | some held => rw [given, Option.map_some, Option.toList_some, getCons]; rfl

theorem getNumber (args : Args) (name key : String) :
    Json.get (optNumber args name) key = if name = key then Json.get (optNumber args name) key else none := by
  by_cases same : name = key
  · rw [if_pos same]
  · rw [if_neg same, optNumber]
    split
    · rw [getCons, if_neg same]
      rfl
    · rfl

theorem tagsOf {entries : List (String × Json)} {values : List String} (is : Json.get entries "tags" = some (strings values)) :
    argStringArray entries "tags" = values := by
  have texts : (values.map Json.str).filterMap (fun item => Json.text? (some item)) = values := by
    rw [List.filterMap_map]
    exact List.filterMap_some
  rw [argStringArray, is, strings]
  exact texts

theorem checkpointTexts {fields : List (String × Json)} {title content : String} {tags : List String}
    (titleIs : Json.get fields "title" = some (.str title)) (contentIs : Json.get fields "content" = some (.str content))
    (tagsAre : Json.get fields "tags" = some (strings tags)) (event : Json.get fields "event" = none) :
    freeTexts (.obj fields) = title :: content :: tags := by
  rw [freeTexts, fieldTexts, tagsOf tagsAre, titleIs, contentIs, event]
  exact List.append_nil _

theorem contentTexts {fields : List (String × Json)} {content : String}
    (title : Json.get fields "title" = none) (contentIs : Json.get fields "content" = some (.str content))
    (tags : Json.get fields "tags" = none) (event : Json.get fields "event" = none) :
    freeTexts (.obj fields) = [content] := by
  rw [freeTexts, fieldTexts, argStringArray, title, contentIs, tags, event]
  rfl

-- A body without such a field.
def Quiet (fields : List (String × Json)) : Prop :=
  Json.get fields "title" = none ∧ Json.get fields "content" = none ∧ Json.get fields "tags" = none ∧ Json.get fields "event" = none

theorem quietTexts {fields : List (String × Json)} (quiet : Quiet fields) : freeTexts (.obj fields) = [] := by
  obtain ⟨title, content, tags, event⟩ := quiet
  rw [freeTexts, fieldTexts, argStringArray, title, content, tags, event]
  rfl

theorem sentOrRefuse (message : String) (plan : Option Plan) : sent (orRefuse message plan) = (plan.map sent).getD [] := by
  cases plan <;> rfl

theorem sentSend (path : String) (fields : List (String × Json)) : sent (send path fields) = freeTexts (.obj fields) :=
  List.append_nil _

theorem sentBulk (events : List Json) : sent (.bulk events) = events.flatMap eventTexts := by
  have each : ∀ event, freeTexts (.obj [("event", event)]) = eventTexts event := fun event => rfl
  simp only [sent, bodies, List.flatMap_map, each]

theorem sentRefuse {message : String} {plan : Option Plan} (quiet : ∀ made, plan = some made → sent made = []) :
    sent (orRefuse message plan) = [] := by
  cases plan with
  | none => rfl
  | some made => exact quiet made rfl

theorem consolidationQuiet (args : Args) : sent (runConsolidation args) = [] :=
  (sentSend _ _).trans (quietTexts (by simp [Quiet, optText, getNumber]))

theorem sentNothing (ts : Ts) (args : Args) {tool : Tool} (other : tool ∉ [.recordCheckpoint, .recordEvent, .bulkAdd, .ingest]) :
    sent (plan ts args tool) = [] := by
  cases tool with
  | recordCheckpoint | recordEvent | bulkAdd | ingest => exact absurd (by decide) other
  | finalizeSession =>
    refine sentRefuse fun made is => ?_
    obtain ⟨sessionId, -, last⟩ := Option.bind_eq_some_iff.mp is
    cases last
    exact (sentSend _ _).trans (quietTexts (by simp [Quiet, optText]))
  | deleteObservation =>
    refine sentRefuse fun made is => ?_
    obtain ⟨observationId, -, last⟩ := Option.bind_eq_some_iff.mp is
    cases last
    rfl
  | adminReindexVectors => exact (sentSend _ _).trans (quietTexts (by simp [Quiet, getNumber]))
  | adminImportClaudeMem =>
    refine sentRefuse fun made is => ?_
    obtain ⟨sourceDbPath, -, last⟩ := Option.bind_eq_some_iff.mp is
    cases last
    split
    · rfl
    · exact (sentSend _ _).trans (quietTexts (by simp [Quiet, optText]))
  | adminVerifyImport =>
    refine sentRefuse fun made is => ?_
    obtain ⟨jobId, -, last⟩ := Option.bind_eq_some_iff.mp is
    cases last
    exact (sentSend _ _).trans (quietTexts (by simp [Quiet]))
  | adminConsolidationRun | compress => exact consolidationQuiet args
  | addRelation =>
    refine sentRefuse fun made is => ?_
    obtain ⟨fromId, -, is⟩ := Option.bind_eq_some_iff.mp is
    obtain ⟨toId, -, is⟩ := Option.bind_eq_some_iff.mp is
    obtain ⟨relation, -, last⟩ := Option.bind_eq_some_iff.mp is
    cases last
    exact (sentSend _ _).trans (quietTexts (by simp [Quiet, getNumber]))
  | bulkDelete =>
    change sent (bulkDelete args) = []
    unfold bulkDelete
    split
    · rfl
    · exact (sentSend _ _).trans (quietTexts (by simp [Quiet]))
  | shareToTeam =>
    refine sentRefuse fun made is => ?_
    obtain ⟨observationId, -, last⟩ := Option.bind_eq_some_iff.mp is
    cases last
    refine sentRefuse fun made is => ?_
    obtain ⟨teamId, -, last⟩ := Option.bind_eq_some_iff.mp is
    cases last
    exact (sentSend _ _).trans (quietTexts (by simp [Quiet]))

theorem sentEvent (args : Args) : sent (recordEvent args) = ((Json.get args "event").map eventTexts).getD [] := by
  unfold recordEvent
  cases Json.get args "event" with
  | none => rfl
  | some event =>
    cases event with
    | obj entries => cases entries <;> first | rfl | exact List.append_nil _
    | arr items => cases items <;> rfl
    | _ => rfl

theorem sentEvents (args : Args) : sent (bulkAdd args) = (eventsGiven args).flatMap eventTexts := by
  unfold bulkAdd eventsGiven
  cases Json.get args "events" with
  | none => rfl
  | some events =>
    cases events with
    | arr items => cases items <;> first | rfl | exact sentBulk _
    | _ => rfl

theorem sentDocument (args : Args) : sent (ingest args) = (ingested args).toList := by
  simp only [ingest, ingested, sentOrRefuse]
  cases need args "file_path" with
  | none => rfl
  | some filePath =>
    cases need args "content" with
    | none => rfl
    | some content =>
      exact (sentSend _ _).trans (contentTexts (by simp [optText]) (by simp) (by simp [optText]) (by simp [optText]))

theorem sentCheckpoint (ts : Ts) (args : Args) : sent (recordCheckpoint ts args) =
    ((checkpointGiven args).map fun checkpoint =>
      checkpoint.1 :: ts.redact checkpoint.2 :: argStringArray args "tags").getD [] := by
  simp only [recordCheckpoint, checkpointGiven, sentOrRefuse]
  cases need args "session_id" with
  | none => rfl
  | some sessionId =>
    cases need args "title" with
    | none => rfl
    | some title =>
      cases need args "content" with
      | none => rfl
      | some content =>
        exact (sentSend _ _).trans (checkpointTexts (by simp [optText]) (by simp [optText]) (by simp [optText]) (by simp [optText]))

-- A text that leaves was given so, or is what the filter makes of a checkpoint's content.
theorem sentIff (ts : Ts) (args : Args) (tool : Tool) (text : String) : text ∈ sent (plan ts args tool) ↔
    text ∈ asGiven args tool ∨ ∃ content, masked args tool = some content ∧ text = ts.redact content := by
  by_cases silent : tool ∉ [.recordCheckpoint, .recordEvent, .bulkAdd, .ingest]
  · rw [sentNothing ts args silent]
    cases tool <;> first | exact absurd (by decide) silent | simp [asGiven, masked]
  · rw [not_not] at silent
    simp only [List.mem_cons, List.not_mem_nil, or_false] at silent
    rcases silent with rfl | rfl | rfl | rfl
    · change text ∈ sent (recordCheckpoint ts args) ↔ _
      rw [sentCheckpoint, asGiven, masked]
      cases checkpointGiven args with
      | none => simp
      | some checkpoint => simp; tauto
    · change text ∈ sent (recordEvent args) ↔ _
      simp [sentEvent, asGiven, masked]
    · change text ∈ sent (bulkAdd args) ↔ _
      simp [sentEvents, asGiven, masked]
    · change text ∈ sent (ingest args) ↔ _
      simp [sentDocument, asGiven, masked]

/-! The Go server. -/

section
variable (args : Args) (go : GoTools.Go)

def missing (keys : List String) : Bool := keys.any (fun key => GoTools.argString args key = "")

def goAsGiven : GoTools.Tool → List String
  | .recordCheckpoint =>
    if missing args ["session_id", "title", "content"] then [] else GoTools.argString args "title" :: argStringArray args "tags"
  | .recordEvent => ((GoTools.argObject args "event").map fun entries => eventTexts (.obj entries)).getD []
  | .bulkAdd => (eventsGiven args).flatMap eventTexts
  | .ingest => if missing args ["file_path", "content"] then [] else [GoTools.argString args "content"]
  | .signalSend =>
    if missing args ["from", "content"] || go.projectScope args = "" && GoTools.argString args "reply_to" = "" then []
    else [GoTools.argString args "content"]
  | _ => []

def goMasked : GoTools.Tool → Option String
  | .recordCheckpoint => if missing args ["session_id", "title", "content"] then none else some (GoTools.argString args "content")
  | _ => none

theorem sentDemand (keys : List String) (message : String) (plan : Plan) :
    sent (GoTools.demand args keys message plan) = if missing args keys then [] else sent plan := by
  unfold GoTools.demand missing
  split <;> rfl

theorem quietDemand {keys : List String} {message : String} {plan : Plan} (quiet : sent plan = []) :
    sent (GoTools.demand args keys message plan) = [] := by
  rw [sentDemand, quiet, ite_self]

theorem sentPost (path : String) (fields : List (String × Json)) : sent (GoTools.post path fields) = freeTexts (.obj fields) :=
  List.append_nil _

theorem quietPost {path : String} {fields : List (String × Json)} (quiet : Quiet fields) : sent (GoTools.post path fields) = [] :=
  (sentPost path fields).trans (quietTexts quiet)

theorem goSentNothing {tool : GoTools.Tool}
    (other : tool ∉ [.recordCheckpoint, .recordEvent, .bulkAdd, .ingest, .signalSend]) : sent (GoTools.plan args go tool) = [] := by
  cases tool with
  | recordCheckpoint | recordEvent | bulkAdd | ingest | signalSend => exact absurd (by decide) other
  | sessionsList | searchFacets | health | adminMetrics | adminConsolidationStatus | adminAuditLog | export_ | stats => rfl
  | sessionThread | adminImportStatus | graph | deleteObservation => exact quietDemand args rfl
  | resumePack | timeline | verify | finalizeSession | adminVerifyImport | addRelation | leaseRelease | signalAck =>
    exact quietDemand args (quietPost (by simp [Quiet, GoTools.leaseFields]))
  | leaseRenew => exact quietDemand args (quietPost (by simp [Quiet, GoTools.leaseFields, GoTools.givenNum]))
  | shareToTeam => exact quietDemand args (quietDemand args (quietPost (by simp [Quiet])))
  | search => exact quietDemand args ((List.append_nil _).trans (quietTexts (by simp [Quiet])))
  | adminReindexVectors => exact quietPost (by simp [Quiet])
  | adminConsolidationRun | compress => exact quietPost (by simp [Quiet, GoTools.givenObj])
  | getObservations | bulkDelete =>
    simp only [GoTools.plan, GoTools.ids]
    split
    · rfl
    · exact quietPost (by simp [Quiet])
  | adminImportClaudeMem =>
    refine quietDemand args ?_
    split
    · rfl
    · exact quietPost (by simp [Quiet])
  | leaseAcquire =>
    refine quietDemand args ?_
    split
    · rfl
    · exact quietPost (by simp [Quiet, GoTools.givenNum, GoTools.givenObj])
  | signalRead =>
    refine quietDemand args ?_
    split
    · rfl
    · exact quietPost (by simp [Quiet, GoTools.givenStr, GoTools.givenNum])

theorem goSentEvent : sent (GoTools.recordEvent args) =
    ((GoTools.argObject args "event").map fun entries => eventTexts (.obj entries)).getD [] := by
  unfold GoTools.recordEvent
  cases GoTools.argObject args "event" with
  | none => rfl
  | some entries => cases entries <;> first | rfl | exact List.append_nil _

theorem goSentEvents : sent (GoTools.bulkAdd args) = (eventsGiven args).flatMap eventTexts := by
  unfold GoTools.bulkAdd eventsGiven
  cases Json.get args "events" with
  | none => rfl
  | some events =>
    cases events with
    | arr items => cases items <;> first | rfl | exact sentBulk _
    | _ => rfl

theorem goSentCheckpoint : sent (GoTools.recordCheckpoint args go) =
    if missing args ["session_id", "title", "content"] then [] else
      GoTools.argString args "title" :: go.redact (GoTools.argString args "content") :: argStringArray args "tags" := by
  refine (sentDemand args _ _ _).trans ?_
  by_cases gone : missing args ["session_id", "title", "content"] = true
  · rw [if_pos gone, if_pos gone]
  · rw [if_neg gone, if_neg gone]
    exact (sentPost _ _).trans (checkpointTexts (by simp) (by simp) (by simp) (by simp))

theorem goSentDocument : sent (GoTools.ingest args) =
    if missing args ["file_path", "content"] then [] else [GoTools.argString args "content"] := by
  refine (sentDemand args _ _ _).trans ?_
  by_cases gone : missing args ["file_path", "content"] = true
  · rw [if_pos gone, if_pos gone]
  · rw [if_neg gone, if_neg gone]
    exact (sentPost _ _).trans (contentTexts (by simp) (by simp) (by simp) (by simp))

theorem goSentSignal : sent (GoTools.signalSend args go) = goAsGiven args go .signalSend := by
  refine (sentDemand args _ _ _).trans ?_
  rw [goAsGiven]
  by_cases gone : missing args ["from", "content"] = true
  · simp [gone]
  · by_cases homeless : go.projectScope args = "" ∧ GoTools.argString args "reply_to" = ""
    · simp [homeless, sent, bodies]
    · have sited : (decide (go.projectScope args = "") && decide (GoTools.argString args "reply_to" = "")) = false := by
        rw [← Bool.decide_and, decide_eq_false homeless]
      rw [if_neg gone, if_neg homeless, sited, Bool.or_false, if_neg gone]
      exact (sentPost _ _).trans (contentTexts (by simp [GoTools.givenStr, GoTools.givenNum]) (by simp)
        (by simp [GoTools.givenStr, GoTools.givenNum]) (by simp [GoTools.givenStr, GoTools.givenNum]))

theorem goSentIff (tool : GoTools.Tool) (text : String) : text ∈ sent (GoTools.plan args go tool) ↔
    text ∈ goAsGiven args go tool ∨ ∃ content, goMasked args tool = some content ∧ text = go.redact content := by
  by_cases silent : tool ∉ [.recordCheckpoint, .recordEvent, .bulkAdd, .ingest, .signalSend]
  · rw [goSentNothing args go silent]
    cases tool <;> first | exact absurd (by decide) silent | simp [goAsGiven, goMasked]
  · rw [not_not] at silent
    simp only [List.mem_cons, List.not_mem_nil, or_false] at silent
    rcases silent with rfl | rfl | rfl | rfl | rfl
    · change text ∈ sent (GoTools.recordCheckpoint args go) ↔ _
      rw [goSentCheckpoint, goAsGiven, goMasked]
      split <;> simp
      tauto
    · change text ∈ sent (GoTools.recordEvent args) ↔ _
      simp [goSentEvent, goAsGiven, goMasked]
    · change text ∈ sent (GoTools.bulkAdd args) ↔ _
      simp [goSentEvents, goAsGiven, goMasked]
    · change text ∈ sent (GoTools.ingest args) ↔ _
      simp [goSentDocument, goAsGiven, goMasked]
    · change text ∈ sent (GoTools.signalSend args go) ↔ _
      simp [goSentSignal, goMasked]

end

/-! A rule of those in force finds nothing in a text. -/

def Clean (finds : String → String → Bool) (patterns : List String) (text : String) : Prop :=
  ∀ pattern ∈ patterns, finds pattern text = false

def patternsInForce (env : Environment) : List String := ((getActivePiiRules env).getD []).map PiiRule.pattern
def goPatternsInForce (engines : Engines) (env : Environment) : List String :=
  ((getActiveRules engines env).getD []).map Rule.pattern

-- No free text that leaves holds a match exactly if none of those passed on as given does, and the
-- filter leaves none in the content of a checkpoint; so for every tool of either server.
theorem piiLeaves (engines : Engines) (finds goFinds : String → String → Bool) (env : Environment) (ts : Ts) (go : GoTools.Go)
    (args : Args) :
    (∀ tool, (∀ text ∈ sent (plan {ts with redact := filtered engines env} args tool), Clean finds (patternsInForce env) text) ↔
      (∀ text ∈ asGiven args tool, Clean finds (patternsInForce env) text) ∧
        ∀ content, masked args tool = some content → Clean finds (patternsInForce env) (filtered engines env content)) ∧
    (∀ tool, (∀ text ∈ sent (GoTools.plan args {go with redact := goFiltered engines env} tool),
        Clean goFinds (goPatternsInForce engines env) text) ↔
      (∀ text ∈ goAsGiven args go tool, Clean goFinds (goPatternsInForce engines env) text) ∧
        ∀ content, goMasked args tool = some content →
          Clean goFinds (goPatternsInForce engines env) (goFiltered engines env content)) := by
  have split : ∀ (given : List String) (masks : Option String) (redact : String → String) (holds : String → Prop),
      (∀ text, (text ∈ given ∨ ∃ content, masks = some content ∧ text = redact content) → holds text) ↔
        (∀ text ∈ given, holds text) ∧ ∀ content, masks = some content → holds (redact content) := by
    intro given masks redact holds
    constructor
    · exact fun all => ⟨fun text mem => all text (.inl mem), fun content is => all _ (.inr ⟨content, is, rfl⟩)⟩
    · rintro ⟨asIs, changed⟩ text (mem | ⟨content, is, rfl⟩)
      · exact asIs text mem
      · exact changed content is
  constructor
  · intro tool
    simp only [sentIff]
    exact split _ _ _ _
  · intro tool
    have same : goAsGiven args {go with redact := goFiltered engines env} tool = goAsGiven args go tool := by
      cases tool <;> rfl
    simp only [goSentIff, same]
    exact split _ _ _ _

def treeFinds (trees : List (String × Regex.Re)) (pattern text : String) : Bool :=
  ((trees.find? (fun tree => tree.1 = pattern)).map fun tree => Regex.test tree.2 text).getD false
def plainTs : Ts := ⟨id, .ok, id⟩
def plainGo : GoTools.Go := ⟨fun _ => 0, id, fun _ => "", fun _ => "crew", .ok, id⟩

def calling (number : String) : Args :=
  [("session_id", .str "s1"), ("title", .str ("call " ++ number)), ("content", .str ("call " ++ number))]
def mailing (address : String) : Args := [("event", .obj [("payload", .obj [("from", .obj [("mail", .str address)])])])]

-- With the built-in rules, whose replacements hold no match, a checkpoint's title and an event's payload
-- leave as they are.
theorem titleLeaves :
    (∀ replacement ∈ ["[PHONE]", "[EMAIL]", "[LINE_ID]"],
      (jsTrees.all fun tree => !treeFinds jsTrees tree.1 replacement) = true ∧
      (goTrees.all fun tree => !treeFinds goTrees tree.1 replacement) = true) ∧
    (¬ ∀ text ∈ sent (plan {plainTs with redact := filtered tableEngines (environment "true")} (calling "090-1234-5678") .recordCheckpoint),
      Clean (treeFinds jsTrees) (patternsInForce (environment "true")) text) ∧
    (¬ ∀ text ∈ sent (plan {plainTs with redact := filtered tableEngines (environment "true")} (mailing "taro@example.com") .recordEvent),
      Clean (treeFinds jsTrees) (patternsInForce (environment "true")) text) ∧
    (¬ ∀ text ∈ sent (GoTools.plan (calling "090-1234-5678") {plainGo with redact := goFiltered tableEngines (environment "true")}
        .recordCheckpoint), Clean (treeFinds goTrees) (goPatternsInForce tableEngines (environment "true")) text) ∧
    (¬ ∀ text ∈ sent (GoTools.plan (mailing "taro@example.com") {plainGo with redact := goFiltered tableEngines (environment "true")}
        .recordEvent), Clean (treeFinds goTrees) (goPatternsInForce tableEngines (environment "true")) text) := by
  refine ⟨by decide, fun all => ?_, fun all => ?_, fun all => ?_, fun all => ?_⟩
  · have clean := all "call 090-1234-5678" (by decide +kernel) phonePattern (by decide +kernel)
    exact absurd clean (by decide)
  · have clean := all "taro@example.com" (by decide +kernel) emailPattern (by decide +kernel)
    exact absurd clean (by decide)
  · have clean := all "call 090-1234-5678" (by decide +kernel) goPhonePattern (by decide +kernel)
    exact absurd clean (by decide)
  · have clean := all "taro@example.com" (by decide +kernel) goEmailPattern (by decide +kernel)
    exact absurd clean (by decide)

end HarnessMem.PiiRequests
