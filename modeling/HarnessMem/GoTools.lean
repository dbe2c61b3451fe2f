import HarnessMem.Json
import HarnessMem.Text

/-! The memory tools of the Go MCP server: what each does with its arguments before the memory
server is asked. A tool refuses, makes one request, or makes one request for each event. -/
namespace HarnessMem.GoTools

abbrev Args := List (String × Json)

-- What the tools take from Go's libraries, the file system and the PII filter in force.
structure Go where
  truncate : String → Int
  pathEscape : String → String
  encode : List (String × String) → String
  projectScope : Args → String
  importSource : String → Except String String
  redact : String → String

inductive Plan
  | refuse (message : String)
  | call (method path : String) (body : Option Json) (citations : Bool)
  | bulk (events : List Json)

inductive Tool
  | resumePack | search | timeline | getObservations | verify | sessionsList | sessionThread | searchFacets | recordCheckpoint
  | finalizeSession | recordEvent | health | deleteObservation | adminImportClaudeMem | adminImportStatus | adminVerifyImport
  | adminReindexVectors | adminMetrics | adminConsolidationRun | adminConsolidationStatus | adminAuditLog | addRelation | bulkAdd
  | bulkDelete | export_ | compress | stats | ingest | graph | shareToTeam | leaseAcquire | leaseRelease | leaseRenew | signalSend
  | signalRead | signalAck
  deriving DecidableEq, Repr

def tools : List (String × Tool) :=
  [("harness_mem_resume_pack", .resumePack), ("harness_mem_search", .search), ("harness_mem_timeline", .timeline),
    ("harness_mem_get_observations", .getObservations), ("harness_mem_verify", .verify), ("harness_mem_sessions_list", .sessionsList),
    ("harness_mem_session_thread", .sessionThread), ("harness_mem_search_facets", .searchFacets),
    ("harness_mem_record_checkpoint", .recordCheckpoint), ("harness_mem_finalize_session", .finalizeSession),
    ("harness_mem_record_event", .recordEvent), ("harness_mem_health", .health), ("harness_mem_delete_observation", .deleteObservation),
    ("harness_mem_admin_import_claude_mem", .adminImportClaudeMem), ("harness_mem_admin_import_status", .adminImportStatus),
    ("harness_mem_admin_verify_import", .adminVerifyImport), ("harness_mem_admin_reindex_vectors", .adminReindexVectors),
    ("harness_mem_admin_metrics", .adminMetrics), ("harness_mem_admin_consolidation_run", .adminConsolidationRun),
    ("harness_mem_admin_consolidation_status", .adminConsolidationStatus), ("harness_mem_admin_audit_log", .adminAuditLog),
    ("harness_mem_add_relation", .addRelation), ("harness_mem_bulk_add", .bulkAdd), ("harness_mem_bulk_delete", .bulkDelete),
    ("harness_mem_export", .export_), ("harness_mem_compress", .compress), ("harness_mem_stats", .stats), ("harness_mem_ingest", .ingest),
    ("harness_mem_graph", .graph), ("harness_mem_share_to_team", .shareToTeam), ("harness_mem_lease_acquire", .leaseAcquire),
    ("harness_mem_lease_release", .leaseRelease), ("harness_mem_lease_renew", .leaseRenew), ("harness_mem_signal_send", .signalSend),
    ("harness_mem_signal_read", .signalRead), ("harness_mem_signal_ack", .signalAck)]

section
variable (args : Args)

def argString (key : String) : String := (Json.text? (Json.get args key)).getD ""
def argNumber (key : String) : Option String :=
  match Json.get args key with
  | some (.num text) => some text
  | _ => none
def bool? : Option Json → Option Bool
  | some (.bool value) => some value
  | _ => none
def argBool (key : String) (fallback : Bool) : Bool := (bool? (Json.get args key)).getD fallback
def argStringArray (key : String) : List String :=
  match Json.get args key with
  | some (.arr items) => items.filterMap (fun item => Json.text? (some item))
  | _ => []
def argObject (key : String) : Option (List (String × Json)) :=
  match Json.get args key with
  | some (.obj entries) => some entries
  | _ => none

def optNum (key : String) : Json := ((argNumber args key).map Json.num).getD .null
def optStr (key : String) : Json := if argString args key = "" then .null else .str (argString args key)
def strings (values : List String) : Json := .arr (values.map .str)

-- Fields that are sent only when given.
def given (key : String) (value : Option Json) : List (String × Json) := (value.map fun value => (key, value)).toList
def givenStr (key : String) : List (String × Json) := given key (if argString args key = "" then none else some (.str (argString args key)))
def givenNum (key : String) : List (String × Json) := given key ((argNumber args key).map Json.num)
def givenObj (key : String) : List (String × Json) := given key ((argObject args key).map Json.obj)

def post (path : String) (fields : List (String × Json)) : Plan := .call "POST" path (some (.obj fields)) false
def get (path : String) : Plan := .call "GET" path none false

def shown (value : Bool) : String := if value then "true" else "false"
def queryStr (name key : String) : List (String × String) := if argString args key = "" then [] else [(name, argString args key)]
def queryPrivate : List (String × String) := [("include_private", shown (argBool args "include_private" false))]

variable (go : Go)

def queryInt (key : String) : List (String × String) := ((argNumber args key).map fun n => (key, toString (go.truncate n))).toList

-- A refusal unless the arguments named are given.
def demand (keys : List String) (message : String) (plan : Plan) : Plan :=
  if keys.any (fun key => argString args key = "") then .refuse message else plan

def runConsolidation : Plan :=
  post "/v1/admin/consolidation/run" ([("reason", .str (argString args "reason")), ("project", .str (argString args "project")),
    ("session_id", .str (argString args "session_id")), ("limit", optNum args "limit")] ++ givenObj args "forget_policy" ++
    givenObj args "contradiction_scan")

def resumePack : Plan :=
  demand args ["project"] "project is required" (post "/v1/resume-pack" [("project", .str (argString args "project")),
    ("session_id", optStr args "session_id"), ("correlation_id", optStr args "correlation_id"), ("limit", optNum args "limit"),
    ("include_private", .bool (argBool args "include_private" false)), ("include_partial", .bool (argBool args "include_partial" true)),
    ("summary_only", .bool (argBool args "summary_only" false))])

def search : Plan :=
  demand args ["query"] "query is required" (.call "POST" "/v1/search" (some (.obj [("query", .str (argString args "query")),
    ("project", optStr args "project"), ("session_id", optStr args "session_id"), ("since", optStr args "since"), ("until", optStr args "until"),
    ("limit", optNum args "limit"), ("include_private", .bool (argBool args "include_private" false)),
    ("sort_by", if argString args "sort_by" ∈ ["relevance", "date_desc", "date_asc"] then .str (argString args "sort_by") else .null),
    ("observation_type", optStr args "observation_type")])) true)

def recordCheckpoint : Plan :=
  demand args ["session_id", "title", "content"] "session_id, title, content are required" (post "/v1/checkpoints/record"
    [("platform", optStr args "platform"), ("project", optStr args "project"), ("session_id", .str (argString args "session_id")),
      ("title", .str (argString args "title")), ("content", .str (go.redact (argString args "content"))),
      ("tags", strings (argStringArray args "tags")), ("privacy_tags", strings (argStringArray args "privacy_tags"))])

def finalizeSession : Plan :=
  demand args ["session_id"] "session_id is required" (post "/v1/sessions/finalize" [("platform", optStr args "platform"),
    ("project", optStr args "project"), ("session_id", .str (argString args "session_id")), ("correlation_id", optStr args "correlation_id"),
    ("summary_mode", optStr args "summary_mode"), ("partial", .bool (argBool args "partial" false)),
    ("persist_skill", .bool (argBool args "persist_skill" false))])

def recordEvent : Plan :=
  match argObject args "event" with
  | some (first :: rest) => post "/v1/events/record" [("event", .obj (first :: rest))]
  | _ => .refuse "event is required"

def bulkAdd : Plan :=
  match Json.get args "events" with
  | some (.arr (first :: rest)) => .bulk (first :: rest)
  | _ => .refuse "events is required and must not be empty"

def ids (message path : String) (fields : List (String × Json)) : Plan :=
  if argStringArray args "ids" = [] then .refuse message else post path (("ids", strings (argStringArray args "ids")) :: fields)

def adminImportClaudeMem : Plan :=
  demand args ["source_db_path"] "source_db_path is required" (match go.importSource (argString args "source_db_path") with
    | .error reason => .refuse reason
    | .ok resolved => post "/v1/admin/imports/claude-mem" [("source_db_path", .str resolved), ("project", optStr args "project"),
        ("dry_run", .bool (argBool args "dry_run" false))])

def ingest : Plan :=
  demand args ["file_path", "content"] "file_path and content are required" (post "/v1/ingest/document"
    [("file_path", .str (argString args "file_path")), ("content", .str (argString args "content")), ("kind", optStr args "kind"),
      ("project", optStr args "project"), ("platform", optStr args "platform"), ("session_id", optStr args "session_id"),
      ("expires_at", optStr args "expires_at")])

def depth : List (String × String) :=
  ((argNumber args "depth").map fun n => ("depth", toString (min (max (go.truncate n) 1) 5))).toList

def shareToTeam : Plan :=
  demand args ["observation_id"] "observation_id is required" (demand args ["team_id"] "team_id is required" (post "/v1/observations/share"
    [("observation_id", .str (argString args "observation_id")), ("team_id", .str (argString args "team_id"))]))

def leaseAcquire : Plan :=
  demand args ["target", "agent_id"] "target and agent_id are required" (if go.projectScope args = "" then
      .refuse "scope_required: pass project or cwd to avoid cross-repo collisions on shared targets. If you really want a global lease, pass project=\"__global__\" explicitly."
    else post "/v1/lease/acquire" ([("target", .str (argString args "target")), ("agent_id", .str (argString args "agent_id")),
      ("project", .str (go.projectScope args))] ++ givenNum args "ttl_ms" ++ givenObj args "metadata"))

def leaseFields : List (String × Json) := [("lease_id", .str (argString args "lease_id")), ("agent_id", .str (argString args "agent_id"))]

def signalSend : Plan :=
  demand args ["from", "content"] "from and content are required" (if go.projectScope args = "" ∧ argString args "reply_to" = "" then
      .refuse "scope_required: pass project or cwd (or reply_to to inherit the parent's scope) so signals stay repo-isolated."
    else post "/v1/signal/send" ([("from", .str (argString args "from")), ("content", .str (argString args "content"))] ++ givenStr args "to" ++
      givenStr args "thread_id" ++ givenStr args "reply_to" ++
      given "project" (if go.projectScope args = "" then none else some (.str (go.projectScope args))) ++ givenNum args "expires_in_ms"))

def signalRead : Plan :=
  demand args ["agent_id"] "agent_id is required" (if go.projectScope args = "" then
      .refuse "scope_required: pass project or cwd to read repo-scoped signals. The cross-project (admin) view is available only via the HTTP /v1/signal/read endpoint."
    else post "/v1/signal/read" ([("agent_id", .str (argString args "agent_id")), ("project", .str (go.projectScope args))] ++
      givenStr args "thread_id" ++ given "include_broadcast" ((bool? (Json.get args "include_broadcast")).map Json.bool) ++ givenNum args "limit"))

def plan : Tool → Plan
  | .resumePack => resumePack args
  | .search => search args
  | .timeline => demand args ["id"] "id is required" (post "/v1/timeline" [("id", .str (argString args "id")), ("before", optNum args "before"),
      ("after", optNum args "after"), ("include_private", .bool (argBool args "include_private" false))])
  | .getObservations => ids args "ids is required" "/v1/observations/get"
      [("include_private", .bool (argBool args "include_private" false)), ("compact", .bool (argBool args "compact" true))]
  | .verify => demand args ["observation_id"] "observation_id is required" (post "/v1/observations/verify"
      [("observation_id", .str (argString args "observation_id")), ("include_private", .bool (argBool args "include_private" false)),
        ("include_archived", .bool (argBool args "include_archived" false))])
  | .sessionsList => get ("/v1/sessions/list?" ++ go.encode (queryStr args "project" "project" ++ queryInt args go "limit" ++ queryPrivate args))
  | .sessionThread => demand args ["session_id"] "session_id is required" (get ("/v1/sessions/thread?" ++
      go.encode (queryStr args "session_id" "session_id" ++ queryStr args "project" "project" ++ queryInt args go "limit" ++ queryPrivate args)))
  | .searchFacets => get ("/v1/search/facets?" ++ go.encode (queryStr args "query" "query" ++ queryStr args "project" "project" ++ queryPrivate args))
  | .recordCheckpoint => recordCheckpoint args go
  | .finalizeSession => finalizeSession args
  | .recordEvent => recordEvent args
  | .health => get "/health"
  | .deleteObservation => demand args ["observation_id"] "observation_id is required"
      (.call "DELETE" ("/v1/observations/" ++ go.pathEscape (argString args "observation_id")) none false)
  | .adminImportClaudeMem => adminImportClaudeMem args go
  | .adminImportStatus => demand args ["job_id"] "job_id is required" (get ("/v1/admin/imports/" ++ go.pathEscape (argString args "job_id")))
  | .adminVerifyImport => demand args ["job_id"] "job_id is required"
      (post ("/v1/admin/imports/" ++ go.pathEscape (argString args "job_id") ++ "/verify") [])
  | .adminReindexVectors => post "/v1/admin/reindex-vectors" [("limit", optNum args "limit")]
  | .adminMetrics => get "/v1/admin/metrics"
  | .adminConsolidationRun => runConsolidation args
  | .adminConsolidationStatus => get "/v1/admin/consolidation/status"
  | .adminAuditLog => get ("/v1/admin/audit-log?" ++
      go.encode (queryInt args go "limit" ++ queryStr args "action" "action" ++ queryStr args "target_type" "target_type"))
  | .addRelation => demand args ["from_observation_id", "to_observation_id", "relation"]
      "from_observation_id, to_observation_id, relation are required" (post "/v1/links/create"
      [("from_observation_id", .str (argString args "from_observation_id")), ("to_observation_id", .str (argString args "to_observation_id")),
        ("relation", .str (argString args "relation")), ("weight", optNum args "weight")])
  | .bulkAdd => bulkAdd args
  | .bulkDelete => ids args "ids is required and must not be empty" "/v1/observations/bulk-delete" []
  | .export_ => get ("/v1/export?" ++ go.encode (queryStr args "project" "project" ++ queryInt args go "limit" ++ queryPrivate args))
  | .compress => runConsolidation args
  | .stats => get ("/v1/projects/stats?" ++ go.encode (queryPrivate args))
  | .ingest => ingest args
  | .graph => demand args ["observation_id"] "observation_id is required" (get ("/v1/graph/neighbors?" ++
      go.encode (queryStr args "observation_id" "observation_id" ++ queryStr args "relation" "relation" ++ depth args go)))
  | .shareToTeam => shareToTeam args
  | .leaseAcquire => leaseAcquire args go
  | .leaseRelease => demand args ["lease_id", "agent_id"] "lease_id and agent_id are required" (post "/v1/lease/release" (leaseFields args))
  | .leaseRenew => demand args ["lease_id", "agent_id"] "lease_id and agent_id are required"
      (post "/v1/lease/renew" (leaseFields args ++ givenNum args "ttl_ms"))
  | .signalSend => signalSend args go
  | .signalRead => signalRead args go
  | .signalAck => demand args ["signal_id", "agent_id"] "signal_id and agent_id are required" (post "/v1/signal/ack"
      [("signal_id", .str (argString args "signal_id")), ("agent_id", .str (argString args "agent_id"))])

def planOf (name : String) : Plan :=
  match tools.find? (fun tool => tool.1 = name) with
  | some tool => plan args go tool.2
  | none => .refuse ("Unknown memory tool: " ++ name)
end

end HarnessMem.GoTools
