import HarnessMem.Schema
import HarnessMem.Text

/-! Event envelopes, and what `recordEvent` computes from one before it writes anything.
Everything read from outside the envelope and the tables is in `Ambient`. -/
namespace HarnessMem.Recorder
open Js Text

structure EventEnvelope where
  eventId : Option String
  platform : String
  project : String
  sessionId : String
  eventType : String
  ts : Option String
  payload : Option (List (String × Json))
  metadata : Option (List (String × Json))
  tags : List String
  privacyTags : List String
  dedupeHash : Option String
  correlationId : Option String
  userId : Option String
  teamId : Option String
  threadId : Option String
  topic : Option String
  expiresAt : Option Json
  eventTime : Option Json
  observedAt : Option Json
  validFrom : Option Json
  validTo : Option Json
  supersedes : Option Json
  invalidatedAt : Option Json
  branch : Option String

inductive GateMode where | block | warn | audit
  deriving DecidableEq, Repr

structure EmbeddingFailure where
  name : Option String
  code : Option String
  message : String
  retryable : Option Bool
  deriving DecidableEq, Repr

-- One call's configuration, environment, clock readings and generated ids. The embedding
-- provider answers with the vector's JSON text; a plan lists the model of each vector too.
structure Ambient where
  clock : Nat → String
  freshId : String
  nuggetId : Nat → String
  captureEnabled : Bool
  managedRequired : Bool
  managedConnected : Bool
  userId : Option String
  teamId : Option String
  normalizeProject : String → Except String String
  gateEnabled : Bool
  gateMode : GateMode
  gitTagExists : String → Bool
  rawMode : Bool
  autoLinkSemantic : Bool
  vectorDisabled : Bool
  vectorDimension : Nat
  vectorModel : String
  embedContent : String → Except EmbeddingFailure String
  passageEmbeddings : Option (String → Except EmbeddingFailure (List (String × String)))
  jaccardThreshold : ℚ

def truthy (value : Option String) : Option String := value.filter (fun s => s ≠ "")
def trimmed (value : Option String) : Option String := truthy (value.map trim)
def orUnknown (s : String) : String := if s = "" then "unknown" else s
def texts (tags : List String) : Json := .arr (tags.map .str)
def payloadOf (e : EventEnvelope) : List (String × Json) := e.payload.getD []

def buildDedupeHash (host : Host) (e : EventEnvelope) : String :=
  host.sha256 (Json.stringify (.obj
    [("platform", .str (host.toLowerCase (trim (orUnknown e.platform)))),
      ("project", .str (trim (orUnknown e.project))),
      ("session_id", .str (trim (orUnknown e.sessionId))),
      ("event_type", .str (host.toLowerCase (trim (orUnknown e.eventType)))),
      ("ts", .str (trim (e.ts.getD ""))),
      ("payload", .obj (payloadOf e)),
      ("tags", texts (normalizeTags host e.tags)),
      ("privacy_tags", texts (normalizeTags host e.privacyTags))]))

def dedupeHashOf (host : Host) (e : EventEnvelope) : String :=
  trim ((truthy e.dedupeHash).getD (buildDedupeHash host e))

def checkpointUrl (e : EventEnvelope) (content : String) : Option String :=
  let candidates := ["url", "href", "link", "pr_url", "pull_request_url", "source_url"].filterMap
    (fun key => trimmed (Json.text? (Json.get (payloadOf e) key)))
  truthy (match candidates with
    | found :: _ => some (cutPunctuation found)
    | [] => extractFirstUrl (Json.stringify (.obj (payloadOf e)) ++ " " ++ content))

def buildContentDedupeHash (host : Host) (e : EventEnvelope) (observationType content : String) :
    Option String :=
  let normalized := normalizeDedupeText host content
  if normalized = "" then none
  else
    let eventType := host.toLowerCase (trim (orUnknown e.eventType))
    let url := if eventType = "checkpoint" then checkpointUrl e content else none
    let (kind, value) := match url with
      | some url => ("checkpoint_url", normalizeDedupeText host url)
      | none => ("content", normalized)
    some (host.sha256 (Json.stringify (.obj
      [("session_id", .str (trim (orUnknown e.sessionId))), ("event_type", .str eventType),
        ("observation_type", .str observationType), ("basis_kind", .str kind),
        ("basis_value", .str value)])))

def invalidDate : String := "Invalid Date"

-- ISO text or null; a number is Unix seconds, and one out of range throws. The host's milliseconds
-- are not a number only where the seconds are not finite.
def normalizeExpiresAt (host : Host) : Option Json → Except String (Option String)
  | some (.num text) =>
    match host.millis text with
    | .nan => .ok none
    | millis =>
      match toIso millis with
      | some iso => .ok (some iso)
      | none => .error invalidDate
  | some (.str text) => .ok (if text = "" then none else (host.parseDate text).map isoText)
  | _ => .ok none

def firstTemporalValue (direct : Option Json) (e : EventEnvelope) (key : String) : Option Json :=
  direct.orElse (fun _ => (Json.get (payloadOf e) key).orElse
    (fun _ => Json.get (e.metadata.getD []) key))

def present : Option Json → Option Json
  | some .null => none
  | value => value

def firstTemporalId (e : EventEnvelope) : Option String :=
  trimmed (Json.text? (e.supersedes.orElse (fun _ =>
    (present (Json.get (payloadOf e) "supersedes")).orElse
      (fun _ => Json.get (e.metadata.getD []) "supersedes"))))

def temporalAnchors (host : Host) (e : EventEnvelope) (timestamp : String) : Except String Temporal := do
  let eventTime ← normalizeExpiresAt host (firstTemporalValue e.eventTime e "event_time")
  let observedAt ← normalizeExpiresAt host (firstTemporalValue e.observedAt e "observed_at")
  let validFrom ← normalizeExpiresAt host (firstTemporalValue e.validFrom e "valid_from")
  let validTo ← normalizeExpiresAt host (firstTemporalValue e.validTo e "valid_to")
  let invalidatedAt ← normalizeExpiresAt host (firstTemporalValue e.invalidatedAt e "invalidated_at")
  return ⟨eventTime, some (observedAt.getD timestamp), validFrom, validTo, firstTemporalId e, invalidatedAt⟩

def buildTitle (e : EventEnvelope) : String :=
  let field := fun key => (Json.text? (Json.get (payloadOf e) key)).map trim
  ((truthy (field "title")).orElse fun _ =>
    (truthy ((field "prompt").map (slice · 0 120))).orElse fun _ =>
      truthy ((field "command").map (slice · 0 120))).getD e.eventType

def buildContent (e : EventEnvelope) (redactedPayload : String) : String :=
  let field := fun key => trimmed (Json.text? (Json.get (payloadOf e) key))
  ((field "content").orElse fun _ => (field "prompt").orElse fun _ => (field "command").orElse fun _ =>
    truthy (some redactedPayload)).getD (slice (Json.stringify (.obj (payloadOf e))) 0 4000)

-- The first of the three that is a text at all, even an empty one.
def rawTextOf (e : EventEnvelope) : Option String :=
  let field := fun key => (Json.text? (Json.get (payloadOf e) key)).map trim
  (((field "content").orElse fun _ => (field "prompt").orElse fun _ => field "command").map
    stripPrivateBlocks)

-- What is computed from the envelope before anything is written.
structure Draft where
  eventId : String
  project : String
  timestamp : String
  tags : List String
  privacyTags : List String
  redactedPayload : String
  dedupeHash : String
  title : String
  content : String
  stripped : List String
  redactedContent : String
  observationType : String
  memoryType : String
  contentDedupeHash : Option String
  rawText : Option String
  userId : String
  teamId : Option String

def Draft.observationId (d : Draft) : String := "obs_" ++ d.eventId

def draft (host : Host) (env : Ambient) (e : EventEnvelope) (project : String) : Draft :=
  let privacyTags := normalizeTags host e.privacyTags
  let redactedPayload := redactContent (Json.stringify (.obj (payloadOf e))) privacyTags
  let title := buildTitle e
  let (content, stripped) := stripPrivateBlocksAudited host (buildContent e redactedPayload)
  let redactedContent := redactContent content privacyTags
  let observationType := classifyObservation host e.eventType title content
  { eventId := trim ((truthy e.eventId).getD env.freshId)
    project
    timestamp := (truthy e.ts).getD (env.clock 0)
    tags := normalizeTags host e.tags
    privacyTags
    redactedPayload
    dedupeHash := dedupeHashOf host e
    title
    content
    stripped
    redactedContent
    observationType
    memoryType := classifyMemoryType host e.eventType title content
    contentDedupeHash := buildContentDedupeHash host e observationType redactedContent
    rawText := if env.rawMode then rawTextOf e else none
    userId := (trimmed e.userId).getD (env.userId.getD "default")
    teamId := (trimmed e.teamId).orElse (fun _ => env.teamId) }

end HarnessMem.Recorder
