import Mathlib.Data.Rat.Floor

/-! The SQLite tables, one list of rows each, in insertion order. A nullable column is an
`Option`, and a JSON column is its text. -/
namespace HarnessMem

structure Session where
  sessionId : String
  platform : String
  project : String
  startedAt : String
  endedAt : Option String
  summary : Option String
  summaryMode : Option String
  correlationId : Option String
  userId : String
  teamId : Option String
  createdAt : String
  updatedAt : String
  deriving DecidableEq, Repr

structure Event where
  eventId : String
  platform : String
  project : String
  sessionId : String
  eventType : String
  ts : String
  payloadJson : String
  tagsJson : String
  privacyTagsJson : String
  dedupeHash : String
  observationId : Option String
  correlationId : Option String
  userId : String
  teamId : Option String
  createdAt : String
  deriving DecidableEq, Repr

structure Temporal where
  eventTime : Option String
  observedAt : Option String
  validFrom : Option String
  validTo : Option String
  supersedes : Option String
  invalidatedAt : Option String
  deriving DecidableEq, Repr

structure Observation where
  id : String
  eventId : Option String
  platform : String
  project : String
  sessionId : String
  title : Option String
  content : String
  contentRedacted : String
  contentDedupeHash : Option String
  rawText : Option String
  observationType : String
  memoryType : String
  tagsJson : String
  privacyTagsJson : String
  signalScore : ℚ
  userId : String
  teamId : Option String
  temporal : Temporal
  threadId : Option String
  topic : Option String
  expiresAt : Option String
  branch : Option String
  archivedAt : Option String
  titleFts : Option String
  contentFts : Option String
  createdAt : String
  updatedAt : String
  deriving DecidableEq

structure Tag where
  observationId : String
  tag : String
  tagType : String
  createdAt : String
  deriving DecidableEq, Repr

structure NuggetRow where
  nuggetId : String
  observationId : String
  seq : Nat
  content : String
  contentHash : String
  createdAt : String
  deriving DecidableEq, Repr

structure NuggetVector where
  nuggetId : String
  observationId : String
  model : String
  dimension : Nat
  vectorJson : String
  createdAt : String
  updatedAt : String
  deriving DecidableEq, Repr

structure Vector where
  observationId : String
  model : String
  dimension : Nat
  vectorJson : String
  createdAt : String
  updatedAt : String
  deriving DecidableEq, Repr

structure Entity where
  id : Nat
  name : String
  entityType : String
  createdAt : String
  deriving DecidableEq, Repr

structure ObservationEntity where
  observationId : String
  entityId : Nat
  createdAt : String
  deriving DecidableEq, Repr

structure Relation where
  src : String
  dst : String
  kind : String
  strength : ℚ
  observationId : String
  temporal : Temporal
  createdAt : String
  deriving DecidableEq

structure Link where
  fromId : String
  toId : String
  relation : String
  weight : ℚ
  createdAt : String
  deriving DecidableEq

structure Fact where
  factId : String
  observationId : Option String
  project : String
  sessionId : String
  factType : String
  factKey : String
  factValue : String
  confidence : ℚ
  supersededBy : Option String
  temporal : Temporal
  mergedIntoFactId : Option String
  createdAt : String
  updatedAt : String
  deriving DecidableEq

structure Audit where
  action : String
  actor : String
  targetType : String
  targetId : String
  detailsJson : String
  createdAt : String
  prevHash : Option String
  deriving DecidableEq, Repr

structure Retry where
  eventJson : String
  reason : String
  retryCount : Nat
  nextRetryAt : String
  createdAt : String
  updatedAt : String
  deriving DecidableEq, Repr

structure Db where
  sessions : List Session
  events : List Event
  observations : List Observation
  tags : List Tag
  nuggets : List NuggetRow
  nuggetVectors : List NuggetVector
  vectors : List Vector
  entities : List Entity
  observationEntities : List ObservationEntity
  relations : List Relation
  links : List Link
  facts : List Fact
  auditLog : List Audit
  retryQueue : List Retry

namespace Db

def empty : Db := ⟨[], [], [], [], [], [], [], [], [], [], [], [], [], []⟩

-- `after` stores the same events, observations and tags.
structure Kept (before after : Db) : Prop where
  events : after.events = before.events
  observations : after.observations = before.observations
  tags : after.tags = before.tags

structure SameRows (before after : Db) : Prop extends Kept before after where
  nuggets : after.nuggets = before.nuggets

theorem keptRefl (db : Db) : Kept db db := ⟨rfl, rfl, rfl⟩
theorem keptTrans {a b c : Db} (first : Kept a b) (second : Kept b c) : Kept a c :=
  ⟨second.events.trans first.events, second.observations.trans first.observations,
    second.tags.trans first.tags⟩
theorem sameRefl (db : Db) : SameRows db db := ⟨keptRefl db, rfl⟩
theorem sameTrans {a b c : Db} (first : SameRows a b) (second : SameRows b c) : SameRows a c :=
  ⟨keptTrans first.toKept second.toKept, second.nuggets.trans first.nuggets⟩

end Db

namespace Observation

def live (row : Observation) : Bool := row.archivedAt.isNone

-- The full-text row its triggers keep: the segmented text where there is one.
def ftsRow (row : Observation) : String × Option String × String :=
  (row.id, row.titleFts.orElse (fun _ => row.title), row.contentFts.getD row.contentRedacted)

end Observation
end HarnessMem
