import HarnessMem.SearchStages

/-! The readers next to search: the feed, the timeline around one observation, observations by
id, and the subgraph around an entity. -/
namespace HarnessMem.Readers
open Js Text Recorder Visibility TemporalState Search

-- What an answer says of one observation, next to columns copied from its row.
structure Entry where
  id : String
  title : Option String
  content : String
  state : Option State
  deriving DecidableEq, Repr

-- The server's own access filter: a condition on feed rows, and a default tenant elsewhere.
structure AccessFilter where
  allows : Observation → Bool
  userId : Option String
  teamId : Option String

structure FeedRequest where
  cursor : Option (String × String)
  limit : Number
  project : Option String
  projectMembers : Option (List String)
  type : Option String
  includePrivate : Bool
  includeArchived : Bool
  userId : Option String
  teamId : Option String
  memberScope : Bool
  memoryType : Option (List String)

structure TimelineRequest where
  id : String
  before : Number
  after : Number
  includePrivate : Bool
  includeArchived : Bool
  userId : Option String
  teamId : Option String

structure GetObservationsRequest where
  ids : List String
  includePrivate : Bool
  compact : Bool
  userId : Option String
  teamId : Option String

section
variable (host : Host) (settings : Settings) (access : Option AccessFilter)

def eventType (db : Db) (row : Observation) : Option String :=
  (db.events.find? (fun event => row.eventId = some event.eventId)).map Event.eventType

-- A member sees their own and their team's rows; other callers combine the two conditions.
def feedTenant (request : FeedRequest) (row : Observation) : Bool :=
  match request.memberScope, trimmed request.userId, trimmed request.teamId with
  | true, some user, some team => row.userId = user || row.teamId = some team
  | _, user, team => user.all (fun user => row.userId = user) && team.all (fun team => row.teamId = some team)

def feedFilter (members : List String) (request : FeedRequest) (db : Db) (row : Observation) : Bool :=
  projectFilter members row.project &&
    (trimmed request.type).all (fun type => (eventType db row).getD "" = type) &&
    platformVisibilityFilter settings row && visibilityFilter host request.includePrivate row &&
    archivedFilter settings.now request.includeArchived row && access.all (fun filter => filter.allows row) &&
    feedTenant request row && oneOfTypes (request.memoryType.getD []) row.memoryType &&
    request.cursor.all (fun (createdAt, id) => row.createdAt < createdAt || row.createdAt = createdAt && row.id < id)

def feedEntry (db : Db) (row : Observation) : Entry :=
  let event := (truthy (eventType db row)).getD "unknown"
  ⟨row.id, some ((truthy row.title).getD event), slice row.contentRedacted 0 1200, none⟩

def membersOf (given : Option (List String)) (project : Option String) : Except String (List String) :=
  match given with
  | some members => .ok members
  | none => resolveProjectMembers settings project

def feed (request : FeedRequest) (db : Db) : Except String (List Entry) :=
  if settings.retrievalEnabled = false then .ok []
  else (membersOf settings request.projectMembers request.project).map (fun members =>
    let rows := Tables.orderBy (fun a b : Observation => b.createdAt < a.createdAt ∨ a.createdAt = b.createdAt ∧ b.id ≤ a.id)
      (db.observations.filter (feedFilter host settings access members request db))
    (rows.take (clampLimit request.limit 40 1 200)).map (feedEntry db))

-- The centre is found by its id alone; only its neighbours go through the SQL conditions.
def timelineCenter (request : TimelineRequest) (db : Db) : Option Observation :=
  (db.observations.find? (fun row => row.id = request.id)).filter (fun row =>
    tenantFilter request.userId request.teamId row.userId row.teamId &&
      (request.includePrivate || !isPrivateTag (parseArrayJson host row.privacyTagsJson)))

def besideFilter (request : TimelineRequest) (center row : Observation) : Bool :=
  row.project = center.project && row.sessionId = center.sessionId &&
    tenantFilter request.userId request.teamId row.userId row.teamId && visibilityFilter host request.includePrivate row &&
    archivedFilter settings.now request.includeArchived row

def timelineRows (request : TimelineRequest) (db : Db) (center : Observation) : List Observation :=
  let beside := db.observations.filter (besideFilter host settings request center)
  let before := (Tables.orderBy (fun a b : Observation => b.createdAt ≤ a.createdAt)
    (beside.filter (fun row => row.createdAt < center.createdAt))).take (clampLimit request.before 5 0 50)
  let after := (Tables.orderBy (fun a b : Observation => a.createdAt ≤ b.createdAt)
    (beside.filter (fun row => center.createdAt < row.createdAt))).take (clampLimit request.after 5 0 50)
  before.reverse ++ [center] ++ after

def timelineEntry (supersededIds : List String) (row : Observation) : Entry :=
  ⟨row.id, row.title, slice row.contentRedacted 0 1200, temporalState host settings.now none supersededIds row⟩

-- `none` stands for "observation not found".
def timeline (request : TimelineRequest) (db : Db) : Option (List Entry) :=
  (timelineCenter host request db).map (fun center =>
    let rows := timelineRows host settings request db center
    let supersededIds := loadSupersededObservationIds db ((rows.map Observation.id).filter (fun id => id ≠ ""))
    rows.map (timelineEntry host settings supersededIds))

def owned (request : GetObservationsRequest) (row : Observation) : Bool :=
  match truthy (request.userId.orElse (fun _ => access.bind AccessFilter.userId)) with
  | none => true
  | some user => row.userId = user ||
    ((request.teamId.orElse (fun _ => access.bind AccessFilter.teamId)).any (fun team => row.teamId = some team))

def getObservation (request : GetObservationsRequest) (db : Db) (id : String) : Option Observation :=
  (loadObservation settings.now false db id).filter (fun row => owned access request row &&
    (request.includePrivate || !isPrivateTag (parseArrayJson host row.privacyTagsJson)))

def getObservations (request : GetObservationsRequest) (db : Db) : List Entry :=
  (request.ids.filterMap (getObservation host settings access request db)).map (fun row =>
    ⟨row.id, row.title, if request.compact then slice row.contentRedacted 0 800 else row.contentRedacted,
      temporalState host settings.now none [] row⟩)

end

structure SubgraphRequest where
  entity : String
  depth : Nat
  project : Option String
  limit : Option Int
  userId : Option String
  teamId : Option String

structure Edge where
  source : String
  target : String
  relation : String
  weight : ℚ
  deriving DecidableEq

structure Node where
  id : String
  title : String
  observationType : String
  createdAt : String
  entities : List String
  deriving DecidableEq, Repr

structure Reach where
  visited : List String
  next : List String
  edges : List Edge

def nodeLimit (request : SubgraphRequest) : Int := min (request.limit.getD 100) 100

-- A negative `LIMIT` is none.
def limited {α : Type} (limit : Int) (rows : List α) : List α := if limit < 0 then rows else rows.take limit.toNat

def entityNames (db : Db) (id : String) : List String :=
  (db.observationEntities.filter (fun mention => mention.observationId = id)).flatMap (fun mention =>
    (db.entities.filter (fun entity => entity.id = mention.entityId)).map Entity.name)

def seedRows (request : SubgraphRequest) (members : List String) (named : String → Bool) (db : Db) : List Observation :=
  limited (min 50 (nodeLimit request)) (db.observations.filter (fun row =>
    (entityNames db row.id).any named && projectFilter members row.project &&
      tenantFilter request.userId request.teamId row.userId row.teamId))

-- An exact entity name first, then any name that contains it.
def seedIds (request : SubgraphRequest) (members : List String) (db : Db) : List String :=
  let exact := seedRows request members (fun name => name = request.entity) db
  let rows := if exact = [] then seedRows request members (like ("%" ++ request.entity ++ "%")) db else exact
  rows.map Observation.id

def reachNode (limit : Int) (reach : Reach) (id : String) : Reach :=
  if id ∈ reach.visited ∨ limit ≤ reach.visited.length then reach
  else {reach with visited := reach.visited ++ [id], next := reach.next ++ [id]}

def followLink (limit : Int) (reach : Reach) (link : Link) : Reach :=
  let kept := if reach.edges.any (fun edge => edge.source = link.fromId && edge.target = link.toId) then reach
    else {reach with edges := reach.edges ++ [⟨link.fromId, link.toId, link.relation, link.weight⟩]}
  reachNode limit (reachNode limit kept link.fromId) link.toId

def expand (limit : Int) (links : List Link) : Nat → Reach → Reach
  | 0, reach => reach
  | depth + 1, reach =>
    if reach.next = [] ∨ limit ≤ reach.visited.length then reach
    else
      let touching := links.filter (fun link => reach.next.contains link.fromId || reach.next.contains link.toId)
      expand limit links depth (touching.foldl (followLink limit) {reach with next := []})

structure Subgraph where
  nodes : List Node
  edges : List Edge

def subgraphNode (db : Db) (row : Observation) : Node :=
  ⟨row.id, row.title.getD "", row.observationType, row.createdAt, entityNames db row.id⟩

def getSubgraph (settings : Settings) (request : SubgraphRequest) (db : Db) : Except String Subgraph :=
  (resolveProjectMembers settings request.project).map (fun members =>
    let seeds := seedIds request members db
    if seeds = [] then ⟨[], []⟩
    else
      let reach := expand (nodeLimit request) db.links (min request.depth 5) ⟨seeds, seeds, []⟩
      let rows := db.observations.filter (fun row => reach.visited.contains row.id &&
        tenantFilter request.userId request.teamId row.userId row.teamId)
      let permitted := rows.map Observation.id
      ⟨rows.map (subgraphNode db),
        reach.edges.filter (fun edge => permitted.contains edge.source && permitted.contains edge.target)⟩)

end HarnessMem.Readers
