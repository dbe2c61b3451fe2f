import HarnessMem.Lib.Runs
import HarnessMem.Text
import Mathlib.Data.List.Induction
import Mathlib.Data.List.Perm.Basic

/-! The managed event store and the observation projector: appending events, projecting them as
they arrive, and rebuilding the projection from what the store holds. -/
namespace HarnessMem.Projector

structure StoredEvent where
  eventId : String
  platform : String
  project : String
  workspaceUid : String
  sessionId : String
  eventType : String
  ts : String
  payloadJson : String
  tagsJson : String
  privacyTagsJson : String
  dedupeHash : String
  observationId : Option String
  correlationId : Option String
  eventTime : Option String
  observedAt : Option String
  validFrom : Option String
  validTo : Option String
  supersedes : Option String
  invalidatedAt : Option String
  createdAt : String

-- A JSON column as the projector meets it: text, or what the driver made of it.
inductive Cell where
  | text (s : String)
  | value (v : Json)

inductive Stamp where
  | text (s : String)
  | date (instant : Int)

-- The database server and its driver: how TIMESTAMPTZ and JSONB take a text, what a column reads
-- back as, and what a value that was read back becomes when it is sent again.
structure Postgres where
  timestamp : String → Option Int
  jsonb : String → Option Json
  readTime : Int → Int
  readJson : Json → Cell
  sendJson : Json → Option Json

def Postgres.instant (pg : Postgres) : Stamp → Option Int
  | .text s => pg.timestamp s
  | .date instant => some instant

def Postgres.json (pg : Postgres) : Cell → Option Json
  | .text s => pg.jsonb s
  | .value v => pg.sendJson v

-- A row of `mem_events`; its columns leave the temporal anchors out.
structure EventRow where
  eventId : String
  platform : String
  project : String
  workspaceUid : String
  sessionId : String
  eventType : String
  ts : Int
  payloadJson : Json
  tagsJson : Json
  privacyTagsJson : Json
  dedupeHash : String
  observationId : Option String
  correlationId : Option String
  createdAt : Int

def truthy (value : Option String) : Option String := value.filter (fun s => s ≠ "")

def eventRow (pg : Postgres) (e : StoredEvent) : Option EventRow := do
  let ts ← pg.timestamp e.ts
  let payloadJson ← pg.jsonb e.payloadJson
  let tagsJson ← pg.jsonb e.tagsJson
  let privacyTagsJson ← pg.jsonb e.privacyTagsJson
  let createdAt ← pg.timestamp e.createdAt
  return ⟨e.eventId, e.platform, e.project, e.workspaceUid, e.sessionId, e.eventType, ts, payloadJson, tagsJson,
    privacyTagsJson, e.dedupeHash, truthy e.observationId, truthy e.correlationId, createdAt⟩

inductive Insert where
  | inserted (row : EventRow)
  | deduplicated
  | failed

-- `ON CONFLICT (dedupe_hash) DO NOTHING`; a second row under one `event_id` is an error.
def insertEvent (pg : Postgres) (store : List EventRow) (e : StoredEvent) : Insert :=
  match eventRow pg e with
  | none => .failed
  | some row =>
    if store.any (fun held => held.dedupeHash = e.dedupeHash) then .deduplicated
    else if store.any (fun held => held.eventId = e.eventId) then .failed
    else .inserted row

-- One transaction: the whole batch or nothing.
def append (pg : Postgres) (store : List EventRow) : List StoredEvent → Option (List EventRow × Nat × Nat)
  | [] => some (store, 0, 0)
  | e :: rest =>
    match insertEvent pg store e with
    | .failed => none
    | .deduplicated => (append pg store rest).map (fun result => (result.1, result.2.1, result.2.2 + 1))
    | .inserted row => (append pg (store ++ [row]) rest).map (fun result => (result.1, result.2.1 + 1, result.2.2))

-- An event as `project` sees it, given to it or read back from the store.
structure Projected where
  eventId : String
  platform : String
  project : String
  workspaceUid : String
  sessionId : String
  eventType : String
  ts : Stamp
  payloadJson : Cell
  tagsJson : Cell
  privacyTagsJson : Cell
  observationId : Option String
  eventTime : Option String
  observedAt : Option String
  validFrom : Option String
  validTo : Option String
  supersedes : Option String
  invalidatedAt : Option String

def received (e : StoredEvent) : Projected :=
  ⟨e.eventId, e.platform, e.project, e.workspaceUid, e.sessionId, e.eventType, .text e.ts, .text e.payloadJson,
    .text e.tagsJson, .text e.privacyTagsJson, e.observationId, e.eventTime, e.observedAt, e.validFrom, e.validTo,
    e.supersedes, e.invalidatedAt⟩

def readBack (pg : Postgres) (row : EventRow) : Projected :=
  ⟨row.eventId, row.platform, row.project, row.workspaceUid, row.sessionId, row.eventType, .date (pg.readTime row.ts),
    pg.readJson row.payloadJson, pg.readJson row.tagsJson, pg.readJson row.privacyTagsJson, row.observationId,
    none, none, none, none, none, none⟩

def falsy : Json → Bool
  | .null | .bool false => true
  | .num text => text = "0"
  | .str text => text = ""
  | _ => false

-- `String(value)`
mutual
def coerce : Json → String
  | .null => "null"
  | .bool true => "true"
  | .bool false => "false"
  | .num text => text
  | .str text => text
  | .arr items => String.intercalate "," (coerceItems items)
  | .obj _ => "[object Object]"
def coerceItems : List Json → List String
  | [] => []
  | .null :: rest => "" :: coerceItems rest
  | item :: rest => coerce item :: coerceItems rest
end

-- `JSON.parse(event.payload_json || "{}")`
def parseCell (host : Host) : Cell → Option Json
  | .text s => host.parseJson (if s = "" then "\x7b\x7d" else s)
  | .value v => host.parseJson (if falsy v then "\x7b\x7d" else coerce v)

def member (payload : Json) (key : String) : Option String :=
  match payload with
  | .obj entries => Json.text? (Json.get entries key)
  | _ => none

structure Derived where
  title : Option String
  content : String
  contentRedacted : String
  deriving DecidableEq

-- A null payload has no properties to read.
def derive (host : Host) (payloadJson : Cell) : Option Derived :=
  match parseCell host payloadJson with
  | none | some .null => none
  | some payload =>
    let content := (member payload "content").getD (Json.stringify payload)
    some ⟨member payload "title", content, (member payload "content_redacted").getD content⟩

structure ObservationRow where
  id : String
  eventId : String
  platform : String
  project : String
  workspaceUid : String
  sessionId : String
  derived : Derived
  observationType : String
  eventTime : Option Int
  observedAt : Int
  validFrom : Option Int
  validTo : Option Int
  supersedes : Option String
  invalidatedAt : Option Int
  tagsJson : Json
  privacyTagsJson : Json
  createdAt : Int
  updatedAt : Int

-- A nullable TIMESTAMPTZ parameter: null stays null, a text must be accepted.
def nullable (pg : Postgres) : Option String → Option (Option Int)
  | none => some none
  | some s => (pg.timestamp s).map some

-- The values of the `INSERT`, when nothing on the way to it throws.
def observationRow (host : Host) (pg : Postgres) (now : Int) (e : Projected) : Option ObservationRow := do
  let id ← truthy e.observationId
  let derived ← derive host e.payloadJson
  let eventTime ← nullable pg e.eventTime
  let observedAt ← pg.instant ((e.observedAt.map .text).getD e.ts)
  let validFrom ← nullable pg e.validFrom
  let validTo ← nullable pg e.validTo
  let invalidatedAt ← nullable pg e.invalidatedAt
  let tagsJson ← pg.json e.tagsJson
  let privacyTagsJson ← pg.json e.privacyTagsJson
  return ⟨id, e.eventId, e.platform, e.project, e.workspaceUid, e.sessionId, derived,
    if e.eventType = "checkpoint" then "checkpoint" else "context", eventTime, observedAt, validFrom, validTo,
    e.supersedes, invalidatedAt, tagsJson, privacyTagsJson, now, now⟩

-- `ON CONFLICT (id) DO UPDATE`: identity, title and tags stay as first written.
def overwrite (new old : ObservationRow) : ObservationRow :=
  { old with
    derived := ⟨old.derived.title, new.derived.content, new.derived.contentRedacted⟩
    eventTime := new.eventTime, observedAt := new.observedAt, validFrom := new.validFrom, validTo := new.validTo
    supersedes := new.supersedes, invalidatedAt := new.invalidatedAt, updatedAt := new.updatedAt }

def upsert (new : ObservationRow) (rows : List ObservationRow) : List ObservationRow :=
  if rows.any (fun old => old.id = new.id) then rows.map (fun old => if old.id = new.id then overwrite new old else old)
  else rows ++ [new]

-- An event that throws is reported and skipped. Its tag rows come after the observation.
def projectEvent (host : Host) (pg : Postgres) (rows : List ObservationRow) (e : Projected × Int) : List ObservationRow :=
  match observationRow host pg e.2 e.1 with
  | none => rows
  | some row => upsert row rows

def project (host : Host) (pg : Postgres) (events : List (Projected × Int)) (rows : List ObservationRow) :
    List ObservationRow := events.foldl (projectEvent host pg) rows

structure Managed where
  events : List EventRow
  observations : List ObservationRow

-- One event arrives: it is appended, and projected when the append inserted it. `NOW()` is given.
def arrive (host : Host) (pg : Postgres) (m : Managed) (e : StoredEvent × Int) : Managed :=
  match append pg m.events [e.1] with
  | none => m
  | some (events, inserted, _) =>
    ⟨events, if 0 < inserted then project host pg [(received e.1, e.2)] m.observations else m.observations⟩

-- `TRUNCATE`, then every event of the answer to `SELECT * FROM mem_events ORDER BY ts ASC`.
def rebuild (host : Host) (pg : Postgres) (now : EventRow → Int) (answer : List EventRow) : List ObservationRow :=
  project host pg (answer.map (fun row => (readBack pg row, now row))) []

def Answers (m : Managed) (answer : List EventRow) : Prop :=
  answer.Perm m.events ∧ answer.Pairwise (fun a b => a.ts ≤ b.ts)

end HarnessMem.Projector
