import HarnessMem.Enrich
import HarnessMem.Lib.KeyedList

/-! Merging the databases that plugins kept for themselves into the default one, table by table. The
sources are only read, and a row whose key the target has is left out. -/
namespace HarnessMem.DatabaseMerge
open Recorder

-- `INSERT OR IGNORE` under the table's unique key.
def insertOrIgnore {Row Key : Type} [DecidableEq Key] (key : Row → Key) (held rows : List Row) : List Row := rows.foldl (KeyedList.enrol key) held

-- The triggers that date a row which came without `observed_at`.
def observed (temporal : Temporal) (fallback : String) : Temporal := {temporal with observedAt := some (temporal.observedAt.getD fallback)}
def landed (row : Observation) : Observation := {row with temporal := observed row.temporal row.createdAt}
def landedFact (fact : Fact) : Fact := {fact with temporal := observed fact.temporal (fact.temporal.validFrom.getD fact.createdAt)}
-- A relation is copied without its times.
def landedRelation (relation : Relation) : Relation :=
  {relation with temporal := observed ⟨none, none, none, none, none, none⟩ relation.createdAt}

def tagKey (tag : Tag) : String × String × String := (tag.observationId, tag.tag, tag.tagType)
def entityKey (entity : Entity) : String × String := (entity.name, entity.entityType)
def observationEntityKey (row : ObservationEntity) : String × Nat := (row.observationId, row.entityId)
def vectorKey (row : Vector) : String × String := (row.observationId, row.model)
def linkKey (link : Link) : String × String × String := (link.fromId, link.toId, link.relation)

section
variable (src tgt : Db)

def stored (id : String) : Bool := tgt.observations.any (fun row => row.id = id)
def eventHeld (row : Observation) : Bool := row.eventId.any (fun event => tgt.observations.any (fun held => held.eventId = some event))

def sessionsMerged : List Session := insertOrIgnore Session.sessionId tgt.sessions src.sessions

def observationsMerged : List Observation := insertOrIgnore Observation.id tgt.observations
  ((src.observations.filter (fun row => !stored tgt row.id && !eventHeld tgt row)).map landed)

-- The statements below run with the observations merged.
def tagsMerged : List Tag := insertOrIgnore tagKey tgt.tags (src.tags.filter (fun tag => stored tgt tag.observationId))

def entitiesMerged : List Entity :=
  (src.entities.filter (fun entity => !tgt.entities.any (fun held => entityKey held = entityKey entity))).foldl
    (fun rows entity => insertEntity entity.createdAt rows ⟨entity.name, entity.entityType⟩) tgt.entities

-- An entity's id is that of its name and type in the target.
def remapped (row : ObservationEntity) : List ObservationEntity :=
  (src.entities.filter (fun own => own.id = row.entityId)).flatMap fun own =>
    (tgt.entities.filter (fun held => entityKey held = entityKey own)).map fun held => {row with entityId := held.id}

def observationEntitiesMerged : List ObservationEntity := insertOrIgnore observationEntityKey tgt.observationEntities
  ((src.observationEntities.filter (fun row => stored tgt row.observationId)).flatMap (remapped src tgt))

-- No key keeps a relation from being copied again.
def relationsCopied : List Relation := (src.relations.filter (fun relation => stored tgt relation.observationId)).map landedRelation

def vectorsMerged : List Vector := insertOrIgnore vectorKey tgt.vectors (src.vectors.filter (fun row => stored tgt row.observationId))
def factsMerged : List Fact := insertOrIgnore Fact.factId tgt.facts (src.facts.map landedFact)

def linksMerged : List Link := insertOrIgnore linkKey tgt.links (src.links.filter (fun link => stored tgt link.fromId && stored tgt link.toId &&
  !tgt.links.any (fun held => linkKey held = linkKey link)))

-- `run_execute_source`: one transaction for a source.
def mergeSource : Db :=
  let db := {tgt with sessions := sessionsMerged src tgt, observations := observationsMerged src tgt}
  let db := {db with tags := tagsMerged src db, entities := entitiesMerged src db}
  {db with
    observationEntities := observationEntitiesMerged src db
    relations := db.relations ++ relationsCopied src db
    vectors := vectorsMerged src db
    facts := factsMerged src db
    links := linksMerged src db}

-- A source that is not found is skipped.
def mergeSources (sources : List (Option Db)) : Db := sources.foldl (fun db source => source.elim db (fun src => mergeSource src db)) tgt
end

end HarnessMem.DatabaseMerge
