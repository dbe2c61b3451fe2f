import HarnessMem.Recorder

/-! What most steps of `recordEvent` leave alone: a reading of the store that their tables do not enter. -/
namespace HarnessMem.Recorder
open Js

structure Blind {α : Type*} (read : Db → α) : Prop where
  vectors : ∀ db vectors, read {db with vectors} = read db
  mined : ∀ db entities observationEntities, read {db with entities, observationEntities} = read db
  relations : ∀ db relations, read {db with relations} = read db
  nuggets : ∀ db nuggets nuggetVectors, read {db with nuggets, nuggetVectors} = read db
  events : ∀ db events, read {db with events} = read db
  tags : ∀ db tags, read {db with tags} = read db
  auditLog : ∀ db auditLog, read {db with auditLog} = read db

theorem sessionsBlind : Blind Db.sessions := by
  constructor <;> exact fun _ _ => by intros; rfl
theorem linksBlind : Blind Db.links := by
  constructor <;> exact fun _ _ => by intros; rfl

section
variable {α : Type*} {read : Db → α} (blind : Blind read)

include blind

theorem upsertVectorBlind {env : Ambient} {observationId content createdAt : String} {db after : Db}
    (ok : upsertVector env observationId content createdAt db = .ok after) : read after = read db := by
  unfold upsertVector at ok
  split at ok
  · cases ok
    rfl
  · obtain ⟨variants, _, stored⟩ := bindOk ok
    cases stored
    exact blind.vectors _ _

theorem embedBlind {host : Host} {env : Ambient} {e : EventEnvelope} {d : Draft} {db : Db} {result : Db × Option String}
    (ok : embed host env e d db = .ok result) : read result.1 = read db := by
  unfold embed at ok
  split at ok
  · rename_i embedded stored
    cases ok
    exact upsertVectorBlind blind stored
  · split at ok
    · cases ok
      rfl
    · cases ok

theorem storeTagsBlind (env : Ambient) (d : Draft) (tagType : String) (tags : List String) (db : Db) :
    read (storeTags env d tagType tags db) = read db := blind.tags _ _

theorem provenanceBlind (host : Host) (env : Ambient) (e : EventEnvelope) (d : Draft) (db : Db) :
    read (storeProvenance host env e d db) = read db := by
  unfold storeProvenance
  split
  · split
    · rfl
    · exact (blind.events _ _).trans (storeTagsBlind blind _ _ _ _ _)
  · rfl

theorem nuggetsBlind (host : Host) (env : Ambient) (observationId content createdAt : String) (db : Db) :
    read (insertNuggets host env observationId content createdAt db) = read db := by
  unfold insertNuggets
  split
  · rfl
  generalize Nuggets.splitIntoNuggets host content = nuggets
  induction nuggets generalizing db with
  | nil => rfl
  | cons nugget rest ih =>
    simp only [insertNuggetsFrom]
    split
    · exact blind.nuggets db _ db.nuggetVectors
    · split
      · exact (ih _).trans (blind.nuggets _ _ _)
      · exact blind.nuggets db _ db.nuggetVectors

theorem minedBlind (observationId content createdAt : String) (db : Db) :
    read (extractAndStoreEntities observationId content createdAt db) = read db := by
  unfold extractAndStoreEntities
  exact blind.mined _ _ _

theorem relatedBlind (host : Host) (observationId content : String) (tags : List String) (createdAt : String)
    (temporal : Temporal) (db : Db) :
    read (extractAndStoreGraphRelations host observationId content tags createdAt temporal db) = read db := by
  unfold extractAndStoreGraphRelations
  exact blind.relations _ _

theorem auditPrivacyBlind (env : Ambient) (e : EventEnvelope) (d : Draft) (db : Db) :
    read (auditPrivacy env e d db) = read db := by
  unfold auditPrivacy
  simp only
  split
  · exact blind.auditLog _ _
  · rfl

theorem auditStripBlind (host : Host) (env : Ambient) (e : EventEnvelope) (d : Draft) (db : Db) :
    read (auditStrip host env e d db) = read db := by
  unfold auditStrip
  split
  · rfl
  · exact blind.auditLog _ _

theorem gateBlind {host : Host} {env : Ambient} {e : EventEnvelope} {d : Draft} {db after : Db}
    (ok : gate host env e d db = .ok after) : read after = read db := by
  unfold gate at ok
  split at ok
  · split at ok
    · cases ok
      rfl
    · split at ok
      · cases ok
      · cases ok
        exact blind.auditLog _ _
  · cases ok
    rfl

end
end HarnessMem.Recorder
