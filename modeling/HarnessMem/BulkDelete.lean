import HarnessMem.Readers
import HarnessMem.Search
import Mathlib.Data.List.Infix

/-! Deleting observations by id. The marker goes into a column by name, and a query that names a
column the table has not throws when it is prepared; the loop counts that as a skipped id. -/
namespace HarnessMem.BulkDelete
open Js Text Recorder Visibility Search Readers

-- The columns of `mem_observations`, those of later migrations last.
def observationColumns : List String :=
  ["id", "event_id", "platform", "project", "session_id", "title", "content", "content_redacted", "content_dedupe_hash", "raw_text",
    "observation_type", "memory_type", "tags_json", "privacy_tags_json", "user_id", "team_id", "event_time", "observed_at", "valid_from",
    "valid_to", "supersedes", "invalidated_at", "archived_at", "expires_at", "created_at", "updated_at", "signal_score", "access_count",
    "last_accessed_at", "cognitive_sector", "workspace_uid", "title_fts", "content_fts", "thread_id", "topic", "branch"]

def readTags (column : String) (row : Observation) : String :=
  if column = "privacy_tags_json" then row.privacyTagsJson else if column = "tags_json" then row.tagsJson else ""
def writeTags (column tags : String) (row : Observation) : Observation :=
  if column = "privacy_tags_json" then {row with privacyTagsJson := tags} else if column = "tags_json" then {row with tagsJson := tags} else row

structure BulkDeleteRequest where
  ids : List String
  userId : Option String
  teamId : Option String

structure Deletion where
  deleted : List String
  skipped : List String
  db : Db

section
variable (host : Host)

-- A member may delete their own and their team's rows.
def permitted (request : BulkDeleteRequest) (row : Observation) : Bool :=
  (truthy request.userId).all fun user => row.userId = user || (truthy request.teamId).any fun team => row.teamId = some team

def isDeletedTag : Json → Bool
  | .str tag => tag = "deleted"
  | _ => false

-- A stored text has `includes` as an array has, but nothing can be pushed onto it.
def markDeleted (tags : String) : Option String :=
  if tags = "" then some (Json.stringify (.arr [.str "deleted"]))
  else match host.parseJson tags with
    | some (.arr items) => some (Json.stringify (.arr (if items.any isDeletedTag then items else items ++ [.str "deleted"])))
    | some (.str text) => if "deleted".toList <:+: text.toList then some (Json.stringify (.str text)) else none
    | _ => none

-- One turn of the loop; `none` when the id is skipped.
def deleteOne (column : String) (request : BulkDeleteRequest) (db : Db) (id : String) : Option Db :=
  if observationColumns.contains column = false then none
  else (db.observations.find? (fun row => row.id = id)).bind fun existing =>
    if permitted request existing = false then none
    else (markDeleted host (readTags column existing)).map fun tags =>
      {db with observations := db.observations.map fun row => if row.id = id then writeTags column tags row else row}

def deleteNext (column : String) (request : BulkDeleteRequest) (done : Deletion) (id : String) : Deletion :=
  match deleteOne host column request done.db id with
  | some db => ⟨done.deleted ++ [id], done.skipped, db⟩
  | none => ⟨done.deleted, done.skipped ++ [id], done.db⟩

def bulkDelete (column : String) (request : BulkDeleteRequest) (db : Db) : Except String Deletion :=
  if request.ids.length = 0 then .error "ids is required and must not be empty"
  else if 500 < request.ids.length then .error ("ids length exceeds maximum of 500 (got " ++ toString request.ids.length ++ ")")
  else .ok (request.ids.foldl (deleteNext host column request) ⟨[], [], db⟩)

def bulkDeleteObservations (request : BulkDeleteRequest) (db : Db) : Except String Deletion := bulkDelete host "privacy_tags" request db

-- Some read path with default options returns the observation.
inductive Shown (settings : Settings) (engine : Engine) (access : Option AccessFilter) (db : Db) (id : String) : Prop
  | search (request : SearchRequest) (response : Response) (row : Observation) (private_ : request.includePrivate = false)
      (archived : request.includeArchived = false) (ran : search host settings engine request db = .ok response)
      (mem : row ∈ response.rows) (named : row.id = id)
  | feed (request : FeedRequest) (entries : List Entry) (entry : Entry) (private_ : request.includePrivate = false)
      (archived : request.includeArchived = false) (ran : feed host settings access request db = .ok entries) (mem : entry ∈ entries) (named : entry.id = id)
  | timeline (request : TimelineRequest) (entries : List Entry) (entry : Entry) (private_ : request.includePrivate = false)
      (archived : request.includeArchived = false) (ran : timeline host settings request db = some entries) (mem : entry ∈ entries) (named : entry.id = id)
  | observations (request : GetObservationsRequest) (entry : Entry) (private_ : request.includePrivate = false)
      (mem : entry ∈ getObservations host settings access request db) (named : entry.id = id)

-- Of the ids asked for, those of rows the caller may delete.
def Deletable (request : BulkDeleteRequest) (db : Db) (id : String) : Prop :=
  id ∈ request.ids ∧ ∃ row ∈ db.observations, row.id = id ∧ permitted request row = true

structure TakesEffect (request : BulkDeleteRequest) (db : Db) (done : Deletion) : Prop where
  reported : ∀ id, id ∈ done.deleted ↔ Deletable request db id
  marked : ∀ row ∈ done.db.observations, row.id ∈ done.deleted → "deleted" ∈ parseArrayJson host row.privacyTagsJson
  hidden : ∀ settings engine access id, id ∈ done.deleted → ¬ Shown host settings engine access done.db id
  others : ∀ id, id ∉ request.ids → done.db.observations.filter (fun row => row.id = id) = db.observations.filter (fun row => row.id = id)

variable {host}

-- The column the deletion asks for is not one of the table's: every id is skipped.
theorem columnMissing (request : BulkDeleteRequest) (db : Db) (id : String) : deleteOne host "privacy_tags" request db id = none :=
  if_pos (by decide)

theorem allSkipped (request : BulkDeleteRequest) (ids : List String) (done : Deletion) :
    ids.foldl (deleteNext host "privacy_tags" request) done = ⟨done.deleted, done.skipped ++ ids, done.db⟩ := by
  induction ids generalizing done with
  | nil => rw [List.foldl_nil, List.append_nil]
  | cons id rest ih =>
    have here : deleteNext host "privacy_tags" request done id = ⟨done.deleted, done.skipped ++ [id], done.db⟩ := by
      rw [deleteNext, columnMissing]
    rw [List.foldl_cons, here, ih, List.append_assoc]
    rfl

theorem nothingDeleted {request : BulkDeleteRequest} {db : Db} {done : Deletion} (answer : bulkDeleteObservations host request db = .ok done) :
    done = ⟨[], request.ids, db⟩ := by
  unfold bulkDeleteObservations bulkDelete at answer
  split at answer
  · cases answer
  · split at answer
    · cases answer
    · rw [allSkipped] at answer
      exact (Except.ok.inj answer).symm

theorem answersOk {request : BulkDeleteRequest} (db : Db) (some : request.ids.length ≠ 0) (few : request.ids.length ≤ 500) :
    bulkDeleteObservations host request db = .ok ⟨[], request.ids, db⟩ := by
  rw [bulkDeleteObservations, bulkDelete, if_neg some, if_neg (not_lt.mpr few), allSkipped]
  rfl

variable (host) in
theorem deletionHolds (request : BulkDeleteRequest) (db : Db) :
    (∀ done, bulkDeleteObservations host request db = .ok done → TakesEffect host request db done) ↔
      request.ids.length = 0 ∨ 500 < request.ids.length ∨ ∀ id, ¬ Deletable request db id := by
  constructor
  · intro effects
    by_cases none : request.ids.length = 0
    · exact .inl none
    · refine .inr ?_
      by_cases many : 500 < request.ids.length
      · exact .inl many
      · have effect := effects _ (answersOk db none (not_lt.mp many))
        exact .inr fun id deletable => by cases (effect.reported id).mpr deletable
  · intro condition done answer
    obtain rfl := nothingDeleted answer
    have none : ∀ id, ¬ Deletable request db id := by
      rcases condition with none | many | none
      · rintro id ⟨mem, _⟩
        rw [List.length_eq_zero_iff.mp none] at mem
        cases mem
      · unfold bulkDeleteObservations bulkDelete at answer
        rw [if_neg (by omega), if_pos many] at answer
        cases answer
      · exact none
    refine ⟨fun id => iff_of_false (by simp) (none id), fun row _ mem => (by cases mem), fun _ _ _ id mem => (by cases mem), fun _ _ => rfl⟩

-- Nor would the marker hide anything in the right column: the readers look for two other tags.
theorem markerIgnored {row : Observation} {items : List Json} {tags : String} (includePrivate : Bool)
    (stored : host.parseJson row.privacyTagsJson = some (.arr items)) (some : row.privacyTagsJson ≠ "")
    (reads : ∀ items, host.parseJson (Json.stringify (.arr items)) = Option.some (.arr items))
    (marked : markDeleted host (readTags "privacy_tags_json" row) = Option.some tags) :
    visibilityFilter host includePrivate (writeTags "privacy_tags_json" tags row) = visibilityFilter host includePrivate row := by
  have shown : readTags "privacy_tags_json" row = row.privacyTagsJson := rfl
  have written : (writeTags "privacy_tags_json" tags row).privacyTagsJson = tags := rfl
  rw [shown, markDeleted, if_neg some, stored] at marked
  obtain rfl := Option.some.inj marked
  have harmless : hiddenText (.str "deleted") = false := by decide +kernel
  simp only [visibilityFilter, written, stored, reads, values]
  split
  · rfl
  · rw [List.any_append, List.any_cons, List.any_nil, harmless, Bool.or_false, Bool.or_false]
end

def ownRow : Observation := plainRow "a" "p" "u"

theorem deletionFails :
    bulkDeleteObservations readHost ⟨["a"], some "u", none⟩ {Db.empty with observations := [ownRow]} =
        .ok ⟨[], ["a"], {Db.empty with observations := [ownRow]}⟩ ∧
      ¬ TakesEffect readHost ⟨["a"], some "u", none⟩ {Db.empty with observations := [ownRow]} ⟨[], ["a"], {Db.empty with observations := [ownRow]}⟩ := by
  refine ⟨rfl, fun effect => ?_⟩
  have deletable : Deletable ⟨["a"], some "u", none⟩ {Db.empty with observations := [ownRow]} "a" :=
    ⟨List.mem_singleton_self "a", ownRow, List.mem_singleton_self ownRow, rfl, by decide⟩
  cases (effect.reported "a").mpr deletable

end HarnessMem.BulkDelete
