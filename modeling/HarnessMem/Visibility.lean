import HarnessMem.Envelope
import HarnessMem.Lib.Tables

/-! The conditions a reader puts on observations: the fragments appended to SQL queries, and
the checks made on loaded rows. `now` is the clock reading a query carries as text. -/
namespace HarnessMem.Visibility
open Js Text Recorder

-- `json_each` walks an array's items, an object's values, or the one scalar.
def values : Json → List Json
  | .arr items => items
  | .obj entries => entries.map Prod.snd
  | scalar => [scalar]

-- SQL's `lower` folds ASCII letters only, as `String.toLower` does.
def hiddenText (value : Json) : Bool :=
  match value with
  | .str tag => ["private", "sensitive"].contains tag.toLower
  | _ => false

-- Invalid JSON stands for a private tag.
def visibilityFilter (host : Host) (includePrivate : Bool) (row : Observation) : Bool :=
  includePrivate ||
    match host.parseJson row.privacyTagsJson with
    | some tags => !(values tags).any hiddenText
    | none => false

def expiredFilter (now : String) (row : Observation) : Bool :=
  match row.expiresAt with
  | none => true
  | some expiry => now < expiry
def archivedFilter (now : String) (includeArchived : Bool) (row : Observation) : Bool :=
  includeArchived || (row.live && expiredFilter now row)

def parseArrayJson (host : Host) (value : String) : List String :=
  if value = "" then []
  else match host.parseJson value with
    | some (.arr items) => items.filterMap (fun item => Json.text? (some item))
    | _ => []
def hasPrivateVisibilityTag (host : Host) (tags : List String) : Bool :=
  tags.any (fun tag => ["private", "sensitive"].contains (host.toLowerCase tag))

def tenantFilter (userId teamId : Option String) (owner : String) (team : Option String) : Bool :=
  match truthy userId with
  | none => true
  | some user =>
    owner = user || match truthy teamId with
      | none => false
      | some shared => team = some shared

def projectFilter (projects : List String) (project : String) : Bool :=
  projects.isEmpty || projects.contains project

-- `LIKE` without an escape character; ASCII letters match in either case.
def likeFrom : List Char → List Char → Bool
  | [], text => text.isEmpty
  | '%' :: pattern, text => text.tails.any (likeFrom pattern)
  | _ :: _, [] => false
  | c :: pattern, d :: text => (c = '_' || c.toLower = d.toLower) && likeFrom pattern text
def like (pattern text : String) : Bool := likeFrom pattern.toList text.toList

def loadObservation (now : String) (includeArchived : Bool) (db : Db) (id : String) : Option Observation :=
  if id = "" then none
  else db.observations.find? (fun row => row.id = id && archivedFilter now includeArchived row)

theorem loadedRow {now : String} {includeArchived : Bool} {db : Db} {id : String} {row : Observation}
    (found : loadObservation now includeArchived db id = some row) :
    row ∈ db.observations ∧ row.id = id ∧ archivedFilter now includeArchived row = true := by
  unfold loadObservation at found
  split at found
  · cases found
  · have matched := List.find?_some found
    rw [Bool.and_eq_true, decide_eq_true_eq] at matched
    exact ⟨List.mem_of_find?_eq_some found, matched⟩

theorem loadUnique {now : String} {includeArchived : Bool} {db : Db} {row : Observation}
    (keyed : (db.observations.map Observation.id).Nodup) (mem : row ∈ db.observations) (named : row.id ≠ "")
    (kept : archivedFilter now includeArchived row = true) :
    loadObservation now includeArchived db row.id = some row := by
  cases found : loadObservation now includeArchived db row.id with
  | none =>
    rw [loadObservation, if_neg named] at found
    have missing := List.find?_eq_none.mp found row mem
    rw [kept] at missing
    simp at missing
  | some other =>
    obtain ⟨held, same, _⟩ := loadedRow found
    rw [Tables.keyUnique keyed held mem same]

example : like "%src/A_c%" "file:SRC/abc.ts" = true := by decide

end HarnessMem.Visibility
