import HarnessMem.Provenance
import HarnessMem.Search

/-! The citation trace of one observation, and whether the checks it makes on the row are those
of the SQL the other readers use. -/
namespace HarnessMem.Verify
open Js Recorder Visibility Provenance

structure VerifyObservationRequest where
  observationId : String
  includePrivate : Bool
  includeArchived : Bool
  userId : Option String
  teamId : Option String

structure VerifyObservationNode where
  observationId : String
  sessionId : Option String
  project : Option String
  platform : Option String
  eventId : Option String
  createdAt : Option String
  title : Option String
  missing : Bool
  deriving DecidableEq, Repr

structure VerifyEventNode where
  eventId : String
  eventType : Option String
  ts : Option String
  toolName : Option String
  missing : Bool
  payloadUnparseable : Bool

structure VerifyObservationResult where
  ok : Bool
  observation : VerifyObservationNode
  event : Option VerifyEventNode
  provenance : Option CodeProvenance
  notes : List String

def safeParsePayload (host : Host) (raw : String) : Option (List (String × Json)) :=
  if raw = "" then none
  else match host.parseJson raw with
    | some (.obj payload) => some payload
    | _ => none

def isPrivate (host : Host) (tags : List String) : Bool :=
  tags.any (fun t => ["private", "secret", "sensitive"].contains (host.toLowerCase t))

-- Every refusal has the shape of a row that is not there.
def refusal (id note : String) : VerifyObservationResult :=
  ⟨false, ⟨id, none, none, none, none, none, none, true⟩, none, none, [note]⟩
def requiredNote : String := "observation_id is required"
def notFoundNote : String := "observation not found"

-- A date that cannot be read compares false with the clock.
def isExpired (host : Host) (now : Int) (row : Observation) : Bool :=
  match row.expiresAt.bind host.parseDate with
  | some expiry => expiry ≤ now
  | none => false

def matchesTenant (request : VerifyObservationRequest) (row : Observation) : Bool :=
  match truthy request.userId with
  | none => true
  | some user =>
    row.userId = user || match truthy request.teamId with
      | none => false
      | some team => row.teamId = some team

def eventNode (row : Event) (toolName : Option String) (payloadUnparseable : Bool) : VerifyEventNode :=
  ⟨row.eventId, some row.eventType, some row.ts, toolName, false, payloadUnparseable⟩

def unrecognised (toolName : Option String) : String :=
  match truthy toolName with
  | some name => "provenance-extractor did not recognise tool_name=" ++ name
  | none => "event payload has no tool_name; skipping provenance extraction"

-- From the row to its event, and to the file the event's payload names.
def trace (host : Host) (db : Db) (row : Observation) : VerifyObservationResult :=
  let observation := ⟨row.id, some row.sessionId, some row.project, some row.platform, row.eventId,
    some row.createdAt, row.title, false⟩
  match truthy row.eventId with
  | none => ⟨true, observation, none, none, ["observation has no linked event_id"]⟩
  | some eventId =>
    match db.events.find? (fun event => event.eventId = eventId) with
    | none => ⟨true, observation, some ⟨eventId, none, none, none, true, false⟩, none,
        ["linked event row missing (cascade retention likely trimmed it)"]⟩
    | some event =>
      match safeParsePayload host event.payloadJson with
      | none => ⟨true, observation, some (eventNode event none true), none, ["event payload is empty or non-object JSON"]⟩
      | some payload =>
        let toolName := Json.text? (Json.get payload "tool_name")
        let provenance := extractCodeProvenance host payload
        ⟨true, observation, some (eventNode event toolName false), provenance,
          if provenance.isSome then [] else [unrecognised toolName]⟩

def findRow (request : VerifyObservationRequest) (db : Db) : Option Observation :=
  db.observations.find? (fun row => row.id = trim request.observationId)

def verifyObservation (host : Host) (now : Int) (request : VerifyObservationRequest) (db : Db) :
    VerifyObservationResult :=
  let id := trim request.observationId
  if id = "" then refusal "" requiredNote
  else match findRow request db with
    | none => refusal id notFoundNote
    | some row =>
      if !request.includeArchived && (!row.live || isExpired host now row) then refusal id notFoundNote
      else if !matchesTenant request row then refusal id notFoundNote
      else if !request.includePrivate && isPrivate host (parseArrayJson host row.privacyTagsJson) then
        refusal row.id notFoundNote
      else trace host db row

theorem traceOk (host : Host) (db : Db) (row : Observation) : (trace host db row).ok = true := by
  unfold trace
  simp only
  split
  · rfl
  · split
    · rfl
    · split <;> rfl

-- The row is there for this caller, its privacy tags aside.
def Shown (host : Host) (now : Int) (request : VerifyObservationRequest) (row : Observation) : Prop :=
  (request.includeArchived = true ∨ row.live = true ∧ isExpired host now row = false) ∧
    tenantFilter request.userId request.teamId row.userId row.teamId = true

theorem verifyOk (host : Host) (now : Int) {request : VerifyObservationRequest} {db : Db} {row : Observation}
    (named : trim request.observationId ≠ "") (found : findRow request db = some row)
    (restricted : request.includePrivate = false) :
    (verifyObservation host now request db).ok = true ↔
      Shown host now request row ∧ isPrivate host (parseArrayJson host row.privacyTagsJson) = false := by
  have tenant : matchesTenant request row = tenantFilter request.userId request.teamId row.userId row.teamId := rfl
  unfold verifyObservation Shown
  rw [if_neg named, found, ← tenant]
  simp only [restricted]
  cases request.includeArchived <;> cases row.live <;> cases isExpired host now row <;> cases matchesTenant request row <;>
    cases isPrivate host (parseArrayJson host row.privacyTagsJson) <;> simp [refusal, traceOk]

theorem lowerAscii {c : Char} (low : c.toLower.toNat < 128) : c.toNat < 128 := by
  unfold Char.toLower at low
  split at low
  · rename_i upper
    have le := upper.2
    exact Nat.lt_of_le_of_lt le (by decide)
  · exact low

-- What `toLowerCase` and SQL's `lower` have in common.
def FoldsAscii (host : Host) : Prop := ∀ s : String, (∀ c ∈ s.toList, c.toNat < 128) → host.toLowerCase s = s.toLower

theorem foldedTag {host : Host} (folds : FoldsAscii host) {tag : String} (hidden : hiddenText (.str tag) = true) :
    ["private", "secret", "sensitive"].contains (host.toLowerCase tag) = true := by
  have named : tag.toLower = "private" ∨ tag.toLower = "sensitive" := by simpa [hiddenText] using hidden
  have low : tag.toLower.toList.all (fun c => c.toNat < 128) = true := by
    rcases named with is | is <;> rw [is] <;> decide
  have plain : ∀ c ∈ tag.toLower.toList, c.toNat < 128 := by simpa only [List.all_eq_true, decide_eq_true_eq] using low
  have ascii : ∀ c ∈ tag.toList, c.toNat < 128 := by
    intro c mem
    refine lowerAscii (plain c.toLower ?_)
    change c.toLower ∈ (tag.map Char.toLower).toList
    rw [String.toList_map]
    exact List.mem_map_of_mem mem
  rw [folds tag ascii]
  rcases named with is | is <;> rw [is] <;> decide

-- The stored tags are a JSON array.
def Listed (host : Host) (row : Observation) : Prop :=
  row.privacyTagsJson ≠ "" ∧ ∃ items, host.parseJson row.privacyTagsJson = some (.arr items)

theorem listedHidden {host : Host} (folds : FoldsAscii host) {row : Observation} (listed : Listed host row)
    (hidden : visibilityFilter host false row = false) :
    isPrivate host (parseArrayJson host row.privacyTagsJson) = true := by
  obtain ⟨text, items, parsed⟩ := listed
  simp only [visibilityFilter, parsed, values, Bool.false_or, Bool.not_eq_false', List.any_eq_true] at hidden
  obtain ⟨item, mem, secret⟩ := hidden
  cases item with
  | str tag =>
    have kept : tag ∈ parseArrayJson host row.privacyTagsJson := by
      simp only [parseArrayJson, text, if_false, parsed]
      exact List.mem_filterMap.mpr ⟨.str tag, mem, rfl⟩
    exact List.any_eq_true.mpr ⟨tag, kept, foldedTag folds secret⟩
  | _ => cases secret

theorem unlistedOpen {host : Host} {row : Observation} (unlisted : ¬ Listed host row) :
    isPrivate host (parseArrayJson host row.privacyTagsJson) = false := by
  have none : parseArrayJson host row.privacyTagsJson = [] := by
    unfold parseArrayJson
    split
    · rfl
    · rename_i text
      cases parsed : host.parseJson row.privacyTagsJson with
      | none => rfl
      | some value =>
        cases value with
        | arr items => exact absurd ⟨text, items, parsed⟩ unlisted
        | _ => rfl
  rw [none]
  rfl

-- A caller known by its team only.
def TeamOnly (request : VerifyObservationRequest) (team : String) : Prop :=
  truthy request.userId = none ∧ truthy request.teamId = some team

structure Agrees (host : Host) (request : VerifyObservationRequest) (row : Observation) (accessible : Bool) : Prop where
  admitted : accessible = true → visibilityFilter host false row = true ∧
    tenantFilter request.userId request.teamId row.userId row.teamId = true
  closed : ¬ Listed host row → accessible = false ∧ visibilityFilter host false row = false
  team : ∀ team, TeamOnly request team → accessible = true → row.teamId = some team

theorem agreesIff {host : Host} (folds : FoldsAscii host) {now : Int} {request : VerifyObservationRequest} {db : Db}
    {row : Observation} (named : trim request.observationId ≠ "") (found : findRow request db = some row)
    (restricted : request.includePrivate = false) :
    Agrees host request row (verifyObservation host now request db).ok ↔
      (Listed host row → ∀ team, TeamOnly request team → row.teamId = some team ∨ ¬ Shown host now request row ∨
          isPrivate host (parseArrayJson host row.privacyTagsJson) = true) ∧
        (¬ Listed host row → ¬ Shown host now request row ∧ visibilityFilter host false row = false) := by
  have ok := verifyOk host now named found restricted
  by_cases listed : Listed host row
  · constructor
    · intro agrees
      refine ⟨fun _ team only => ?_, fun unlisted => absurd listed unlisted⟩
      by_cases shown : Shown host now request row
      · cases secret : isPrivate host (parseArrayJson host row.privacyTagsJson) with
        | true => exact .inr (.inr rfl)
        | false => exact .inl (agrees.team team only (ok.mpr ⟨shown, secret⟩))
      · exact .inr (.inl shown)
    · rintro ⟨same, -⟩
      refine ⟨fun accessible => ?_, fun unlisted => absurd listed unlisted, fun team only accessible => ?_⟩
      · obtain ⟨shown, plain⟩ := ok.mp accessible
        refine ⟨?_, shown.2⟩
        by_contra hidden
        rw [listedHidden folds listed (Bool.eq_false_iff.mpr hidden)] at plain
        cases plain
      · obtain ⟨shown, plain⟩ := ok.mp accessible
        rcases same listed team only with mine | gone | secret
        · exact mine
        · exact absurd shown gone
        · exact Bool.noConfusion (secret.symm.trans plain)
  · have plain := unlistedOpen listed
    constructor
    · intro agrees
      obtain ⟨refused, hidden⟩ := agrees.closed listed
      exact ⟨fun yes => absurd yes listed, fun _ => ⟨fun shown => Bool.noConfusion ((ok.mpr ⟨shown, plain⟩).symm.trans refused), hidden⟩⟩
    · rintro ⟨-, gone⟩
      obtain ⟨unseen, hidden⟩ := gone listed
      have refused : (verifyObservation host now request db).ok = false :=
        Bool.eq_false_iff.mpr (fun accessible => unseen (ok.mp accessible).1)
      exact ⟨fun accessible => Bool.noConfusion (accessible.symm.trans refused), fun _ => ⟨refused, hidden⟩,
        fun _ _ accessible => Bool.noConfusion (accessible.symm.trans refused)⟩

-- A host that reads the empty array, and two rows: one whose tags are not JSON, one of a team.
def tagHost : Host := {plainHost with parseJson := fun text => if text = "[]" then some (.arr []) else none}
def brokenRow : Observation := {Search.plainRow "a" "p" "u" with privacyTagsJson := "private"}
def teamRow : Observation := {Search.plainRow "b" "p" "u" with teamId := some "red", privacyTagsJson := "[]"}
def taggedDb : Db := {Db.empty with observations := [brokenRow, teamRow]}
def asking (id : String) (teamId : Option String) : VerifyObservationRequest := ⟨id, false, false, none, teamId⟩

theorem agreesOnce :
    Agrees tagHost (asking "b" none) teamRow (verifyObservation tagHost 0 (asking "b" none) taggedDb).ok ↔
      (Listed tagHost teamRow → ∀ team, TeamOnly (asking "b" none) team → teamRow.teamId = some team ∨
          ¬ Shown tagHost 0 (asking "b" none) teamRow ∨
          isPrivate tagHost (parseArrayJson tagHost teamRow.privacyTagsJson) = true) ∧
        (¬ Listed tagHost teamRow → ¬ Shown tagHost 0 (asking "b" none) teamRow ∧ visibilityFilter tagHost false teamRow = false) :=
  agreesIff (fun _ _ => rfl) (by decide) (by decide) rfl

-- The first row is traced although the SQL hides it; the second is traced for another team.
theorem agreesNot :
    ¬ Agrees tagHost (asking "a" none) brokenRow (verifyObservation tagHost 0 (asking "a" none) taggedDb).ok ∧
      ¬ Agrees tagHost (asking "b" (some "blue")) teamRow (verifyObservation tagHost 0 (asking "b" (some "blue")) taggedDb).ok := by
  constructor
  · intro agrees
    have hidden : visibilityFilter tagHost false brokenRow = false := by decide
    exact Bool.noConfusion (((agrees.admitted (by decide)).1).symm.trans hidden)
  · intro agrees
    have other := agrees.team "blue" ⟨rfl, by decide⟩ (by decide)
    exact absurd other (by decide)

end HarnessMem.Verify
