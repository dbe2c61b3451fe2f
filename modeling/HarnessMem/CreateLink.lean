import HarnessMem.Expiry

/-! `createLink`: one row for each pair and relation, stored with its temporal anchors. The answer
is built from the request and the clock, whatever the insert did. -/
namespace HarnessMem.CreateLink
open Js Expiry

-- `supersedes` is a text or absent; the other anchors are normalised.
structure CreateLinkRequest where
  fromObservationId : String
  toObservationId : String
  relation : String
  weight : Option Number
  eventTime : Value
  observedAt : Value
  validFrom : Value
  validTo : Value
  supersedes : Option String
  invalidatedAt : Value

-- A row of `mem_links` with all its columns, and what a call describes.
structure LinkRow where
  fromObservationId : String
  toObservationId : String
  relation : String
  weight : Number
  temporal : Temporal
  createdAt : String
  deriving DecidableEq, Repr

def validRelations : List String :=
  ["updates", "extends", "derives", "follows", "shared_entity", "contradicts", "causes", "part_of", "supersedes", "superseded"]

def requiredMessage : String := "from_observation_id, to_observation_id, relation are required"
def selfMessage : String := "self-referential link is not allowed"
def relationMessage (relation : String) : String :=
  "invalid relation type: " ++ relation ++ ". Must be one of: " ++ String.intercalate ", " validRelations
def failedMessage (thrown : String) : String := "failed to create link: " ++ thrown

-- The unique index of `mem_links`.
def sameLink (old row : LinkRow) : Bool :=
  old.fromObservationId = row.fromObservationId && old.toObservationId = row.toObservationId && old.relation = row.relation

-- `INSERT OR IGNORE`: a weight that is not a number is bound as NULL and skips the row, and so does
-- a row of the same pair and relation; a missing observation is an error all the same.
def insertOrIgnore (observationIds : List String) (links : List LinkRow) (row : LinkRow) : Except String (List LinkRow) :=
  if row.weight = .nan || links.any (fun old => sameLink old row) then .ok links
  else if row.fromObservationId ∈ observationIds ∧ row.toObservationId ∈ observationIds then .ok (links ++ [row])
  else .error "SQLiteError: FOREIGN KEY constraint failed"

section
variable (rt : Runtime) (now : String) (observationIds : List String)

def supersedesOf (request : CreateLinkRequest) : Option String :=
  match request.supersedes.map trim with
  | some text => if text ≠ "" then some text else if request.relation = "supersedes" then some request.toObservationId else none
  | none => if request.relation = "supersedes" then some request.toObservationId else none

def weightOf (request : CreateLinkRequest) : Number := request.weight.getD (.fin 1)

def linkRow (request : CreateLinkRequest) : Except String LinkRow := do
  let eventTime ← normalizeExpiresAt rt request.eventTime
  let observedAt ← normalizeExpiresAt rt request.observedAt
  let validFrom ← normalizeExpiresAt rt request.validFrom
  let validTo ← normalizeExpiresAt rt request.validTo
  let invalidatedAt ← normalizeExpiresAt rt request.invalidatedAt
  return {
    fromObservationId := request.fromObservationId
    toObservationId := request.toObservationId
    relation := request.relation
    weight := weightOf request
    temporal := ⟨eventTime, some (observedAt.getD now), validFrom, validTo, supersedesOf request, invalidatedAt⟩
    createdAt := now }

-- The table afterwards and the answer: the link described, or the text of an error.
def createLink (request : CreateLinkRequest) (links : List LinkRow) : List LinkRow × Except String LinkRow :=
  if request.fromObservationId = "" ∨ request.toObservationId = "" ∨ request.relation = "" then (links, .error requiredMessage)
  else if request.fromObservationId = request.toObservationId then (links, .error selfMessage)
  else if request.relation ∉ validRelations then (links, .error (relationMessage request.relation))
  else match linkRow rt now request with
    | .error thrown => (links, .error (failedMessage thrown))
    | .ok row =>
      match insertOrIgnore observationIds links row with
      | .error thrown => (links, .error (failedMessage thrown))
      | .ok stored => (stored, .ok row)

end

-- The row stored for a pair and relation.
def stored (links : List LinkRow) (source target relation : String) : Option LinkRow :=
  links.find? (fun old => old.fromObservationId = source && old.toObservationId = target && old.relation = relation)

-- The ends, the relation, the weight and the time of creation.
def described (row : LinkRow) : String × String × String × Number × String :=
  (row.fromObservationId, row.toObservationId, row.relation, row.weight, row.createdAt)

-- Nothing was stored for the pair and relation and the weight is a number, or what was stored has
-- the same weight and was created at the same reading of the clock.
def Agreeing (now : String) (links : List LinkRow) (request : CreateLinkRequest) : Prop :=
  match stored links request.fromObservationId request.toObservationId request.relation with
  | none => weightOf request ≠ .nan
  | some old => old.weight = weightOf request ∧ old.createdAt = now

section
variable {rt : Runtime} {now : String} {observationIds : List String} {request : CreateLinkRequest} {links : List LinkRow} {row : LinkRow}

theorem storedEnds {source target relation : String} {old : LinkRow} (found : stored links source target relation = some old) :
    old.fromObservationId = source ∧ old.toObservationId = target ∧ old.relation = relation := by
  have same := List.find?_some found
  simp only [Bool.and_eq_true, decide_eq_true_eq] at same
  exact ⟨same.1.1, same.1.2, same.2⟩

theorem storedKnown : (stored links row.fromObservationId row.toObservationId row.relation).isSome =
    links.any (fun old => sameLink old row) := by
  rw [Bool.eq_iff_iff, stored, List.find?_isSome, List.any_eq_true]
  rfl

theorem linkRowRead (made : linkRow rt now request = .ok row) : row.fromObservationId = request.fromObservationId ∧
    row.toObservationId = request.toObservationId ∧ row.relation = request.relation ∧ row.weight = weightOf request ∧
    row.createdAt = now := by
  unfold linkRow at made
  obtain ⟨eventTime, -, made⟩ := bindOk made
  obtain ⟨observedAt, -, made⟩ := bindOk made
  obtain ⟨validFrom, -, made⟩ := bindOk made
  obtain ⟨validTo, -, made⟩ := bindOk made
  obtain ⟨invalidatedAt, -, made⟩ := bindOk made
  obtain rfl := Except.ok.inj made
  exact ⟨rfl, rfl, rfl, rfl, rfl⟩

-- An answer comes with the row the statement was given, and with what the statement did.
theorem answered {response : LinkRow} (ok : (createLink rt now observationIds request links).2 = .ok response) :
    linkRow rt now request = .ok response ∧
      insertOrIgnore observationIds links response = .ok (createLink rt now observationIds request links).1 := by
  unfold createLink at ok ⊢
  split at ok
  · cases ok
  split at ok
  · cases ok
  split at ok
  · cases ok
  rename_i filled apart valid
  rw [if_neg filled, if_neg apart, if_neg valid]
  cases made : linkRow rt now request with
  | error thrown =>
    rw [made] at ok
    cases ok
  | ok row =>
    rw [made] at ok
    simp only at ok ⊢
    cases done : insertOrIgnore observationIds links row with
    | error thrown =>
      rw [done] at ok
      cases ok
    | ok after =>
      rw [done] at ok
      obtain rfl := Except.ok.inj ok
      exact ⟨rfl, done⟩

-- What is stored after the statement, by what was stored before it.
theorem insertedStored {after : List LinkRow} (done : insertOrIgnore observationIds links row = .ok after) :
    stored after row.fromObservationId row.toObservationId row.relation =
      (stored links row.fromObservationId row.toObservationId row.relation).orElse
        (fun _ => if row.weight = .nan then none else some row) := by
  unfold insertOrIgnore at done
  rw [← storedKnown] at done
  cases found : stored links row.fromObservationId row.toObservationId row.relation with
  | some old =>
    rw [found, Option.isSome_some, Bool.or_true, if_pos rfl] at done
    obtain rfl := Except.ok.inj done
    exact found
  | none =>
    rw [found, Option.isSome_none, Bool.or_false] at done
    by_cases number : row.weight = .nan
    · rw [if_pos (by simpa using number)] at done
      obtain rfl := Except.ok.inj done
      rw [found, if_pos number]
      rfl
    · rw [if_neg (by simpa using number)] at done
      split at done
      · obtain rfl := Except.ok.inj done
        rw [if_neg number, stored, List.find?_append]
        change (stored links row.fromObservationId row.toObservationId row.relation).or _ = _
        rw [found]
        simp
      · cases done

theorem answerStoredExact {response : LinkRow} (ok : (createLink rt now observationIds request links).2 = .ok response) :
    (stored (createLink rt now observationIds request links).1 request.fromObservationId request.toObservationId
        request.relation).map described = some (described response) ↔ Agreeing now links request := by
  obtain ⟨made, done⟩ := answered ok
  obtain ⟨source, target, relation, weight, created⟩ := linkRowRead made
  have after := insertedStored done
  rw [source, target, relation, weight] at after
  rw [after, Agreeing]
  cases found : stored links request.fromObservationId request.toObservationId request.relation with
  | some old =>
    obtain ⟨source', target', relation'⟩ := storedEnds found
    simp [described, source, target, relation, source', target', relation', weight, created]
  | none =>
    by_cases number : weightOf request = .nan
    · simp [number]
    · simp [number]

-- A refused call leaves the table alone.
theorem refusedKept {message : String} (refused : (createLink rt now observationIds request links).2 = .error message) :
    (createLink rt now observationIds request links).1 = links := by
  unfold createLink at refused ⊢
  split
  · rfl
  split
  · rfl
  split
  · rfl
  rename_i filled apart valid
  rw [if_neg filled, if_neg apart, if_neg valid] at refused
  split
  · rfl
  split
  · rfl
  · rename_i made _ after done
    rw [made] at refused
    simp only [done] at refused
    cases refused

end

def following (weight : ℚ) : CreateLinkRequest :=
  ⟨"a", "b", "follows", some (.fin weight), .absent, .absent, .absent, .absent, none, .absent⟩
def first : String := "2026-01-01T00:00:00.000Z"
def later : String := "2026-01-02T00:00:00.000Z"

theorem answerStoredFirst : ∃ response, (createLink exactRuntime first ["a", "b"] (following 1) []).2 = .ok response ∧
    (stored (createLink exactRuntime first ["a", "b"] (following 1) []).1 "a" "b" "follows").map described = some (described response) := by
  refine ⟨_, rfl, (answerStoredExact rfl).mpr ?_⟩
  intro none
  cases none

-- Linked again a day later with half the weight: the answer tells the new weight and time, the table the old ones.
theorem answerNotStored :
    let links := (createLink exactRuntime first ["a", "b"] (following 1) []).1
    let again := createLink exactRuntime later ["a", "b"] (following (1 / 2)) links
    again.2.map described = .ok ("a", "b", "follows", .fin (1 / 2), later) ∧
      again.1.map described = [("a", "b", "follows", .fin 1, first)] := by
  decide +kernel

end HarnessMem.CreateLink
