import Mathlib.Data.List.Basic
import Mathlib.Tactic.Common

/-! A tree of names with symbolic links in it: where a path leads once its links are followed. A place is the names from
the root down to it, none of them a link. -/
namespace HarnessMem.LinkWalk

inductive Step (α : Type*) where
  | up
  | name (a : α)
  deriving DecidableEq

inductive Node (α : Type*) where
  | dir
  | file
  | link (absolute : Bool) (target : List (Step α))

inductive Fault where
  | missing | notDirectory | tooManyLinks
  deriving DecidableEq

-- What is under a directory only is there; the system follows no more than so many links on one path.
structure LinkTree (α : Type*) where
  node : List α → Option (Node α)
  maxLinks : Nat
  root : node [] = some .dir
  within : ∀ place a, node (place ++ [a]) ≠ none → node place = some .dir

section
variable {α : Type*}

def named (names : List α) : List (Step α) := names.map .name

def enter (place : List α) : Step α → List α
  | .up => place.dropLast
  | .name a => place ++ [a]
def lexical (place : List α) (path : List (Step α)) : List α := path.foldl enter place

variable (tree : LinkTree α)

def start (place : List α) (absolute : Bool) : List α := if absolute then [] else place

-- Names that are not there yet are walked through as they stand. With the place goes how many links may still be followed.
def walkOn (follow : List α → List (Step α) → Option (List α × Nat)) (left : Nat) (place : List α) : List (Step α) → Option (List α × Nat)
  | [] => some (place, left)
  | .up :: rest => walkOn follow left place.dropLast rest
  | .name a :: rest => match tree.node (place ++ [a]) with
    | some (.link absolute target) => follow (start place absolute) (target ++ rest)
    | _ => walkOn follow left (place ++ [a]) rest
def walk : Nat → List α → List (Step α) → Option (List α × Nat)
  | 0 => walkOn tree (fun _ _ => none) 0
  | n + 1 => walkOn tree (walk n) (n + 1)

-- The same walk where everything on the way has to be there.
def statOn (follow : List α → List (Step α) → Except Fault (List α)) (place : List α) : List (Step α) → Except Fault (List α)
  | [] => .ok place
  | .up :: rest => statOn follow place.dropLast rest
  | .name a :: rest => match tree.node (place ++ [a]) with
    | none => .error .missing
    | some .file => if rest.isEmpty then .ok (place ++ [a]) else .error .notDirectory
    | some .dir => statOn follow (place ++ [a]) rest
    | some (.link absolute target) => follow (start place absolute) (target ++ rest)
def stat : Nat → List α → List (Step α) → Except Fault (List α)
  | 0 => statOn tree (fun _ _ => .error .tooManyLinks)
  | n + 1 => statOn tree (stat n)

def IsLink (place : List α) : Prop := ∃ absolute target, tree.node place = some (.link absolute target)

def Linkless : List α → List α → Prop
  | _, [] => True
  | place, a :: rest => ¬ IsLink tree (place ++ [a]) ∧ Linkless (place ++ [a]) rest

-- The last name on a way that is a link leads to `reached`, and `after` is the rest of the way.
def LastLink (n : Nat) (place names reached after : List α) : Prop :=
  ∃ before a at_ left left', names = before ++ a :: after ∧ walk tree n place (named before) = some (at_, left) ∧
    IsLink tree (at_ ++ [a]) ∧ walk tree left at_ (named [a]) = some (reached, left') ∧ Linkless tree reached after

variable {tree}

theorem walkNil (n : Nat) (place : List α) : walk tree n place [] = some (place, n) := by cases n <;> rfl
theorem walkUp (n : Nat) (place : List α) (rest : List (Step α)) : walk tree n place (.up :: rest) = walk tree n place.dropLast rest := by
  cases n <;> rfl

theorem walkName (n : Nat) {place : List α} {a : α} (plain : ¬ IsLink tree (place ++ [a])) (rest : List (Step α)) :
    walk tree n place (.name a :: rest) = walk tree n (place ++ [a]) rest := by
  cases n <;>
  · simp only [walk, walkOn]
    split
    · rename_i absolute target found
      exact absurd ⟨absolute, target, found⟩ plain
    · rfl

theorem walkLink {place : List α} {a : α} {absolute : Bool} {target : List (Step α)}
    (found : tree.node (place ++ [a]) = some (.link absolute target)) (rest : List (Step α)) :
    walk tree 0 place (.name a :: rest) = none ∧
      ∀ n, walk tree (n + 1) place (.name a :: rest) = walk tree n (start place absolute) (target ++ rest) := by
  constructor
  · simp only [walk, walkOn, found]
  · intro n
    rw [walk, walkOn, found]

-- Two ways one after the other.
theorem walkAppend (n : Nat) (place : List α) (first second : List (Step α)) :
    walk tree n place (first ++ second) = (walk tree n place first).bind (fun found => walk tree found.2 found.1 second) := by
  induction n generalizing place first with
  | zero =>
    induction first generalizing place with
    | nil => rw [List.nil_append, walkNil]; rfl
    | cons step rest ih =>
      cases step with
      | up => rw [List.cons_append, walkUp, walkUp, ih]
      | name a =>
        rw [List.cons_append]
        by_cases link : IsLink tree (place ++ [a])
        · obtain ⟨absolute, target, found⟩ := link
          rw [(walkLink found _).1, (walkLink found _).1]
          rfl
        · rw [walkName 0 link, walkName 0 link, ih]
  | succ n more =>
    induction first generalizing place with
    | nil => rw [List.nil_append, walkNil]; rfl
    | cons step rest ih =>
      cases step with
      | up => rw [List.cons_append, walkUp, walkUp, ih]
      | name a =>
        rw [List.cons_append]
        by_cases link : IsLink tree (place ++ [a])
        · obtain ⟨absolute, target, found⟩ := link
          rw [(walkLink found _).2, (walkLink found _).2, ← List.append_assoc, more]
        · rw [walkName (n + 1) link, walkName (n + 1) link, ih]

theorem walkLinkless {place names : List α} (plain : Linkless tree place names) (n : Nat) :
    walk tree n place (named names) = some (place ++ names, n) := by
  induction names generalizing place with
  | nil => rw [List.append_nil]; exact walkNil n place
  | cons a rest ih =>
    have next := ih plain.2
    rw [List.append_assoc] at next
    exact (walkName n plain.1 (named rest)).trans next

theorem walkCons (n : Nat) (place : List α) (a : α) (rest : List α) : walk tree n place (named (a :: rest)) =
    (walk tree n place (named [a])).bind (fun found => walk tree found.2 found.1 (named rest)) :=
  walkAppend n place [.name a] (named rest)

theorem lastLinkOr {n : Nat} {place names : List α} (ends : walk tree n place (named names) ≠ none) :
    Linkless tree place names ∨ ∃ reached after, LastLink tree n place names reached after := by
  induction names generalizing n place with
  | nil => exact .inl trivial
  | cons a rest ih =>
    by_cases link : IsLink tree (place ++ [a])
    · rw [walkCons] at ends
      cases first : walk tree n place (named [a]) with
      | none => exact absurd (by rw [first]; rfl) ends
      | some found =>
        rw [first] at ends
        rcases ih ends with plain | ⟨reached, after, before, b, at_, left, left', rfl, walked, linked, followed, plain⟩
        · exact .inr ⟨found.1, rest, [], a, place, n, found.2, rfl, walkNil n place, link, first, plain⟩
        · refine .inr ⟨reached, after, a :: before, b, at_, left, left', rfl, ?_, linked, followed, plain⟩
          rw [walkCons, first]
          exact walked
    · have next : walk tree n place (named (a :: rest)) = walk tree n (place ++ [a]) (named rest) := walkName n link (named rest)
      rw [next] at ends
      rcases ih ends with plain | ⟨reached, after, before, b, at_, left, left', rfl, walked, linked, followed, plain⟩
      · exact .inl ⟨link, plain⟩
      · exact .inr ⟨reached, after, a :: before, b, at_, left, left', rfl, (walkName n link (named before)).trans walked, linked, followed, plain⟩

theorem lastLinkPlace {n : Nat} {place names reached after : List α} (last : LastLink tree n place names reached after) :
    ∃ left, walk tree n place (named names) = some (reached ++ after, left) := by
  obtain ⟨before, a, at_, left, left', rfl, walked, -, followed, plain⟩ := last
  have split : named (before ++ a :: after) = named before ++ named (a :: after) := List.map_append
  refine ⟨left', ?_⟩
  rw [split, walkAppend, walked, Option.bind_some, walkCons, followed]
  exact walkLinkless plain left'

/-! What is there is where the walk leads. -/

theorem statOnWalk {followed : List α → List (Step α) → Except Fault (List α)} {follow : List α → List (Step α) → Option (List α × Nat)}
    (agree : ∀ {place path real}, followed place path = .ok real → ∃ left, follow place path = some (real, left)) (n : Nat)
    {place real : List α} {path : List (Step α)} (found : statOn tree followed place path = .ok real) :
    ∃ left, walkOn tree follow n place path = some (real, left) := by
  induction path generalizing place with
  | nil =>
    obtain rfl := Except.ok.inj found
    exact ⟨n, rfl⟩
  | cons step rest ih =>
    cases step with
    | up => exact ih found
    | name a =>
      rw [statOn] at found
      rw [walkOn]
      cases node : tree.node (place ++ [a]) with
      | none =>
        rw [node] at found
        cases found
      | some kind =>
        rw [node] at found
        cases kind with
        | dir => exact ih found
        | link absolute target => exact agree found
        | file =>
          cases rest with
          | nil =>
            obtain rfl := Except.ok.inj found
            exact ⟨n, rfl⟩
          | cons step rest => cases found

theorem statWalk {n : Nat} {place real : List α} {path : List (Step α)} (found : stat tree n place path = .ok real) :
    ∃ left, walk tree n place path = some (real, left) := by
  induction n generalizing place path real with
  | zero => exact statOnWalk (fun broken => by cases broken) 0 found
  | succ n ih => exact statOnWalk ih (n + 1) found

theorem statOnPrefix {follow : List α → List (Step α) → Except Fault (List α)}
    (shorter : ∀ {place real first second}, follow place (first ++ second) = .ok real → ∃ on, follow place first = .ok on)
    {place real : List α} {first second : List (Step α)} (found : statOn tree follow place (first ++ second) = .ok real) :
    ∃ on, statOn tree follow place first = .ok on := by
  induction first generalizing place with
  | nil => exact ⟨place, rfl⟩
  | cons step rest ih =>
    cases step with
    | up => exact ih found
    | name a =>
      rw [List.cons_append, statOn] at found
      rw [statOn]
      cases node : tree.node (place ++ [a]) with
      | none =>
        rw [node] at found
        cases found
      | some kind =>
        rw [node] at found
        cases kind with
        | dir => exact ih found
        | link absolute target =>
          simp only [← List.append_assoc] at found
          exact shorter found
        | file =>
          cases rest with
          | nil => exact ⟨place ++ [a], rfl⟩
          | cons step rest => cases found

theorem statPrefix {n : Nat} {place real : List α} {first second : List (Step α)} (found : stat tree n place (first ++ second) = .ok real) :
    ∃ on, stat tree n place first = .ok on := by
  induction n generalizing place real first second with
  | zero => exact statOnPrefix (fun broken => by cases broken) found
  | succ n ih => exact statOnPrefix ih found

/-! Ways into a place. -/

-- A place and the rest of a way from it lead into `root`: the place is in it, or above it and the way goes on into it.
def LeadsInto (root reached after : List α) : Prop := root <+: reached ∨ ∃ back, back ≠ [] ∧ root = reached ++ back ∧ back <+: after

theorem leadsIntoIff {root reached after : List α} : root <+: reached ++ after ↔ LeadsInto root reached after := by
  constructor
  · intro inside
    rcases List.prefix_or_prefix_of_prefix inside (List.prefix_append reached after) with within | ⟨back, rfl⟩
    · exact .inl within
    · by_cases none : back = []
      · exact .inl (by simp [none])
      · exact .inr ⟨back, none, rfl, (List.prefix_append_right_inj reached).mp inside⟩
  · rintro (within | ⟨back, -, rfl, starts⟩)
    · exact within.trans (List.prefix_append reached after)
    · exact (List.prefix_append_right_inj reached).mpr starts

end
end HarnessMem.LinkWalk
