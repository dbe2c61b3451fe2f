import Mathlib.Data.List.Dedup
import Mathlib.Data.Set.Card

/-! Distance from a set of nodes along a relation, and the layers a search in breadth goes through.
How many nodes there are at all is left open. -/
namespace HarnessMem.Breadth

section
variable {Node : Type*} (seed : Node → Prop) (step : Node → Node → Prop)

-- Reached from a seed in at most so many steps.
inductive Within : Nat → Node → Prop
  | start {n : Nat} {x : Node} (from_ : seed x) : Within n x
  | next {n : Nat} {x y : Node} (near : Within n x) (goes : step x y) : Within (n + 1) y

-- The least number of steps it takes.
structure Exactly (n : Nat) (x : Node) : Prop where
  within : Within seed step n x
  fresh : ∀ m < n, ¬ Within seed step m x

variable {seed step} {m n : Nat} {x y : Node}

theorem withinMono (le : m ≤ n) (near : Within seed step m x) : Within seed step n x := by
  induction near generalizing n with
  | start from_ => exact .start from_
  | next _ goes ih =>
    obtain ⟨n, rfl⟩ : ∃ k, n = k + 1 := ⟨n - 1, by omega⟩
    exact .next (ih (Nat.le_of_succ_le_succ le)) goes

@[simp] theorem withinZero : Within seed step 0 x ↔ seed x := by
  constructor
  · rintro (from_ | _)
    exact from_
  · exact .start

theorem withinNext : Within seed step (n + 1) y ↔ Within seed step n y ∨ ∃ x, Within seed step n x ∧ step x y := by
  constructor
  · rintro (from_ | ⟨near, goes⟩)
    · exact .inl (.start from_)
    · exact .inr ⟨_, near, goes⟩
  · rintro (near | ⟨x, near, goes⟩)
    · exact withinMono (Nat.le_succ n) near
    · exact .next near goes

@[simp] theorem exactlyZero : Exactly seed step 0 x ↔ seed x :=
  ⟨fun exactly => withinZero.mp exactly.within, fun from_ => ⟨.start from_, fun _ less => absurd less (Nat.not_lt_zero _)⟩⟩

-- A layer is what one step from the layer before it reaches for the first time.
theorem exactlyNext : Exactly seed step (n + 1) y ↔ ¬ Within seed step n y ∧ ∃ x, Exactly seed step n x ∧ step x y := by
  constructor
  · rintro ⟨within, fresh⟩
    have new := fresh n (Nat.lt_succ_self n)
    obtain ⟨x, near, goes⟩ := (withinNext.mp within).resolve_left new
    exact ⟨new, x, ⟨near, fun m less nearer => fresh (m + 1) (by omega) (.next nearer goes)⟩, goes⟩
  · rintro ⟨new, x, exactly, goes⟩
    exact ⟨.next exactly.within goes, fun m less near => new (withinMono (Nat.le_of_lt_succ less) near)⟩

theorem withinExactly : Within seed step n x ↔ ∃ m ≤ n, Exactly seed step m x := by
  classical
  constructor
  · intro near
    have some : ∃ m, Within seed step m x := ⟨n, near⟩
    exact ⟨Nat.find some, Nat.find_min' some near, Nat.find_spec some, fun m less => Nat.find_min some less⟩
  · rintro ⟨m, le, exactly⟩
    exact withinMono le exactly.within

theorem exactlyUnique (one : Exactly seed step m x) (two : Exactly seed step n x) : m = n := by
  rcases Nat.lt_trichotomy m n with less | same | more
  · exact absurd one.within (two.fresh m less)
  · exact same
  · exact absurd two.within (one.fresh n more)

theorem withinLayer : Within seed step (n + 1) x ↔ Within seed step n x ∨ Exactly seed step (n + 1) x := by
  constructor
  · intro near
    by_cases before : Within seed step n x
    · exact .inl before
    · exact .inr ⟨near, fun m less nearer => before (withinMono (Nat.le_of_lt_succ less) nearer)⟩
  · exact fun either => either.elim (withinMono (Nat.le_succ n)) Exactly.within

-- Behind an empty layer nothing is new.
theorem layersEnd (none : ∀ x, ¬ Exactly seed step n x) (near : Within seed step m x) : Within seed step n x := by
  induction m generalizing x with
  | zero => exact withinMono (Nat.zero_le n) near
  | succ m ih =>
    rcases withinNext.mp near with before | ⟨parent, nearer, goes⟩
    · exact ih before
    · obtain ⟨k, le, exactly⟩ := withinExactly.mp (ih nearer)
      rcases Nat.lt_or_eq_of_le le with less | rfl
      · exact withinMono less (.next exactly.within goes)
      · exact absurd exactly (none parent)
end

-- What a search has come to, and what of it in the round under way.
structure Found (Node : Type*) where
  visited : List Node
  fresh : List Node

section
variable {Node : Type*} {seed : Node → Prop} {step : Node → Node → Prop} {n : Nat} {found : Found Node}

variable (seed step n found) in
-- After so many rounds what was found last is the last layer.
structure Layered : Prop where
  fresh : ∀ x, x ∈ found.fresh ↔ Exactly seed step n x
  visited : ∀ x, x ∈ found.visited ↔ Within seed step n x

theorem layeredStart {seeds : List Node} : Layered (· ∈ seeds) step 0 ⟨seeds, seeds⟩ :=
  ⟨fun _ => exactlyZero.symm, fun _ => withinZero.symm⟩

variable [DecidableEq Node]

def discover (found : Found Node) (x : Node) : Found Node :=
  if x ∈ found.visited then found else ⟨found.visited ++ [x], found.fresh ++ [x]⟩

theorem discoveredVisited (rows : List Node) (found : Found Node) (y : Node) :
    y ∈ (rows.foldl discover found).visited ↔ y ∈ found.visited ∨ y ∈ rows := by
  induction rows generalizing found with
  | nil => simp
  | cons x rest ih =>
    rw [List.foldl_cons, ih, List.mem_cons]
    unfold discover
    split
    · rename_i seen
      refine or_congr_right' fun new => (or_iff_right ?_).symm
      rintro rfl
      exact new seen
    · simp [or_assoc]

theorem discoveredFresh (rows : List Node) (found : Found Node) (y : Node) :
    y ∈ (rows.foldl discover found).fresh ↔ y ∈ found.fresh ∨ y ∉ found.visited ∧ y ∈ rows := by
  induction rows generalizing found with
  | nil => simp
  | cons x rest ih =>
    rw [List.foldl_cons, ih, List.mem_cons]
    unfold discover
    split
    · rename_i seen
      refine or_congr_right (and_congr_right fun new => (or_iff_right ?_).symm)
      rintro rfl
      exact new seen
    · rename_i new
      simp only [List.mem_append, List.mem_singleton]
      by_cases same : y = x
      · subst same
        simp [new]
      · simp [same]

-- A round that comes across what is one step from the last layer, and across whatever was there before.
theorem layeredNext (layered : Layered seed step n found) {rows : List Node}
    (all : ∀ y, ¬ Within seed step n y → (y ∈ rows ↔ ∃ x, Exactly seed step n x ∧ step x y)) :
    Layered seed step (n + 1) (rows.foldl discover ⟨found.visited, []⟩) := by
  constructor
  · intro y
    rw [discoveredFresh, exactlyNext]
    simp only [List.not_mem_nil, false_or, layered.visited]
    exact and_congr_right (all y)
  · intro y
    rw [discoveredVisited, layered.visited]
    constructor
    · rintro (before | mem)
      · exact withinMono (Nat.le_succ n) before
      · by_contra beyond
        have new : ¬ Within seed step n y := fun near => beyond (withinMono (Nat.le_succ n) near)
        obtain ⟨x, exactly, goes⟩ := (all y new).mp mem
        exact beyond (.next exactly.within goes)
    · intro near
      rcases withinLayer.mp near with before | exactly
      · exact .inl before
      · obtain ⟨new, reached⟩ := exactlyNext.mp exactly
        exact .inr ((all y new).mpr reached)

end

-- No more than so many nodes.
def AtMost {Node : Type*} (n : Nat) (P : Node → Prop) : Prop := {x | P x}.encard ≤ n

theorem atMostList {Node : Type*} {n : Nat} {P : Node → Prop} (few : AtMost n P) {nodes : List Node} (once : nodes.Nodup)
    (all : ∀ x ∈ nodes, P x) : nodes.length ≤ n := by
  classical
  have inside : (nodes.toFinset : Set Node) ⊆ {x | P x} := fun x mem => all x (List.mem_toFinset.mp mem)
  have bound := (Set.encard_le_encard inside).trans few
  rw [Set.encard_coe_eq_coe_finsetCard, List.toFinset_card_of_nodup once] at bound
  exact_mod_cast bound

theorem atMostOf {Node : Type*} {n : Nat} {P : Node → Prop} (nodes : List Node) (few : nodes.length ≤ n)
    (all : ∀ x, P x → x ∈ nodes) : AtMost n P := by
  classical
  have inside : {x | P x} ⊆ (nodes.toFinset : Set Node) := fun x holds => List.mem_toFinset.mpr (all x holds)
  refine (Set.encard_le_encard inside).trans ?_
  rw [Set.encard_coe_eq_coe_finsetCard]
  exact_mod_cast (List.toFinset_card_le nodes).trans few

end HarnessMem.Breadth
