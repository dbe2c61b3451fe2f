import Mathlib.Algebra.Order.Field.Rat
import Mathlib.Data.Nat.Find

/-! Weighted hops from a set of seeds: paths by their length, the nodes a length reaches first,
and the layers of a search in breadth. -/
namespace HarnessMem.HopPaths

section
variable {Node : Type*} {seed : Node → Prop} {step : Node → Node → ℚ → Prop} {m n : Nat} {x : Node}

-- A path of some hops to a node, with the product of what its hops are worth.
inductive Path (seed : Node → Prop) (step : Node → Node → ℚ → Prop) : Nat → Node → ℚ → Prop
  | start {x : Node} (from_ : seed x) : Path seed step 0 x 1
  | hop {n : Nat} {parent x : Node} {value worth : ℚ} (path : Path seed step n parent value) (next : step parent x worth) :
      Path seed step (n + 1) x (value * worth)

variable (seed step) in
def Reached (n : Nat) (x : Node) : Prop := ∃ value, Path seed step n x value

variable (seed step) in
structure First (n : Nat) (x : Node) : Prop where
  moved : 1 ≤ n
  reached : Reached seed step n x
  fresh : ∀ m, 1 ≤ m → m < n → ¬ Reached seed step m x

-- Where a search stands after some rounds: at the seeds, then at what is new.
variable (seed step) in
def Layer (n : Nat) (x : Node) : Prop := n = 0 ∧ seed x ∨ First seed step n x ∧ ¬ seed x

theorem pathPositive (positive : ∀ parent x worth, step parent x worth → 0 < worth) {value : ℚ}
    (path : Path seed step n x value) : 0 < value := by
  induction path with
  | start => exact zero_lt_one
  | hop _ next ih => exact mul_pos ih (positive _ _ _ next)

theorem reachedFirst (moved : 1 ≤ n) (reached : Reached seed step n x) : ∃ m ≤ n, First seed step m x := by
  classical
  have some : ∃ m, 1 ≤ m ∧ Reached seed step m x := ⟨n, moved, reached⟩
  refine ⟨Nat.find some, Nat.find_min' some ⟨moved, reached⟩, (Nat.find_spec some).1, (Nat.find_spec some).2, ?_⟩
  exact fun m atLeast below again => Nat.find_min some below ⟨atLeast, again⟩

theorem firstUnique (one : First seed step m x) (two : First seed step n x) : m = n := by
  rcases lt_trichotomy m n with less | same | more
  · exact absurd one.reached (two.fresh m one.moved less)
  · exact same
  · exact absurd two.reached (one.fresh n two.moved more)

theorem layerZero : Layer seed step 0 x ↔ seed x := by
  constructor
  · rintro (⟨-, start⟩ | ⟨first, -⟩)
    · exact start
    · exact absurd first.moved (by omega)
  · exact fun start => .inl ⟨rfl, start⟩

theorem firstLayer (first : First seed step n x) : ∃ m ≤ n, Layer seed step m x := by
  by_cases start : seed x
  · exact ⟨0, Nat.zero_le n, .inl ⟨rfl, start⟩⟩
  · exact ⟨n, le_rfl, .inr ⟨first, start⟩⟩

theorem layerUnique (one : Layer seed step m x) (two : Layer seed step n x) : m = n := by
  rcases one with ⟨rfl, start⟩ | ⟨first, new⟩
  · rcases two with ⟨rfl, -⟩ | ⟨-, new⟩
    · rfl
    · exact absurd start new
  · rcases two with ⟨rfl, start⟩ | ⟨other, -⟩
    · exact absurd start new
    · exact firstUnique first other

-- A shortest path comes from the layer before.
theorem layerParent {parent : Node} {worth : ℚ} (first : First seed step (n + 1) x) (reached : Reached seed step n parent)
    (next : step parent x worth) : Layer seed step n parent := by
  have short : ∀ {k}, Reached seed step k parent → n ≤ k := by
    rintro k ⟨value, path⟩
    by_contra less
    exact first.fresh (k + 1) (Nat.le_add_left 1 k) (by omega) ⟨_, .hop path next⟩
  by_cases zero : n = 0
  · obtain ⟨value, path⟩ := reached
    subst zero
    cases path with
    | start from_ => exact .inl ⟨rfl, from_⟩
  · refine .inr ⟨⟨Nat.one_le_iff_ne_zero.mpr zero, reached, fun k _ below again => ?_⟩, fun start => ?_⟩
    · exact absurd (short again) (Nat.not_le.mpr below)
    · exact zero (Nat.le_zero.mp (short ⟨1, .start start⟩))

theorem firstParent {value : ℚ} (first : First seed step (n + 1) x) (path : Path seed step (n + 1) x value) :
    ∃ parent u worth, Layer seed step n parent ∧ Path seed step n parent u ∧ step parent x worth ∧ value = u * worth := by
  cases path with
  | hop before next => exact ⟨_, _, _, layerParent first ⟨_, before⟩ next, before, next, rfl⟩

-- Nothing is new behind an empty layer.
theorem layersEnd (none : ∀ x, ¬ Layer seed step n x) (first : First seed step m x) : m ≤ n := by
  induction m generalizing x with
  | zero => exact Nat.zero_le n
  | succ m ih =>
    obtain ⟨value, path⟩ := first.reached
    obtain ⟨parent, _, _, layer, -⟩ := firstParent first path
    rcases layer with ⟨rfl, start⟩ | ⟨before, new⟩
    · rcases Nat.eq_zero_or_pos n with rfl | positive
      · exact absurd (.inl ⟨rfl, start⟩) (none parent)
      · exact positive
    · refine Nat.lt_of_le_of_ne (ih before) fun same => none parent ?_
      exact same ▸ .inr ⟨before, new⟩

end
end HarnessMem.HopPaths
