import Mathlib.Data.Set.Finite.List
import Mathlib.Logic.Relation
import Mathlib.Order.RelClasses
import Mathlib.Order.WellFounded

/-! Trails of edges that never come back: what one more edge does to them, and where they end when
finitely many nodes have an edge. -/
namespace HarnessMem.Chains

variable {Node : Type*}

def Acyclic (edge : Node → Node → Prop) : Prop := ∀ node, ¬ Relation.TransGen edge node node

def withEdge (edge : Node → Node → Prop) (start last : Node) (a b : Node) : Prop := edge a b ∨ a = start ∧ b = last

section
variable {edge : Node → Node → Prop} {start last : Node}

-- A trail over the new edge passes it once, when no trail leads back to where it starts.
theorem trailWith (away : ¬ Relation.ReflTransGen edge last start) {a b : Node} (trail : Relation.TransGen (withEdge edge start last) a b) :
    Relation.TransGen edge a b ∨ Relation.ReflTransGen edge a start ∧ Relation.ReflTransGen edge last b := by
  induction trail with
  | single step =>
    rcases step with old | ⟨rfl, rfl⟩
    · exact .inl (.single old)
    · exact .inr ⟨.refl, .refl⟩
  | tail _ step ih =>
    rcases ih with before | ⟨before, after⟩
    · rcases step with old | ⟨rfl, rfl⟩
      · exact .inl (before.tail old)
      · exact .inr ⟨before.to_reflTransGen, .refl⟩
    · rcases step with old | ⟨rfl, rfl⟩
      · exact .inr ⟨before, after.tail old⟩
      · exact absurd after away

theorem acyclicWith : Acyclic (withEdge edge start last) ↔ Acyclic edge ∧ ¬ Relation.ReflTransGen edge last start := by
  have wider : ∀ {a b}, Relation.ReflTransGen edge a b → Relation.ReflTransGen (withEdge edge start last) a b :=
    Relation.ReflTransGen.mono (fun _ _ => .inl) _ _
  constructor
  · refine fun acyclic => ⟨fun node trail => acyclic node (Relation.TransGen.mono (fun _ _ => .inl) _ _ trail), fun back => ?_⟩
    exact acyclic start (Relation.TransGen.head' (.inr ⟨rfl, rfl⟩) (wider back))
  · rintro ⟨acyclic, away⟩ node trail
    rcases trailWith away trail with old | ⟨before, after⟩
    · exact acyclic node old
    · exact away (after.trans before)

-- Edges that all lead downwards.
theorem acyclicDown {Height : Type*} [Preorder Height] (height : Node → Height) (down : ∀ a b, edge a b → height b < height a) :
    Acyclic edge := by
  have falls : ∀ a b, Relation.TransGen edge a b → height b < height a := by
    intro a b trail
    induction trail with
    | single step => exact down _ _ step
    | tail _ step ih => exact (down _ _ step).trans ih
  exact fun node cycle => lt_irrefl _ (falls node node cycle)

-- Well-founded induction along the edges of the finitely many nodes that have one.
theorem trailEnds (acyclic : Acyclic edge) {nodes : List Node} (inside : ∀ a b, edge a b → a ∈ nodes) (node : Node) :
    ∃ final, Relation.ReflTransGen edge node final ∧ ∀ next, ¬ edge final next := by
  have finite : Finite {a // a ∈ nodes} := (List.finite_toSet nodes).to_subtype
  have irrefl : Std.Irrefl (fun a b : {a // a ∈ nodes} => Relation.TransGen edge b.1 a.1) := ⟨fun a => acyclic a.1⟩
  have trans : IsTrans {a // a ∈ nodes} (fun a b => Relation.TransGen edge b.1 a.1) := ⟨fun _ _ _ first second => second.trans first⟩
  have founded := Finite.wellFounded_of_trans_of_irrefl (fun a b : {a // a ∈ nodes} => Relation.TransGen edge b.1 a.1)
  have held : ∀ a : {a // a ∈ nodes}, ∃ final, Relation.ReflTransGen edge a.1 final ∧ ∀ next, ¬ edge final next := by
    intro a
    induction a using founded.induction with
    | _ a ih =>
      by_cases goes : ∃ next, edge a.1 next
      · obtain ⟨next, step⟩ := goes
        by_cases known : next ∈ nodes
        · obtain ⟨final, trail, done⟩ := ih ⟨next, known⟩ (.single step)
          exact ⟨final, .head step trail, done⟩
        · exact ⟨next, .single step, fun after more => known (inside next after more)⟩
      · exact ⟨a.1, .refl, fun next step => goes ⟨next, step⟩⟩
  by_cases known : node ∈ nodes
  · exact held ⟨node, known⟩
  · exact ⟨node, .refl, fun next step => known (inside node next step)⟩
end

end HarnessMem.Chains
