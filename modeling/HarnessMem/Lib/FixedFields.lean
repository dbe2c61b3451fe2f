import Mathlib.Data.List.Lex
import Mathlib.Order.Lattice

/-! Texts made of fields of fixed width, in the order of their characters: the first field that
differs decides. Nothing here knows what a field shows. -/
namespace HarnessMem.FixedFields

section
variable {α : Type*} [LinearOrder α]

theorem lessBefore {a b : List α} (x y : List α) (same : a.length = b.length) (less : a < b) : a ++ x < b ++ y := by
  induction a generalizing b with
  | nil =>
    cases b with
    | nil => cases less
    | cons c b => cases same
  | cons c a ih =>
    cases b with
    | nil => cases same
    | cons d b =>
      rw [List.cons_append, List.cons_append, List.cons_lt_cons_iff]
      rcases List.cons_lt_cons_iff.mp less with first | ⟨rfl, later⟩
      · exact .inl first
      · exact .inr ⟨rfl, ih (Nat.succ.inj same) later⟩

theorem lessAfter (a : List α) {x y : List α} (less : x < y) : a ++ x < a ++ y := by
  induction a with
  | nil => exact less
  | cons c a ih => exact List.cons_lt_cons_iff.mpr (.inr ⟨rfl, ih⟩)

theorem lessHead {c d : α} (x y : List α) (less : c < d) : c :: x < d :: y := List.cons_lt_cons_iff.mpr (.inl less)

-- A field is a separator and a number in its width.
variable (field : Nat → Nat → List α)

def fields : List (α × Nat) → List Nat → List α
  | (mark, width) :: layout, n :: rest => mark :: (field width n ++ fields layout rest)
  | _, _ => []

structure Ordered (fits : Nat → Nat → Prop) : Prop where
  length : ∀ {width n}, fits width n → (field width n).length = width
  less : ∀ {width a b}, a < b → fits width b → field width a < field width b

variable {field} {fits : Nat → Nat → Prop} (ordered : Ordered field fits)

def Fit (fits : Nat → Nat → Prop) (layout : List (α × Nat)) (numbers : List Nat) : Prop :=
  List.Forall₂ (fun (place : α × Nat) n => fits place.2 n) layout numbers

include ordered

theorem fieldsLength {layout : List (α × Nat)} {a b : List Nat} (first : Fit fits layout a) (second : Fit fits layout b) :
    (fields field layout a).length = (fields field layout b).length := by
  induction first generalizing b with
  | nil =>
    cases second
    rfl
  | cons fit _ ih =>
    cases second with
    | cons fit' rest' =>
      simp only [fields, List.length_cons, List.length_append, ordered.length fit, ordered.length fit', ih rest']

theorem fieldsLess {layout : List (α × Nat)} {a b : List Nat} (first : Fit fits layout a) (second : Fit fits layout b)
    (less : a < b) : fields field layout a < fields field layout b := by
  induction first generalizing b with
  | nil =>
    cases second
    cases less
  | cons fit _ ih =>
    cases second with
    | cons fit' rest' =>
      refine List.cons_lt_cons_iff.mpr (.inr ⟨rfl, ?_⟩)
      rcases List.cons_lt_cons_iff.mp less with smaller | ⟨rfl, later⟩
      · exact lessBefore _ _ ((ordered.length fit).trans (ordered.length fit').symm) (ordered.less smaller fit')
      · exact lessAfter _ (ih rest' later)
end

end HarnessMem.FixedFields
