import Mathlib.Data.List.Sort
import Mathlib.Order.Defs.LinearOrder
import Mathlib.Data.List.Nodup

/-! Items in descending order of a score, ties in the order they came in, and which of them are
among the first few. -/
namespace HarnessMem.Ranking

variable {Item Score : Type*} [LinearOrder Score]

def ranked (score : Item → Score) (items : List Item) : List Item :=
  items.insertionSort (fun a b => score b ≤ score a)

section
variable {score : Item → Score} {items : List Item}

variable (score items) in
theorem rankedPerm : (ranked score items).Perm items := List.perm_insertionSort _ _

-- A higher score, or the same one and listed first.
def Ahead (score : Item → Score) (items : List Item) (a b : Item) : Prop :=
  score b < score a ∨ score a = score b ∧ [a, b].Sublist items
instance [DecidableEq Item] (a b : Item) : Decidable (Ahead score items a b) := inferInstanceAs (Decidable (_ ∨ _))

theorem rankedSorted : (ranked score items).Pairwise (fun a b => score b ≤ score a) :=
  List.pairwise_insertionSort _ _

theorem rankedMap {Source : Type*} (f : Source → Item) (sources : List Source) :
    ranked score (sources.map f) = (ranked (fun source => score (f source)) sources).map f :=
  (List.map_insertionSort _ _ f sources (fun _ _ _ _ => Iff.rfl)).symm

theorem notBoth (unique : items.Nodup) {a b : Item} (first : [a, b].Sublist items) : ¬ [b, a].Sublist items := by
  induction items with
  | nil => cases first
  | cons head rest ih =>
    obtain ⟨fresh, later⟩ := List.nodup_cons.mp unique
    rcases List.sublist_cons_iff.mp first with inside | ⟨tail, is, held⟩
    · intro second
      rcases List.sublist_cons_iff.mp second with inside' | ⟨tail, is, -⟩
      · exact ih later inside inside'
      · obtain ⟨rfl, -⟩ := List.cons.inj is
        exact fresh (inside.subset (by simp))
    · obtain ⟨rfl, rfl⟩ := List.cons.inj is
      intro second
      rcases List.sublist_cons_iff.mp second with inside' | ⟨tail, is, -⟩
      · exact fresh (inside'.subset (by simp))
      · obtain ⟨rfl, -⟩ := List.cons.inj is
        exact fresh (held.subset (by simp))

theorem oneFirst {a b : Item} (ha : a ∈ items) (hb : b ∈ items) (apart : a ≠ b) :
    [a, b].Sublist items ∨ [b, a].Sublist items := by
  induction items with
  | nil => cases ha
  | cons head rest ih =>
    rcases List.mem_cons.mp ha with rfl | inA
    · exact .inl ((List.singleton_sublist.mpr ((List.mem_cons.mp hb).resolve_left apart.symm)).cons_cons a)
    · rcases List.mem_cons.mp hb with rfl | inB
      · exact .inr ((List.singleton_sublist.mpr inA).cons_cons b)
      · exact (ih inA inB).imp (fun inside => inside.cons head) (fun inside => inside.cons head)

-- The sort is stable, so whatever comes first is ahead.
variable (score) in
theorem rankedAhead (unique : items.Nodup) : (ranked score items).Pairwise (Ahead score items) := by
  have distinct : (ranked score items).Nodup := (rankedPerm score items).nodup_iff.mpr unique
  refine List.pairwise_iff_forall_sublist.mpr (fun {a b} first => ?_)
  have apart : a ≠ b := by
    rintro rfl
    exact absurd (distinct.sublist first) (by simp)
  have held : ∀ item ∈ [a, b], item ∈ items := fun item mem => (rankedPerm score items).mem_iff.mp (first.subset mem)
  rcases lt_or_eq_of_le (List.pairwise_iff_forall_sublist.mp rankedSorted first) with higher | same
  · exact .inl higher
  · refine .inr ⟨same.symm, (oneFirst (held a (by simp)) (held b (by simp)) apart).resolve_right (fun later => ?_)⟩
    exact notBoth distinct first (List.pair_sublist_insertionSort same.symm.le later)

theorem aheadAsymm (unique : items.Nodup) {a b : Item} (ahead : Ahead score items a b) : ¬ Ahead score items b a := by
  rintro (higher | ⟨same, first⟩)
  · rcases ahead with lower | ⟨same, -⟩
    · exact lt_asymm higher lower
    · exact higher.ne same
  · rcases ahead with lower | ⟨-, earlier⟩
    · exact lower.ne same
    · exact notBoth unique earlier first

theorem takenIff [DecidableEq Item] (unique : items.Nodup) {item : Item} (mem : item ∈ items) (n : Nat) :
    item ∈ (ranked score items).take n ↔ (items.filter (fun other => Ahead score items other item)).length < n := by
  have distinct : (ranked score items).Nodup := (rankedPerm score items).nodup_iff.mpr unique
  obtain ⟨front, back, split⟩ := List.append_of_mem ((rankedPerm score items).mem_iff.mpr mem)
  have order := rankedAhead score unique
  rw [split] at order distinct
  obtain ⟨-, later, before⟩ := List.pairwise_append.mp order
  have ahead : ((ranked score items).filter (fun other => Ahead score items other item)) = front := by
    have all : front.filter (fun other => Ahead score items other item) = front :=
      List.filter_eq_self.mpr (fun other held => decide_eq_true (before other held item List.mem_cons_self))
    have none : (item :: back).filter (fun other => Ahead score items other item) = [] := by
      refine List.filter_eq_nil_iff.mpr (fun other held => ?_)
      rw [decide_eq_true_eq]
      rcases List.mem_cons.mp held with rfl | behind
      · exact fun self => aheadAsymm unique self self
      · exact aheadAsymm unique ((List.pairwise_cons.mp later).1 other behind)
    rw [split, List.filter_append, all, none, List.append_nil]
  have count : (items.filter (fun other => Ahead score items other item)).length = front.length := by
    rw [← ahead]
    exact ((rankedPerm score items).filter _).length_eq.symm
  rw [count, split]
  constructor
  · intro taken
    by_contra short
    rw [List.take_append_of_le_length (by omega)] at taken
    exact (List.nodup_append'.mp distinct).2.2 (List.mem_of_mem_take taken) List.mem_cons_self
  · intro inside
    obtain ⟨k, is⟩ := Nat.exists_eq_add_of_lt inside
    rw [List.take_append, is]
    simp [Nat.add_assoc, Nat.add_comm 1]

end

end HarnessMem.Ranking
