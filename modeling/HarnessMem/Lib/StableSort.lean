import Mathlib.Data.List.Pairwise
import Mathlib.Data.List.Sort

/-! A list in one order, sorted by another: what a stable sort leaves of the first order. -/
namespace HarnessMem.StableSort

section
variable {α : Type*} {r s : α → α → Prop} {l : List α}

theorem insertKeeps [DecidableRel r] {a : α} (sorted : l.Pairwise s) (first : ∀ b ∈ l, s a b)
    (agree : ∀ b ∈ l, ¬ s b a → r a b) : (l.orderedInsert r a).Pairwise s := by
  induction l with
  | nil => exact List.pairwise_singleton _ _
  | cons b rest ih =>
    obtain ⟨head, tail⟩ := List.pairwise_cons.mp sorted
    rw [List.orderedInsert_cons]
    split
    · exact List.pairwise_cons.mpr ⟨first, sorted⟩
    · rename_i apart
      have behind : s b a := by_contra fun ahead => apart (agree b List.mem_cons_self ahead)
      refine List.pairwise_cons.mpr ⟨fun c mem => ?_, ih tail (fun c mem => first c (List.mem_cons_of_mem b mem))
        (fun c mem => agree c (List.mem_cons_of_mem b mem))⟩
      rcases List.mem_orderedInsert r |>.mp mem with rfl | old
      · exact behind
      · exact head c old

-- Where the sort ranks every two elements of different places as the first order has them, the first order stays.
theorem sortKeeps [DecidableRel r] (sorted : l.Pairwise s) (agree : ∀ a ∈ l, ∀ b ∈ l, ¬ s b a → r a b) :
    (l.insertionSort r).Pairwise s := by
  induction l with
  | nil => exact .nil
  | cons a rest ih =>
    obtain ⟨head, tail⟩ := List.pairwise_cons.mp sorted
    have within : ∀ {b}, b ∈ rest.insertionSort r → b ∈ rest := (List.mem_insertionSort r).mp
    rw [List.insertionSort_cons]
    refine insertKeeps (ih tail fun b one c two => ?_) (fun b mem => head b (within mem)) fun b mem => ?_
    · exact agree b (List.mem_cons_of_mem a one) c (List.mem_cons_of_mem a two)
    · exact agree a List.mem_cons_self b (List.mem_cons_of_mem a (within mem))

theorem agreeOf (total : ∀ a b, s a b ∨ s b a) (ranked : l.Pairwise r) (sorted : l.Pairwise s) :
    ∀ a ∈ l, ∀ b ∈ l, ¬ s b a → r a b := by
  have both : l.Pairwise fun a b => (¬ s b a → r a b) ∧ (¬ s a b → r b a) :=
    (ranked.and sorted).imp fun pair => ⟨fun _ => pair.1, fun apart => absurd pair.2 apart⟩
  have : Std.Symm fun a b : α => (¬ s b a → r a b) ∧ (¬ s a b → r b a) := ⟨fun _ _ pair => ⟨pair.2, pair.1⟩⟩
  have all := both.forall_of_forall (fun a _ => ⟨fun apart => absurd (or_self_iff.mp (total a a)) apart,
    fun apart => absurd (or_self_iff.mp (total a a)) apart⟩)
  exact fun a one b two => (all one two).1

-- A list ranked by `r` is in order if and only if no two elements of it are ranked against the order.
theorem inOrderIff (total : ∀ a b, s a b ∨ s b a) (tie : ∀ a b, r a b → r b a → s a b) (ranked : l.Pairwise r) :
    l.Pairwise s ↔ ∀ a ∈ l, ∀ b ∈ l, ¬ s b a → r a b := by
  refine ⟨agreeOf total ranked, fun agree => ranked.imp_of_mem fun one two before => ?_⟩
  rcases total _ _ with ahead | behind
  · exact ahead
  · by_contra apart
    exact apart (tie _ _ before (agree _ two _ one apart))

-- What holds of every two elements the first order ranks alike, in the places they have there, holds of them after
-- the sort: it never swaps them.
theorem insertTies [DecidableRel r] (trans : ∀ a b c, r a b → r b c → r a c) {a : α} (ranked : l.Pairwise r)
    (tail : l.Pairwise fun b c => r c b → s b c) (head : ∀ b ∈ l, r a b → r b a → s a b) :
    (l.orderedInsert r a).Pairwise fun b c => r c b → s b c := by
  induction l with
  | nil => exact List.pairwise_singleton _ _
  | cons b rest ih =>
    obtain ⟨first, ranked'⟩ := List.pairwise_cons.mp ranked
    obtain ⟨ties, tail'⟩ := List.pairwise_cons.mp tail
    rw [List.orderedInsert_cons]
    split
    · rename_i before
      refine List.pairwise_cons.mpr ⟨fun c mem back => head c mem ?_ back, tail⟩
      rcases List.mem_cons.mp mem with rfl | later
      · exact before
      · exact trans a b c before (first c later)
    · rename_i behind
      refine List.pairwise_cons.mpr ⟨fun c mem back => ?_, ih ranked' tail' fun c mem => head c (List.mem_cons_of_mem b mem)⟩
      rcases List.mem_orderedInsert r |>.mp mem with rfl | old
      · exact absurd back behind
      · exact ties c old back

theorem sortTies [DecidableRel r] (total : ∀ a b, r a b ∨ r b a) (trans : ∀ a b c, r a b → r b c → r a c) :
    (l.insertionSort r).Pairwise (fun a b => r b a → s a b) ↔ l.Pairwise fun a b => r a b → r b a → s a b := by
  have : Std.Total r := ⟨total⟩
  have : IsTrans α r := ⟨trans⟩
  constructor
  · refine fun ties => List.pairwise_iff_forall_sublist.mpr fun {a b} sub before back => ?_
    have kept := List.sublist_insertionSort (List.pairwise_pair.mpr before) sub
    exact List.pairwise_iff_forall_sublist.mp ties kept back
  · intro ties
    induction l with
    | nil => exact .nil
    | cons a rest ih =>
      obtain ⟨head, tail⟩ := List.pairwise_cons.mp ties
      rw [List.insertionSort_cons]
      exact insertTies trans (List.pairwise_insertionSort r rest) (ih tail) fun b mem => head b (List.mem_insertionSort r |>.mp mem)

-- Part of a sorted list keeps the order it had exactly where it was sorted before.
theorem filterSorted [DecidableRel r] (total : ∀ a b, r a b ∨ r b a) (trans : ∀ a b c, r a b → r b c → r a c) (p : α → Bool) :
    (l.insertionSort r).filter p = l.filter p ↔ (l.filter p).Pairwise r := by
  have : Std.Total r := ⟨total⟩
  have : IsTrans α r := ⟨trans⟩
  constructor
  · intro same
    rw [← same]
    exact (List.pairwise_insertionSort r l).sublist List.filter_sublist
  · intro ranked
    have kept := (List.sublist_insertionSort ranked List.filter_sublist).filter p
    simp only [List.filter_filter, Bool.and_self] at kept
    exact (kept.eq_of_length ((List.perm_insertionSort r l).filter p).length_eq.symm).symm

theorem insertPlace [DecidableRel r] (trans : ∀ a b c, r a b → r b c → r a c) {a x : α} {earlier later : List α}
    (ranked : (earlier ++ x :: later).Pairwise r) : ∃ earlier' later', (earlier ++ x :: later).orderedInsert r a = earlier' ++ x :: later' ∧
      earlier'.length = earlier.length + if r a x then 1 else 0 := by
  induction earlier with
  | nil =>
    rw [List.nil_append, List.orderedInsert_cons]
    split
    · exact ⟨[a], later, rfl, rfl⟩
    · exact ⟨[], later.orderedInsert r a, rfl, rfl⟩
  | cons c earlier ih =>
    obtain ⟨head, ranked'⟩ := List.pairwise_cons.mp ranked
    rw [List.cons_append, List.orderedInsert_cons]
    split
    · rename_i before
      have ahead : r a x := trans a c x before (head x (by simp))
      exact ⟨a :: c :: earlier, later, rfl, by rw [if_pos ahead]; rfl⟩
    · obtain ⟨earlier', later', same, size⟩ := ih ranked'
      refine ⟨c :: earlier', later', by rw [same, List.cons_append], ?_⟩
      rw [List.length_cons, List.length_cons, size]
      omega

theorem takeRanked [DecidableRel r] (trans : ∀ a b c, r a b → r b c → r a c) {x : α} (ranked : l.Pairwise r) :
    (l.takeWhile (fun b => ¬ r x b)).length = l.countP (fun b => ¬ r x b) := by
  induction l with
  | nil => rfl
  | cons b rest ih =>
    obtain ⟨head, tail⟩ := List.pairwise_cons.mp ranked
    by_cases ahead : r x b
    · have all : ∀ c ∈ b :: rest, r x c := List.forall_mem_cons.mpr ⟨ahead, fun c mem => trans x b c ahead (head c mem)⟩
      rw [List.takeWhile_cons_of_neg (by simpa using ahead), eq_comm, List.length_nil, List.countP_eq_zero]
      exact fun c mem => by simpa using all c mem
    · rw [List.takeWhile_cons_of_pos (by simpa using ahead), List.countP_cons_of_pos (by simpa using ahead), List.length_cons, ih tail]

-- How many elements a stable sort puts before one: those before it that may stay there, and those after it that may not.
theorem sortPlace [DecidableRel r] (total : ∀ a b, r a b ∨ r b a) (trans : ∀ a b c, r a b → r b c → r a c) (before after : List α) (x : α) :
    ∃ earlier later, (before ++ x :: after).insertionSort r = earlier ++ x :: later ∧
      earlier.length = before.countP (fun y => r y x) + after.countP (fun y => ¬ r x y) := by
  have : Std.Total r := ⟨total⟩
  have : IsTrans α r := ⟨trans⟩
  induction before with
  | nil =>
    refine ⟨_, _, (List.insertionSort_cons_eq_take_drop r x after), ?_⟩
    rw [takeRanked trans (List.pairwise_insertionSort r after), (List.perm_insertionSort r after).countP_eq, List.countP_nil, Nat.zero_add]
  | cons b before ih =>
    obtain ⟨earlier, later, same, size⟩ := ih
    have ranked := List.pairwise_insertionSort r (before ++ x :: after)
    rw [same] at ranked
    obtain ⟨earlier', later', placed, grown⟩ := insertPlace trans (a := b) ranked
    refine ⟨earlier', later', ?_, ?_⟩
    · rw [List.cons_append, List.insertionSort_cons, same, placed]
    · rw [grown, size, List.countP_cons]
      simp only [decide_eq_true_eq]
      omega

end

-- A comparison read as an order: what it does not put after.
section
variable {α β : Type*} (cmp : β → β → Ordering)

theorem notAfterTotal [Std.OrientedCmp cmp] (a b : β) : cmp a b ≠ .gt ∨ cmp b a ≠ .gt := by
  have swapped : cmp b a = (cmp a b).swap := Std.OrientedCmp.eq_swap
  rw [swapped]
  cases cmp a b <;> simp

theorem notAfterTrans [Std.TransCmp cmp] {a b c : β} (one : cmp a b ≠ .gt) (two : cmp b c ≠ .gt) : cmp a c ≠ .gt :=
  Ordering.isLE_iff_ne_gt.mp (Std.TransCmp.isLE_trans (Ordering.isLE_iff_ne_gt.mpr one) (Ordering.isLE_iff_ne_gt.mpr two))

theorem comparedBy [Std.TransCmp cmp] (key : α → β) : Std.TransCmp fun a b => cmp (key a) (key b) where
  eq_swap := Std.OrientedCmp.eq_swap
  isLE_trans := Std.TransCmp.isLE_trans

end
end HarnessMem.StableSort
