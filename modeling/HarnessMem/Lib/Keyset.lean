import Mathlib.Data.List.Nodup
import Mathlib.Data.List.Sort
import Mathlib.Order.Lattice

/-! Reading a changing collection in pages: each page asks for the rows below the key of the last
row of the page before it, greatest keys first. -/
namespace HarnessMem.Keyset

section
variable {Row Key : Type*} [LinearOrder Key] (key : Row → Key)

def below (bound : Option Key) (row : Row) : Bool := bound.all (fun k => decide (key row < k))

def ranked (rows : List Row) : List Row := rows.insertionSort (fun a b => key b ≤ key a)

-- The rows of a page, and whether there are more.
def page (bound : Option Key) (limit : Nat) (rows : List Row) : List Row × Bool :=
  ((ranked key (rows.filter (below key bound))).take limit, decide (limit < (ranked key (rows.filter (below key bound))).length))

-- All pages up to the one after which there are no more; each meets the collection as it then is.
def traverse : Option Key → List (Nat × List Row) → Option (List Row)
  | _, [] => none
  | bound, p :: rest =>
    if (page key bound p.1 p.2).2 then
      (page key bound p.1 p.2).1.getLast?.bind fun last => (traverse (some (key last)) rest).map ((page key bound p.1 p.2).1 ++ ·)
    else if rest.isEmpty then some (page key bound p.1 p.2).1 else none

def Descending (rows : List Row) : Prop := rows.Pairwise (fun a b => key b < key a)

variable {key}

theorem memRanked {row : Row} {rows : List Row} : row ∈ ranked key rows ↔ row ∈ rows := List.mem_insertionSort _

theorem rankedDescending {rows : List Row} (keyed : (rows.map key).Nodup) : Descending key (ranked key rows) := by
  have total : Std.Total (fun a b : Row => key b ≤ key a) := ⟨fun a b => le_total (key b) (key a)⟩
  have trans : IsTrans Row (fun a b => key b ≤ key a) := ⟨fun a b c ab bc => le_trans bc ab⟩
  have sorted : (ranked key rows).Pairwise (fun a b => key b ≤ key a) := List.pairwise_insertionSort _ rows
  have distinct : (ranked key rows).Pairwise (fun a b => key a ≠ key b) := by
    rw [← List.pairwise_map]
    exact ((List.perm_insertionSort _ rows).map key).nodup_iff.mpr keyed
  exact (sorted.and distinct).imp fun both => lt_of_le_of_ne both.1 (Ne.symm both.2)

section
variable {bound : Option Key} {limit : Nat} {rows : List Row} {row : Row}

theorem pageMem (mem : row ∈ (page key bound limit rows).1) : row ∈ rows ∧ below key bound row = true :=
  List.mem_filter.mp (memRanked.mp (List.mem_of_mem_take mem))

theorem pageRanked (keyed : (rows.map key).Nodup) : Descending key (ranked key (rows.filter (below key bound))) :=
  rankedDescending (keyed.sublist (List.filter_sublist.map key))

theorem pageDescending (keyed : (rows.map key).Nodup) : Descending key (page key bound limit rows).1 :=
  List.Pairwise.sublist (List.take_sublist limit _) (pageRanked keyed)

theorem pageLast {last : Row} (keyed : (rows.map key).Nodup) (ends : (page key bound limit rows).1.getLast? = some last)
    (mem : row ∈ (page key bound limit rows).1) : key last ≤ key row := by
  obtain ⟨before, split⟩ := List.getLast?_eq_some_iff.mp ends
  have descending : Descending key (page key bound limit rows).1 := pageDescending keyed
  rw [split] at descending mem
  rcases List.mem_append.mp mem with early | here
  · exact ((List.pairwise_append.mp descending).2.2 row early last (List.mem_singleton_self last)).le
  · rw [List.mem_singleton.mp here]

variable (limit) in
-- A row that the page does not show comes after its last row; on a last page there is none.
theorem pageRest (keyed : (rows.map key).Nodup) (mem : row ∈ rows) (under : below key bound row = true) :
    row ∈ (page key bound limit rows).1 ∨ (page key bound limit rows).2 = true ∧
      ∀ last, (page key bound limit rows).1.getLast? = some last → key row < key last := by
  have here : row ∈ ranked key (rows.filter (below key bound)) := memRanked.mpr (List.mem_filter.mpr ⟨mem, under⟩)
  have descending : Descending key (ranked key (rows.filter (below key bound))) := pageRanked keyed
  rw [← List.take_append_drop limit (ranked key (rows.filter (below key bound)))] at here descending
  rcases List.mem_append.mp here with shown | after
  · exact .inl shown
  · refine .inr ⟨decide_eq_true ?_, fun last ends => ?_⟩
    · have some := List.length_pos_of_mem after
      rw [List.length_drop] at some
      omega
    · exact (List.pairwise_append.mp descending).2.2 last (List.mem_of_getLast? ends) row after
end

section
variable {bound : Option Key} {pages : List (Nat × List Row)} {visited : List Row}

theorem traverseCons {p : Nat × List Row} {rest : List (Nat × List Row)} (done : traverse key bound (p :: rest) = some visited) :
    (page key bound p.1 p.2).2 = false ∧ rest = [] ∧ visited = (page key bound p.1 p.2).1 ∨
      ∃ last later, (page key bound p.1 p.2).1.getLast? = some last ∧ traverse key (some (key last)) rest = some later ∧
        visited = (page key bound p.1 p.2).1 ++ later := by
  rw [traverse] at done
  split at done
  · obtain ⟨last, ends, done⟩ := Option.bind_eq_some_iff.mp done
    obtain ⟨later, next, rfl⟩ := Option.map_eq_some_iff.mp done
    exact .inr ⟨last, later, ends, next, rfl⟩
  · rename_i whole
    split at done
    · rename_i empty
      exact .inl ⟨by simpa using whole, List.isEmpty_iff.mp empty, (Option.some.inj done).symm⟩
    · cases done

theorem traverseMem (done : traverse key bound pages = some visited) {row : Row} (mem : row ∈ visited) :
    below key bound row = true ∧ ∃ p ∈ pages, row ∈ p.2 := by
  induction pages generalizing bound visited with
  | nil => cases done
  | cons p rest ih =>
    rcases traverseCons done with ⟨_, _, rfl⟩ | ⟨last, later, ends, next, rfl⟩
    · obtain ⟨held, under⟩ := pageMem mem
      exact ⟨under, p, List.mem_cons_self, held⟩
    · rcases List.mem_append.mp mem with shown | after
      · obtain ⟨held, under⟩ := pageMem shown
        exact ⟨under, p, List.mem_cons_self, held⟩
      · obtain ⟨under, q, seen, held⟩ := ih next after
        refine ⟨?_, q, List.mem_cons_of_mem _ seen, held⟩
        have first := (pageMem (List.mem_of_getLast? ends)).2
        rw [below, Option.all_some, decide_eq_true_eq] at under
        rw [below, Option.all_eq_true] at first ⊢
        exact fun k given => decide_eq_true (lt_trans under (of_decide_eq_true (first k given)))

theorem traverseDescends (done : traverse key bound pages = some visited) (keyed : ∀ p ∈ pages, (p.2.map key).Nodup) :
    Descending key visited := by
  induction pages generalizing bound visited with
  | nil => cases done
  | cons p rest ih =>
    have here := keyed p List.mem_cons_self
    rcases traverseCons done with ⟨_, _, rfl⟩ | ⟨last, later, ends, next, rfl⟩
    · exact pageDescending here
    · refine List.pairwise_append.mpr ⟨pageDescending here, ih next (fun q mem => keyed q (List.mem_cons_of_mem _ mem)), ?_⟩
      intro row shown after mem
      have under := (traverseMem next mem).1
      rw [below, Option.all_some, decide_eq_true_eq] at under
      exact lt_of_lt_of_le under (pageLast here ends shown)

-- A key that every page could have shown is shown by one of them.
theorem traverseReaches (done : traverse key bound pages = some visited) (keyed : ∀ p ∈ pages, (p.2.map key).Nodup) {k : Key}
    (under : bound.all (fun b => decide (k < b)) = true) (there : ∀ p ∈ pages, ∃ row ∈ p.2, key row = k) : ∃ row ∈ visited, key row = k := by
  induction pages generalizing bound visited with
  | nil => cases done
  | cons p rest ih =>
    have here := keyed p List.mem_cons_self
    obtain ⟨row, held, rfl⟩ := there p List.mem_cons_self
    rcases traverseCons done with ⟨whole, _, rfl⟩ | ⟨last, later, ends, next, rfl⟩
    · rcases pageRest p.1 here held under with shown | ⟨more, _⟩
      · exact ⟨row, shown, rfl⟩
      · rw [whole] at more
        cases more
    · rcases pageRest p.1 here held under with shown | ⟨_, after⟩
      · exact ⟨row, List.mem_append_left _ shown, rfl⟩
      · obtain ⟨other, mem, same⟩ := ih next (fun q mem => keyed q (List.mem_cons_of_mem _ mem))
          (by rw [Option.all_some, decide_eq_true_eq]; exact after last ends) (fun q mem => there q (List.mem_cons_of_mem _ mem))
        exact ⟨other, List.mem_append_right _ mem, same⟩
end
end

end HarnessMem.Keyset
