import Mathlib.Data.List.Pairwise
import Mathlib.Order.Lattice

/-! Reading a collection page by page until an empty page, where the cursor for the next page is made
from the last row and may say less than the row's place: what the walk visits, and when that is all. -/
namespace HarnessMem.CursorWalk

section
variable {Row Other Cursor : Type*}

def walk (ask : Nat → Cursor → Option (List Row)) (next : Row → Cursor) : Nat → Nat → Cursor → Option (List Row)
  | 0, _, _ => none
  | fuel + 1, call, cursor =>
    match ask call cursor with
    | none => none
    | some page =>
      match page.getLast? with
      | none => some []
      | some last => (walk ask next fuel (call + 1) (next last)).map (page ++ ·)

variable {ask : Nat → Cursor → Option (List Row)} {next : Row → Cursor}

theorem walkEmpty {call : Nat} {cursor : Cursor} (empty : ask call cursor = some []) (fuel : Nat) :
    walk ask next (fuel + 1) call cursor = some [] := by
  rw [walk, empty]
  rfl

theorem walkMore {call : Nat} {cursor : Cursor} {page : List Row} {last : Row} (asked : ask call cursor = some page)
    (ends : page.getLast? = some last) (fuel : Nat) :
    walk ask next (fuel + 1) call cursor = (walk ask next fuel (call + 1) (next last)).map (page ++ ·) := by
  rw [walk, asked]
  simp only [ends]

theorem walkFails {call : Nat} {cursor : Cursor} (fails : ask call cursor = none) (fuel : Nat) :
    walk ask next fuel call cursor = none := by
  cases fuel with
  | zero => rfl
  | succ fuel => rw [walk, fails]

theorem walkFuel {fuel call : Nat} {cursor : Cursor} {visited : List Row}
    (ran : walk ask next fuel call cursor = some visited) : walk ask next (fuel + 1) call cursor = some visited := by
  induction fuel generalizing call cursor visited with
  | zero => cases ran
  | succ fuel ih =>
    cases asked : ask call cursor with
    | none => rw [walkFails asked] at ran; cases ran
    | some page =>
      cases ends : page.getLast? with
      | none =>
        obtain rfl := List.getLast?_eq_none_iff.mp ends
        rw [walkEmpty asked] at ran ⊢
        exact ran
      | some last =>
        rw [walkMore asked ends] at ran ⊢
        obtain ⟨rest, before, rfl⟩ := Option.map_eq_some_iff.mp ran
        rw [ih before]
        rfl

-- More fuel gives the same rows.
theorem walkOnce {fuel fuel' call : Nat} {cursor : Cursor} {visited visited' : List Row}
    (ran : walk ask next fuel call cursor = some visited) (ran' : walk ask next fuel' call cursor = some visited') :
    visited = visited' := by
  have longer : ∀ {fuel visited}, walk ask next fuel call cursor = some visited → ∀ more,
      walk ask next (fuel + more) call cursor = some visited := by
    intro fuel visited ran more
    induction more with
    | zero => exact ran
    | succ more ih => exact walkFuel ih
  have here := longer ran fuel'
  have there := longer ran' fuel
  rw [Nat.add_comm, there] at here
  exact (Option.some.inj here).symm

theorem walkMap (shape : Row → Other) (asked : Nat → Cursor → Option (List Row)) (next : Other → Cursor)
    (fuel call : Nat) (cursor : Cursor) :
    walk (fun call cursor => (asked call cursor).map (List.map shape)) next fuel call cursor =
      (walk asked (fun row => next (shape row)) fuel call cursor).map (List.map shape) := by
  induction fuel generalizing call cursor with
  | zero => rfl
  | succ fuel ih =>
    rw [walk, walk]
    cases asked call cursor with
    | none => rfl
    | some page =>
      rw [Option.map_some]
      cases ends : page.getLast? with
      | none => simp only [List.getLast?_map, ends, Option.map_none, Option.map_some, List.map_nil]
      | some last =>
        simp only [List.getLast?_map, ends, Option.map_some, ih, Option.map_map]
        refine congrArg (fun f => Option.map f _) (funext fun rest => ?_)
        exact (List.map_append).symm

-- A walk none of whose later pages is empty does not come to an end, unless its first page is empty.
theorem walkEndless {start : Cursor} (filled : ∀ call row, ask (call + 1) (next row) ≠ some []) {fuel : Nat}
    {visited : List Row} (ran : walk ask next fuel 0 start = some visited) : visited = [] := by
  have never : ∀ fuel call row, walk ask next fuel (call + 1) (next row) = none := by
    intro fuel
    induction fuel with
    | zero => exact fun _ _ => rfl
    | succ fuel ih =>
      intro call row
      cases asked : ask (call + 1) (next row) with
      | none => exact walkFails asked _
      | some page =>
        cases ends : page.getLast? with
        | none =>
          obtain rfl := List.getLast?_eq_none_iff.mp ends
          exact absurd asked (filled call row)
        | some last => rw [walkMore asked ends, ih, Option.map_none]
  cases fuel with
  | zero => cases ran
  | succ fuel =>
    cases asked : ask 0 start with
    | none => rw [walkFails asked] at ran; cases ran
    | some page =>
      cases ends : page.getLast? with
      | none =>
        obtain rfl := List.getLast?_eq_none_iff.mp ends
        rw [walkEmpty asked] at ran
        exact (Option.some.inj ran).symm
      | some last =>
        rw [walkMore asked ends, never] at ran
        cases ran
end

section
variable {Row Cursor Time : Type*} [LinearOrder Time] (mark cut : Row → Time)

-- At every page boundary from row `first` on, each `size` rows further, the next row lies below the cursor.
def Breaks (first size : Nat) (rows : List Row) : Prop :=
  ∀ i row next, rows[first + i * size - 1]? = some row → rows[first + i * size]? = some next → mark next < cut row

variable {mark cut}

theorem breaksSplit {first size : Nat} (positive : 0 < first) (full : 0 < size) {rows : List Row} :
    Breaks mark cut first size rows ↔
      (∀ row next, rows[first - 1]? = some row → rows[first]? = some next → mark next < cut row) ∧
        Breaks mark cut size size (rows.drop first) := by
  have later : ∀ i, first + (size + i * size) = first + (i + 1) * size := fun i => by rw [Nat.succ_mul, Nat.add_comm size]
  have before : ∀ i, first + (size + i * size - 1) = first + (i + 1) * size - 1 := fun i => by rw [← later]; omega
  simp only [Breaks, List.getElem?_drop, later, before]
  constructor
  · intro breaks
    refine ⟨fun row next here there => ?_, fun i => breaks (i + 1)⟩
    exact breaks 0 row next (by rwa [Nat.zero_mul, Nat.add_zero]) (by rwa [Nat.zero_mul, Nat.add_zero])
  · rintro ⟨head, tail⟩ i row next here there
    cases i with
    | zero =>
      rw [Nat.zero_mul, Nat.add_zero] at here there
      exact head row next here there
    | succ i => exact tail i row next here there

variable (mark) in
def Sinking (rows : List Row) : Prop := rows.Pairwise (fun a b => mark b ≤ mark a)

variable (mark) in
def under (bound : Time) (row : Row) : Bool := decide (mark row < bound)

-- No row of a page lies below its cursor.
theorem pageAbove (low : ∀ row, cut row ≤ mark row) {page : List Row} (sinking : Sinking mark page) {last : Row}
    (ends : page.getLast? = some last) : ∀ row ∈ page, under mark (cut last) row = false := by
  intro row mem
  have above : mark last ≤ mark row := by
    obtain ⟨before, rfl⟩ := List.getLast?_eq_some_iff.mp ends
    rcases List.mem_append.mp mem with early | final
    · exact (List.pairwise_append.mp sinking).2.2 row early last (List.mem_singleton_self last)
    · rw [List.mem_singleton.mp final]
  exact decide_eq_false (not_lt.mpr ((low last).trans above))

-- What lies below the cursor of a page comes after the page.
theorem underLater (low : ∀ row, cut row ≤ mark row) {page rest : List Row} (sinking : Sinking mark (page ++ rest)) {last : Row}
    (ends : page.getLast? = some last) :
    (page ++ rest).filter (under mark (cut last)) = rest.filter (under mark (cut last)) := by
  have gone : page.filter (under mark (cut last)) = [] := by
    refine List.filter_eq_nil_iff.mpr fun row mem => ?_
    rw [pageAbove low (List.pairwise_append.mp sinking).1 ends row mem]
    exact Bool.false_ne_true
  rw [List.filter_append, gone, List.nil_append]

theorem underNarrow (low : ∀ row, cut row ≤ mark row) {rows : List Row} {bound : Time} {row : Row}
    (mem : row ∈ rows.filter (under mark bound)) :
    (rows.filter (under mark bound)).filter (under mark (cut row)) = rows.filter (under mark (cut row)) := by
  rw [List.filter_filter]
  refine List.filter_congr fun other _ => ?_
  have below : mark row < bound := of_decide_eq_true (List.mem_filter.mp mem).2
  by_cases inside : mark other < cut row
  · simp [under, inside, inside.trans_le ((low row).trans below.le)]
  · simp [under, inside]

-- In sinking rows the first one decides whether all lie below the cursor.
theorem underAll {bound : Time} {rows : List Row} (sinking : Sinking mark rows) :
    rows.filter (under mark bound) = rows ↔ ∀ next, rows[0]? = some next → mark next < bound := by
  rw [List.filter_eq_self]
  cases rows with
  | nil => simp
  | cons first rest =>
    constructor
    · rintro below next here
      obtain rfl := Option.some.inj here
      exact of_decide_eq_true (below first List.mem_cons_self)
    · intro head row mem
      refine decide_eq_true ?_
      rcases List.mem_cons.mp mem with rfl | later
      · exact head row rfl
      · exact lt_of_le_of_lt ((List.pairwise_cons.mp sinking).1 row later) (head first rfl)

variable {ask : Nat → Cursor → Option (List Row)} {next : Row → Cursor} {size : Nat} {rows : List Row}

-- A page in front of the rows that the next cursor leaves.
theorem pageThen (full : 0 < size) {page rest visited : List Row} {last : Row}
    (sinking : Sinking mark (page ++ rest)) (ends : page.getLast? = some last)
    (sub : visited.Sublist (rest.filter (under mark (cut last))))
    (whole : visited = rest.filter (under mark (cut last)) ↔ Breaks mark cut size size (rest.filter (under mark (cut last)))) :
    page ++ visited = page ++ rest ↔ Breaks mark cut page.length size (page ++ rest) := by
  have lasts : page[page.length - 1]? = some last := List.getLast?_eq_getElem?.symm.trans ends
  have positive : 0 < page.length := by
    rcases page with _ | _
    · cases ends
    · exact Nat.succ_pos _
  have head : (∀ row next, (page ++ rest)[page.length - 1]? = some row → (page ++ rest)[page.length]? = some next →
      mark next < cut row) ↔ rest.filter (under mark (cut last)) = rest := by
    rw [underAll (List.pairwise_append.mp sinking).2.1, List.getElem?_append_left (by omega), lasts,
      List.getElem?_append_right (Nat.le_refl _), Nat.sub_self]
    exact ⟨fun all next => all last next rfl, fun all row next is => Option.some.inj is ▸ all next⟩
  rw [List.append_cancel_left_eq, breaksSplit positive full, head, List.drop_left]
  constructor
  · intro same
    rw [same] at sub whole
    have all : rest.filter (under mark (cut last)) = rest := List.filter_sublist.eq_of_length_le sub.length_le
    rw [all] at whole
    exact ⟨all, whole.mp rfl⟩
  · rintro ⟨all, breaks⟩
    rw [all] at whole
    exact whole.mpr breaks

variable (next) in
theorem walkRest (low : ∀ row, cut row ≤ mark row) (full : 0 < size) {rows : List Row} (sinking : Sinking mark rows)
    {call : Nat} {cursor : Cursor} (asked : ask call cursor = some (rows.take size))
    (later : ∀ call, ∀ row ∈ rows, ask (call + 1) (next row) = some ((rows.filter (under mark (cut row))).take size)) :
    ∃ fuel visited, walk ask next fuel call cursor = some visited ∧ visited.Sublist rows ∧
      (visited = rows ↔ Breaks mark cut size size rows) := by
  induction count : rows.length using Nat.strong_induction_on generalizing rows call cursor with
  | _ count ih =>
    subst count
    cases ends : (rows.take size).getLast? with
    | none =>
      have empty : rows = [] := by
        have taken := List.getLast?_eq_none_iff.mp ends
        exact (List.take_eq_nil_iff.mp taken).resolve_left full.ne'
      subst empty
      rw [List.take_nil] at asked
      exact ⟨1, [], walkEmpty asked 0, .refl _, iff_of_true rfl (fun _ _ _ here => by cases here)⟩
    | some last =>
      have member : last ∈ rows := List.mem_of_mem_take (List.mem_of_getLast? ends)
      have split : rows.take size ++ rows.drop size = rows := List.take_append_drop size rows
      have after : rows.filter (under mark (cut last)) = (rows.drop size).filter (under mark (cut last)) := by
        have sinking' : Sinking mark (rows.take size ++ rows.drop size) := split.symm ▸ sinking
        have := underLater low sinking' ends
        rwa [split] at this
      have fewer : (rows.filter (under mark (cut last))).length < rows.length := by
        refine List.length_filter_lt_length_iff_exists.mpr ⟨last, member, ?_⟩
        exact fun below => absurd (of_decide_eq_true below) (not_lt.mpr (low last))
      obtain ⟨fuel, visited, ran, sub, whole⟩ := ih _ fewer (sinking.filter _) (later call last member)
        (fun call row mem => by rw [underNarrow low mem]; exact later call row (List.mem_filter.mp mem).1) rfl
      refine ⟨fuel + 1, rows.take size ++ visited, ?_, ?_, ?_⟩
      · rw [walkMore asked ends, ran]
        rfl
      · rw [after] at sub
        have := (List.Sublist.refl (rows.take size)).append (sub.trans List.filter_sublist)
        rwa [split] at this
      · rw [after] at sub whole
        have once := pageThen full (split.symm ▸ sinking) ends sub whole
        rw [split] at once
        rw [once]
        by_cases long : size ≤ rows.length
        · rw [List.length_take_of_le long]
        · have short : rows.length ≤ size := by omega
          have past : ∀ first, rows.length ≤ first → Breaks mark cut first size rows := fun first within i row next _ there => by
            rw [List.getElem?_eq_none (by omega)] at there
            cases there
          exact iff_of_true (past _ (by rw [List.take_of_length_le short])) (past _ short)

-- The rows that the first query lets through, up to a page, stand in front of all others.
def Leading (keep : Row → Bool) (size : Nat) (rows : List Row) : Prop :=
  ∀ row ∈ rows.take (min size (rows.filter keep).length), keep row = true

theorem leadingTake {keep : Row → Bool} :
    (rows.filter keep).take size = rows.take (min size (rows.filter keep).length) ↔ Leading keep size rows := by
  constructor
  · intro same row mem
    rw [← same] at mem
    exact (List.mem_filter.mp (List.mem_of_mem_take mem)).2
  · intro leading
    obtain ⟨front, is⟩ : ∃ front, front = min size (rows.filter keep).length := ⟨_, rfl⟩
    rw [Leading, ← is] at leading
    rw [List.take_eq_take_min, ← is]
    have within : front ≤ rows.length := is ▸ (Nat.min_le_right _ _).trans (List.length_filter_le _ _)
    have kept : rows.filter keep = rows.take front ++ (rows.drop front).filter keep := by
      conv_lhs => rw [← List.take_append_drop front rows, List.filter_append, List.filter_eq_self.mpr leading]
    rw [kept]
    exact List.take_left' (List.length_take_of_le within)

-- Sinking rows are those not below a bound, then those below it.
theorem underSplit (bound : Time) {rows : List Row} (sinking : Sinking mark rows) :
    rows.filter (fun row => !under mark bound row) ++ rows.filter (under mark bound) = rows := by
  induction rows with
  | nil => rfl
  | cons first rest ih =>
    obtain ⟨head, tail⟩ := List.pairwise_cons.mp sinking
    by_cases below : under mark bound first = true
    · have all : ∀ row ∈ first :: rest, under mark bound row = true := by
        refine List.forall_mem_cons.mpr ⟨below, fun row mem => decide_eq_true ?_⟩
        exact (head row mem).trans_lt (of_decide_eq_true below)
      have none : (first :: rest).filter (fun row => !under mark bound row) = [] :=
        List.filter_eq_nil_iff.mpr fun row mem => by simp [all row mem]
      rw [none, List.nil_append, List.filter_eq_self.mpr all]
    · rw [List.filter_cons_of_pos (by simpa using below), List.filter_cons_of_neg below, List.cons_append, ih tail]

variable (next) in
-- What a walk visits whose first page comes from another query.
theorem walkWhole (low : ∀ row, cut row ≤ mark row) (full : 0 < size) {rows : List Row} (sinking : Sinking mark rows)
    {keep : Row → Bool} {start : Cursor} (first : ask 0 start = some ((rows.filter keep).take size))
    (later : ∀ call, ∀ row ∈ rows, ask (call + 1) (next row) = some ((rows.filter (under mark (cut row))).take size)) :
    ∃ fuel visited, walk ask next fuel 0 start = some visited ∧ visited.Sublist rows ∧
      (visited = rows ↔ Leading keep size rows ∧ Breaks mark cut (min size (rows.filter keep).length) size rows) := by
  have sizeOf : ((rows.filter keep).take size).length = min size (rows.filter keep).length := List.length_take
  cases ends : ((rows.filter keep).take size).getLast? with
  | none =>
    have empty := List.getLast?_eq_none_iff.mp ends
    rw [empty] at first sizeOf
    refine ⟨1, [], walkEmpty first 0, List.nil_sublist _, ?_⟩
    rw [← sizeOf, List.length_nil]
    constructor
    · rintro rfl
      exact ⟨fun _ mem => absurd mem (by simp), fun _ _ _ here => (by cases here)⟩
    · rintro ⟨-, breaks⟩
      cases rows with
      | nil => rfl
      | cons row rest => exact absurd (breaks 0 row row (by simp) (by simp)) (not_lt.mpr (low row))
  | some last =>
    have kept := List.mem_of_mem_take (List.mem_of_getLast? ends)
    have member : last ∈ rows := (List.mem_filter.mp kept).1
    obtain ⟨fuel, visited, ran, sub, whole⟩ := walkRest next low full (sinking.filter _) (later 0 last member)
      (fun call row mem => by rw [underNarrow low mem]; exact later _ row (List.mem_filter.mp mem).1)
    refine ⟨fuel + 1, (rows.filter keep).take size ++ visited, ?_, ?_, ?_⟩
    · rw [walkMore first ends, ran]
      rfl
    · have above : ((rows.filter keep).take size).filter (fun row => !under mark (cut last) row) = (rows.filter keep).take size := by
        refine List.filter_eq_self.mpr fun row mem => ?_
        rw [pageAbove low ((sinking.filter keep).sublist (List.take_sublist _ _)) ends row mem]
        rfl
      have front := ((List.take_sublist size (rows.filter keep)).trans List.filter_sublist).filter
        (fun row => !under mark (cut last) row)
      rw [above] at front
      have both := front.append sub
      rwa [underSplit _ sinking] at both
    · by_cases leading : Leading keep size rows
      · have is := leadingTake.mpr leading
        have split := List.take_append_drop (min size (rows.filter keep).length) rows
        rw [← is] at split
        rw [← split, underLater low (split.symm ▸ sinking) ends] at sub whole
        have once := pageThen full (split.symm ▸ sinking) ends sub whole
        rw [split, sizeOf] at once
        rw [once]
        exact (and_iff_right leading).symm
      · refine iff_of_false (fun same => leading (leadingTake.mp ?_)) (fun both => leading both.1)
        rw [← sizeOf]
        exact (List.take_left' rfl).symm.trans (congrArg _ same)
end

end HarnessMem.CursorWalk
