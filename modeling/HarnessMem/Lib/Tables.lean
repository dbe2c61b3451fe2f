import Mathlib.Data.List.Nodup
import Mathlib.Data.List.Sort

/-! Relational tables as lists of rows in insertion order: the update a `WHERE` clause
selects, and what it leaves true of every pair of rows. -/
namespace HarnessMem.Tables

section
variable {Row Key : Type*}

def update (choose : Row → Bool) (change : Row → Row) (rows : List Row) : List Row :=
  rows.map (fun row => if choose row then change row else row)

theorem memUpdate {choose : Row → Bool} {change : Row → Row} {rows : List Row} {row : Row} :
    row ∈ update choose change rows ↔
      ∃ old ∈ rows, row = if choose old then change old else old := by
  simp only [update, List.mem_map]
  exact exists_congr (fun old => and_congr_right (fun _ => eq_comm))

@[simp] theorem updateLength (choose : Row → Bool) (change : Row → Row) (rows : List Row) :
    (update choose change rows).length = rows.length := by simp [update]

theorem updateNone {choose : Row → Bool} {change : Row → Row} {rows : List Row}
    (none : ∀ row ∈ rows, choose row = false) : update choose change rows = rows := by
  have same : rows.map (fun row => if choose row then change row else row) = rows.map id :=
    List.map_congr_left (fun row mem => by simp [none row mem])
  rw [update, same, List.map_id]

-- Updating by key right after the insert of a fresh key touches the new row only.
theorem updateInserted {choose : Row → Bool} {change : Row → Row} {rows : List Row} {row : Row}
    (fresh : ∀ old ∈ rows, choose old = false) (new : choose row = true) :
    update choose change (rows ++ [row]) = rows ++ [change row] := by
  have same : update choose change rows = rows := updateNone fresh
  rw [update] at same ⊢
  rw [List.map_append, same]
  simp [new]

theorem filterInserted {choose : Row → Bool} {rows : List Row} {row : Row}
    (fresh : ∀ old ∈ rows, choose old = false) (new : choose row = true) : (rows ++ [row]).filter choose = [row] := by
  have none : rows.filter choose = [] := List.filter_eq_nil_iff.mpr (fun old mem => by simp [fresh old mem])
  rw [List.filter_append, none]
  simp [new]

-- A column the update does not write keeps its list of values.
theorem updateColumn {choose : Row → Bool} {change : Row → Row} (column : Row → Key)
    (same : ∀ row, column (change row) = column row) (rows : List Row) :
    (update choose change rows).map column = rows.map column := by
  rw [update, List.map_map]
  refine List.map_congr_left (fun row _ => ?_)
  by_cases chosen : choose row
  · simp [chosen, same]
  · simp [chosen]

-- One update by key for each row of a snapshot: each row is changed by its own.
theorem updateEach [DecidableEq Key] {key : Row → Key} {change : Row → Row → Row} (same : ∀ row other, key (change row other) = key other)
    {rows : List Row} (unique : (rows.map key).Nodup) :
    rows.foldl (fun table row => update (fun other => key other = key row) (change row) table) rows = rows.map (fun row => change row row) := by
  suffices each : ∀ todo done : List Row, ((done ++ todo).map key).Nodup →
      todo.foldl (fun table row => update (fun other => key other = key row) (change row) table) (done ++ todo) =
        done ++ todo.map (fun row => change row row) from each rows [] unique
  intro todo
  induction todo with
  | nil => exact fun done _ => rfl
  | cons row rest ih =>
    intro done unique
    rw [List.map_append, List.map_cons] at unique
    obtain ⟨-, later, apart⟩ := List.nodup_append.mp unique
    have before : update (fun other => key other = key row) (change row) done = done :=
      updateNone fun other mem => by simpa using apart _ (List.mem_map_of_mem mem) _ List.mem_cons_self
    have after : update (fun other => key other = key row) (change row) rest = rest :=
      updateNone fun other mem => by
        simpa using fun same => (List.nodup_cons.mp later).1 (List.mem_map.mpr ⟨other, mem, same⟩)
    have one : update (fun other => key other = key row) (change row) (done ++ row :: rest) = (done ++ [change row row]) ++ rest := by
      rw [update] at before after ⊢
      rw [List.map_append, before, List.map_cons, after]
      simp
    rw [List.foldl_cons, one, ih _ (by simpa [same] using unique)]
    simp

theorem updateAll {P : Row → Prop} {choose : Row → Bool} {change : Row → Row} {rows : List Row}
    (keep : ∀ row, choose row = true → P row → P (change row)) (all : ∀ row ∈ rows, P row) :
    ∀ row ∈ update choose change rows, P row := by
  intro row mem
  obtain ⟨old, held, rfl⟩ := memUpdate.mp mem
  by_cases chosen : choose old
  · simpa [chosen] using keep old chosen (all old held)
  · simpa [chosen] using all old held

-- A selection the update cannot see commutes with it; one it only works outside of does not change.
theorem filterUpdate {choose keep : Row → Bool} {change : Row → Row} (same : ∀ row, keep (change row) = keep row)
    (rows : List Row) : (update choose change rows).filter keep = update choose change (rows.filter keep) := by
  have kept : ∀ row, keep (if choose row then change row else row) = keep row := by
    intro row
    by_cases chosen : choose row
    · rw [if_pos chosen, same]
    · rw [if_neg chosen]
  rw [update, List.filter_map, update]
  exact congrArg (List.map _) (List.filter_congr fun row _ => kept row)

theorem filterOutside {choose keep : Row → Bool} {change : Row → Row} {rows : List Row} (same : ∀ row, keep (change row) = keep row)
    (outside : ∀ row ∈ rows, choose row = true → keep row = false) : (update choose change rows).filter keep = rows.filter keep := by
  rw [filterUpdate same]
  refine updateNone fun row mem => Bool.eq_false_of_not_eq_true fun chosen => ?_
  obtain ⟨held, kept⟩ := List.mem_filter.mp mem
  rw [outside row held chosen] at kept
  cases kept

-- Looking a key up among selected rows.
theorem findFilter [DecidableEq Key] {key : Row → Key} {keep : Row → Bool} {rows : List Row} (unique : (rows.map key).Nodup)
    (k : Key) : (rows.filter keep).find? (fun row => key row = k) = (rows.find? (fun row => key row = k)).filter keep := by
  induction rows with
  | nil => rfl
  | cons row rest ih =>
    rw [List.map_cons, List.nodup_cons] at unique
    by_cases here : key row = k
    · rw [List.find?_cons_of_pos (by simpa using here)]
      by_cases kept : keep row = true
      · rw [List.filter_cons_of_pos kept, List.find?_cons_of_pos (by simpa using here), Option.filter_some_pos kept]
      · have absent : (rest.filter keep).find? (fun row => key row = k) = none := by
          refine List.find?_eq_none.mpr fun other mem same => unique.1 ?_
          rw [here, ← of_decide_eq_true same]
          exact List.mem_map_of_mem (List.mem_of_mem_filter mem)
        rw [List.filter_cons_of_neg kept, absent, Option.filter_some_neg (Bool.eq_false_of_not_eq_true kept)]
    · rw [List.find?_cons_of_neg (by simpa using here), ← ih unique.2]
      by_cases kept : keep row = true
      · rw [List.filter_cons_of_pos kept, List.find?_cons_of_neg (by simpa using here)]
      · rw [List.filter_cons_of_neg kept]

-- Two tables related row by row: lookups, updates and selections that cannot tell the rows apart.
theorem findRelated {R : Row → Row → Prop} {choose : Row → Bool} (same : ∀ a b, R a b → choose a = choose b)
    {rows others : List Row} (related : List.Forall₂ R rows others) :
    Option.Rel R (rows.find? choose) (others.find? choose) := by
  induction related with
  | nil => exact .none
  | @cons a b _ _ first _ ih =>
    cases chosen : choose a with
    | true =>
      rw [List.find?_cons_of_pos chosen, List.find?_cons_of_pos (same a b first ▸ chosen)]
      exact .some first
    | false =>
      rw [List.find?_cons_of_neg (by simp [chosen]), List.find?_cons_of_neg (by simp [← same a b first, chosen])]
      exact ih

theorem updateRelated {R S : Row → Row → Prop} {choose : Row → Bool} {change : Row → Row} {rows others : List Row}
    (same : ∀ a b, R a b → choose a = choose b) (hit : ∀ a b, a ∈ rows → R a b → choose a = true → S (change a) (change b))
    (miss : ∀ a b, R a b → choose a = false → S a b) (related : List.Forall₂ R rows others) :
    List.Forall₂ S (update choose change rows) (update choose change others) := by
  induction related with
  | nil => exact .nil
  | @cons a b _ _ first _ ih =>
    refine .cons ?_ (ih fun a b mem => hit a b (List.mem_cons_of_mem _ mem))
    cases chosen : choose a with
    | true => simpa [chosen, ← same a b first] using hit a b List.mem_cons_self first chosen
    | false => simpa [chosen, ← same a b first] using miss a b first chosen

theorem filterRelated {R : Row → Row → Prop} {choose : Row → Bool} {rows others : List Row}
    (same : ∀ a b, R a b → choose a = choose b) (equal : ∀ a b, R a b → choose a = true → a = b)
    (related : List.Forall₂ R rows others) : rows.filter choose = others.filter choose := by
  induction related with
  | nil => rfl
  | @cons a b _ _ first _ ih =>
    cases chosen : choose a with
    | true => rw [List.filter_cons_of_pos chosen, List.filter_cons_of_pos (same a b first ▸ chosen), equal a b first chosen, ih]
    | false =>
      rw [List.filter_cons_of_neg (by simp [chosen]), List.filter_cons_of_neg (by simp [← same a b first, chosen]), ih]

theorem relatedTrans {R S T : Row → Row → Prop} (trans : ∀ a b c, R a b → S b c → T a c) {first second third : List Row}
    (left : List.Forall₂ R first second) (right : List.Forall₂ S second third) : List.Forall₂ T first third := by
  induction left generalizing third with
  | nil =>
    cases right
    exact .nil
  | cons rel _ ih =>
    cases right with
    | cons next rest => exact .cons (trans _ _ _ rel next) (ih rest)

-- What a selection finds in the second table is what another one finds, unchanged, in the first.
theorem filterKept {R : Row → Row → Prop} {keep before : Row → Bool} (same : ∀ a b, R a b → keep b = before a)
    (equal : ∀ a b, R a b → keep b = true → b = a) {rows others : List Row} (related : List.Forall₂ R rows others) :
    others.filter keep = rows.filter before := by
  induction related with
  | nil => rfl
  | @cons a b _ _ first _ ih =>
    cases kept : keep b with
    | true => rw [List.filter_cons_of_pos kept, List.filter_cons_of_pos (same a b first ▸ kept), equal a b first kept, ih]
    | false =>
      rw [List.filter_cons_of_neg (by simp [kept]), List.filter_cons_of_neg (by simp [← same a b first, kept]), ih]

-- `INSERT OR IGNORE`: the row is left out where one like it is there.
def insertNew (same : Row → Row → Bool) (rows : List Row) (row : Row) : List Row :=
  if rows.any (fun old => same old row) then rows else rows ++ [row]

-- In turn: some of the rows are appended, and for each one a row like it is there afterwards.
theorem insertAll (same : Row → Row → Bool) (refl : ∀ row, same row row = true) (rows table : List Row) :
    ∃ new, rows.foldl (insertNew same) table = table ++ new ∧ new.Sublist rows ∧
      ∀ row ∈ rows, ∃ held ∈ table ++ new, same held row = true := by
  induction rows generalizing table with
  | nil => exact ⟨[], by simp⟩
  | cons row rest ih =>
    rw [List.foldl_cons]
    by_cases known : table.any (fun old => same old row) = true
    · obtain ⟨new, result, part, all⟩ := ih table
      rw [insertNew, if_pos known]
      refine ⟨new, result, part.cons row, fun other mem => ?_⟩
      rcases List.mem_cons.mp mem with rfl | later
      · obtain ⟨old, held, alike⟩ := List.any_eq_true.mp known
        exact ⟨old, List.mem_append_left _ held, alike⟩
      · exact all other later
    · obtain ⟨new, result, part, all⟩ := ih (table ++ [row])
      rw [insertNew, if_neg known]
      refine ⟨row :: new, by rw [result, List.append_assoc]; rfl, part.cons_cons row, fun other mem => ?_⟩
      rw [List.append_cons]
      rcases List.mem_cons.mp mem with rfl | later
      · exact ⟨other, by simp, refl other⟩
      · exact all other later

theorem insertKnown {same : Row → Row → Bool} {rows table : List Row}
    (known : ∀ row ∈ rows, ∃ held ∈ table, same held row = true) : rows.foldl (insertNew same) table = table := by
  induction rows with
  | nil => rfl
  | cons row rest ih =>
    obtain ⟨held, mem, alike⟩ := known row List.mem_cons_self
    have there : table.any (fun old => same old row) = true := List.any_eq_true.mpr ⟨held, mem, alike⟩
    rw [List.foldl_cons, insertNew, if_pos there, ih (fun other mem => known other (List.mem_cons_of_mem _ mem))]

theorem insertKeyed [DecidableEq Key] {key : Row → Key} {rows table : List Row} (unique : (table.map key).Nodup) :
    ((rows.foldl (insertNew (fun old row => key old = key row)) table).map key).Nodup := by
  induction rows generalizing table with
  | nil => exact unique
  | cons row rest ih =>
    refine ih ?_
    unfold insertNew
    split
    · exact unique
    · rename_i fresh
      rw [List.map_append, List.map_singleton]
      refine unique.append (List.nodup_singleton _) (List.disjoint_singleton.mpr fun mem => fresh ?_)
      obtain ⟨old, held, alike⟩ := List.mem_map.mp mem
      exact List.any_eq_true.mpr ⟨old, held, by simpa using alike⟩

-- Two rows that were apart stay apart when neither side can come closer.
theorem updatePairwise {R : Row → Row → Prop} {choose : Row → Bool} {change : Row → Row}
    {rows : List Row} (left : ∀ a b, choose a = true → R a b → R (change a) b)
    (right : ∀ a b, choose b = true → R a b → R a (change b)) (apart : rows.Pairwise R) :
    (update choose change rows).Pairwise R := by
  rw [update, List.pairwise_map]
  refine apart.imp (fun {a b} rel => ?_)
  by_cases ha : choose a <;> by_cases hb : choose b <;> simp only [ha, hb, if_true, if_false, Bool.false_eq_true]
  · exact left a _ ha (right a b hb rel)
  · exact left a b ha rel
  · exact right a b hb rel
  · exact rel

theorem insertPairwise {R : Row → Row → Prop} {rows : List Row} {row : Row}
    (apart : rows.Pairwise R) (new : ∀ old ∈ rows, R old row) : (rows ++ [row]).Pairwise R := by
  rw [List.pairwise_append]
  exact ⟨apart, List.pairwise_singleton R row, fun old mem r hr => by
    rw [List.mem_singleton.mp hr]; exact new old mem⟩

-- Rows no two of which qualify together: at most one qualifies.
theorem filterAtMostOne {choose : Row → Bool} {rows : List Row}
    (apart : rows.Pairwise (fun a b => ¬ (choose a = true ∧ choose b = true))) :
    (rows.filter choose).length ≤ 1 := by
  induction rows with
  | nil => simp
  | cons row rest ih =>
    obtain ⟨first, others⟩ := List.pairwise_cons.mp apart
    by_cases chosen : choose row = true
    · have none : rest.filter choose = [] :=
        List.filter_eq_nil_iff.mpr (fun b mem both => first b mem ⟨chosen, both⟩)
      simp [chosen, none]
    · simpa [chosen] using ih others

theorem filterExactlyOne [DecidableEq Key] {key : Row → Key} {rows : List Row}
    (unique : (rows.map key).Nodup) {row : Row} (mem : row ∈ rows) :
    (rows.filter (fun other => key other = key row)).length = 1 := by
  have bound : (rows.filter (fun other => key other = key row)).length ≤ 1 := by
    refine filterAtMostOne ((List.pairwise_map.mp unique).imp (fun {a b} ne both => ne ?_))
    simp only [decide_eq_true_eq] at both
    rw [both.1, both.2]
  have found : row ∈ rows.filter (fun other => key other = key row) := by simp [mem]
  have := List.length_pos_of_mem found
  omega

-- A primary key: `find?` by key returns the only row that carries it.
theorem keyUnique {key : Row → Key} {rows : List Row} (unique : (rows.map key).Nodup)
    {a b : Row} (ha : a ∈ rows) (hb : b ∈ rows) (same : key a = key b) : a = b :=
  List.inj_on_of_nodup_map unique ha hb same

-- The order rows come in where a statement names none.
structure Scan (Row : Type*) where
  arrange : List Row → List Row
  perm : ∀ rows, (arrange rows).Perm rows

@[simp] theorem Scan.mem (scan : Scan Row) {rows : List Row} {row : Row} : row ∈ scan.arrange rows ↔ row ∈ rows :=
  (scan.perm rows).mem_iff
def inOrder : Scan Row := ⟨id, fun _ => .refl _⟩

-- `ORDER BY`: rows that tie keep the table's order.
def orderBy (before : Row → Row → Prop) [DecidableRel before] (rows : List Row) : List Row :=
  rows.insertionSort before

@[simp] theorem memOrderBy (before : Row → Row → Prop) [DecidableRel before] {rows : List Row}
    {row : Row} : row ∈ orderBy before rows ↔ row ∈ rows := by
  simp [orderBy]

@[simp] theorem orderByOne (before : Row → Row → Prop) [DecidableRel before] (row : Row) :
    orderBy before [row] = [row] := by simp [orderBy]

-- A row that goes before every other one of the list, at its head already.
theorem orderByFront {before : Row → Row → Prop} [DecidableRel before] {row : Row} {rows : List Row}
    (first : ∀ other ∈ rows, before row other) : orderBy before (row :: rows) = row :: orderBy before rows := by
  unfold orderBy
  rw [List.insertionSort_cons]
  cases sorted : rows.insertionSort before with
  | nil => rfl
  | cons head rest =>
    have mem : head ∈ rows := (List.perm_insertionSort before rows).mem_iff.mp (sorted ▸ List.mem_cons_self)
    rw [List.orderedInsert_cons, if_pos (first head mem)]

theorem orderByEmpty {before : Row → Row → Prop} [DecidableRel before] {rows : List Row} :
    orderBy before rows = [] ↔ rows = [] := by
  constructor
  · intro none
    have perm := List.perm_insertionSort before rows
    rw [orderBy] at none
    rw [none] at perm
    exact perm.symm.eq_nil
  · rintro rfl
    rfl

-- `ORDER BY .. LIMIT 1` comes back empty exactly when the `WHERE` clause selects nothing.
theorem orderByFirstNone {before : Row → Row → Prop} [DecidableRel before] {choose : Row → Bool}
    {rows : List Row} :
    (orderBy before (rows.filter choose)).head? = none ↔ ∀ row ∈ rows, choose row = false := by
  rw [List.head?_eq_none_iff, orderByEmpty, List.filter_eq_nil_iff]
  simp

-- The first rows of an ordering taken away by their keys: the rest of it is left.
theorem takeLeaves [DecidableEq Key] {key : Row → Key} {rows sorted : List Row} (unique : (rows.map key).Nodup) (perm : sorted.Perm rows)
    (n : Nat) : (rows.filter (fun row => !(sorted.take n).any (fun taken => key taken = key row))).Perm (sorted.drop n) := by
  have apart : ∀ taken ∈ sorted.take n, ∀ row ∈ sorted.drop n, key taken ≠ key row := by
    have all : ((sorted.take n ++ sorted.drop n).map key).Nodup := by
      rw [List.take_append_drop]
      exact (perm.map key).nodup_iff.mpr unique
    rw [List.map_append] at all
    exact fun taken mem row later => (List.nodup_append.mp all).2.2 _ (List.mem_map_of_mem mem) _ (List.mem_map_of_mem later)
  have front : (sorted.take n).filter (fun row => !(sorted.take n).any (fun taken => key taken = key row)) = [] :=
    List.filter_eq_nil_iff.mpr fun row mem => by simpa using ⟨row, mem, rfl⟩
  have back : (sorted.drop n).filter (fun row => !(sorted.take n).any (fun taken => key taken = key row)) = sorted.drop n :=
    List.filter_eq_self.mpr fun row mem => by simpa using fun taken held => apart taken held row mem
  refine (perm.symm.filter _).trans (List.Perm.of_eq ?_)
  conv_lhs => rw [← List.take_append_drop n sorted]
  rw [List.filter_append]
  simp only [List.take_append_drop]
  rw [front, back, List.nil_append]

end

end HarnessMem.Tables
