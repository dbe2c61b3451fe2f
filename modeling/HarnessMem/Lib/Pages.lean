import HarnessMem.Lib.Keyset

/-! The first rows that a query keeps, in the order of its key, greatest first; and when two
queries with conditions and keys of their own show the same rows. -/
namespace HarnessMem.Pages
open Keyset

section
variable {Row Key Other : Type*} [LinearOrder Key] [LinearOrder Other]

def first (limit : Option Nat) (rows : List Row) : List Row :=
  match limit with
  | some n => rows.take n
  | none => rows

def shown (key : Row → Key) (keep : Row → Bool) (limit : Option Nat) (rows : List Row) : List Row :=
  first limit (ranked key (rows.filter keep))

-- As many of the rows kept as the limit lets through stand before this one.
def Late (key : Row → Key) (keep : Row → Bool) (limit : Option Nat) (rows : List Row) (row : Row) : Prop :=
  ∃ n, limit = some n ∧ n ≤ (rows.filter (fun other => keep other && decide (key row < key other))).length

-- A page fits: its rows are kept and in order, and a row kept that it leaves out comes after a full page.
structure Fits (key : Row → Key) (keep : Row → Bool) (limit : Option Nat) (rows page : List Row) : Prop where
  order : Descending key page
  kept : ∀ row ∈ page, row ∈ rows ∧ keep row = true
  size : ∀ n, limit = some n → page.length ≤ n
  rest : ∀ row ∈ rows, keep row = true → row ∉ page → limit = some page.length ∧ ∀ other ∈ page, key row < key other

section
variable {key : Row → Key} {keep : Row → Bool} {limit : Option Nat} {rows page : List Row}

theorem descendingNodup (order : Descending key page) : page.Nodup :=
  order.imp fun below same => (same ▸ below).ne rfl

theorem firstSublist : (first limit rows).Sublist rows := by
  cases limit with
  | none => exact .refl _
  | some n => exact List.take_sublist n rows

variable (keep) in
omit [LinearOrder Key] in
theorem keptKeyed (keyed : (rows.map key).Nodup) : ((rows.filter keep).map key).Nodup :=
  keyed.sublist (List.filter_sublist.map key)

variable (keep limit) in
theorem shownFits (keyed : (rows.map key).Nodup) : Fits key keep limit rows (shown key keep limit rows) := by
  have order := rankedDescending (keptKeyed keep keyed)
  refine ⟨order.sublist firstSublist, fun row mem => ?_, fun n is => ?_, fun row mem holds out => ?_⟩
  · exact List.mem_filter.mp (memRanked.mp (firstSublist.subset mem))
  · rw [shown, is]
    exact List.length_take_le n _
  · have here : row ∈ ranked key (rows.filter keep) := memRanked.mpr (List.mem_filter.mpr ⟨mem, holds⟩)
    cases limit with
    | none => exact absurd here out
    | some n =>
      rw [← List.take_append_drop n (ranked key (rows.filter keep))] at here order
      have after := (List.mem_append.mp here).resolve_left out
      refine ⟨congrArg some (Eq.symm ?_), fun other mem => (List.pairwise_append.mp order).2.2 other mem row after⟩
      have some := List.length_pos_of_mem after
      rw [List.length_drop] at some
      exact List.length_take_of_le (by omega)

theorem descendingUnique {a b : List Row} (permuted : a.Perm b) (orderA : Descending key a) (orderB : Descending key b) : a = b :=
  permuted.eq_of_pairwise (fun _ _ _ _ before after => absurd before (lt_asymm after)) orderA orderB

theorem rankedFilter (keyed : (rows.map key).Nodup) (keep : Row → Bool) :
    ranked key (rows.filter keep) = (ranked key rows).filter keep := by
  refine descendingUnique ?_ (rankedDescending (keptKeyed keep keyed)) ((rankedDescending keyed).filter keep)
  exact (List.perm_insertionSort _ _).trans ((List.perm_insertionSort _ _).symm.filter keep)

-- A query that asks one thing more than another shows the rows of the other that meet it.
theorem shownAlso (keyed : (rows.map key).Nodup) {wide narrow more : Row → Bool} (n : Nat)
    (split : ∀ row ∈ rows, narrow row = (more row && wide row)) :
    shown key narrow (some n) rows = ((ranked key (rows.filter wide)).filter more).take n := by
  rw [shown, first, ← rankedFilter (keptKeyed wide keyed), List.filter_filter, List.filter_congr split]

-- The rows that a fitting page leaves out are ranked behind it, so there is one page that fits.
theorem fitsShown (keyed : (rows.map key).Nodup) (fits : Fits key keep limit rows page) :
    page = shown key keep limit rows := by
  have := Classical.decEq Row
  let left := rows.filter (fun row => keep row && !decide (row ∈ page))
  have inLeft : ∀ row, row ∈ left ↔ row ∈ rows ∧ keep row = true ∧ row ∉ page := fun row => by
    simp [left]
  have ordered : Descending key (page ++ ranked key left) := by
    refine List.pairwise_append.mpr ⟨fits.order, rankedDescending (keptKeyed _ keyed), fun other mem row after => ?_⟩
    obtain ⟨held, holds, out⟩ := (inLeft row).mp (memRanked.mp after)
    exact (fits.rest row held holds out).2 other mem
  have sorted := rankedDescending (keptKeyed keep keyed)
  have whole : page ++ ranked key left = ranked key (rows.filter keep) := by
    refine descendingUnique ?_ ordered sorted
    refine (List.perm_ext_iff_of_nodup (descendingNodup ordered) (descendingNodup sorted)).mpr (fun row => ?_)
    rw [List.mem_append, memRanked, memRanked, inLeft, List.mem_filter]
    constructor
    · rintro (mem | ⟨held, holds, -⟩)
      · exact fits.kept row mem
      · exact ⟨held, holds⟩
    · rintro ⟨held, holds⟩
      by_cases mem : row ∈ page
      · exact .inl mem
      · exact .inr ⟨held, holds, mem⟩
  rw [shown, ← whole]
  by_cases none : left = []
  · rw [none, ranked, List.insertionSort_nil, List.append_nil]
    cases limit with
    | none => rfl
    | some n => exact (List.take_of_length_le (fits.size n rfl)).symm
  · obtain ⟨row, mem⟩ := List.exists_mem_of_ne_nil left none
    obtain ⟨held, holds, out⟩ := (inLeft row).mp mem
    rw [(fits.rest row held holds out).1]
    exact (List.take_left).symm

-- A late row comes after every row of the page.
theorem lateAfter (keyed : (rows.map key).Nodup) {row : Row} (late : Late key keep limit rows row) {other : Row}
    (mem : other ∈ shown key keep limit rows) : key row < key other := by
  obtain ⟨n, is, many⟩ := late
  have fits := shownFits keep limit keyed
  by_contra early
  have ahead : ∀ r ∈ rows.filter (fun other => keep other && decide (key row < key other)),
      r ∈ shown key keep limit rows ∧ key other < key r := fun r found => by
    obtain ⟨held, holds⟩ := List.mem_filter.mp found
    rw [Bool.and_eq_true, decide_eq_true_eq] at holds
    have beyond := lt_of_le_of_lt (not_lt.mp early) holds.2
    refine ⟨?_, beyond⟩
    by_contra out
    exact lt_asymm beyond ((fits.rest r held holds.1 out).2 other mem)
  have distinct : (other :: rows.filter (fun other => keep other && decide (key row < key other))).Nodup :=
    List.nodup_cons.mpr ⟨fun found => lt_irrefl _ (ahead other found).2, (keyed.of_map key).filter _⟩
  have within := distinct.length_le_of_subset (List.cons_subset.mpr ⟨mem, fun r found => (ahead r found).1⟩)
  have size := fits.size n is
  rw [List.length_cons] at within
  omega

-- A row that the page leaves out, and that comes after all of a full page, is late.
theorem outLate (full : limit = some page.length) (distinct : page.Nodup) {row : Row}
    (kept : ∀ other ∈ page, (other ∈ rows ∧ keep other = true) ∧ key row < key other) : Late key keep limit rows row := by
  refine ⟨page.length, full, distinct.length_le_of_subset fun other mem => ?_⟩
  obtain ⟨⟨held, holds⟩, below⟩ := kept other mem
  exact List.mem_filter.mpr ⟨held, by simp [holds, below]⟩

theorem shownNotLate (keyed : (rows.map key).Nodup) {row : Row} (mem : row ∈ shown key keep limit rows) :
    ¬ Late key keep limit rows row :=
  fun late => lt_irrefl _ (lateAfter keyed late mem)

-- A row kept is shown exactly if it is not late.
theorem memShown (keyed : (rows.map key).Nodup) {row : Row} (mem : row ∈ rows) (holds : keep row = true) :
    row ∈ shown key keep limit rows ↔ ¬ Late key keep limit rows row := by
  refine ⟨shownNotLate keyed, fun early => ?_⟩
  by_contra out
  have fits := shownFits keep limit keyed
  obtain ⟨full, below⟩ := fits.rest row mem holds out
  exact early (outLate full (descendingNodup fits.order) fun other shows => ⟨fits.kept other shows, below other shows⟩)

theorem shownLength : (shown key keep limit rows).length = (first limit (rows.filter keep)).length := by
  have size : (ranked key (rows.filter keep)).length = (rows.filter keep).length := List.length_insertionSort _ _
  cases limit with
  | none => exact size
  | some n => rw [shown, first, first, List.length_take, List.length_take, size]

theorem lateFull {row : Row} (late : Late key keep limit rows row) : limit = some (shown key keep limit rows).length := by
  obtain ⟨n, rfl, many⟩ := late
  have fewer : (rows.filter (fun other => keep other && decide (key row < key other))).length ≤ (rows.filter keep).length := by
    rw [← List.filter_filter, List.filter_comm]
    exact List.length_filter_le _ _
  rw [shownLength, first, List.length_take_of_le (by omega)]

-- A query that keeps more rows, all of them late, shows the same page.
theorem shownWider {narrow : Row → Bool} (keyed : (rows.map key).Nodup)
    (within : ∀ row ∈ rows, narrow row = true → keep row = true)
    (late : ∀ row ∈ rows, keep row = true → narrow row = false → Late key narrow limit rows row) :
    shown key narrow limit rows = shown key keep limit rows := by
  have fits := shownFits narrow limit keyed
  refine fitsShown keyed ⟨fits.order, fun row mem => ?_, fits.size, fun row held holds out => ?_⟩
  · exact (fits.kept row mem).imp id (within row (fits.kept row mem).1)
  · cases inside : narrow row with
    | true => exact fits.rest row held inside out
    | false => exact ⟨lateFull (late row held holds inside), fun other mem => lateAfter keyed (late row held holds inside) mem⟩
end

variable {key : Row → Key} {otherKey : Row → Other} {keep otherKeep : Row → Bool} {limit : Option Nat} {rows : List Row}

-- Two keys that put the rows of the page alike.
theorem shownReordered (keyed : (rows.map key).Nodup) (otherKeyed : (rows.map otherKey).Nodup)
    (order : ∀ row ∈ rows, keep row = true → ¬ Late key keep limit rows row →
      ∀ other ∈ rows, keep other = true → (key other < key row ↔ otherKey other < otherKey row)) :
    shown key keep limit rows = shown otherKey keep limit rows := by
  have fits := shownFits keep limit keyed
  have alike : ∀ row ∈ shown key keep limit rows, ∀ other ∈ rows, keep other = true →
      (key other < key row ↔ otherKey other < otherKey row) := fun row mem =>
    order row (fits.kept row mem).1 (fits.kept row mem).2 (shownNotLate keyed mem)
  refine fitsShown otherKeyed ⟨?_, fits.kept, fits.size, fun row held holds out => ?_⟩
  · exact fits.order.imp_of_mem fun mem after below =>
      (alike _ mem _ (fits.kept _ after).1 (fits.kept _ after).2).mp below
  · obtain ⟨full, below⟩ := fits.rest row held holds out
    exact ⟨full, fun other mem => (alike other mem row held holds).mp (below other mem)⟩

def both (keep otherKeep : Row → Bool) (row : Row) : Bool := keep row && otherKeep row

-- A row that only one query keeps is late there, and the rows of the page stand alike in both orders.
structure Alike (key : Row → Key) (keep : Row → Bool) (otherKey : Row → Other) (otherKeep : Row → Bool)
    (limit : Option Nat) (rows : List Row) : Prop where
  here : ∀ row ∈ rows, keep row = true → otherKeep row = false → Late key (both keep otherKeep) limit rows row
  there : ∀ row ∈ rows, otherKeep row = true → keep row = false → Late otherKey (both keep otherKeep) limit rows row
  order : ∀ row ∈ rows, both keep otherKeep row = true → ¬ Late key (both keep otherKeep) limit rows row →
    ∀ other ∈ rows, both keep otherKeep other = true → (key other < key row ↔ otherKey other < otherKey row)

theorem alikeShown (keyed : (rows.map key).Nodup) (otherKeyed : (rows.map otherKey).Nodup)
    (alike : Alike key keep otherKey otherKeep limit rows) :
    shown key keep limit rows = shown otherKey otherKeep limit rows := by
  have split : ∀ row, both keep otherKeep row = true → keep row = true ∧ otherKeep row = true := fun row holds => by
    simpa only [both, Bool.and_eq_true] using holds
  calc shown key keep limit rows
    _ = shown key (both keep otherKeep) limit rows := by
        refine (shownWider keyed (fun row _ holds => (split row holds).1) fun row mem holds out => ?_).symm
        exact alike.here row mem holds (by simpa only [both, holds, Bool.true_and] using out)
    _ = shown otherKey (both keep otherKeep) limit rows := shownReordered keyed otherKeyed alike.order
    _ = shown otherKey otherKeep limit rows := by
        refine shownWider otherKeyed (fun row _ holds => (split row holds).2) fun row mem holds out => ?_
        exact alike.there row mem holds (by simpa only [both, holds, Bool.and_true] using out)

-- Rows of one list that two orders sort alike stand to each other alike.
theorem orderedAlike {page : List Row} (order : Descending key page) (otherOrder : Descending otherKey page) :
    ∀ row ∈ page, ∀ other ∈ page, (key other < key row ↔ otherKey other < otherKey row) := by
  let Same (a b : Row) : Prop := key b < key a ↔ otherKey b < otherKey a
  have before : page.Pairwise Same := (order.and otherOrder).imp fun below => iff_of_true below.1 below.2
  have after : page.Pairwise (flip Same) := (order.and otherOrder).imp fun below =>
    iff_of_false (lt_asymm below.1) (lt_asymm below.2)
  have self : ∀ row ∈ page, Same row row := fun _ _ => iff_of_false (lt_irrefl _) (lt_irrefl _)
  exact fun row mem other also => before.forall_of_forall_of_flip self after mem also

theorem shownAlike (keyed : (rows.map key).Nodup) (otherKeyed : (rows.map otherKey).Nodup)
    (same : shown key keep limit rows = shown otherKey otherKeep limit rows) :
    Alike key keep otherKey otherKeep limit rows := by
  have fits := shownFits keep limit keyed
  have otherFits := shownFits otherKeep limit otherKeyed
  rw [← same] at otherFits
  have inBoth : ∀ row ∈ shown key keep limit rows, row ∈ rows ∧ both keep otherKeep row = true := fun row mem =>
    ⟨(fits.kept row mem).1, by rw [both, (fits.kept row mem).2, (otherFits.kept row mem).2]; rfl⟩
  have here : ∀ row ∈ rows, keep row = true → row ∉ shown key keep limit rows →
      Late key (both keep otherKeep) limit rows row := fun row mem holds out => by
    obtain ⟨full, below⟩ := fits.rest row mem holds out
    exact outLate full (descendingNodup fits.order) fun other shows => ⟨inBoth other shows, below other shows⟩
  refine ⟨fun row mem holds other => here row mem holds fun shows => ?_, fun row mem holds other => ?_,
    fun row mem holds early other also otherHolds => ?_⟩
  · rw [(otherFits.kept row shows).2] at other
    cases other
  · have out : row ∉ shown key keep limit rows := fun shows => by
      rw [(fits.kept row shows).2] at other
      cases other
    obtain ⟨full, below⟩ := otherFits.rest row mem holds out
    exact outLate full (descendingNodup fits.order) fun other shows => ⟨inBoth other shows, below other shows⟩
  · rw [both, Bool.and_eq_true] at holds otherHolds
    have shows : row ∈ shown key keep limit rows := by
      by_contra out
      exact early (here row mem holds.1 out)
    by_cases inside : other ∈ shown key keep limit rows
    · exact orderedAlike fits.order otherFits.order row shows other inside
    · exact iff_of_true ((fits.rest other also otherHolds.1 inside).2 row shows)
        ((otherFits.rest other also otherHolds.2 inside).2 row shows)

theorem shownSame (keyed : (rows.map key).Nodup) (otherKeyed : (rows.map otherKey).Nodup) :
    shown key keep limit rows = shown otherKey otherKeep limit rows ↔ Alike key keep otherKey otherKeep limit rows :=
  ⟨shownAlike keyed otherKeyed, alikeShown keyed otherKeyed⟩

end
end HarnessMem.Pages
