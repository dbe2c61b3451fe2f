import HarnessMem.Lib.Pages
import HarnessMem.Visibility
import Mathlib.Data.Prod.Lex
import Mathlib.Data.String.Basic
import Mathlib.Order.WithBot

/-! The observation repositories: one filter, three builders of its query. A PostgreSQL column
holds the value its text reads as; the rows are kept with the texts they were inserted with. -/
namespace HarnessMem.ObservationRepositories
open Js Recorder Visibility Pages

structure InsertObservationInput where
  id : String
  project : String
  sessionId : String
  privacyTagsJson : String
  memoryType : Option String
  threadId : Option String
  topic : Option String
  expiresAt : Option String
  branch : Option String
  createdAt : String
  deriving DecidableEq, Repr

structure ObservationRow where
  id : String
  project : String
  sessionId : String
  privacyTagsJson : String
  memoryType : String
  threadId : Option String
  topic : Option String
  expiresAt : Option String
  branch : Option String
  createdAt : String
  deriving DecidableEq, Repr

def rowOf (input : InsertObservationInput) : ObservationRow where
  id := input.id
  project := input.project
  sessionId := input.sessionId
  privacyTagsJson := input.privacyTagsJson
  memoryType := input.memoryType.getD "semantic"
  threadId := input.threadId
  topic := input.topic
  expiresAt := input.expiresAt
  branch := input.branch
  createdAt := input.createdAt

-- `memory_type`: one text counts as a list of it.
structure FindObservationsFilter where
  project : Option String
  sessionId : Option String
  includePrivate : Bool
  since : Option String
  till : Option String
  limit : Option Number
  cursor : Option String
  memoryType : Option (List String)
  threadId : Option String
  topic : Option String
  includeExpired : Bool
  branch : Option String
  deriving Repr

def equals (given : Option String) (value : String) : Bool := (truthy given).all (fun wanted => value = wanted)
def names (given : Option String) (value : Option String) : Bool := (truthy given).all (fun wanted => value = some wanted)
def typeIn (given : Option (List String)) (value : String) : Bool :=
  given.all (fun types => types.isEmpty || types.contains value)
def branchIs (given : Option String) (value : Option String) : Bool :=
  given.all (fun wanted => value = some wanted || value = none)

-- `LIMIT` takes an integer of 64 bits; both databases refuse another positive number.
def limitRows : Option Number → Option (Option Nat)
  | none => some none
  | some number =>
    if number.positive = false then some none
    else match number with
      | .fin value => if value.den = 1 ∧ value.num < 2 ^ 63 then some (some value.num.toNat) else none
      | _ => none

def insertRow (table : List ObservationRow) (input : InsertObservationInput) : List ObservationRow :=
  if table.any (fun row => row.id = input.id) then table else table ++ [rowOf input]

/-! SQLite: texts compare as texts. -/

def sqliteTable (inputs : List InsertObservationInput) : List ObservationRow := inputs.foldl insertRow []

def place (row : ObservationRow) : String ×ₗ String := toLex (row.createdAt, row.id)

def untagged (row : ObservationRow) : Bool := row.privacyTagsJson = "[]" || !like "%private%" row.privacyTagsJson
def unexpired (now : String) (row : ObservationRow) : Bool := row.expiresAt.all (fun expires => now < expires)

def sqliteWhere (filter : FindObservationsFilter) (now : String) (row : ObservationRow) : Bool :=
  equals filter.project row.project && equals filter.sessionId row.sessionId &&
  (filter.includePrivate || untagged row) &&
  (truthy filter.since).all (fun since => since ≤ row.createdAt) &&
  (truthy filter.till).all (fun till => row.createdAt ≤ till) &&
  typeIn filter.memoryType row.memoryType && names filter.threadId row.threadId && names filter.topic row.topic &&
  branchIs filter.branch row.branch && (filter.includeExpired || unexpired now row) &&
  (truthy filter.cursor).all (fun cursor => row.createdAt < cursor)

def isDefaultFindManyFilter (filter : FindObservationsFilter) : Bool :=
  filter.project.isSome && filter.limit.any Number.positive && !filter.includePrivate && !filter.includeExpired &&
  (truthy filter.sessionId).isNone && (truthy filter.since).isNone && (truthy filter.till).isNone &&
  filter.memoryType.isNone && (truthy filter.threadId).isNone && (truthy filter.topic).isNone &&
  filter.branch.isNone && (truthy filter.cursor).isNone

-- DEFAULT_FIND_MANY_SQL
def defaultWhere (project : String) (now : String) (row : ObservationRow) : Bool :=
  row.project = project && untagged row && unexpired now row

def findGeneric (filter : FindObservationsFilter) (now : String) (table : List ObservationRow) : Option (List ObservationRow) :=
  (limitRows filter.limit).map fun limit => shown place (sqliteWhere filter now) limit table

def findDefault (filter : FindObservationsFilter) (now : String) (table : List ObservationRow) : Option (List ObservationRow) :=
  (limitRows filter.limit).map fun limit => shown place (defaultWhere (filter.project.getD "") now) limit table

def sqliteFindMany (filter : FindObservationsFilter) (now : String) (table : List ObservationRow) : Option (List ObservationRow) :=
  if isDefaultFindManyFilter filter then findDefault filter now table else findGeneric filter now table

def sqliteCount (project : Option String) (includePrivate : Bool) (table : List ObservationRow) : Nat :=
  if (truthy project).isSome ∧ includePrivate ≠ true then
    (table.filter (fun row => some row.project = project && untagged row)).length
  else (table.filter (fun row => equals project row.project && (includePrivate || untagged row))).length

/-! PostgreSQL: `instant` reads a TIMESTAMPTZ and `jsonb` a JSONB, `none` for a text they refuse;
`collate` is the order the database gives texts, in which different texts differ. -/

structure Postgres (Time Id : Type) where
  instant : String → Option Time
  jsonb : String → Option Json
  collate : String → Id
  apart : Function.Injective collate

section
variable {Time Id : Type} [LinearOrder Time] [LinearOrder Id] (postgres : Postgres Time Id)

def readable (input : InsertObservationInput) : Bool :=
  (postgres.jsonb input.privacyTagsJson).isSome && (postgres.instant input.createdAt).isSome &&
  input.expiresAt.all (fun expires => (postgres.instant expires).isSome)

-- All inserts, unless one of them throws.
def pgTable (inputs : List InsertObservationInput) : Option (List ObservationRow) :=
  if inputs.all (readable postgres) then some (inputs.foldl insertRow []) else none

def time (text : String) : WithBot Time := postgres.instant text
def pgPlace (row : ObservationRow) : WithBot Time ×ₗ Id := toLex (time postgres row.createdAt, postgres.collate row.id)

def isPrivate : Json → Bool
  | .str value => value = "private"
  | _ => false
-- privacy_tags_json @> '["private"]'
def tagged (row : ObservationRow) : Bool :=
  match postgres.jsonb row.privacyTagsJson with
  | some (.arr tags) => tags.any isPrivate
  | _ => false

def pgWhere (filter : FindObservationsFilter) (now : String) (row : ObservationRow) : Bool :=
  equals filter.project row.project && equals filter.sessionId row.sessionId &&
  (filter.includePrivate || !tagged postgres row) &&
  (truthy filter.since).all (fun since => time postgres since ≤ time postgres row.createdAt) &&
  (truthy filter.till).all (fun till => time postgres row.createdAt ≤ time postgres till) &&
  typeIn filter.memoryType row.memoryType && branchIs filter.branch row.branch &&
  (filter.includeExpired || row.expiresAt.all (fun expires => time postgres now < time postgres expires)) &&
  (truthy filter.cursor).all (fun cursor => time postgres row.createdAt < time postgres cursor)

-- The parameters that are bound to a TIMESTAMPTZ.
def bound (filter : FindObservationsFilter) (now : String) : List String :=
  (truthy filter.since).toList ++ (truthy filter.till).toList ++ (if filter.includeExpired then [] else [now]) ++
    (truthy filter.cursor).toList
def reads (filter : FindObservationsFilter) (now : String) : Bool :=
  (bound filter now).all (fun text => (postgres.instant text).isSome)

def pgFindMany (filter : FindObservationsFilter) (now : String) (table : List ObservationRow) : Option (List ObservationRow) :=
  if reads postgres filter now then
    (limitRows filter.limit).map fun limit => shown (pgPlace postgres) (pgWhere postgres filter now) limit table
  else none

def pgCount (project : Option String) (includePrivate : Bool) (table : List ObservationRow) : Nat :=
  (table.filter (fun row => equals project row.project && (includePrivate || !tagged postgres row))).length

end

section
variable {table : List ObservationRow} {inputs : List InsertObservationInput}

theorem insertDistinct (distinct : (table.map ObservationRow.id).Nodup) (input : InsertObservationInput) :
    ((insertRow table input).map ObservationRow.id).Nodup := by
  unfold insertRow
  split
  · exact distinct
  · rename_i fresh
    rw [List.map_append, List.map_singleton]
    refine List.nodup_append.mpr ⟨distinct, List.nodup_singleton _, fun id mem other last => ?_⟩
    obtain ⟨row, held, rfl⟩ := List.mem_map.mp mem
    rw [List.mem_singleton.mp last]
    exact fun same => fresh (List.any_eq_true.mpr ⟨row, held, decide_eq_true same⟩)

theorem tableDistinct : ((sqliteTable inputs).map ObservationRow.id).Nodup := by
  have grows : ∀ start : List ObservationRow, (start.map ObservationRow.id).Nodup →
      ((inputs.foldl insertRow start).map ObservationRow.id).Nodup := by
    induction inputs with
    | nil => exact fun _ distinct => distinct
    | cons input rest ih => exact fun start distinct => ih _ (insertDistinct distinct input)
  exact grows [] List.nodup_nil

theorem placeDistinct (distinct : (table.map ObservationRow.id).Nodup) : (table.map place).Nodup := by
  refine List.Nodup.of_map (fun key => (ofLex key).2) ?_
  rwa [List.map_map]

-- Rows of one table are the same when their ids are.
theorem idsInjective (distinct : (table.map ObservationRow.id).Nodup) {a b : List ObservationRow} (inA : a ⊆ table)
    (inB : b ⊆ table) (same : a.map ObservationRow.id = b.map ObservationRow.id) : a = b := by
  induction a generalizing b with
  | nil => exact (List.map_eq_nil_iff.mp same.symm).symm
  | cons row rest ih =>
    cases b with
    | nil => cases same
    | cons other others =>
      rw [List.map_cons, List.map_cons, List.cons.injEq] at same
      obtain ⟨here, inRest⟩ := List.cons_subset.mp inA
      obtain ⟨there, inOthers⟩ := List.cons_subset.mp inB
      rw [List.inj_on_of_nodup_map distinct here there same.1, ih inRest inOthers same.2]

theorem shownSubset {Key : Type} [LinearOrder Key] {key : ObservationRow → Key} {keep : ObservationRow → Bool}
    {limit : Option Nat} : shown key keep limit table ⊆ table := fun _ mem =>
  (List.mem_filter.mp (Keyset.memRanked.mp (firstSublist.subset mem))).1

end

section
variable {Time Id : Type} [LinearOrder Time] [LinearOrder Id] (postgres : Postgres Time Id)
variable {table : List ObservationRow} {filter : FindObservationsFilter} {now : String}

omit [LinearOrder Time] [LinearOrder Id] in
theorem pgPlaceDistinct (distinct : (table.map ObservationRow.id).Nodup) : (table.map (pgPlace postgres)).Nodup := by
  refine List.Nodup.of_map (fun key => (ofLex key).2) ?_
  rw [List.map_map]
  have mapped := distinct.map postgres.apart
  rwa [List.map_map] at mapped

-- The condition that the query of SQLite puts on a row.
def sqliteKeeps (filter : FindObservationsFilter) (now : String) (row : ObservationRow) : Bool :=
  if isDefaultFindManyFilter filter then defaultWhere (filter.project.getD "") now row else sqliteWhere filter now row

theorem sqliteFindShown : sqliteFindMany filter now table =
    (limitRows filter.limit).map fun limit => shown place (sqliteKeeps filter now) limit table := by
  unfold sqliteFindMany findDefault findGeneric
  by_cases default : isDefaultFindManyFilter filter = true
  · have keeps : sqliteKeeps filter now = defaultWhere (filter.project.getD "") now := funext fun _ => if_pos default
    rw [if_pos default, keeps]
  · have keeps : sqliteKeeps filter now = sqliteWhere filter now := funext fun _ => if_neg default
    rw [if_neg default, keeps]

-- PostgreSQL takes the bounds, the rows shown stand in one order for both, and a row that only one
-- of them keeps has as many rows before it as the limit lets through.
def Meets (filter : FindObservationsFilter) (now : String) (table : List ObservationRow) : Prop :=
  ∀ limit, limitRows filter.limit = some limit → reads postgres filter now = true ∧
    Alike place (sqliteKeeps filter now) (pgPlace postgres) (pgWhere postgres filter now) limit table

def SameRows (filter : FindObservationsFilter) (now : String) (table : List ObservationRow) : Prop :=
  (pgFindMany postgres filter now table).map (List.map ObservationRow.id) =
    (sqliteFindMany filter now table).map (List.map ObservationRow.id)

theorem sameRows (distinct : (table.map ObservationRow.id).Nodup) :
    SameRows postgres filter now table ↔ Meets postgres filter now table := by
  rw [SameRows, Meets, sqliteFindShown, pgFindMany]
  cases limits : limitRows filter.limit with
  | none => simp
  | some limit =>
    have pages : shown place (sqliteKeeps filter now) limit table =
        shown (pgPlace postgres) (pgWhere postgres filter now) limit table ↔ _ :=
      shownSame (placeDistinct distinct) (pgPlaceDistinct postgres distinct)
    by_cases read : reads postgres filter now = true
    · simp only [read, if_true, Option.map_some, Option.some.injEq, forall_eq', true_and]
      rw [← pages]
      constructor
      · exact fun same => (idsInjective distinct shownSubset shownSubset same).symm
      · exact fun same => by rw [same]
    · simp [read]

variable (table) in
theorem countSplit (keep otherKeep : ObservationRow → Bool) : (table.filter keep).length =
    (table.filter (both keep otherKeep)).length + (table.filter (fun row => keep row && !otherKeep row)).length := by
  have split := List.countP_eq_countP_filter_add table keep otherKeep
  simp only [List.countP_eq_length_filter, List.filter_filter] at split
  exact split

def counts (project : Option String) (includePrivate : Bool) (row : ObservationRow) : Bool :=
  equals project row.project && (includePrivate || untagged row)
def pgCounts (project : Option String) (includePrivate : Bool) (row : ObservationRow) : Bool :=
  equals project row.project && (includePrivate || !tagged postgres row)

-- The prepared count is the built one.
theorem sqliteCountKeeps (project : Option String) (includePrivate : Bool) :
    sqliteCount project includePrivate table = (table.filter (counts project includePrivate)).length := by
  unfold sqliteCount
  split
  · rename_i default
    obtain ⟨wanted, given⟩ := Option.isSome_iff_exists.mp default.1
    obtain ⟨rfl, -⟩ := Option.filter_eq_some_iff.mp given
    have shared : includePrivate = false := Bool.not_eq_true _ ▸ default.2
    refine congrArg List.length (List.filter_congr fun row _ => ?_)
    simp [counts, equals, given, shared]
  · rfl

omit [LinearOrder Time] [LinearOrder Id] in
theorem countSame (project : Option String) (includePrivate : Bool) :
    pgCount postgres project includePrivate table = sqliteCount project includePrivate table ↔
      (table.filter (fun row => pgCounts postgres project includePrivate row && !counts project includePrivate row)).length =
        (table.filter (fun row => counts project includePrivate row && !pgCounts postgres project includePrivate row)).length := by
  have here := countSplit table (counts project includePrivate) (pgCounts postgres project includePrivate)
  have there := countSplit table (pgCounts postgres project includePrivate) (counts project includePrivate)
  have shared : both (pgCounts postgres project includePrivate) (counts project includePrivate) =
      both (counts project includePrivate) (pgCounts postgres project includePrivate) := funext fun _ => Bool.and_comm _ _
  rw [shared] at there
  rw [sqliteCountKeeps, show pgCount postgres project includePrivate table =
    (table.filter (pgCounts postgres project includePrivate)).length from rfl, here, there]
  omega
end

section
variable {table : List ObservationRow} {filter : FindObservationsFilter} {now : String}

-- Whatever the default filter leaves out asks nothing of a row; the project it does, if it is not "".
theorem defaultGeneric (default : isDefaultFindManyFilter filter = true) (row : ObservationRow) :
    sqliteWhere filter now row = (equals filter.project row.project && untagged row && unexpired now row) := by
  simp only [isDefaultFindManyFilter, Bool.and_eq_true, Bool.not_eq_true', Option.isNone_iff_eq_none] at default
  obtain ⟨⟨⟨⟨⟨⟨⟨⟨⟨⟨⟨-, -⟩, shared⟩, expired⟩, session⟩, since⟩, till⟩, types⟩, thread⟩, topic⟩, branch⟩, cursor⟩ := default
  simp [sqliteWhere, equals, names, typeIn, branchIs, shared, expired, session, since, till, types, thread, topic, branch, cursor]

variable (now) in
theorem keepsGeneric (named : filter.project ≠ some "") : sqliteKeeps filter now = sqliteWhere filter now := by
  funext row
  unfold sqliteKeeps
  by_cases default : isDefaultFindManyFilter filter = true
  · have project : filter.project.isSome = true := by
      simp only [isDefaultFindManyFilter, Bool.and_eq_true] at default
      exact default.1.1.1.1.1.1.1.1.1.1.1
    obtain ⟨wanted, is⟩ := Option.isSome_iff_exists.mp project
    have some : wanted ≠ "" := fun empty => named (empty ▸ is)
    rw [if_pos default, defaultGeneric default]
    simp [defaultWhere, equals, truthy, is, some]
  · rw [if_neg default]

-- A prepared query for the project "" shows no other project's rows; the built one does, unless they
-- come after a full page.
def PathsMeet (filter : FindObservationsFilter) (now : String) (table : List ObservationRow) : Prop :=
  isDefaultFindManyFilter filter = true → filter.project = some "" → ∀ limit, limitRows filter.limit = some limit →
    ∀ row ∈ table, row.project ≠ "" → sqliteWhere filter now row = true → Late place (defaultWhere "" now) limit table row

theorem pathsMeet (distinct : (table.map ObservationRow.id).Nodup) :
    sqliteFindMany filter now table = findGeneric filter now table ↔ PathsMeet filter now table := by
  by_cases named : filter.project = some ""
  · by_cases default : isDefaultFindManyFilter filter = true
    · have narrow : both (defaultWhere "" now) (sqliteWhere filter now) = defaultWhere "" now := funext fun row => by
        rw [both, defaultGeneric default]
        simp only [defaultWhere, equals, truthy, named]
        cases decide (row.project = "") <;> simp
      have pages : ∀ limit, shown place (defaultWhere "" now) limit table = shown place (sqliteWhere filter now) limit table ↔
          ∀ row ∈ table, row.project ≠ "" → sqliteWhere filter now row = true → Late place (defaultWhere "" now) limit table row := by
        intro limit
        rw [shownSame (placeDistinct distinct) (placeDistinct distinct)]
        constructor
        · intro alike row mem other keeps
          exact narrow ▸ alike.there row mem keeps (by simp [defaultWhere, other])
        · intro late
          refine ⟨fun row _ holds out => ?_, fun row mem keeps out => ?_, fun _ _ _ _ _ _ _ => Iff.rfl⟩
          · have kept := congrFun narrow row
            rw [both, holds, out] at kept
            cases kept
          · rw [narrow]
            refine late row mem (fun same => ?_) keeps
            rw [defaultGeneric default, named] at keeps
            rw [defaultWhere, same] at out
            simp only [equals, truthy, Option.filter_some, ne_eq, not_true_eq_false, decide_false, Bool.false_eq_true,
              if_false, Option.all_none, Bool.true_and, decide_true] at keeps out
            rw [keeps] at out
            cases out
      simp only [sqliteFindMany, default, if_true, findDefault, findGeneric, PathsMeet, named, Option.getD_some, forall_const]
      cases limits : limitRows filter.limit with
      | none => simp
      | some limit => simpa using pages limit
    · simp [sqliteFindMany, PathsMeet, default]
  · have keeps := keepsGeneric now named
    simp only [sqliteFindShown, findGeneric, keeps, PathsMeet, named, false_implies, implies_true]

end

section
variable {Time Id : Type} [LinearOrder Time] [LinearOrder Id] (postgres : Postgres Time Id)

-- Every time that the query compares.
def texts (filter : FindObservationsFilter) (now : String) (table : List ObservationRow) : List String :=
  bound filter now ++ table.flatMap (fun row => row.createdAt :: row.expiresAt.toList)

-- Times written alike, ids in the order of their texts, and no tag but `private` with the word in it.
structure Plain (filter : FindObservationsFilter) (now : String) (table : List ObservationRow) : Prop where
  project : filter.project ≠ some ""
  scope : truthy filter.threadId = none ∧ truthy filter.topic = none
  times : ∀ a ∈ texts filter now table, (postgres.instant a).isSome = true ∧
    ∀ b ∈ texts filter now table, (time postgres a ≤ time postgres b ↔ a ≤ b)
  ids : ∀ a ∈ table, ∀ b ∈ table, postgres.collate a.id ≤ postgres.collate b.id ↔ a.id ≤ b.id
  tags : ∀ row ∈ table, untagged row = !tagged postgres row

variable {postgres} {table : List ObservationRow} {filter : FindObservationsFilter} {now : String}

theorem allSame {given : Option String} {p q : String → Bool} (same : ∀ text, given = some text → p text = q text) :
    given.all p = given.all q := by
  cases given with
  | none => rfl
  | some text => exact same text rfl

theorem namesNone {given value : Option String} (absent : truthy given = none) : names given value = true := by
  rw [names, absent]
  rfl

theorem plainKeeps (plain : Plain postgres filter now table) {row : ObservationRow} (mem : row ∈ table) :
    sqliteKeeps filter now row = pgWhere postgres filter now row := by
  have param : ∀ {text}, text ∈ bound filter now → text ∈ texts filter now table := List.mem_append_left _
  have column : ∀ {text}, text ∈ row.createdAt :: row.expiresAt.toList → text ∈ texts filter now table := fun is =>
    List.mem_append_right _ (List.mem_flatMap.mpr ⟨row, mem, is⟩)
  have created := column List.mem_cons_self
  have le : ∀ {a b}, a ∈ texts filter now table → b ∈ texts filter now table →
      decide (a ≤ b) = decide (time postgres a ≤ time postgres b) := fun inA inB =>
    decide_eq_decide.mpr ((plain.times _ inA).2 _ inB).symm
  have lt : ∀ {a b}, a ∈ texts filter now table → b ∈ texts filter now table →
      decide (a < b) = decide (time postgres a < time postgres b) := fun inA inB =>
    decide_eq_decide.mpr (by rw [← not_le, ← not_le, (plain.times _ inB).2 _ inA])
  have since : (truthy filter.since).all (fun since => since ≤ row.createdAt) =
      (truthy filter.since).all (fun since => time postgres since ≤ time postgres row.createdAt) :=
    allSame fun text is => le (param (by simp [bound, is])) created
  have till : (truthy filter.till).all (fun till => row.createdAt ≤ till) =
      (truthy filter.till).all (fun till => time postgres row.createdAt ≤ time postgres till) :=
    allSame fun text is => le created (param (by simp [bound, is]))
  have cursor : (truthy filter.cursor).all (fun cursor => row.createdAt < cursor) =
      (truthy filter.cursor).all (fun cursor => time postgres row.createdAt < time postgres cursor) :=
    allSame fun text is => lt created (param (by simp [bound, is]))
  have expired : (filter.includeExpired || unexpired now row) =
      (filter.includeExpired || row.expiresAt.all (fun expires => time postgres now < time postgres expires)) := by
    cases included : filter.includeExpired with
    | true => rfl
    | false => exact allSame fun text is => lt (param (by simp [bound, included])) (column (by simp [is]))
  rw [keepsGeneric now plain.project, sqliteWhere, pgWhere, since, till, cursor, expired, plain.tags row mem,
    namesNone plain.scope.1, namesNone plain.scope.2, Bool.and_true, Bool.and_true]

theorem plainMeets (plain : Plain postgres filter now table) : Meets postgres filter now table := by
  intro limit _
  refine ⟨List.all_eq_true.mpr fun text mem => (plain.times text (List.mem_append_left _ mem)).1,
    fun row mem holds out => ?_, fun row mem holds out => ?_, fun row mem _ _ other also _ => ?_⟩
  · rw [plainKeeps plain mem, out] at holds
    cases holds
  · rw [← plainKeeps plain mem, out] at holds
    cases holds
  · have created : ∀ row ∈ table, row.createdAt ∈ texts filter now table := fun row mem =>
      List.mem_append_right _ (List.mem_flatMap.mpr ⟨row, mem, List.mem_cons_self⟩)
    have here := (plain.times _ (created other also)).2 _ (created row mem)
    have back := (plain.times _ (created row mem)).2 _ (created other also)
    rw [place, place, pgPlace, pgPlace, Prod.Lex.toLex_lt_toLex, Prod.Lex.toLex_lt_toLex]
    simp only [lt_iff_le_not_ge, le_antisymm_iff, here, back, plain.ids row mem other also, plain.ids other also row mem]

variable (postgres)

-- What the two find is the same exactly if the filter and the rows meet; they count the same exactly if
-- each counts as many rows that the other leaves out; and the prepared query and the built one show the
-- same exactly if their paths meet.
theorem repositoriesAgree {inputs : List InsertObservationInput} {table : List ObservationRow}
    (inserted : pgTable postgres inputs = some table) (filter : FindObservationsFilter) (now : String)
    (project : Option String) (includePrivate : Bool) :
    ((pgFindMany postgres filter now table).map (List.map ObservationRow.id) =
      (sqliteFindMany filter now (sqliteTable inputs)).map (List.map ObservationRow.id) ↔ Meets postgres filter now table) ∧
    (pgCount postgres project includePrivate table = sqliteCount project includePrivate (sqliteTable inputs) ↔
      (table.filter (fun row => pgCounts postgres project includePrivate row && !counts project includePrivate row)).length =
        (table.filter (fun row => counts project includePrivate row && !pgCounts postgres project includePrivate row)).length) ∧
    (sqliteFindMany filter now (sqliteTable inputs) = findGeneric filter now (sqliteTable inputs) ↔
      PathsMeet filter now table) := by
  have same : table = sqliteTable inputs := by
    unfold pgTable at inserted
    split at inserted
    · exact (Option.some.inj inserted).symm
    · cases inserted
  subst same
  exact ⟨sameRows postgres tableDistinct, countSame postgres project includePrivate, pathsMeet tableDistinct⟩

end

-- Times in the form of `toISOString` and no tags or one, ids in the order of their bytes.
def isoPostgres : Postgres String String where
  instant text := if text.length = 24 then some text else none
  jsonb text :=
    if text = "[]" then some (.arr [])
    else if text = "[\"private\"]" then some (.arr [.str "private"])
    else if text = "[\"privateer\"]" then some (.arr [.str "privateer"])
    else none
  collate := id
  apart := Function.injective_id

def noted (id tags thread : String) : InsertObservationInput :=
  ⟨id, "crew", "s1", tags, none, some thread, none, none, none, "2026-01-01T00:00:00.000Z"⟩
def everything : FindObservationsFilter :=
  ⟨none, none, false, none, none, none, none, none, none, none, false, none⟩
def noon : String := "2026-01-02T12:00:00.000Z"

theorem untaggedMeet : Meets isoPostgres everything noon (sqliteTable [noted "a" "[]" "t1", noted "b" "[\"private\"]" "t2"]) := by
  have inserted : pgTable isoPostgres [noted "a" "[]" "t1", noted "b" "[\"private\"]" "t2"] =
      some (sqliteTable [noted "a" "[]" "t1", noted "b" "[\"private\"]" "t2"]) := by decide
  exact (repositoriesAgree isoPostgres inserted everything noon none false).1.mp (by decide)

-- A thread, a tag with the word `private` in it, and the project "".
theorem repositoriesPart :
    (pgFindMany isoPostgres {everything with threadId := some "t1"} noon (sqliteTable [noted "a" "[]" "t1", noted "b" "[]" "t2"])).map
      (List.map ObservationRow.id) = some ["b", "a"] ∧
    (sqliteFindMany {everything with threadId := some "t1"} noon (sqliteTable [noted "a" "[]" "t1", noted "b" "[]" "t2"])).map
      (List.map ObservationRow.id) = some ["a"] ∧
    pgCount isoPostgres none false (sqliteTable [noted "a" "[\"privateer\"]" "t1"]) = 1 ∧
    sqliteCount none false (sqliteTable [noted "a" "[\"privateer\"]" "t1"]) = 0 ∧
    (sqliteFindMany {everything with project := some "", limit := some (.fin 10)} noon (sqliteTable [noted "a" "[]" "t1"])).map
      (List.map ObservationRow.id) = some [] ∧
    (findGeneric {everything with project := some "", limit := some (.fin 10)} noon (sqliteTable [noted "a" "[]" "t1"])).map
      (List.map ObservationRow.id) = some ["a"] := by
  decide

end HarnessMem.ObservationRepositories
