import HarnessMem.Lib.CursorWalk
import HarnessMem.ObservationRepositories

/-! Reading all observations that match a filter with `findMany`, each page after the `created_at`
of the last row before it. -/
namespace HarnessMem.ObservationRepositories
open Js Recorder Visibility Pages Keyset CursorWalk

def nextCursor (row : ObservationRow) : Option String := some row.createdAt

-- The pages end, and every matching row was on one of them once.
def Complete (page : Nat → Option String → Option (List ObservationRow)) (cursor : Option String)
    (matching : List ObservationRow) : Prop :=
  ∃ fuel visited, walk page nextCursor fuel 0 cursor = some visited ∧ visited.Perm matching

section
variable (filter : FindObservationsFilter) (nows : Nat → String) (table : List ObservationRow)

def sqlitePage (call : Nat) (cursor : Option String) : Option (List ObservationRow) :=
  sqliteFindMany {filter with cursor} (nows call) table

def sqliteMatching : List ObservationRow := table.filter (sqliteWhere filter (nows 0))

-- No row expires between two calls, so that the filter matches the same rows at each.
def Steady : Prop := ∀ call, ∀ row ∈ table,
  (filter.includeExpired || unexpired (nows call) row) = (filter.includeExpired || unexpired (nows 0) row)

-- A row without a time makes a cursor that the next query leaves out.
def Restartless : Prop := (∃ row ∈ sqliteMatching filter nows table, row.createdAt = "") →
  ∀ row ∈ table, sqliteKeeps {filter with cursor := some ""} (nows 0) row = false

def places : List ObservationRow := ranked place (sqliteMatching filter nows table)

-- The rows of the first query come first, and the time falls at every page boundary.
structure SqlitePaged (size : Nat) : Prop where
  restartless : Restartless filter nows table
  leading : Leading (sqliteKeeps filter (nows 0)) size (places filter nows table)
  breaks : Breaks ObservationRow.createdAt ObservationRow.createdAt
    (min size ((places filter nows table).filter (sqliteKeeps filter (nows 0))).length) size (places filter nows table)

variable {filter nows table}

theorem sizePositive {number : Option Number} {size : Nat} (limit : limitRows number = some (some size)) : 0 < size := by
  unfold limitRows at limit
  split at limit
  · cases limit
  · rename_i number
    split at limit
    · cases limit
    · rename_i positive
      split at limit
      · rename_i value
        split at limit
        · obtain rfl := Option.some.inj (Option.some.inj limit)
          have above : 0 < value := by simpa [Number.positive] using positive
          have := Rat.num_pos.mpr above
          omega
        · cases limit
      · cases limit

theorem keepsWithin {row : ObservationRow} {now : String} (keeps : sqliteKeeps filter now row = true) :
    sqliteWhere filter now row = true := by
  unfold sqliteKeeps at keeps
  split at keeps
  · rename_i default
    simp only [defaultWhere, Bool.and_eq_true, decide_eq_true_eq] at keeps
    obtain ⟨⟨project, shared⟩, alive⟩ := keeps
    rw [defaultGeneric default, shared, alive, Bool.and_true, Bool.and_true, equals]
    cases given : filter.project with
    | none => rfl
    | some wanted =>
      rw [given, Option.getD_some] at project
      by_cases empty : wanted = "" <;> simp [truthy, empty, project]
  · exact keeps

theorem timedGeneric {cursor : String} (timed : cursor ≠ "") : isDefaultFindManyFilter {filter with cursor := some cursor} = false := by
  have given : (truthy (some cursor)).isNone = false := by simp [truthy, timed]
  simp only [isDefaultFindManyFilter, given, Bool.and_false]

theorem cursorWhere (steady : Steady filter nows table) {call : Nat} {last row : ObservationRow} (mem : row ∈ table)
    (matched : sqliteWhere filter (nows 0) last = true) (timed : last.createdAt ≠ "") :
    sqliteKeeps {filter with cursor := some last.createdAt} (nows call) row =
      (under ObservationRow.createdAt last.createdAt row && sqliteWhere filter (nows 0) row) := by
  have alive := steady call row mem
  have given : truthy (some last.createdAt) = some last.createdAt := by simp [truthy, timed]
  have before : (truthy filter.cursor).all (fun cursor => last.createdAt < cursor) = true := by
    simp only [sqliteWhere, Bool.and_eq_true] at matched
    exact matched.2
  have lower : under ObservationRow.createdAt last.createdAt row = true →
      (truthy filter.cursor).all (fun cursor => row.createdAt < cursor) = true := by
    intro below
    cases cursor : truthy filter.cursor with
    | none => rfl
    | some bound =>
      rw [cursor] at before
      exact decide_eq_true ((of_decide_eq_true below).trans (of_decide_eq_true before))
  rw [sqliteKeeps, timedGeneric timed, if_neg Bool.false_ne_true, sqliteWhere, sqliteWhere, given, alive]
  change (_ && under ObservationRow.createdAt last.createdAt row) = _
  cases below : under ObservationRow.createdAt last.createdAt row with
  | false => rw [Bool.and_false, Bool.false_and]
  | true => simp only [lower below, Bool.and_true, Bool.true_and]


theorem blankLeast {text : String} : ¬ text < "" := by
  rw [String.lt_iff_toList_lt]
  exact List.not_lt_nil _

theorem placesSinking (distinct : (table.map ObservationRow.id).Nodup) :
    Sinking ObservationRow.createdAt (places filter nows table) := by
  have order := rankedDescending (keptKeyed (sqliteWhere filter (nows 0)) (placeDistinct distinct))
  refine order.imp fun below => ?_
  rw [place, place, Prod.Lex.toLex_lt_toLex] at below
  rcases below with earlier | ⟨same, -⟩
  · exact earlier.le
  · exact same.le

theorem placesMatch {row : ObservationRow} : row ∈ places filter nows table ↔ row ∈ sqliteMatching filter nows table := memRanked

theorem permPlaces (visited : List ObservationRow) (sub : visited.Sublist (places filter nows table)) :
    visited.Perm (sqliteMatching filter nows table) ↔ visited = places filter nows table := by
  have permuted : (places filter nows table).Perm (sqliteMatching filter nows table) := List.perm_insertionSort _ _
  constructor
  · exact fun all => sub.eq_of_length_le (permuted.length_eq.trans all.length_eq.symm).le
  · rintro rfl
    exact permuted

theorem sqlitePageShown {size : Nat} (limit : limitRows filter.limit = some (some size)) (call : Nat) (cursor : Option String) :
    sqlitePage filter nows table call cursor =
      some (shown place (sqliteKeeps {filter with cursor} (nows call)) (some size) table) := by
  have same : limitRows ({filter with cursor} : FindObservationsFilter).limit = some (some size) := limit
  rw [sqlitePage, sqliteFindShown, same]
  rfl

theorem firstPage {size : Nat} (distinct : (table.map ObservationRow.id).Nodup) (limit : limitRows filter.limit = some (some size)) :
    sqlitePage filter nows table 0 filter.cursor =
      some (((places filter nows table).filter (sqliteKeeps filter (nows 0))).take size) := by
  rw [sqlitePageShown limit]
  refine congrArg some (shownAlso (placeDistinct distinct) size fun row _ => ?_)
  cases keeps : sqliteKeeps filter (nows 0) row with
  | false => rfl
  | true => rw [keepsWithin keeps]; rfl

theorem laterPage {size : Nat} (steady : Steady filter nows table) (distinct : (table.map ObservationRow.id).Nodup)
    (limit : limitRows filter.limit = some (some size)) {last : ObservationRow} (mem : last ∈ places filter nows table)
    (timed : last.createdAt ≠ "") (call : Nat) : sqlitePage filter nows table call (nextCursor last) =
      some (((places filter nows table).filter (under ObservationRow.createdAt last.createdAt)).take size) := by
  rw [sqlitePageShown limit]
  refine congrArg some (shownAlso (placeDistinct distinct) size fun row held => ?_)
  exact cursorWhere steady held (List.mem_filter.mp (placesMatch.mp mem)).2 timed

theorem restartKeeps (steady : Steady filter nows table) {row : ObservationRow} (mem : row ∈ table) (call : Nat) :
    sqliteKeeps {filter with cursor := some ""} (nows call) row = sqliteKeeps {filter with cursor := some ""} (nows 0) row := by
  have alive := steady call row mem
  unfold sqliteKeeps
  split
  · rename_i default
    have expiring : filter.includeExpired = false := by
      simp only [isDefaultFindManyFilter, Bool.and_eq_true, Bool.not_eq_true'] at default
      exact default.1.1.1.1.1.1.1.1.2
    rw [expiring, Bool.false_or, Bool.false_or] at alive
    rw [defaultWhere, defaultWhere, alive]
  · rw [sqliteWhere, sqliteWhere]
    simp only [alive]


theorem shownNone {size : Nat} (full : 0 < size) {keep : ObservationRow → Bool} :
    shown place keep (some size) table = [] ↔ ∀ row ∈ table, keep row = false := by
  rw [shown, first, List.take_eq_nil_iff, or_iff_right full.ne', ← List.length_eq_zero_iff, ranked,
    List.length_insertionSort, List.length_eq_zero_iff, List.filter_eq_nil_iff]
  simp only [Bool.not_eq_true]

theorem blankKept (steady : Steady filter nows table) {row : ObservationRow} (mem : row ∈ sqliteMatching filter nows table)
    (blank : row.createdAt = "") {cursor : String} (timed : cursor ≠ "") (call : Nat) :
    sqliteKeeps {filter with cursor := some cursor} (nows call) row = true := by
  obtain ⟨held, matched⟩ := List.mem_filter.mp mem
  have later : (truthy (some cursor)).all (fun cursor => row.createdAt < cursor) = true := by
    have above : "" < cursor := lt_of_le_of_ne (not_lt.mp blankLeast) (Ne.symm timed)
    have given : truthy (some cursor) = some cursor := by simp [truthy, timed]
    rw [given, Option.all_some, blank]
    exact decide_eq_true above
  rw [sqliteKeeps, timedGeneric timed, if_neg Bool.false_ne_true]
  simp only [sqliteWhere, Bool.and_eq_true, ← steady call row held] at matched ⊢
  exact ⟨matched.1, later⟩

-- A row without a time that the restarted query finds keeps every later page filled.
theorem restartEndless {size : Nat} (steady : Steady filter nows table) (limit : limitRows filter.limit = some (some size))
    (restarts : ¬ Restartless filter nows table) :
    ¬ Complete (sqlitePage filter nows table) filter.cursor (sqliteMatching filter nows table) := by
  simp only [Restartless, not_forall] at restarts
  obtain ⟨⟨row, mem, blank⟩, other, held, kept⟩ := restarts
  have filled : ∀ call last, sqlitePage filter nows table (call + 1) (nextCursor last) ≠ some [] := by
    intro call last empty
    rw [sqlitePageShown limit, Option.some.injEq, shownNone (sizePositive limit)] at empty
    by_cases timed : last.createdAt = ""
    · have none := empty other held
      rw [nextCursor, timed, restartKeeps steady held] at none
      exact kept none
    · have none := empty row (List.mem_filter.mp mem).1
      rw [nextCursor, blankKept steady mem blank timed] at none
      cases none
  rintro ⟨fuel, visited, ran, all⟩
  obtain rfl := walkEndless filled ran
  have gone : row ∈ ([] : List ObservationRow) := all.mem_iff.mpr mem
  cases gone

theorem pageAfter {size : Nat} (steady : Steady filter nows table) (distinct : (table.map ObservationRow.id).Nodup)
    (limit : limitRows filter.limit = some (some size)) (fresh : Restartless filter nows table) {last : ObservationRow}
    (mem : last ∈ places filter nows table) (call : Nat) : sqlitePage filter nows table call (nextCursor last) =
      some (((places filter nows table).filter (under ObservationRow.createdAt last.createdAt)).take size) := by
  by_cases timed : last.createdAt = ""
  · have none := fresh ⟨last, placesMatch.mp mem, timed⟩
    have nothing : (places filter nows table).filter (under ObservationRow.createdAt "") = [] :=
      List.filter_eq_nil_iff.mpr fun _ _ below => blankLeast (of_decide_eq_true below)
    rw [nextCursor, timed, nothing, List.take_nil, sqlitePageShown limit, Option.some.injEq, shownNone (sizePositive limit)]
    exact fun row held => (restartKeeps steady held call).trans (none row held)
  · exact laterPage steady distinct limit mem timed call

theorem limitAsked {number : Option Number} (positive : number.any Number.positive = true) : limitRows number ≠ some none := by
  intro limit
  cases number with
  | none => cases positive
  | some number =>
    rw [Option.any_some] at positive
    simp only [limitRows, positive, Bool.true_eq_false, if_false] at limit
    split at limit
    · split at limit <;> cases limit
    · cases limit

theorem sqliteComplete (distinct : (table.map ObservationRow.id).Nodup) (steady : Steady filter nows table)
    (positive : filter.limit.any Number.positive = true) :
    Complete (sqlitePage filter nows table) filter.cursor (sqliteMatching filter nows table) ↔
      ∃ size, limitRows filter.limit = some (some size) ∧ SqlitePaged filter nows table size := by
  cases limit : limitRows filter.limit with
  | none =>
    have fails : sqlitePage filter nows table 0 filter.cursor = none := by
      rw [sqlitePage, sqliteFindShown, limit]
      rfl
    refine iff_of_false ?_ (by simp)
    rintro ⟨fuel, visited, ran, -⟩
    rw [walkFails fails] at ran
    cases ran
  | some limit' =>
    cases limit' with
    | none => exact absurd limit (limitAsked positive)
    | some size =>
      simp only [Option.some.injEq, exists_eq_left']
      by_cases fresh : Restartless filter nows table
      · obtain ⟨fuel, visited, ran, sub, whole⟩ := walkWhole nextCursor (fun _ => le_refl _) (sizePositive limit)
          (placesSinking distinct) (firstPage distinct limit) (fun call _ mem => pageAfter steady distinct limit fresh mem (call + 1))
        have paged : SqlitePaged filter nows table size ↔ visited = places filter nows table :=
          ⟨fun paged => whole.mpr ⟨paged.leading, paged.breaks⟩, fun all => ⟨fresh, (whole.mp all).1, (whole.mp all).2⟩⟩
        rw [paged, ← permPlaces visited sub]
        constructor
        · rintro ⟨fuel', visited', ran', all⟩
          exact walkOnce ran ran' ▸ all
        · exact fun all => ⟨fuel, visited, ran, all⟩
      · exact iff_of_false (restartEndless steady limit fresh) (fun paged => fresh paged.restartless)

end

/-! PostgreSQL: the driver hands a time out as a text, and may cut digits off its end. -/

section
variable {Time Id : Type} [LinearOrder Time] [LinearOrder Id]

-- `toIsoString` of what the driver makes of a TIMESTAMPTZ.
structure Driver (postgres : Postgres Time Id) where
  toIsoString : Time → String
  reads : ∀ t, ∃ earlier, postgres.instant (toIsoString t) = some earlier ∧ earlier ≤ t
  filled : ∀ t, toIsoString t ≠ ""

variable {postgres : Postgres Time Id} (driver : Driver postgres)

def shownTime (text : String) : String := ((postgres.instant text).map driver.toIsoString).getD text
variable (postgres) in
def toJsonString (text : String) : String :=
  match postgres.jsonb text with
  | some (.str value) => value
  | some value => Json.stringify value
  | none => text

def normalizeRow (row : ObservationRow) : ObservationRow :=
  {row with
    privacyTagsJson := toJsonString postgres row.privacyTagsJson
    expiresAt := row.expiresAt.map (shownTime driver)
    createdAt := shownTime driver row.createdAt}

variable (filter : FindObservationsFilter) (nows : Nat → String) (table : List ObservationRow)

def pgPage (call : Nat) (cursor : Option String) : Option (List ObservationRow) :=
  (pgFindMany postgres {filter with cursor} (nows call) table).map (List.map (normalizeRow driver))

variable (postgres)
def pgMatching : List ObservationRow := table.filter (pgWhere postgres filter (nows 0))
def pgPlaces : List ObservationRow := ranked (pgPlace postgres) (pgMatching postgres filter nows table)

def pgAlive (now : String) (row : ObservationRow) : Bool :=
  filter.includeExpired || row.expiresAt.all (fun expires => time postgres now < time postgres expires)
def PgSteady : Prop := ∀ call, ∀ row ∈ table, pgAlive postgres filter (nows call) row = pgAlive postgres filter (nows 0) row

variable {postgres}
def pgMark (postgres : Postgres Time Id) (row : ObservationRow) : WithBot Time := time postgres row.createdAt
def pgCut (row : ObservationRow) : WithBot Time := time postgres (shownTime driver row.createdAt)

omit [LinearOrder Id] in
theorem cutLow (row : ObservationRow) : pgCut driver row ≤ pgMark postgres row := by
  unfold pgCut pgMark time shownTime
  cases read : postgres.instant row.createdAt with
  | none =>
    rw [Option.map_none, Option.getD_none, read]
    exact le_refl (⊥ : WithBot Time)
  | some t =>
    obtain ⟨earlier, reads, below⟩ := driver.reads t
    rw [Option.map_some, Option.getD_some, reads]
    exact WithBot.coe_le_coe.mpr below

variable {filter nows table}

theorem pgPlacesSinking (distinct : (table.map ObservationRow.id).Nodup) :
    Sinking (pgMark postgres) (pgPlaces postgres filter nows table) := by
  have order := rankedDescending (keptKeyed (pgWhere postgres filter (nows 0)) (pgPlaceDistinct postgres distinct))
  refine order.imp fun below => ?_
  rw [pgPlace, pgPlace, Prod.Lex.toLex_lt_toLex] at below
  rcases below with earlier | ⟨same, -⟩
  · exact earlier.le
  · exact same.le

omit [LinearOrder Id] in
theorem shownReads (text : String) (read : (postgres.instant text).isSome = true) :
    (postgres.instant (shownTime driver text)).isSome = true ∧ shownTime driver text ≠ "" := by
  obtain ⟨t, is⟩ := Option.isSome_iff_exists.mp read
  obtain ⟨earlier, reads, -⟩ := driver.reads t
  simp only [shownTime, is, Option.map_some, Option.getD_some, reads, Option.isSome_some, true_and]
  exact driver.filled t

omit [LinearOrder Id] in
theorem pgCursorWhere (steady : PgSteady postgres filter nows table) {call : Nat} {last row : ObservationRow} (mem : row ∈ table)
    (matched : pgWhere postgres filter (nows 0) last = true) (timed : shownTime driver last.createdAt ≠ "") :
    pgWhere postgres {filter with cursor := some (shownTime driver last.createdAt)} (nows call) row =
      (under (pgMark postgres) (pgCut driver last) row && pgWhere postgres filter (nows 0) row) := by
  have alive := steady call row mem
  unfold pgAlive at alive
  have given : truthy (some (shownTime driver last.createdAt)) = some (shownTime driver last.createdAt) := by simp [truthy, timed]
  have before : (truthy filter.cursor).all (fun cursor => time postgres last.createdAt < time postgres cursor) = true := by
    simp only [pgWhere, Bool.and_eq_true] at matched
    exact matched.2
  have lower : under (pgMark postgres) (pgCut driver last) row = true →
      (truthy filter.cursor).all (fun cursor => time postgres row.createdAt < time postgres cursor) = true := by
    intro below
    cases cursor : truthy filter.cursor with
    | none => rfl
    | some bound =>
      rw [cursor] at before
      exact decide_eq_true (((of_decide_eq_true below).trans_le (cutLow driver last)).trans (of_decide_eq_true before))
  rw [pgWhere, pgWhere, given, alive]
  change (_ && under (pgMark postgres) (pgCut driver last) row) = _
  cases below : under (pgMark postgres) (pgCut driver last) row with
  | false => rw [Bool.and_false, Bool.false_and]
  | true => simp only [lower below, Bool.and_true, Bool.true_and]

def pgRaw (postgres : Postgres Time Id) (filter : FindObservationsFilter) (nows : Nat → String) (table : List ObservationRow)
    (call : Nat) (cursor : Option String) : Option (List ObservationRow) :=
  pgFindMany postgres {filter with cursor} (nows call) table

def rawCursor (row : ObservationRow) : Option String := some (shownTime driver row.createdAt)

theorem rawShown {size : Nat} (limit : limitRows filter.limit = some (some size)) {call : Nat} {cursor : Option String}
    (read : reads postgres {filter with cursor} (nows call) = true) : pgRaw postgres filter nows table call cursor =
      some (shown (pgPlace postgres) (pgWhere postgres {filter with cursor} (nows call)) (some size) table) := by
  have same : limitRows ({filter with cursor} : FindObservationsFilter).limit = some (some size) := limit
  rw [pgRaw, pgFindMany, if_pos read, same]
  rfl

omit [LinearOrder Time] [LinearOrder Id] in
theorem readsLater (read : reads postgres filter (nows 0) = true) (clock : ∀ call, (postgres.instant (nows call)).isSome = true)
    {cursor : String} (reads' : (postgres.instant cursor).isSome = true) (call : Nat) :
    reads postgres {filter with cursor := some cursor} (nows call) = true := by
  simp only [reads, bound, List.all_append, Bool.and_eq_true] at read ⊢
  refine ⟨⟨read.1.1, ?_⟩, ?_⟩
  · cases filter.includeExpired with
    | true => rfl
    | false => simp [clock call]
  · refine List.all_eq_true.mpr fun text mem => ?_
    have is := Option.mem_toList.mp mem
    rw [← Option.some.inj (Option.filter_eq_some_iff.mp is).1]
    exact reads'

theorem rawAfter {size : Nat} (steady : PgSteady postgres filter nows table) (distinct : (table.map ObservationRow.id).Nodup)
    (limit : limitRows filter.limit = some (some size)) (read : reads postgres filter (nows 0) = true)
    (clock : ∀ call, (postgres.instant (nows call)).isSome = true)
    (stored : ∀ row ∈ table, (postgres.instant row.createdAt).isSome = true) {last : ObservationRow}
    (mem : last ∈ pgPlaces postgres filter nows table) (call : Nat) : pgRaw postgres filter nows table call (rawCursor driver last) =
      some (((pgPlaces postgres filter nows table).filter (under (pgMark postgres) (pgCut driver last))).take size) := by
  obtain ⟨held, matched⟩ := List.mem_filter.mp (memRanked.mp mem)
  obtain ⟨again, timed⟩ := shownReads driver last.createdAt (stored last held)
  rw [rawCursor, rawShown limit (readsLater read clock again call)]
  refine congrArg some (shownAlso (pgPlaceDistinct postgres distinct) size fun row here => ?_)
  exact pgCursorWhere driver steady here matched timed

theorem rawFirst {size : Nat} (limit : limitRows filter.limit = some (some size)) (read : reads postgres filter (nows 0) = true) :
    pgRaw postgres filter nows table 0 filter.cursor = some ((pgPlaces postgres filter nows table).take size) := by
  rw [rawShown limit read]
  rfl

theorem pgComplete (distinct : (table.map ObservationRow.id).Nodup) (steady : PgSteady postgres filter nows table)
    (clock : ∀ call, (postgres.instant (nows call)).isSome = true)
    (stored : ∀ row ∈ table, (postgres.instant row.createdAt).isSome = true)
    (positive : filter.limit.any Number.positive = true) :
    Complete (pgPage driver filter nows table) filter.cursor ((pgMatching postgres filter nows table).map (normalizeRow driver)) ↔
      reads postgres filter (nows 0) = true ∧ ∃ size, limitRows filter.limit = some (some size) ∧
        Breaks (pgMark postgres) (pgCut driver) size size (pgPlaces postgres filter nows table) := by
  have walked : ∀ fuel, walk (pgPage driver filter nows table) nextCursor fuel 0 filter.cursor =
      (walk (pgRaw postgres filter nows table) (rawCursor driver) fuel 0 filter.cursor).map (List.map (normalizeRow driver)) :=
    fun fuel => walkMap (normalizeRow driver) (pgRaw postgres filter nows table) nextCursor fuel 0 filter.cursor
  simp only [Complete, walked]
  by_cases ready : reads postgres filter (nows 0) = true ∧ ∃ size, limitRows filter.limit = some (some size)
  · obtain ⟨read, size, limit⟩ := ready
    obtain ⟨fuel, visited, ran, sub, whole⟩ := walkRest (rawCursor driver) (cutLow driver) (sizePositive limit)
      (pgPlacesSinking distinct) (rawFirst limit read)
      (fun call _ mem => rawAfter driver steady distinct limit read clock stored mem (call + 1))
    simp only [read, limit, Option.some.injEq, exists_eq_left', true_and]
    rw [← whole]
    have permuted : (pgPlaces postgres filter nows table).Perm (pgMatching postgres filter nows table) := List.perm_insertionSort _ _
    constructor
    · rintro ⟨fuel', visited', ran', all⟩
      obtain ⟨raw, ran'', rfl⟩ := Option.map_eq_some_iff.mp ran'
      rw [walkOnce ran'' ran] at all
      have sizes := all.length_eq
      rw [List.length_map, List.length_map] at sizes
      exact sub.eq_of_length_le (permuted.length_eq.trans sizes.symm).le
    · rintro rfl
      exact ⟨fuel, _, by rw [ran, Option.map_some], permuted.map _⟩
  · have fails : pgRaw postgres filter nows table 0 filter.cursor = none := by
      rw [pgRaw, pgFindMany]
      by_cases read : reads postgres filter (nows 0) = true
      · rw [if_pos read]
        cases limit : limitRows filter.limit with
        | none => rfl
        | some limit' =>
          cases limit' with
          | none => exact absurd limit (limitAsked positive)
          | some size => exact absurd ⟨read, size, limit⟩ ready
      · exact if_neg read
    refine iff_of_false ?_ ?_
    · rintro ⟨fuel, visited, ran, -⟩
      rw [walkFails fails] at ran
      cases ran
    · rintro ⟨read, size, limit, -⟩
      exact ready ⟨read, size, limit⟩

omit [LinearOrder Time] [LinearOrder Id] in
theorem storedReads {inputs : List InsertObservationInput} (inserted : pgTable postgres inputs = some table) :
    table = sqliteTable inputs ∧ ∀ row ∈ table, (postgres.instant row.createdAt).isSome = true := by
  unfold pgTable at inserted
  split at inserted
  · rename_i all
    obtain rfl := Option.some.inj inserted
    refine ⟨rfl, fun row mem => ?_⟩
    have made : ∀ start : List ObservationRow, ∀ row ∈ inputs.foldl insertRow start,
        row ∈ start ∨ ∃ input ∈ inputs, row = rowOf input := by
      clear inserted all mem
      induction inputs with
      | nil => exact fun _ _ mem => .inl mem
      | cons input rest ih =>
        intro start row mem
        rcases ih (insertRow start input) row mem with old | ⟨other, given, is⟩
        · unfold insertRow at old
          split at old
          · exact .inl old
          · rcases List.mem_append.mp old with old | new
            · exact .inl old
            · exact .inr ⟨input, List.mem_cons_self, List.mem_singleton.mp new⟩
        · exact .inr ⟨other, List.mem_cons_of_mem _ given, is⟩
    obtain ⟨input, given, rfl⟩ := (made [] row mem).resolve_left List.not_mem_nil
    have read := List.all_eq_true.mp all input given
    simp only [readable, Bool.and_eq_true] at read
    exact read.1.2
  · cases inserted

-- `findMany` reads every matching row once exactly if, in its order, the time falls at every page
-- boundary; the rows that the first query shows come first, and the databases take the filter.
theorem findManyPages (driver : Driver postgres) (inputs : List InsertObservationInput) (filter : FindObservationsFilter)
    (nows : Nat → String) (positive : filter.limit.any Number.positive = true) :
    (Steady filter nows (sqliteTable inputs) →
      (Complete (sqlitePage filter nows (sqliteTable inputs)) filter.cursor (sqliteMatching filter nows (sqliteTable inputs)) ↔
        ∃ size, limitRows filter.limit = some (some size) ∧ SqlitePaged filter nows (sqliteTable inputs) size)) ∧
    ∀ table, pgTable postgres inputs = some table → PgSteady postgres filter nows table →
      (∀ call, (postgres.instant (nows call)).isSome = true) →
      (Complete (pgPage driver filter nows table) filter.cursor ((pgMatching postgres filter nows table).map (normalizeRow driver)) ↔
        reads postgres filter (nows 0) = true ∧ ∃ size, limitRows filter.limit = some (some size) ∧
          Breaks (pgMark postgres) (pgCut driver) size size (pgPlaces postgres filter nows table)) := by
  refine ⟨fun steady => sqliteComplete tableDistinct steady positive, fun table inserted steady clock => ?_⟩
  obtain ⟨rfl, stored⟩ := storedReads inserted
  exact pgComplete driver tableDistinct steady clock stored positive

end

-- Times of the length that `toISOString` writes.
def isoTimes : Postgres {text : String // text.length = 24} String where
  instant text := if long : text.length = 24 then some ⟨text, long⟩ else none
  jsonb := isoPostgres.jsonb
  collate := id
  apart := Function.injective_id

def isoDriver : Driver isoTimes where
  toIsoString := Subtype.val
  reads t := ⟨t, dif_pos t.property, le_refl t⟩
  filled t := fun empty => by
    have long := t.property
    rw [empty] at long
    exact absurd long (by decide)

def writtenAt (id createdAt : String) : InsertObservationInput := {noted id "[]" "t1" with createdAt}
def oneByOne : FindObservationsFilter := {everything with limit := some (.fin 1)}
def twoTimes : List InsertObservationInput :=
  [writtenAt "a" "2026-01-01T00:00:00.000Z", writtenAt "b" "2026-01-01T00:00:01.000Z"]

theorem twoTimesRead :
    (∃ size, limitRows oneByOne.limit = some (some size) ∧ SqlitePaged oneByOne (fun _ => noon) (sqliteTable twoTimes) size) ∧
    (∃ size, limitRows oneByOne.limit = some (some size) ∧
      Breaks (pgMark isoTimes) (pgCut isoDriver) size size (pgPlaces isoTimes oneByOne (fun _ => noon) (sqliteTable twoTimes))) := by
  have read := findManyPages isoDriver twoTimes oneByOne (fun _ => noon) (by decide)
  refine ⟨(read.1 fun _ _ _ => rfl).mp ⟨3, (sqliteTable twoTimes).reverse, by decide, by decide⟩, ?_⟩
  refine ((read.2 (sqliteTable twoTimes) (by decide) (fun _ _ _ => rfl) (fun _ => by decide)).mp ?_).2
  exact ⟨3, ((sqliteTable twoTimes).map (normalizeRow isoDriver)).reverse, by decide, by decide⟩

-- Two rows of one time on two pages: the second one is never read.
theorem tiedRowSkipped :
    ¬ Complete (sqlitePage oneByOne (fun _ => noon) (sqliteTable [noted "a" "[]" "t1", noted "b" "[]" "t2"])) oneByOne.cursor
      (sqliteMatching oneByOne (fun _ => noon) (sqliteTable [noted "a" "[]" "t1", noted "b" "[]" "t2"])) ∧
    ¬ Complete (pgPage isoDriver oneByOne (fun _ => noon) (sqliteTable [noted "a" "[]" "t1", noted "b" "[]" "t2"])) oneByOne.cursor
      ((pgMatching isoTimes oneByOne (fun _ => noon) (sqliteTable [noted "a" "[]" "t1", noted "b" "[]" "t2"])).map
        (normalizeRow isoDriver)) := by
  constructor
  · rintro ⟨fuel, visited, ran, all⟩
    have one : walk (sqlitePage oneByOne (fun _ => noon) (sqliteTable [noted "a" "[]" "t1", noted "b" "[]" "t2"])) nextCursor 2 0
        oneByOne.cursor = some [rowOf (noted "b" "[]" "t2")] := by decide
    rw [walkOnce ran one] at all
    exact absurd all.length_eq (by decide)
  · rintro ⟨fuel, visited, ran, all⟩
    have one : walk (pgPage isoDriver oneByOne (fun _ => noon) (sqliteTable [noted "a" "[]" "t1", noted "b" "[]" "t2"])) nextCursor 2 0
        oneByOne.cursor = some [normalizeRow isoDriver (rowOf (noted "b" "[]" "t2"))] := by decide
    rw [walkOnce ran one] at all
    exact absurd all.length_eq (by decide)

end HarnessMem.ObservationRepositories
