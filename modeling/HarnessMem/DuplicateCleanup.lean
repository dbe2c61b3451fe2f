import HarnessMem.Consolidation
import HarnessMem.Dedupe
import HarnessMem.Lib.LineStream
import HarnessMem.Lib.StableSort
import HarnessMem.SearchFilters
import Mathlib.Data.String.Basic

/-! `cleanupDuplicateObservations`: groups of live observations that say the same, and the copies of each
that a run archives. -/
namespace HarnessMem.DuplicateCleanup
open Js Text Recorder Visibility

structure Options where
  execute : Option Bool
  limit : Number

structure Item where
  groupKey : String
  keptId : String
  archivedIds : List String
  deriving DecidableEq

structure Response where
  items : List Item
  execute : Bool
  limit : Nat
  scanLimit : Nat
  scannedRows : Nat
  candidateRows : Nat
  archivedRows : Nat

-- The clock, whether the log can be written, and the orders the database and `localeCompare` give.
structure Moment where
  now : String
  audited : String
  logged : Bool
  scan : Tables.Scan Observation
  collate : String → String → Ordering

def Options.executes (options : Options) : Bool := options.execute = some true
def Options.most (options : Options) : Nat := Search.clampLimit options.limit 100 1 10000
def Options.scanLimit (options : Options) : Nat := min (options.most * 10) 10000

section
variable (host : Host)

-- A stored hash, or else session, type and normalised content in one text; nothing for an empty content.
def groupKey (row : Observation) : Option String :=
  let normalized := normalizeDedupeText host row.contentRedacted
  if normalized = "" then none
  else match truthy row.contentDedupeHash with
    | some hash => some ("hash:" ++ hash)
    | none => some ("legacy:" ++ row.sessionId ++ ":" ++ row.observationType ++ ":" ++ normalized)

def eligible (now : String) (row : Observation) : Bool := row.live && expiredFilter now row

def scanned (moment : Moment) (options : Options) (db : Db) : List Observation :=
  (Tables.orderBy (fun a b : Observation => b.createdAt ≤ a.createdAt)
    (moment.scan.arrange (db.observations.filter (eligible moment.now)))).take options.scanLimit

def groupOf (key : String) (rows : List Observation) : List Observation := rows.filter (fun row => groupKey host row = some key)
def groups (rows : List Observation) : List (String × List Observation) :=
  (rows.filterMap (groupKey host)).eraseDups.map (fun key => (key, groupOf host key rows))

-- Later `created_at` first, then the greater id.
def newerFirst (collate : String → String → Ordering) (a b : Observation) : Prop :=
  (collate b.createdAt a.createdAt).then (collate b.id a.id) ≠ .gt
instance (collate : String → String → Ordering) : DecidableRel (newerFirst collate) := fun _ _ => inferInstanceAs (Decidable (_ ≠ _))

def itemOf (collate : String → String → Ordering) (group : String × List Observation) : Option Item :=
  match Tables.orderBy (newerFirst collate) group.2 with
  | keep :: first :: rest => some ⟨group.1, keep.id, (first :: rest).map Observation.id⟩
  | _ => none

-- The loop ends with the item that reaches the limit.
def plan (moment : Moment) (options : Options) (db : Db) : List Item :=
  ((groups host (scanned moment options db)).filterMap (itemOf moment.collate)).take options.most

def auditRow (moment : Moment) (execute : Bool) (item : Item) : Audit :=
  ⟨if execute then "admin.cleanup_duplicates" else "admin.cleanup_duplicates.plan", "system", "observation_group",
    slice item.groupKey 0 255, Json.stringify (.obj [("dry_run", .bool (!execute)), ("kept_id", .str item.keptId),
      ("archived_ids", texts item.archivedIds)]), moment.audited, none⟩

def cleanupDuplicateObservations (moment : Moment) (options : Options) (db : Db) : Db × Response :=
  let items := plan host moment options db
  let candidates := (items.map (fun item => item.archivedIds.length)).sum
  let cleaned := if options.executes then items.foldl (fun db item => Dedupe.archive moment.now item.archivedIds db) db else db
  ({cleaned with auditLog := if moment.logged then db.auditLog ++ items.map (auditRow moment options.executes) else db.auditLog},
    ⟨items, options.executes, options.most, options.scanLimit, (scanned moment options db).length, candidates,
      if options.executes then candidates else 0⟩)

-- What tells two observations of one group apart from two of different ones.
def Alike (a b : Observation) : Prop :=
  truthy a.contentDedupeHash = truthy b.contentDedupeHash ∧ (truthy a.contentDedupeHash = none →
    a.sessionId = b.sessionId ∧ a.observationType = b.observationType ∧
      normalizeDedupeText host a.contentRedacted = normalizeDedupeText host b.contentRedacted)

-- No colon that could be one of the key's own.
def Plain (row : Observation) : Prop := ':' ∉ row.sessionId.toList ∧ ':' ∉ row.observationType.toList
end

def Listed (items : List Item) (id : String) : Prop := ∃ item ∈ items, id ∈ item.archivedIds

section
variable {host : Host} {moment : Moment} {options : Options} {db : Db}

theorem keyAlike {a b : Observation} {key : String} (first : groupKey host a = some key) (second : groupKey host b = some key)
    (plain : truthy a.contentDedupeHash = none → Plain a ∧ Plain b) : Alike host a b := by
  unfold groupKey at first second
  dsimp only at first second
  split at first
  · cases first
  · split at second
    · cases second
    · have same := first.trans second.symm
      cases mine : truthy a.contentDedupeHash with
      | some hash =>
        cases theirs : truthy b.contentDedupeHash with
        | some other =>
          simp only [mine, theirs, Option.some.injEq] at same
          have is : hash = other := by simpa using same
          exact ⟨by rw [mine, theirs, is], fun none => by rw [mine] at none; cases none⟩
        | none =>
          simp only [mine, theirs, Option.some.injEq] at same
          have chars := congrArg String.toList same
          simp at chars
      | none =>
        cases theirs : truthy b.contentDedupeHash with
        | some other =>
          simp only [mine, theirs, Option.some.injEq] at same
          have chars := congrArg String.toList same
          simp at chars
        | none =>
          simp only [mine, theirs, Option.some.injEq] at same
          have chars := congrArg String.toList same
          simp only [String.toList_append, List.append_assoc] at chars
          obtain ⟨⟨session, type⟩, session', type'⟩ := plain mine
          obtain ⟨sessions, rest⟩ := LineStream.fieldEnds ':' session session' (List.append_cancel_left chars)
          obtain ⟨types, contents⟩ := LineStream.fieldEnds ':' type type' rest
          refine ⟨mine.trans theirs.symm, fun _ => ⟨?_, ?_, ?_⟩⟩
          · exact String.toList_inj.mp sessions
          · exact String.toList_inj.mp types
          · exact String.toList_inj.mp contents

-- One item: the newest row of a group is kept and every other one of it is archived.
structure ItemSource (host : Host) (collate : String → String → Ordering) (rows : List Observation) (item : Item)
    (keep : Observation) : Prop where
  held : keep ∈ rows
  kept : item.keptId = keep.id
  key : groupKey host keep = some item.groupKey
  newest : ∀ row ∈ rows, groupKey host row = some item.groupKey → row = keep ∨ row.id ∈ item.archivedIds ∧ newerFirst collate keep row
  others : ∀ id ∈ item.archivedIds, ∃ row ∈ rows, row.id = id ∧ groupKey host row = some item.groupKey ∧ row ≠ keep

theorem newerFirstOrder (collate : String → String → Ordering) [Std.TransCmp collate] :
    (∀ a b, newerFirst collate a b ∨ newerFirst collate b a) ∧
      ∀ a b c, newerFirst collate a b → newerFirst collate b c → newerFirst collate a c := by
  have := StableSort.comparedBy collate Observation.createdAt
  have := StableSort.comparedBy collate Observation.id
  have lex : ∀ a b : Observation, newerFirst collate a b ↔ compareLex (fun a b : Observation => collate a.createdAt b.createdAt)
      (fun a b => collate a.id b.id) b a ≠ .gt := fun _ _ => Iff.rfl
  refine ⟨fun a b => ?_, fun a b c one two => ?_⟩
  · rw [lex, lex]
    exact StableSort.notAfterTotal _ _ _
  · rw [lex] at one two ⊢
    exact StableSort.notAfterTrans _ two one

theorem itemSource {collate : String → String → Ordering} [Std.TransCmp collate] {rows : List Observation} (once : rows.Nodup) {key : String}
    {item : Item} (found : itemOf collate (key, groupOf host key rows) = some item) :
    ∃ keep, ItemSource host collate rows item keep := by
  obtain ⟨total, trans⟩ := newerFirstOrder collate
  have isTotal : Std.Total (newerFirst collate) := ⟨total⟩
  have isTrans : IsTrans Observation (newerFirst collate) := ⟨trans⟩
  have sorted := List.pairwise_insertionSort (newerFirst collate) (groupOf host key rows)
  have perm := List.perm_insertionSort (newerFirst collate) (groupOf host key rows)
  unfold itemOf Tables.orderBy at found
  dsimp only at found
  split at found
  · rename_i keep first rest is
    obtain rfl := Option.some.inj found
    rw [is] at sorted perm
    have member : ∀ row, row ∈ keep :: first :: rest ↔ row ∈ rows ∧ groupKey host row = some key := by
      intro row
      rw [perm.mem_iff, groupOf, List.mem_filter, decide_eq_true_eq]
    have distinct := perm.nodup_iff.mpr (once.filter _)
    obtain ⟨held, own⟩ := (member keep).mp List.mem_cons_self
    refine ⟨keep, held, rfl, own, fun row mem is => ?_, fun id mem => ?_⟩
    · rcases List.mem_cons.mp ((member row).mpr ⟨mem, is⟩) with same | later
      · exact .inl same
      · exact .inr ⟨List.mem_map_of_mem later, (List.pairwise_cons.mp sorted).1 row later⟩
    · obtain ⟨row, later, rfl⟩ := List.mem_map.mp mem
      obtain ⟨inside, is⟩ := (member row).mp (List.mem_cons_of_mem _ later)
      exact ⟨row, inside, rfl, is, fun same => (List.nodup_cons.mp distinct).1 (same ▸ later)⟩
  · cases found

-- Two rows of one key make an item.
theorem itemFound (collate : String → String → Ordering) {rows : List Observation} {a b : Observation} {key : String}
    (one : a ∈ rows) (two : b ∈ rows) (first : groupKey host a = some key) (second : groupKey host b = some key) (apart : a ≠ b) :
    ∃ item ∈ (groups host rows).filterMap (itemOf collate), item.groupKey = key := by
  have group : (key, groupOf host key rows) ∈ groups host rows :=
    List.mem_map.mpr ⟨key, List.mem_eraseDups.mpr (List.mem_filterMap.mpr ⟨a, one, first⟩), rfl⟩
  have both : ∀ row, row ∈ Tables.orderBy (newerFirst collate) (groupOf host key rows) ↔ row ∈ rows ∧ groupKey host row = some key := by
    intro row
    rw [Tables.memOrderBy, groupOf, List.mem_filter, decide_eq_true_eq]
  have aHeld := (both a).mpr ⟨one, first⟩
  have bHeld := (both b).mpr ⟨two, second⟩
  cases sorted : Tables.orderBy (newerFirst collate) (groupOf host key rows) with
  | nil =>
    rw [sorted] at aHeld
    exact absurd aHeld List.not_mem_nil
  | cons keep others =>
    cases others with
    | nil =>
      rw [sorted] at aHeld bHeld
      exact absurd ((List.mem_singleton.mp aHeld).trans (List.mem_singleton.mp bHeld).symm) apart
    | cons next rest =>
      refine ⟨⟨key, keep.id, (next :: rest).map Observation.id⟩, List.mem_filterMap.mpr ⟨_, group, ?_⟩, rfl⟩
      simp only [itemOf, sorted]

theorem itemKey {collate : String → String → Ordering} {group : String × List Observation} {item : Item}
    (found : itemOf collate group = some item) : item.groupKey = group.1 ∧ 2 ≤ group.2.length := by
  unfold itemOf at found
  split at found
  · rename_i keep first rest is
    obtain rfl := Option.some.inj found
    have sized := (List.perm_insertionSort (newerFirst collate) group.2).length_eq
    rw [show group.2.insertionSort (newerFirst collate) = keep :: first :: rest from is] at sized
    simp only [List.length_cons] at sized
    exact ⟨rfl, by omega⟩
  · cases found

theorem planItem [Std.TransCmp moment.collate] (once : (scanned moment options db).Nodup) {item : Item}
    (mem : item ∈ plan host moment options db) :
    itemOf moment.collate (item.groupKey, groupOf host item.groupKey (scanned moment options db)) = some item ∧
      ∃ keep, ItemSource host moment.collate (scanned moment options db) item keep := by
  obtain ⟨group, held, found⟩ := List.mem_filterMap.mp (List.mem_of_mem_take mem)
  obtain ⟨key, -, rfl⟩ := List.mem_map.mp held
  have is : item.groupKey = key := (itemKey found).1
  exact ⟨is ▸ found, itemSource once found⟩

theorem scannedHeld {row : Observation} (mem : row ∈ scanned moment options db) :
    row ∈ db.observations ∧ eligible moment.now row = true := by
  have inside := List.mem_of_mem_take mem
  rw [Tables.memOrderBy, Tables.Scan.mem] at inside
  exact List.mem_filter.mp inside

theorem scannedOnce (keyed : (db.observations.map Observation.id).Nodup) : (scanned moment options db).Nodup := by
  refine List.Nodup.sublist (List.take_sublist _ _) ?_
  rw [Tables.orderBy, (List.perm_insertionSort _ _).nodup_iff, (moment.scan.perm _).nodup_iff]
  exact (List.Nodup.of_map _ keyed).filter _

theorem archivesRows (now : String) (items : List Item) (db : Db) :
    (items.foldl (fun db item => Dedupe.archive now item.archivedIds db) db).observations = db.observations.map (fun row =>
      if items.any (fun item => item.archivedIds.contains row.id) && row.live then Dedupe.archiveRow now row else row) := by
  induction items generalizing db with
  | nil => simp
  | cons item rest ih =>
    rw [List.foldl_cons, ih, Dedupe.archive, Tables.update, List.map_map]
    refine List.map_congr_left (fun row _ => ?_)
    rw [Function.comp_apply, List.any_cons]
    by_cases here : (item.archivedIds.contains row.id && row.live) = true
    · obtain ⟨named, live⟩ := Bool.and_eq_true_iff.mp here
      have gone : (Dedupe.archiveRow now row).live = false := rfl
      rw [if_pos here, gone, Bool.and_false, if_neg Bool.false_ne_true, named, live]
      rfl
    · rw [if_neg here]
      cases live : row.live with
      | true =>
        have missed : item.archivedIds.contains row.id = false := by simpa [live] using here
        rw [missed, Bool.false_or]
      | false => rw [Bool.and_false, Bool.and_false]

-- What a run keeps it does not archive for another group either.
theorem keptUnlisted [Std.TransCmp moment.collate] (keyed : (db.observations.map Observation.id).Nodup) {item : Item} {keep : Observation}
    (mem : item ∈ plan host moment options db) (source : ItemSource host moment.collate (scanned moment options db) item keep) :
    ¬ Listed (plan host moment options db) keep.id := by
  rintro ⟨other, held, archived⟩
  have same : ∀ {a b : Observation}, a ∈ scanned moment options db → b ∈ scanned moment options db → a.id = b.id → a = b :=
    fun one two ids => Tables.keyUnique keyed (scannedHeld one).1 (scannedHeld two).1 ids
  obtain ⟨found, keep', source'⟩ := planItem (scannedOnce keyed) held
  obtain ⟨row, inside, id, key, apart⟩ := source'.others _ archived
  obtain rfl := same inside source.held id
  have keys : other.groupKey = item.groupKey := Option.some.inj (key.symm.trans source.key)
  rw [keys, (planItem (scannedOnce keyed) mem).1] at found
  obtain rfl := Option.some.inj found
  exact apart (same source.held source'.held (source.kept.symm.trans source'.kept))

def planned (host : Host) (moment : Moment) (options : Options) (db : Db) : List Item :=
  (cleanupDuplicateObservations host moment {options with execute := some false} db).2.items
def cleaned (host : Host) (moment : Moment) (options : Options) (db : Db) : Db :=
  (cleanupDuplicateObservations host moment {options with execute := some true} db).1

-- What a dry run promises of the run, and what the run leaves.
structure CleanedUp (host : Host) (moment : Moment) (options : Options) (db : Db) : Prop where
  idle : (cleanupDuplicateObservations host moment {options with execute := some false} db).1.observations = db.observations
  foreseen : List.Forall₂ (fun old new =>
      Listed (planned host moment options db) old.id ∧ old.live = true ∧ new = Dedupe.archiveRow moment.now old ∨
        ¬ Listed (planned host moment options db) old.id ∧ new = old)
    db.observations (cleaned host moment options db).observations
  survivors : ∀ old ∈ db.observations, Listed (planned host moment options db) old.id →
    ∃ kept ∈ (cleaned host moment options db).observations, kept.live = true ∧ kept.id ≠ old.id ∧
      ((truthy old.contentDedupeHash = none → Plain old ∧ Plain kept) → Alike host old kept)
  newest : ∀ item ∈ planned host moment options db, ∃ kept ∈ (cleaned host moment options db).observations,
    kept.id = item.keptId ∧ kept.live = true ∧ ∀ row ∈ scanned moment options db, groupKey host row = some item.groupKey →
      row = kept ∨ row.id ∈ item.archivedIds ∧ newerFirst moment.collate kept row
  again : (db.observations.filter (eligible moment.now)).length ≤ options.scanLimit →
    ((groups host (scanned moment options db)).filter (fun group => 2 ≤ group.2.length)).length ≤ options.most →
    ∀ (later : Moment) (asked : Options), moment.now ≤ later.now → planned host later asked (cleaned host moment options db) = [] ∧
      (cleaned host later asked (cleaned host moment options db)).observations = (cleaned host moment options db).observations

theorem listedAny {items : List Item} {id : String} : items.any (fun item => item.archivedIds.contains id) = true ↔ Listed items id := by
  simp [Listed]

theorem cleanedRows : (cleaned host moment options db).observations = db.observations.map (fun row =>
    if (plan host moment options db).any (fun item => item.archivedIds.contains row.id) && row.live then Dedupe.archiveRow moment.now row
    else row) := archivesRows moment.now (plan host moment options db) db

theorem cleanedKept {row : Observation} (mem : row ∈ db.observations) (unlisted : ¬ Listed (plan host moment options db) row.id) :
    row ∈ (cleaned host moment options db).observations := by
  rw [cleanedRows]
  refine List.mem_map.mpr ⟨row, mem, if_neg (fun both => unlisted ?_)⟩
  exact listedAny.mp (Bool.and_eq_true_iff.mp both).1

-- What is live afterwards was live before and not listed.
theorem cleanedLive {row : Observation} (mem : row ∈ (cleaned host moment options db).observations) (live : row.live = true) :
    row ∈ db.observations ∧ ¬ Listed (plan host moment options db) row.id := by
  rw [cleanedRows] at mem
  obtain ⟨old, held, rfl⟩ := List.mem_map.mp mem
  split at live
  · cases live
  · rename_i stays
    rw [if_neg stays]
    refine ⟨held, fun listed => stays ?_⟩
    rw [listedAny.mpr listed, live]
    rfl

theorem cleanedKeyed (keyed : (db.observations.map Observation.id).Nodup) :
    ((cleaned host moment options db).observations.map Observation.id).Nodup := by
  have same : (cleaned host moment options db).observations.map Observation.id = db.observations.map Observation.id := by
    rw [cleanedRows, List.map_map]
    refine List.map_congr_left (fun row _ => ?_)
    rw [Function.comp_apply]
    split <;> rfl
  rwa [same]

theorem itemsFew (collate : String → String → Ordering) (all : List (String × List Observation)) :
    (all.filterMap (itemOf collate)).length ≤ (all.filter (fun group => 2 ≤ group.2.length)).length := by
  induction all with
  | nil => exact Nat.le_refl 0
  | cons group rest ih =>
    cases found : itemOf collate group with
    | none =>
      rw [List.filterMap_cons_none found]
      exact ih.trans (List.Sublist.length_le ((List.sublist_cons_self group rest).filter _))
    | some item =>
      have two := (itemKey found).2
      rw [List.filterMap_cons_some found, List.filter_cons_of_pos (by simpa using two)]
      exact Nat.succ_le_succ ih

-- A run that sees every duplicate leaves one row of a kind.
theorem survivorsApart [Std.TransCmp moment.collate] (keyed : (db.observations.map Observation.id).Nodup)
    (whole : (db.observations.filter (eligible moment.now)).length ≤ options.scanLimit)
    (few : ((groups host (scanned moment options db)).filter (fun group => 2 ≤ group.2.length)).length ≤ options.most)
    {later : String} (after : moment.now ≤ later) {a b : Observation} (one : a ∈ (cleaned host moment options db).observations)
    (two : b ∈ (cleaned host moment options db).observations) (first : eligible later a = true) (second : eligible later b = true)
    {key : String} (aKey : groupKey host a = some key) (bKey : groupKey host b = some key) : a = b := by
  have before : ∀ row, row ∈ (cleaned host moment options db).observations → eligible later row = true →
      row ∈ scanned moment options db ∧ ¬ Listed (plan host moment options db) row.id := by
    intro row mem fits
    obtain ⟨live, unexpired⟩ := Bool.and_eq_true_iff.mp fits
    obtain ⟨held, unlisted⟩ := cleanedLive mem live
    have earlier : expiredFilter moment.now row = true := by
      unfold expiredFilter at unexpired ⊢
      split
      · rfl
      · rename_i expiry is
        rw [is] at unexpired
        exact decide_eq_true (lt_of_le_of_lt after (of_decide_eq_true unexpired))
    have fits : row ∈ db.observations.filter (eligible moment.now) :=
      List.mem_filter.mpr ⟨held, Bool.and_eq_true_iff.mpr ⟨live, earlier⟩⟩
    refine ⟨?_, unlisted⟩
    have all : (Tables.orderBy (fun a b : Observation => b.createdAt ≤ a.createdAt)
        (moment.scan.arrange (db.observations.filter (eligible moment.now)))).length ≤ options.scanLimit := by
      rwa [Tables.orderBy, List.length_insertionSort, (moment.scan.perm _).length_eq]
    rw [scanned, List.take_of_length_le all, Tables.memOrderBy, Tables.Scan.mem]
    exact fits
  obtain ⟨aHeld, aFree⟩ := before a one first
  obtain ⟨bHeld, bFree⟩ := before b two second
  by_contra apart
  obtain ⟨item, found, is⟩ := itemFound moment.collate aHeld bHeld aKey bKey apart
  have mem : item ∈ plan host moment options db := by
    rwa [plan, List.take_of_length_le ((itemsFew _ _).trans few)]
  obtain ⟨-, keep, source⟩ := planItem (scannedOnce keyed) mem
  have kept : ∀ row, row ∈ scanned moment options db → groupKey host row = some key → ¬ Listed (plan host moment options db) row.id →
      row = keep := by
    intro row held own free
    rcases source.newest row held (is ▸ own) with same | ⟨archived, -⟩
    · exact same
    · exact absurd ⟨item, mem, archived⟩ free
  exact apart ((kept a aHeld aKey aFree).trans (kept b bHeld bKey bFree).symm)

theorem planNone {later : Moment} {asked : Options} (keyed : (db.observations.map Observation.id).Nodup)
    (apart : ∀ a ∈ db.observations, ∀ b ∈ db.observations, eligible later.now a = true → eligible later.now b = true →
      ∀ key, groupKey host a = some key → groupKey host b = some key → a = b) : plan host later asked db = [] := by
  have none : (groups host (scanned later asked db)).filterMap (itemOf later.collate) = [] := by
    refine List.filterMap_eq_nil_iff.mpr (fun group held => ?_)
    obtain ⟨key, -, rfl⟩ := List.mem_map.mp held
    cases found : itemOf later.collate (key, groupOf host key (scanned later asked db)) with
    | none => rfl
    | some item =>
      obtain ⟨-, two⟩ := itemKey found
      obtain ⟨a, b, rest, split⟩ : ∃ a b rest, groupOf host key (scanned later asked db) = a :: b :: rest := by
        match is : groupOf host key (scanned later asked db), two with
        | a :: b :: rest, _ => exact ⟨a, b, rest, rfl⟩
      have once : (a :: b :: rest).Nodup := split ▸ (scannedOnce keyed).filter _
      have member : ∀ row ∈ a :: b :: rest, row ∈ scanned later asked db ∧ groupKey host row = some key := by
        intro row mem
        rw [← split, groupOf, List.mem_filter, decide_eq_true_eq] at mem
        exact mem
      obtain ⟨aHeld, aKey⟩ := member a List.mem_cons_self
      obtain ⟨bHeld, bKey⟩ := member b (List.mem_cons_of_mem _ List.mem_cons_self)
      obtain ⟨aRow, aFits⟩ := scannedHeld aHeld
      obtain ⟨bRow, bFits⟩ := scannedHeld bHeld
      have same := apart a aRow b bRow aFits bFits key aKey bKey
      exact absurd (same ▸ List.mem_cons_self) (List.nodup_cons.mp once).1
  rw [plan, none, List.take_nil]

theorem cleanupExact [Std.TransCmp moment.collate] (keyed : (db.observations.map Observation.id).Nodup) :
    CleanedUp host moment options db := by
  have same : planned host moment options db = plan host moment options db := rfl
  constructor
  · rfl
  · rw [same, cleanedRows]
    refine List.forall₂_map_right_iff.mpr (List.forall₂_same.mpr (fun row mem => ?_))
    by_cases listed : Listed (plan host moment options db) row.id
    · obtain ⟨item, held, archived⟩ := listed
      obtain ⟨-, keep, source⟩ := planItem (scannedOnce keyed) held
      obtain ⟨other, inside, id, -, -⟩ := source.others _ archived
      obtain ⟨stored, fits⟩ := scannedHeld inside
      obtain rfl := Tables.keyUnique keyed stored mem id
      have live : other.live = true := (Bool.and_eq_true_iff.mp fits).1
      refine .inl ⟨⟨item, held, archived⟩, live, ?_⟩
      rw [listedAny.mpr ⟨item, held, archived⟩, live]
      rfl
    · refine .inr ⟨listed, if_neg (fun both => listed ?_)⟩
      exact listedAny.mp (Bool.and_eq_true_iff.mp both).1
  · rw [same]
    rintro old mem ⟨item, held, archived⟩
    obtain ⟨-, keep, source⟩ := planItem (scannedOnce keyed) held
    obtain ⟨other, inside, id, key, apart⟩ := source.others _ archived
    obtain rfl := Tables.keyUnique keyed (scannedHeld inside).1 mem id
    obtain ⟨stored, fits⟩ := scannedHeld source.held
    refine ⟨keep, cleanedKept stored (keptUnlisted keyed held source), (Bool.and_eq_true_iff.mp fits).1, fun ids => ?_, ?_⟩
    · exact apart (Tables.keyUnique keyed mem stored ids.symm)
    · exact keyAlike key source.key
  · rw [same]
    intro item held
    obtain ⟨-, keep, source⟩ := planItem (scannedOnce keyed) held
    obtain ⟨stored, fits⟩ := scannedHeld source.held
    exact ⟨keep, cleanedKept stored (keptUnlisted keyed held source), source.kept.symm, (Bool.and_eq_true_iff.mp fits).1, source.newest⟩
  · intro whole few later asked after
    have none : plan host later asked (cleaned host moment options db) = [] :=
      planNone (cleanedKeyed keyed) (fun a one b two first second key aKey bKey =>
        survivorsApart keyed whole few after one two first second aKey bKey)
    refine ⟨none, ?_⟩
    rw [cleanedRows, none]
    simp
end

def noted (id project createdAt : String) : Observation :=
  {Consolidation.plainObservation id "s" "use sqlite storage" with project := project, createdAt := createdAt}
def byText : Moment := ⟨"2026-02-01", "2026-02-01", true, Tables.inOrder, compare⟩

def repeated : Db := {Db.empty with observations := [noted "a" "p" "2026-01-01", noted "b" "p" "2026-01-02"]}

theorem cleanupExactRepeated : CleanedUp plainHost byText ⟨none, .nan⟩ repeated :=
  have : Std.TransCmp byText.collate := inferInstanceAs (Std.TransCmp (compare : String → String → Ordering))
  cleanupExact (by decide)

theorem notedKey (id project createdAt : String) :
    groupKey plainHost (noted id project createdAt) = some "legacy:s:context:use sqlite storage" := by
  have normal : normalizeDedupeText plainHost "use sqlite storage" = "use sqlite storage" := by decide +kernel
  unfold groupKey
  change (let normalized := normalizeDedupeText plainHost "use sqlite storage"
    if normalized = "" then none else some ("legacy:s:context:" ++ normalized)) = _
  rw [normal]
  rfl

-- One session that worked in two projects.
def acrossProjects : Db := {Db.empty with observations := [noted "a" "p" "2026-01-01", noted "b" "q" "2026-01-02"]}

theorem acrossPlan : plan plainHost byText ⟨none, .nan⟩ acrossProjects = [⟨"legacy:s:context:use sqlite storage", "b", ["a"]⟩] := by
  have seen : scanned byText ⟨none, .nan⟩ acrossProjects = [noted "b" "q" "2026-01-02", noted "a" "p" "2026-01-01"] := by
    rfl
  simp only [plan, seen, groups, groupOf, notedKey, List.filterMap, List.filter]
  decide

theorem cleanupAcross : ∃ old ∈ acrossProjects.observations,
    Listed (planned plainHost byText ⟨none, .nan⟩ acrossProjects) old.id ∧
      ∀ kept ∈ (cleaned plainHost byText ⟨none, .nan⟩ acrossProjects).observations, kept.live = true → kept.project ≠ old.project := by
  have rows : (cleaned plainHost byText ⟨none, .nan⟩ acrossProjects).observations =
      [Dedupe.archiveRow "2026-02-01" (noted "a" "p" "2026-01-01"), noted "b" "q" "2026-01-02"] := by
    rw [cleanedRows, acrossPlan]
    rfl
  have foreseen : planned plainHost byText ⟨none, .nan⟩ acrossProjects = [⟨"legacy:s:context:use sqlite storage", "b", ["a"]⟩] := acrossPlan
  rw [foreseen, rows]
  refine ⟨noted "a" "p" "2026-01-01", List.mem_cons_self, ⟨_, List.mem_cons_self, List.mem_cons_self⟩, ?_⟩
  intro kept mem live
  rcases List.mem_cons.mp mem with rfl | later
  · cases live
  · obtain rfl := List.mem_singleton.mp later
    decide

end HarnessMem.DuplicateCleanup
