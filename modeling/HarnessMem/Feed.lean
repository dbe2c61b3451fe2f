import HarnessMem.Lib.Base64
import HarnessMem.Lib.Keyset
import HarnessMem.Lib.Utf8
import HarnessMem.Readers
import HarnessMem.Search
import Mathlib.Data.Prod.Lex
import Mathlib.Data.String.Basic

/-! Paging through the feed. A page that leaves rows over names the place of its last row in a
cursor, and the next request reads on below it. -/
namespace HarnessMem.Feed
open Js Text Recorder Visibility Search Readers

structure FeedCursor where
  createdAt : String
  id : String
  deriving DecidableEq, Repr

def cursorJson (cursor : FeedCursor) : Json := .obj [("created_at", .str cursor.createdAt), ("id", .str cursor.id)]

def encodeFeedCursor (cursor : FeedCursor) : String :=
  String.ofList (Base64.encode (Utf8.encode (Json.stringify (cursorJson cursor)).toList))

def decodeFeedCursor (host : Host) (input : Option String) : Option FeedCursor :=
  (truthy input).bind fun input =>
    match host.parseJson (String.ofList (Utf8.decode (Base64.decode input.toList))) with
    | some (.obj entries) =>
      (Json.text? (Json.get entries "created_at")).bind fun createdAt =>
        (Json.text? (Json.get entries "id")).map fun id => ⟨createdAt, id⟩
    | _ => none

structure FeedPage where
  rows : List Observation
  hasMore : Bool
  nextCursor : Option String

def nextCursorOf (last : Observation) : Option String :=
  if last.createdAt ≠ "" ∧ last.id ≠ "" then some (encodeFeedCursor ⟨last.createdAt, last.id⟩) else none

section
variable (host : Host) (settings : Settings) (access : Option AccessFilter)

-- The request with the cursor read.
def resumed (request : FeedRequest) (cursor : Option String) : FeedRequest :=
  {request with cursor := (decodeFeedCursor host cursor).map fun cursor => (cursor.createdAt, cursor.id)}

-- With retrieval off the answer has no rows and no cursor.
def feedPage (request : FeedRequest) (cursor : Option String) (db : Db) : Except String FeedPage :=
  if settings.retrievalEnabled = false then .ok ⟨[], false, none⟩
  else (membersOf settings request.projectMembers request.project).map fun members =>
    let limit := clampLimit request.limit 40 1 200
    let rows := (Tables.orderBy (fun a b : Observation => b.createdAt < a.createdAt ∨ a.createdAt = b.createdAt ∧ b.id ≤ a.id)
      (db.observations.filter (feedFilter host settings access members (resumed host request cursor) db))).take (limit + 1)
    let hasMore := decide (limit < rows.length)
    let pageRows := if hasMore then rows.take limit else rows
    ⟨pageRows, hasMore, if hasMore then pageRows.getLast?.bind nextCursorOf else none⟩

end

-- The order of the feed, greatest first.
def place (row : Observation) : String ×ₗ String := toLex (row.createdAt, row.id)

def FeedCursor.place (cursor : FeedCursor) : String ×ₗ String := toLex (cursor.createdAt, cursor.id)

theorem belowPlace {a b c d : String} : toLex (a, b) < toLex (c, d) ↔ a < c ∨ a = c ∧ b < d := Prod.Lex.toLex_lt_toLex
theorem abovePlace {a b c d : String} : toLex (a, b) ≤ toLex (c, d) ↔ a < c ∨ a = c ∧ b ≤ d := Prod.Lex.toLex_le_toLex

theorem sortSame {Row : Type*} {r s : Row → Row → Prop} [DecidableRel r] [DecidableRel s] (same : ∀ a b, r a b ↔ s a b) (rows : List Row) :
    rows.insertionSort r = rows.insertionSort s := by
  have mapped := List.map_insertionSort r s id rows (fun a _ b _ => same a b)
  simpa using mapped

theorem rankedFeed (rows : List Observation) :
    Tables.orderBy (fun a b : Observation => b.createdAt < a.createdAt ∨ a.createdAt = b.createdAt ∧ b.id ≤ a.id) rows = Keyset.ranked place rows := by
  refine sortSame (fun a b => ?_) rows
  rw [place, place, abovePlace, eq_comm]

theorem moreRows {Row : Type*} (limit : Nat) (rows : List Row) :
    decide (limit < (rows.take (limit + 1)).length) = decide (limit < rows.length) := by
  rw [List.length_take]
  exact decide_eq_decide.mpr (by omega)

theorem firstRows {Row : Type*} (limit : Nat) (rows : List Row) :
    (if decide (limit < (rows.take (limit + 1)).length) = true then (rows.take (limit + 1)).take limit else rows.take (limit + 1)) = rows.take limit := by
  rw [moreRows]
  by_cases more : limit < rows.length
  · rw [if_pos (decide_eq_true more), List.take_take, Nat.min_eq_left (Nat.le_succ limit)]
  · rw [if_neg (by simpa using more), List.take_of_length_le (by omega), List.take_of_length_le (by omega)]

section
variable (host : Host) (settings : Settings) (access : Option AccessFilter)

theorem resumedFilter (members : List String) (request : FeedRequest) (cursor : Option FeedCursor) (db : Db) (row : Observation) :
    feedFilter host settings access members {request with cursor := cursor.map fun cursor => (cursor.createdAt, cursor.id)} db row =
      (feedFilter host settings access members {request with cursor := none} db row && Keyset.below place (cursor.map FeedCursor.place) row) := by
  have under : ∀ c : FeedCursor, (decide (row.createdAt < c.createdAt) || decide (row.createdAt = c.createdAt) && decide (row.id < c.id)) =
      decide (place row < c.place) := fun c => by
    rw [← Bool.decide_and, ← Bool.decide_or]
    exact decide_eq_decide.mpr (by rw [place, FeedCursor.place, belowPlace])
  cases cursor with
  | none => simp only [feedFilter, Keyset.below, Option.map_none, Option.all_none, Bool.and_true]
  | some c => simp only [feedFilter, Keyset.below, Option.map_some, Option.all_some, Option.all_none, Bool.and_true, ← under]; rfl

-- The rows that meet the request, whatever its cursor.
def matching (members : List String) (request : FeedRequest) (db : Db) : List Observation :=
  db.observations.filter (feedFilter host settings access members {request with cursor := none} db)

theorem feedPageOk {request : FeedRequest} {cursor : Option String} {db : Db} {page : FeedPage} (enabled : settings.retrievalEnabled = true)
    (answer : feedPage host settings access request cursor db = .ok page) :
    ∃ members, membersOf settings request.projectMembers request.project = .ok members ∧
      (page.rows, page.hasMore) = Keyset.page place ((decodeFeedCursor host cursor).map FeedCursor.place) (clampLimit request.limit 40 1 200)
        (matching host settings access members request db) ∧
      page.nextCursor = if page.hasMore then page.rows.getLast?.bind nextCursorOf else none := by
  rw [feedPage, if_neg (by rw [enabled]; exact Bool.noConfusion)] at answer
  cases found : membersOf settings request.projectMembers request.project with
  | error text =>
    rw [found] at answer
    cases answer
  | ok members =>
    rw [found] at answer
    refine ⟨members, rfl, ?_⟩
    have rows : db.observations.filter (feedFilter host settings access members (resumed host request cursor) db) =
        (matching host settings access members request db).filter (Keyset.below place ((decodeFeedCursor host cursor).map FeedCursor.place)) := by
      rw [matching, List.filter_filter]
      refine List.filter_congr fun row _ => ?_
      rw [resumed, resumedFilter, Bool.and_comm]
    simp only [Except.map, rankedFeed, rows, firstRows, Except.ok.injEq] at answer
    simp only [moreRows] at answer
    subst answer
    exact ⟨rfl, rfl⟩

-- What the page shows is what the feed answers for the cursor as it was read.
theorem feedEntries (request : FeedRequest) (cursor : Option String) (db : Db) :
    feed host settings access (resumed host request cursor) db =
      (feedPage host settings access request cursor db).map (fun page => page.rows.map (feedEntry db)) := by
  unfold feed feedPage
  split
  · rfl
  · have same : membersOf settings (resumed host request cursor).projectMembers (resumed host request cursor).project =
        membersOf settings request.projectMembers request.project := rfl
    rw [same]
    cases membersOf settings request.projectMembers request.project with
    | error text => rfl
    | ok members =>
      simp only [Except.map, firstRows]
      rfl
end

-- The server and its database as one request of a traversal meets them, and the page size it asks for.
structure Moment where
  settings : Settings
  access : Option AccessFilter
  db : Db
  limit : Number
  keyed : (db.observations.map Observation.id).Nodup

section
variable (host : Host) (request : FeedRequest)

def pageAt (cursor : Option String) (m : Moment) : Except String FeedPage :=
  feedPage host m.settings m.access {request with limit := m.limit} cursor m.db

-- The rows of all pages up to the first without a cursor, and whether that one has more.
def follow : Option String → List Moment → Option (List Observation × Bool)
  | _, [] => none
  | cursor, m :: rest =>
    match pageAt host request cursor m with
    | .error _ => none
    | .ok page =>
      match page.nextCursor with
      | none => if rest.isEmpty then some (page.rows, page.hasMore) else none
      | some next => (follow (some next) rest).map fun later => (page.rows ++ later.1, later.2)

def Meets (m : Moment) (row : Observation) : Prop :=
  ∃ members, membersOf m.settings request.projectMembers request.project = .ok members ∧
    row ∈ matching host m.settings m.access members request m.db

structure Complete (moments : List Moment) (visited : List Observation) : Prop where
  descends : visited.Pairwise (fun a b => b.createdAt < a.createdAt ∨ b.createdAt = a.createdAt ∧ b.id < a.id)
  once : ∀ id createdAt, (∀ m ∈ moments, ∃ row, Meets host request m row ∧ row.id = id ∧ row.createdAt = createdAt) →
    visited.countP (fun row => row.id == id) = 1

-- `JSON.parse` reads back what `JSON.stringify` printed.
def Reads (cursor : FeedCursor) : Prop := host.parseJson (Json.stringify (cursorJson cursor)) = some (cursorJson cursor)

variable {host request}

theorem encodedSome (cursor : FeedCursor) : encodeFeedCursor cursor ≠ "" := by
  intro empty
  have chars : Base64.encode (Utf8.encode (Json.stringify (cursorJson cursor)).toList) = [] := by
    have shown := congrArg String.toList empty
    rwa [encodeFeedCursor, String.toList_ofList] at shown
  have bytes := congrArg Base64.decode chars
  rw [Base64.decodeEncode] at bytes
  have text := congrArg Utf8.decode bytes
  rw [Utf8.decodeEncode, Json.stringify, String.toList_ofList, cursorJson, Json.print] at text
  cases text

theorem cursorRoundTrip {cursor : FeedCursor} (reads : Reads host cursor) : decodeFeedCursor host (some (encodeFeedCursor cursor)) = some cursor := by
  have some : truthy (some (encodeFeedCursor cursor)) = some (encodeFeedCursor cursor) := by
    rw [truthy, Option.filter_some, if_pos (decide_eq_true (encodedSome cursor))]
  have text : String.ofList (Utf8.decode (Base64.decode (encodeFeedCursor cursor).toList)) = Json.stringify (cursorJson cursor) := by
    rw [encodeFeedCursor, String.toList_ofList, Base64.decodeEncode, Utf8.decodeEncode, String.ofList_toList]
  rw [decodeFeedCursor, some, Option.bind_some, text, reads]
  rfl

-- What the traversal meets: the page sizes, and the rows that match at each moment.
def snapshot (host : Host) (request : FeedRequest) (m : Moment) : Nat × List Observation :=
  (clampLimit m.limit 40 1 200, (membersOf m.settings request.projectMembers request.project).toOption.elim [] fun members =>
    matching host m.settings m.access members request m.db)

theorem snapshotMem {m : Moment} {row : Observation} : row ∈ (snapshot host request m).2 ↔ Meets host request m row := by
  unfold snapshot Meets
  cases membersOf m.settings request.projectMembers request.project with
  | error text => simp [Except.toOption]
  | ok members => simp [Except.toOption]

theorem matchingMem {settings : Settings} {access : Option AccessFilter} {members : List String} {db : Db} {row : Observation}
    (mem : row ∈ matching host settings access members request db) : row ∈ db.observations := (List.mem_filter.mp mem).1

theorem snapshotIds (m : Moment) : ((snapshot host request m).2.map Observation.id).Nodup := by
  unfold snapshot
  cases membersOf m.settings request.projectMembers request.project with
  | error text => exact List.nodup_nil
  | ok members => exact m.keyed.sublist (List.filter_sublist.map Observation.id)

theorem snapshotKeyed (m : Moment) : ((snapshot host request m).2.map place).Nodup := by
  have ids : (((snapshot host request m).2.map place).map (fun key => (ofLex key).2)).Nodup := by
    rw [List.map_map]
    exact snapshotIds m
  exact List.Nodup.of_map _ ids

-- A page is the one of the snapshot, and its cursor encodes the place of its last row, which is a row of the store.
theorem pageAnswer {m : Moment} {cursor : Option String} {page : FeedPage} (enabled : m.settings.retrievalEnabled = true)
    (answer : pageAt host request cursor m = .ok page) :
    Keyset.page place ((decodeFeedCursor host cursor).map FeedCursor.place) (snapshot host request m).1 (snapshot host request m).2 =
        (page.rows, page.hasMore) ∧
      (page.hasMore = false → page.nextCursor = none) ∧
      ∀ next, page.nextCursor = some next → ∃ last ∈ m.db.observations, page.rows.getLast? = some last ∧
        next = encodeFeedCursor ⟨last.createdAt, last.id⟩ := by
  obtain ⟨members, found, same, cursors⟩ := feedPageOk host m.settings m.access enabled answer
  have shot : snapshot host request m =
      (clampLimit m.limit 40 1 200, matching host m.settings m.access members {request with limit := m.limit} m.db) := by
    have found : membersOf m.settings request.projectMembers request.project = .ok members := found
    rw [snapshot, found]
    rfl
  refine ⟨by rw [shot]; exact same.symm, fun ends => by rw [cursors, ends]; rfl, fun next named => ?_⟩
  rw [cursors] at named
  split at named
  · obtain ⟨last, lastRow, named⟩ := Option.bind_eq_some_iff.mp named
    have rows : page.rows = _ := congrArg Prod.fst same
    have shown := List.mem_of_getLast? lastRow
    rw [rows] at shown
    refine ⟨last, matchingMem (Keyset.pageMem shown).1, lastRow, ?_⟩
    unfold nextCursorOf at named
    split at named
    · exact (Option.some.inj named).symm
    · cases named
  · cases named

theorem followTraverses {moments : List Moment} {cursor : Option String} {visited : List Observation}
    (reads : ∀ m ∈ moments, ∀ row ∈ m.db.observations, Reads host ⟨row.createdAt, row.id⟩)
    (enabled : ∀ m ∈ moments, m.settings.retrievalEnabled = true) (done : follow host request cursor moments = some (visited, false)) :
    Keyset.traverse place ((decodeFeedCursor host cursor).map FeedCursor.place) (moments.map (snapshot host request)) = some visited := by
  induction moments generalizing cursor visited with
  | nil => cases done
  | cons m rest ih =>
    rw [follow] at done
    cases answer : pageAt host request cursor m with
    | error text =>
      rw [answer] at done
      cases done
    | ok page =>
      rw [answer] at done
      obtain ⟨pages, ended, named⟩ := pageAnswer (enabled m List.mem_cons_self) answer
      rw [List.map_cons, Keyset.traverse, pages]
      dsimp only at done ⊢
      cases more : page.hasMore with
      | false =>
        rw [ended more] at done
        rw [if_neg Bool.false_ne_true, List.isEmpty_map]
        dsimp only at done
        split at done
        · rename_i last
          rw [if_pos last]
          exact congrArg (Option.map Prod.fst) done
        · cases done
      | true =>
        rw [if_pos rfl]
        cases ends : page.nextCursor with
        | none =>
          rw [ends, more] at done
          dsimp only at done
          split at done
          · cases done
          · cases done
        | some next =>
          rw [ends] at done
          obtain ⟨⟨later, beyond⟩, followed, same⟩ := Option.map_eq_some_iff.mp done
          obtain ⟨rfl, rfl⟩ := Prod.mk.inj same
          obtain ⟨last, held, lastRow, rfl⟩ := named next ends
          have rest := ih (fun later mem => reads later (List.mem_cons_of_mem _ mem)) (fun later mem => enabled later (List.mem_cons_of_mem _ mem)) followed
          rw [cursorRoundTrip (reads m List.mem_cons_self last held)] at rest
          rw [lastRow, Option.bind_some]
          have below : (some (⟨last.createdAt, last.id⟩ : FeedCursor)).map FeedCursor.place = some (place last) := rfl
          rw [below] at rest
          rw [rest]
          rfl

theorem followComplete {moments : List Moment} {visited : List Observation}
    (reads : ∀ m ∈ moments, ∀ row ∈ m.db.observations, Reads host ⟨row.createdAt, row.id⟩)
    (enabled : ∀ m ∈ moments, m.settings.retrievalEnabled = true) (done : follow host request none moments = some (visited, false)) :
    Complete host request moments visited := by
  have traversed := followTraverses reads enabled done
  have keyed : ∀ p ∈ moments.map (snapshot host request), (p.2.map place).Nodup := by
    intro p mem
    obtain ⟨m, _, rfl⟩ := List.mem_map.mp mem
    exact snapshotKeyed m
  have descends : Keyset.Descending place visited := Keyset.traverseDescends traversed keyed
  refine ⟨descends.imp fun {a b} lower => belowPlace.mp lower, fun id createdAt there => ?_⟩
  have reached : ∃ row ∈ visited, place row = toLex (createdAt, id) := by
    refine Keyset.traverseReaches traversed keyed rfl fun p mem => ?_
    obtain ⟨m, here, rfl⟩ := List.mem_map.mp mem
    obtain ⟨row, meets, rfl, rfl⟩ := there m here
    exact ⟨row, snapshotMem.mpr meets, rfl⟩
  have places : (visited.map place).Nodup := by
    rw [List.Nodup, List.pairwise_map]
    exact descends.imp fun {a b} lower => (ne_of_lt lower).symm
  -- Any row of that id was read from a moment at which the observation was there, so it is that observation.
  have same : ∀ row ∈ visited, (row.id == id) = (place row == toLex (createdAt, id)) := by
    intro row mem
    obtain ⟨_, p, seen, held⟩ := Keyset.traverseMem traversed mem
    obtain ⟨m, here, rfl⟩ := List.mem_map.mp seen
    obtain ⟨known, meets, named, dated⟩ := there m here
    rw [Bool.eq_iff_iff, beq_iff_eq, beq_iff_eq]
    constructor
    · intro same
      have one : row = known := List.inj_on_of_nodup_map (snapshotIds m) held (snapshotMem.mpr meets) (same.trans named.symm)
      rw [one, place, named, dated]
    · intro same
      exact congrArg (fun key => (ofLex key).2) same
  rw [List.countP_congr (fun row mem => by rw [same row mem])]
  obtain ⟨row, mem, at_⟩ := reached
  have counted := List.count_eq_one_of_mem places (List.mem_map.mpr ⟨row, mem, at_⟩)
  rw [List.count, List.countP_map] at counted
  exact counted

theorem limitPositive (limit : Number) : 0 < clampLimit limit 40 1 200 := by
  unfold clampLimit
  split
  · omega
  · decide

-- A page with more to come has a cursor, but for a last row without a date or an id.
theorem pageCursor {cursor : Option String} {m : Moment} {page : FeedPage} (answer : pageAt host request cursor m = .ok page)
    (more : page.hasMore = true) (ends : page.nextCursor = none) :
    ∃ last, page.rows.getLast? = some last ∧ (last.createdAt = "" ∨ last.id = "") := by
  cases on : m.settings.retrievalEnabled with
  | false =>
    rw [pageAt, feedPage, if_pos on] at answer
    obtain rfl := Except.ok.inj answer
    cases more
  | true =>
    obtain ⟨members, _, same, cursors⟩ := feedPageOk host m.settings m.access on answer
    rw [more, if_pos rfl] at cursors
    cases last : page.rows.getLast? with
    | none =>
      have rows := congrArg Prod.fst same
      have long := congrArg Prod.snd same
      simp only [Keyset.page] at rows long
      rw [List.getLast?_eq_none_iff.mp last] at rows
      rw [more] at long
      have short := congrArg List.length rows
      have limit := limitPositive m.limit
      have longer := of_decide_eq_true long.symm
      rw [List.length_take, List.length_nil] at short
      omega
    | some row =>
      refine ⟨row, rfl, ?_⟩
      rw [last, Option.bind_some, ends, nextCursorOf] at cursors
      by_contra both
      rw [if_pos (not_or.mp both)] at cursors
      cases cursors

variable (host request) in
theorem feedPagination :
    (∀ cursor, Reads host cursor → decodeFeedCursor host (some (encodeFeedCursor cursor)) = some cursor) ∧
    (∀ moments visited, (∀ m ∈ moments, m.settings.retrievalEnabled = true) →
      (∀ m ∈ moments, ∀ row ∈ m.db.observations, Reads host ⟨row.createdAt, row.id⟩) →
      follow host request none moments = some (visited, false) → Complete host request moments visited) ∧
    ∀ cursor m page, pageAt host request cursor m = .ok page → page.hasMore = true → page.nextCursor = none →
      ∃ last, page.rows.getLast? = some last ∧ (last.createdAt = "" ∨ last.id = "") :=
  ⟨fun _ reads => cursorRoundTrip reads, fun _ _ enabled reads done => followComplete reads enabled done, fun _ _ _ answer more ends => pageCursor answer more ends⟩
end

def openRequest : FeedRequest where
  cursor := none
  limit := .nan
  project := none
  projectMembers := none
  type := none
  includePrivate := true
  includeArchived := true
  userId := none
  teamId := none
  memberScope := false
  memoryType := none

def dated (id createdAt : String) : Observation := {plainRow id "p" "u" with createdAt := createdAt}

def moment (retrievalEnabled : Bool) (limit : Number) (createdAt : String) : Moment where
  settings := {plainSettings with retrievalEnabled := retrievalEnabled}
  access := none
  db := {Db.empty with observations := [dated "a" createdAt, dated "b" createdAt]}
  limit := limit
  keyed := by simp [dated, plainRow]

def cursorHost : Host := {plainHost with parseJson := fun text =>
  ([⟨"2026", "a"⟩, ⟨"2026", "b"⟩].map cursorJson).find? (fun value => decide (text = Json.stringify value))}

theorem feedPaginationTwoPages :
    Complete cursorHost openRequest [moment true (.fin 1) "2026", moment true (.fin 1) "2026"] [dated "b" "2026", dated "a" "2026"] := by
  refine (feedPagination cursorHost openRequest).2.1 _ _ (fun m mem => ?_) (fun m mem row held => ?_) ?_
  · rcases List.mem_pair.mp mem with rfl | rfl <;> rfl
  · have rows : row = dated "a" "2026" ∨ row = dated "b" "2026" := by
      rcases List.mem_pair.mp mem with rfl | rfl <;> exact List.mem_pair.mp held
    rcases rows with rfl | rfl <;> rfl
  · decide

theorem feedStops :
    (follow plainHost openRequest none [moment false .nan "2026"] = some ([], false) ∧
      ¬ Complete plainHost openRequest [moment false .nan "2026"] []) ∧
    follow plainHost openRequest none [moment true (.fin 1) ""] = some ([dated "b" ""], true) ∧
      ¬ Complete plainHost openRequest [moment true (.fin 1) ""] [dated "b" ""] := by
  have there : ∀ enabled limit createdAt, Meets plainHost openRequest (moment enabled limit createdAt) (dated "a" createdAt) := by
    intro enabled limit createdAt
    exact ⟨[], rfl, List.mem_filter.mpr ⟨List.mem_cons_self, rfl⟩⟩
  refine ⟨⟨rfl, fun complete => ?_⟩, ?_, fun complete => ?_⟩
  · have missed := complete.once "a" "2026" fun m mem => by
      obtain rfl := List.mem_singleton.mp mem
      exact ⟨dated "a" "2026", there _ _ _, rfl, rfl⟩
    cases missed
  · decide
  · have missed := complete.once "a" "" fun m mem => by
      obtain rfl := List.mem_singleton.mp mem
      exact ⟨dated "a" "", there _ _ _, rfl, rfl⟩
    rw [List.countP_cons_of_neg (by decide)] at missed
    cases missed
end HarnessMem.Feed
