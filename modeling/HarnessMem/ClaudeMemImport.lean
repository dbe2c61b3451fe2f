import HarnessMem.Text
import HarnessMem.Lib.KeyedList
import HarnessMem.Lib.LineStream
import HarnessMem.Lib.PosixPath
import HarnessMem.Lib.StableSort
import HarnessMem.Lib.Words

/-! The claude-mem import: a plan of events from the rows of three tables of another database. -/
namespace HarnessMem.ClaudeMemImport
open Js Text Regex

-- A row as the database driver hands it over; a number is the text `String` makes of it, a blob the object of its bytes.
abbrev Row := List (String × Json)

inductive Table where
  | observations | sessionSummaries | sdkSessions
  deriving DecidableEq

def Table.name : Table → String
  | .observations => "observations"
  | .sessionSummaries => "session_summaries"
  | .sdkSessions => "sdk_sessions"

inductive EventType where
  | sessionStart | userPrompt | toolUse | checkpoint | sessionEnd
  deriving DecidableEq

def EventType.text : EventType → String
  | .sessionStart => "session_start"
  | .userPrompt => "user_prompt"
  | .toolUse => "tool_use"
  | .checkpoint => "checkpoint"
  | .sessionEnd => "session_end"

structure NormalizedImportEvent where
  eventId : String
  platform : String
  project : String
  sessionId : String
  eventType : EventType
  ts : String
  payload : List (String × Json)
  tags : List String
  privacyTags : List String
  dedupeHash : String

structure ImportedSessionSummary where
  sessionId : String
  project : String
  summary : String
  ts : String
  privacyTags : List String

structure ClaudeMemImportPlan where
  sourceDbPath : String
  sourceTables : List String
  observationRows : Nat
  summaryRows : Nat
  sdkSessionRows : Nat
  events : List NormalizedImportEvent
  summaries : List ImportedSessionSummary
  warnings : List String

structure Database where
  path : String
  tables : List (String × List Row)

-- What the run stands on besides the database: the runtime, the working directory, the collation `localeCompare`
-- follows and the project asked for.
structure Setting where
  host : Host
  cwd : String
  localeCompare : String → String → Ordering
  projectOverride : Option String

/-! Columns. -/

def sessionColumns : List String := ["session_id", "sessionId", "conversation_id", "conversationId", "thread_id", "threadId", "chat_id"]
def projectColumns : List String :=
  ["project", "project_name", "projectName", "project_path", "projectPath", "workspace", "repo", "cwd"]
def tsColumns : List String := ["ts", "timestamp", "created_at", "createdAt", "recorded_at", "updated_at", "ended_at"]
def typeColumns : List String := ["event_type", "eventType", "type", "kind", "role"]
def contentColumns : List String := ["content", "text", "message", "body", "observation", "summary"]
def titleColumns : List String := ["title", "name", "label"]
def tagColumns : List String := ["tags_json", "tags", "labels"]
def privacyColumns : List String := ["privacy_tags_json", "privacy_tags", "privacy", "sensitivity", "sensitivity_tags"]
def metaColumns : List String := ["payload_json", "metadata_json", "data_json", "metadata", "payload"]
def idColumns : List String := ["id", "observation_id", "observationId", "uuid", "ulid"]

-- The first column the row has decides, even when it holds nothing.
def pickValue (row : Row) (candidates : List String) : Option Json := candidates.findSome? (Json.get row)

def pickString (row : Row) (candidates : List String) : Option String :=
  match pickValue row candidates with
  | some (.str value) => if trim value = "" then none else some (trim value)
  | some (.num text) => some text
  | _ => none

section
variable (host : Host)

def cleaned (entries : List String) : List String :=
  (entries.map (fun entry => host.toLowerCase (trim entry))).filter (fun entry => entry ≠ "")
def strings (items : List Json) : List String := items.filterMap (fun item => Json.text? (some item))

def parseArray : Option Json → List String
  | some (.arr items) => cleaned host (strings items)
  | some (.str value) =>
    if trim value = "" then []
    else match host.parseJson (trim value) with
      | some (.arr items) => cleaned host (strings items)
      | _ => cleaned host (((trim value).toList.splitOn ',').map String.ofList)
  | _ => []

def parseObject : Option Json → List (String × Json)
  | some (.obj entries) => entries
  | some (.str value) =>
    if trim value = "" then []
    else match host.parseJson value with
      | some (.obj entries) => entries
      | _ => []
  | _ => []

def normalizeEventType (rawType : Option String) : EventType :=
  let normalized := host.toLowerCase (trim (rawType.getD ""))
  if normalized = "" then .userPrompt
  else if includes normalized "tool" || normalized = "assistant" || normalized = "system" then .toolUse
  else if includes normalized "check" then .checkpoint
  else if includes normalized "start" then .sessionStart
  else if includes normalized "end" || includes normalized "summary" then .sessionEnd
  else .userPrompt

def parsedTime (value : Option String) : Option Int :=
  value.bind (fun text => if text = "" then none else host.parseDate text)
def asIso (value : Option String) (fallbackIso : String) : String := ((parsedTime host value).map isoText).getD fallbackIso

def buildHash (parts : List String) : String := host.sha256 ("|".intercalate parts)

end

def normalizeProject (raw : Option String) (fallbackProject : String) : String :=
  let trimmed := trim (raw.getD "")
  if trimmed = "" then fallbackProject
  else if trimmed.toList.contains '/' || trimmed.toList.contains '\\' then PosixPath.basename trimmed
  else trimmed

def importName : String := "claude-mem-import"

-- A row on its turn: the table it is from and what the clock reads there.
structure Turn where
  table : Table
  row : Row
  now : String

structure Draft where
  event : NormalizedImportEvent
  summary : Option ImportedSessionSummary

section
variable (setting : Setting) (sourceDbPath defaultProject : String) (row : Row) (now : String)

def projectOf : String := normalizeProject (pickString row projectColumns) defaultProject
def timeText : Option String := pickString row tsColumns
def sessionOf : String := (pickString row sessionColumns).getD importName

/-! The rows of `observations`. -/

def observationSession : String := replaceAll (plus space) "-" (sessionOf row)
def observationTs : String := asIso setting.host (timeText row) now
def observationContent : String :=
  (pickString row contentColumns).getD
    (let stored := Json.stringify (.obj (parseObject setting.host (pickValue row metaColumns)))
     if stored = "" then slice (Json.stringify (.obj row)) 0 4000 else stored)
def observationTitle : String :=
  ((pickString row titleColumns).or (pickString row typeColumns)).getD "imported_observation"
def observationType : EventType := normalizeEventType setting.host (pickString row typeColumns)
def observationSourceId : String :=
  (pickString row idColumns).getD (slice (buildHash setting.host
    [observationSession row, observationTs setting row now, observationTitle row, observationContent setting row]) 0 20)

def observationEvent : NormalizedImportEvent where
  eventId := "imp_obs_" ++ slice (buildHash setting.host
    [sourceDbPath, observationSourceId setting row now, (observationType setting row).text]) 0 24
  platform := "claude"
  project := projectOf defaultProject row
  sessionId := observationSession row
  eventType := observationType setting row
  ts := observationTs setting row now
  payload := [("title", .str (observationTitle row)), ("content", .str (observationContent setting row)),
    ("source", .str "claude-mem"), ("source_table", .str Table.observations.name),
    ("source_row_id", .str (observationSourceId setting row now)),
    ("raw_type", ((pickString row typeColumns).map Json.str).getD .null),
    ("metadata", .obj (parseObject setting.host (pickValue row metaColumns)))]
  tags := parseArray setting.host (pickValue row tagColumns)
  privacyTags := parseArray setting.host (pickValue row privacyColumns)
  dedupeHash := buildHash setting.host [sourceDbPath, Table.observations.name, observationSourceId setting row now,
    observationSession row, (observationType setting row).text, observationTs setting row now,
    slice (observationContent setting row) 0 200]

/-! The rows of `session_summaries`; one without any text makes no event. -/

def summaryTs : String := asIso setting.host (timeText row) now
def summaryText : String :=
  ((pickString row contentColumns).or (pickString row ["summary_text", "session_summary", "summary"])).getD ""
def summarySourceId : String :=
  (pickString row idColumns).getD (slice (buildHash setting.host [sessionOf row, summaryTs setting row now, summaryText row]) 0 20)
def importedSummary : ImportedSessionSummary where
  sessionId := sessionOf row
  project := projectOf defaultProject row
  summary := summaryText row
  ts := summaryTs setting row now
  privacyTags := parseArray setting.host (pickValue row privacyColumns)

def summaryEvent : NormalizedImportEvent where
  eventId := "imp_sum_" ++ slice (buildHash setting.host [sourceDbPath, summarySourceId setting row now]) 0 24
  platform := "claude"
  project := projectOf defaultProject row
  sessionId := sessionOf row
  eventType := .sessionEnd
  ts := summaryTs setting row now
  payload := [("title", .str "Imported session summary"), ("content", .str (summaryText row)),
    ("summary", .str (summaryText row)), ("summary_mode", .str "imported"), ("source", .str "claude-mem"),
    ("source_table", .str Table.sessionSummaries.name), ("source_row_id", .str (summarySourceId setting row now))]
  tags := ["session_summary"]
  privacyTags := parseArray setting.host (pickValue row privacyColumns)
  dedupeHash := buildHash setting.host [sourceDbPath, Table.sessionSummaries.name, summarySourceId setting row now,
    sessionOf row, summaryTs setting row now, slice (summaryText row) 0 200]

/-! The rows of `sdk_sessions`. -/

def sdkSession : String := ((pickString row sessionColumns).or (pickString row ["id"])).getD importName
def sdkTimeText : Option String := (timeText row).or (pickString row ["started_at"])
def sdkTs : String := asIso setting.host (sdkTimeText row) now
def sdkSourceId : String :=
  (pickString row idColumns).getD (slice (buildHash setting.host [sdkSession row, sdkTs setting row now]) 0 20)

def sdkEvent : NormalizedImportEvent where
  eventId := "imp_sess_" ++ slice (buildHash setting.host [sourceDbPath, sdkSourceId setting row now]) 0 24
  platform := "claude"
  project := projectOf defaultProject row
  sessionId := sdkSession row
  eventType := .sessionStart
  ts := sdkTs setting row now
  payload := [("title", .str "Imported session start"), ("content", .str ("Imported sdk session " ++ sdkSession row)),
    ("source", .str "claude-mem"), ("source_table", .str Table.sdkSessions.name),
    ("source_row_id", .str (sdkSourceId setting row now))]
  tags := ["session_start"]
  privacyTags := []
  dedupeHash := buildHash setting.host [sourceDbPath, Table.sdkSessions.name, sdkSourceId setting row now,
    sdkSession row, sdkTs setting row now]

end

section
variable (setting : Setting) (db : Database) (clock : Nat → String)

def sourceDbPath : String := PosixPath.resolve setting.cwd db.path
def defaultProject : String := normalizeProject setting.projectOverride importName

def draft (turn : Turn) : Option Draft :=
  let source := sourceDbPath setting db
  let project := defaultProject setting
  match turn.table with
  | .observations => some ⟨observationEvent setting source project turn.row turn.now, none⟩
  | .sessionSummaries =>
    if trim (summaryText turn.row) = "" then none
    else some ⟨summaryEvent setting source project turn.row turn.now, some (importedSummary setting project turn.row turn.now)⟩
  | .sdkSessions => some ⟨sdkEvent setting source project turn.row turn.now, none⟩

def rowsOf (table : Table) : Option (List Row) := (db.tables.find? (fun entry => entry.1 = table.name)).map Prod.snd
def importTables : List Table := [.observations, .sessionSummaries, .sdkSessions]

-- The clock is read once for every row, used or not.
def sourceRows : List (Table × Row) := importTables.flatMap (fun table => ((rowsOf db table).getD []).map (table, ·))
def turns : List Turn := (sourceRows db).zipIdx.map (fun entry => ⟨entry.1.1, entry.1.2, clock entry.2⟩)

end

structure Planned where
  dedupeSet : List String
  events : List NormalizedImportEvent
  summaries : List ImportedSessionSummary

def take (planned : Planned) (draft : Draft) : Planned :=
  if planned.dedupeSet.contains draft.event.dedupeHash then planned
  else ⟨planned.dedupeSet ++ [draft.event.dedupeHash], planned.events ++ [draft.event], planned.summaries ++ draft.summary.toList⟩

def earlier (setting : Setting) (lhs rhs : NormalizedImportEvent) : Bool :=
  match setting.host.parseDate lhs.ts, setting.host.parseDate rhs.ts with
  | some left, some right => if left = right then setting.localeCompare lhs.eventId rhs.eventId != .gt else left < right
  | _, _ => true

def listTables (db : Database) : List String := (db.tables.map Prod.fst).filter (fun name => trim name ≠ "")

def buildClaudeMemImportPlan (setting : Setting) (db : Database) (clock : Nat → String) : ClaudeMemImportPlan :=
  let planned := ((turns db clock).filterMap (draft setting db)).foldl take ⟨[], [], []⟩
  { sourceDbPath := sourceDbPath setting db
    sourceTables := (listTables db).insertionSort (fun a b => ¬ less b a)
    observationRows := ((rowsOf db .observations).getD []).length
    summaryRows := ((rowsOf db .sessionSummaries).getD []).length
    sdkSessionRows := ((rowsOf db .sdkSessions).getD []).length
    events := planned.events.insertionSort (fun lhs rhs => earlier setting lhs rhs)
    summaries := planned.summaries
    warnings := (importTables.filter (fun table => (rowsOf db table).isNone)).map (fun table => "missing table: " ++ table.name) }

/-! What the plan holds. -/

def hashOf (draft : Draft) : String := draft.event.dedupeHash
def drafts (setting : Setting) (db : Database) (clock : Nat → String) : List Draft := (turns db clock).filterMap (draft setting db)
def kept (setting : Setting) (db : Database) (clock : Nat → String) : List Draft :=
  (drafts setting db clock).foldl (KeyedList.enrol hashOf) []
def plannedOf (drafts : List Draft) : Planned :=
  ⟨drafts.map hashOf, drafts.map Draft.event, drafts.flatMap (fun draft => draft.summary.toList)⟩

theorem takePlanned (held : List Draft) (draft : Draft) :
    take (plannedOf held) draft = plannedOf (KeyedList.enrol hashOf held draft) := by
  unfold take KeyedList.enrol
  change (if (held.map hashOf).contains (hashOf draft) = true then _ else _) = _
  by_cases known : hashOf draft ∈ held.map hashOf
  · rw [if_pos (List.contains_iff_mem.mpr known), if_pos known]
  · rw [if_neg (fun seen => known (List.contains_iff_mem.mp seen)), if_neg known]
    simp [plannedOf, hashOf]

theorem foldPlanned (held drafts : List Draft) :
    drafts.foldl take (plannedOf held) = plannedOf (drafts.foldl (KeyedList.enrol hashOf) held) := by
  induction drafts generalizing held with
  | nil => rfl
  | cons draft rest ih => rw [List.foldl_cons, List.foldl_cons, takePlanned, ih]

section
variable {setting : Setting} {db : Database} {clock : Nat → String}

theorem eventsKept : (buildClaudeMemImportPlan setting db clock).events.Perm ((kept setting db clock).map Draft.event) := by
  have events := congrArg Planned.events (foldPlanned [] (drafts setting db clock))
  refine (List.perm_insertionSort _ _).trans ?_
  exact events ▸ List.Perm.refl _

theorem keptUnique : ((kept setting db clock).map hashOf).Nodup :=
  @KeyedList.enrolAllUnique _ _ _ hashOf [] List.nodup_nil _

theorem keptGet (hash : String) : KeyedList.get hashOf hash (kept setting db clock) = KeyedList.get hashOf hash (drafts setting db clock) := by
  rw [kept, KeyedList.getEnrolledAll]
  rfl

theorem keptDrafts {d : Draft} (mem : d ∈ kept setting db clock) : d ∈ drafts setting db clock := by
  have found : KeyedList.get hashOf (hashOf d) (kept setting db clock) = some d := by
    have here := KeyedList.filterUnique keptUnique (hashOf d) ▸ List.mem_filter.mpr ⟨mem, decide_eq_true rfl⟩
    simpa using here
  rw [keptGet] at found
  exact (KeyedList.getMem found).1

theorem hashesUnique : ((buildClaudeMemImportPlan setting db clock).events.map NormalizedImportEvent.dedupeHash).Nodup := by
  have perm := (@eventsKept setting db clock).map NormalizedImportEvent.dedupeHash
  rw [perm.nodup_iff, List.map_map]
  exact keptUnique

theorem eventsOfHash (hash : String) :
    (buildClaudeMemImportPlan setting db clock).events.filter (fun event => event.dedupeHash = hash) =
      (KeyedList.get hashOf hash (drafts setting db clock)).toList.map Draft.event := by
  have perm := (@eventsKept setting db clock).filter (fun event => event.dedupeHash = hash)
  rw [List.filter_map] at perm
  have one : (kept setting db clock).filter ((fun event => decide (event.dedupeHash = hash)) ∘ Draft.event) =
      (KeyedList.get hashOf hash (drafts setting db clock)).toList := keptGet hash ▸ KeyedList.filterUnique keptUnique hash
  rw [one] at perm
  cases found : KeyedList.get hashOf hash (drafts setting db clock) with
  | none =>
    rw [found] at perm
    exact List.perm_nil.mp perm
  | some d =>
    rw [found] at perm
    exact List.perm_singleton.mp perm

theorem draftsTurn {d : Draft} (mem : d ∈ drafts setting db clock) : ∃ turn ∈ turns db clock, draft setting db turn = some d :=
  List.mem_filterMap.mp mem

theorem eventsTurn {event : NormalizedImportEvent} (mem : event ∈ (buildClaudeMemImportPlan setting db clock).events) :
    ∃ turn ∈ turns db clock, ∃ d, draft setting db turn = some d ∧ d.event = event := by
  obtain ⟨d, held, rfl⟩ := List.mem_map.mp (eventsKept.mem_iff.mp mem)
  obtain ⟨turn, here, made⟩ := draftsTurn (keptDrafts held)
  exact ⟨turn, here, d, made, rfl⟩

-- The first row of a dedupe hash has the one event of it.
theorem firstKept {before after : List Turn} {turn : Turn} {d : Draft} (place : turns db clock = before ++ turn :: after)
    (made : draft setting db turn = some d) (first : ∀ other ∈ before, ∀ o, draft setting db other = some o → hashOf o ≠ hashOf d) :
    (buildClaudeMemImportPlan setting db clock).events.filter (fun event => event.dedupeHash = hashOf d) = [d.event] := by
  have none : KeyedList.get hashOf (hashOf d) (before.filterMap (draft setting db)) = none := KeyedList.getNone.mpr fun o held => by
    obtain ⟨other, mem, made'⟩ := List.mem_filterMap.mp held
    exact first other mem o made'
  have split : drafts setting db clock = before.filterMap (draft setting db) ++ d :: after.filterMap (draft setting db) := by
    rw [drafts, place, List.filterMap_append, List.filterMap_cons_some made]
  have found : KeyedList.get hashOf (hashOf d) (drafts setting db clock) = some d := by
    rw [split, KeyedList.get, List.find?_append, ← KeyedList.get, none, List.find?_cons_of_pos (by simp)]
    rfl
  rw [eventsOfHash, found]
  rfl

end

/-! Event ids. -/

def idPrefix : Table → String
  | .observations => "imp_obs_"
  | .sessionSummaries => "imp_sum_"
  | .sdkSessions => "imp_sess_"

section
variable (setting : Setting) (db : Database) (turn : Turn)

def sourceId : String := match turn.table with
  | .observations => observationSourceId setting turn.row turn.now
  | .sessionSummaries => summarySourceId setting turn.row turn.now
  | .sdkSessions => sdkSourceId setting turn.row turn.now
def eventType : EventType := match turn.table with
  | .observations => observationType setting turn.row
  | .sessionSummaries => .sessionEnd
  | .sdkSessions => .sessionStart
def idText : String := "|".intercalate (match turn.table with
  | .observations => [sourceDbPath setting db, sourceId setting turn, (eventType setting turn).text]
  | _ => [sourceDbPath setting db, sourceId setting turn])
def eventId : String := idPrefix turn.table ++ slice (setting.host.sha256 (idText setting db turn)) 0 24

end

section
variable {setting : Setting} {db : Database} {clock : Nat → String}

theorem draftId {turn : Turn} {d : Draft} (made : draft setting db turn = some d) : d.event.eventId = eventId setting db turn := by
  obtain ⟨table, row, now⟩ := turn
  cases table with
  | observations =>
    cases made
    rfl
  | sessionSummaries =>
    obtain ⟨-, made⟩ := Option.ite_none_left_eq_some.mp made
    cases made
    rfl
  | sdkSessions =>
    cases made
    rfl

theorem prefixApart {one other : Table} {a b : String} (same : idPrefix one ++ a = idPrefix other ++ b) : one = other ∧ a = b := by
  have letter : ∀ table c, (idPrefix table ++ c).toList[5]? = (idPrefix table).toList[5]? := by
    intro table c
    cases table <;> simp [idPrefix]
  have sixth := congrArg (fun text : String => text.toList[5]?) same
  rw [letter, letter] at sixth
  have here : one = other := by
    cases one <;> cases other <;> first | rfl | exact absurd sixth (by decide)
  subst here
  exact ⟨rfl, by simpa using same⟩

theorem typeText {one other : EventType} (same : one.text = other.text) : one = other := by
  cases one <;> cases other <;> first | rfl | exact absurd same (by decide)

theorem typeBar (type : EventType) : '|' ∉ type.text.toList := by cases type <;> decide

theorem barTwo (a b : String) : ("|".intercalate [a, b]).toList = a.toList ++ '|' :: b.toList := by
  change (a ++ "|" ++ b).toList = _
  simp

theorem barThree (a b c : String) : ("|".intercalate [a, b, c]).toList = a.toList ++ '|' :: (b.toList ++ '|' :: c.toList) := by
  change (a ++ "|" ++ b ++ "|" ++ c).toList = _
  simp

-- The path is the same and the type has no bar, so the text between is the source id.
theorem idTextSource {one other : Turn} (table : one.table = other.table) (same : idText setting db one = idText setting db other) :
    sourceId setting one = sourceId setting other ∧ (eventType setting one).text = (eventType setting other).text := by
  have chars := congrArg String.toList same
  unfold idText at chars
  rw [← table] at chars
  have two : one.table ≠ .observations → eventType setting one = eventType setting other := by
    intro later
    unfold eventType
    rw [← table]
    cases here : one.table with
    | observations => exact absurd here later
    | sessionSummaries | sdkSessions => rfl
  cases here : one.table with
  | observations =>
    rw [here] at chars
    simp only [barThree, List.append_cancel_left_eq, List.cons.injEq, true_and] at chars
    have back := congrArg List.reverse chars
    simp only [List.reverse_append, List.reverse_cons, List.append_assoc, List.singleton_append] at back
    obtain ⟨type, source⟩ := LineStream.fieldEnds '|' (by simpa using typeBar _) (by simpa using typeBar _) back
    exact ⟨String.toList_injective (List.reverse_injective source), String.toList_injective (List.reverse_injective type)⟩
  | sessionSummaries | sdkSessions =>
    rw [here] at chars
    simp only [barTwo, List.append_cancel_left_eq, List.cons.injEq, true_and] at chars
    exact ⟨String.toList_injective chars, congrArg EventType.text (two (by rw [here]; decide))⟩

-- No two rows that the plan takes up have different texts with one 24-digit hash.
def HashesApart (setting : Setting) (db : Database) (clock : Nat → String) : Prop :=
  ∀ one ∈ turns db clock, ∀ other ∈ turns db clock,
    slice (setting.host.sha256 (idText setting db one)) 0 24 = slice (setting.host.sha256 (idText setting db other)) 0 24 →
      idText setting db one = idText setting db other

-- Rows of one table under one source id and type are duplicates of each other.
def OwnIds (setting : Setting) (db : Database) (clock : Nat → String) : Prop :=
  ∀ one ∈ turns db clock, ∀ other ∈ turns db clock, ∀ d e, draft setting db one = some d → draft setting db other = some e →
    one.table = other.table → sourceId setting one = sourceId setting other →
      eventType setting one = eventType setting other → hashOf d = hashOf e

theorem idsDistinct (apart : HashesApart setting db clock) (own : OwnIds setting db clock) :
    ((buildClaudeMemImportPlan setting db clock).events.map NormalizedImportEvent.eventId).Nodup := by
  have perm := (@eventsKept setting db clock).map NormalizedImportEvent.eventId
  rw [perm.nodup_iff, List.map_map]
  refine List.Nodup.map_on (fun d mem e mem' same => ?_) (List.Nodup.of_map hashOf keptUnique)
  obtain ⟨one, here, made⟩ := draftsTurn (keptDrafts mem)
  obtain ⟨other, here', made'⟩ := draftsTurn (keptDrafts mem')
  have ids : d.event.eventId = e.event.eventId := same
  rw [draftId made, draftId made'] at ids
  obtain ⟨table, digest⟩ := prefixApart ids
  obtain ⟨source, type⟩ := idTextSource table (apart one here other here' digest)
  have hashes := own one here other here' d e made made' table source (typeText type)
  exact List.inj_on_of_nodup_map keptUnique mem mem' hashes

/-! Sessions and clocks. -/

def sessionIn (turn : Turn) : String := match turn.table with
  | .observations => observationSession turn.row
  | .sessionSummaries => sessionOf turn.row
  | .sdkSessions => sdkSession turn.row

theorem draftSession {turn : Turn} {d : Draft} (made : draft setting db turn = some d) : d.event.sessionId = sessionIn turn := by
  obtain ⟨table, row, now⟩ := turn
  cases table with
  | observations =>
    cases made
    rfl
  | sessionSummaries =>
    obtain ⟨-, made⟩ := Option.ite_none_left_eq_some.mp made
    cases made
    rfl
  | sdkSessions =>
    cases made
    rfl

theorem unspaced {text : String} (solid : ∀ c ∈ text.toList, isSpace c = false) : replaceAll (plus space) "-" text = text := by
  have spaces : space = .set (fun c => !!isSpace c) := congrArg Re.set (funext fun c => (Bool.not_not _).symm)
  have runs := @Words.replaceRuns (fun c => !isSpace c) '-' (text.length + 1) [] text.toList (Nat.lt_succ_of_le String.length_toList.le)
  rw [Words.squashKept (fun c mem => by simp [solid c mem])] at runs
  rw [replaceAll, spaces]
  exact (congrArg String.ofList runs).trans String.ofList_toList

-- What one session id becomes in the tables: itself, but for the white space inside it that `observations` replaces.
theorem sessionKept {turn : Turn} {id : String} (named : pickString turn.row sessionColumns = some id) :
    sessionIn turn = if turn.table = .observations then replaceAll (plus space) "-" id else id := by
  obtain ⟨table, row, now⟩ := turn
  cases table <;> simp_all [sessionIn, observationSession, sessionOf, sdkSession]

theorem sessionsAgree {one other : Turn} {id : String} (named : pickString one.row sessionColumns = some id)
    (named' : pickString other.row sessionColumns = some id)
    (alike : (one.table = .observations ↔ other.table = .observations) ∨ ∀ c ∈ id.toList, isSpace c = false) :
    sessionIn one = sessionIn other := by
  rw [sessionKept named, sessionKept named']
  rcases alike with tables | solid
  · simp only [tables]
  · rw [unspaced solid, ite_self, ite_self]

-- The text a row's time is read from.
def timeOf (table : Table) (row : Row) : Option String := match table with
  | .sdkSessions => sdkTimeText row
  | _ => timeText row
def Dated (setting : Setting) (entry : Table × Row) : Prop := parsedTime setting.host (timeOf entry.1 entry.2) ≠ none
def Blank (entry : Table × Row) : Prop := entry.1 = .sessionSummaries ∧ trim (summaryText entry.2) = ""

theorem asIsoDated {host : Host} {value : Option String} (dated : parsedTime host value ≠ none) (now now' : String) :
    asIso host value now = asIso host value now' := by
  obtain ⟨ms, read⟩ := Option.ne_none_iff_exists'.mp dated
  rw [asIso, asIso, read]
  rfl

theorem draftBlank {turn : Turn} : draft setting db turn = none ↔ Blank (turn.table, turn.row) := by
  obtain ⟨table, row, now⟩ := turn
  cases table <;> simp [draft, Blank]

theorem draftDated {table : Table} {row : Row} (dated : Dated setting (table, row)) (now now' : String) :
    draft setting db ⟨table, row, now⟩ = draft setting db ⟨table, row, now'⟩ := by
  have same : ∀ value, parsedTime setting.host value ≠ none → asIso setting.host value now = asIso setting.host value now' :=
    fun value read => asIsoDated read now now'
  cases table with
  | observations =>
    have ts : observationTs setting row now = observationTs setting row now' := same _ dated
    simp only [draft, observationEvent, observationSourceId, ts]
  | sessionSummaries =>
    have ts : summaryTs setting row now = summaryTs setting row now' := same _ dated
    simp only [draft, summaryEvent, importedSummary, summarySourceId, ts]
  | sdkSessions =>
    have ts : sdkTs setting row now = sdkTs setting row now' := same _ dated
    simp only [draft, sdkEvent, sdkSourceId, ts]

theorem draftsDated (dated : ∀ entry ∈ sourceRows db, Dated setting entry ∨ Blank entry) (clock clock' : Nat → String) :
    drafts setting db clock = drafts setting db clock' := by
  rw [drafts, drafts, turns, turns, List.filterMap_map, List.filterMap_map]
  refine List.filterMap_congr fun entry mem => ?_
  rcases dated entry.1 (List.fst_mem_of_mem_zipIdx mem) with read | blank
  · exact draftDated read _ _
  · exact (draftBlank.mpr blank).trans (draftBlank.mpr blank).symm

theorem planDated (dated : ∀ entry ∈ sourceRows db, Dated setting entry ∨ Blank entry) (clock clock' : Nat → String) :
    buildClaudeMemImportPlan setting db clock = buildClaudeMemImportPlan setting db clock' := by
  have same := draftsDated dated clock clock'
  unfold drafts at same
  rw [buildClaudeMemImportPlan, buildClaudeMemImportPlan, same]

-- A row with an id of its own has its event id from it, whatever the clock reads.
theorem ownIdKept {table : Table} {row : Row} {id : String} (named : pickString row idColumns = some id) (now now' : String) :
    eventId setting db ⟨table, row, now⟩ = eventId setting db ⟨table, row, now'⟩ := by
  cases table <;> simp [eventId, idText, sourceId, eventType, observationSourceId, summarySourceId, sdkSourceId, named]

end

/-! The plan. -/

theorem importPlan (setting : Setting) (db : Database) (clock : Nat → String) :
    let plan := buildClaudeMemImportPlan setting db clock
    (∀ turn ∈ turns db clock, draft setting db turn = none ↔ Blank (turn.table, turn.row)) ∧
      (∀ event ∈ plan.events, ∃ turn ∈ turns db clock, ∃ d, draft setting db turn = some d ∧ d.event = event) ∧
      (∀ before turn after d, turns db clock = before ++ turn :: after → draft setting db turn = some d →
        (∀ other ∈ before, ∀ o, draft setting db other = some o → o.event.dedupeHash ≠ d.event.dedupeHash) →
        plan.events.filter (fun event => event.dedupeHash = d.event.dedupeHash) = [d.event]) ∧
      (plan.events.map NormalizedImportEvent.dedupeHash).Nodup ∧
      (HashesApart setting db clock → OwnIds setting db clock → (plan.events.map NormalizedImportEvent.eventId).Nodup) ∧
      (∀ one ∈ turns db clock, ∀ other ∈ turns db clock, ∀ d e id, draft setting db one = some d → draft setting db other = some e →
        pickString one.row sessionColumns = some id → pickString other.row sessionColumns = some id →
        ((one.table = .observations ↔ other.table = .observations) ∨ ∀ c ∈ id.toList, isSpace c = false) →
        d.event.sessionId = e.event.sessionId) ∧
      ((∀ entry ∈ sourceRows db, Dated setting entry ∨ Blank entry) →
        ∀ clock', buildClaudeMemImportPlan setting db clock' = plan) ∧
      ∀ table row now now' d e, (pickString row idColumns).isSome → draft setting db ⟨table, row, now⟩ = some d →
        draft setting db ⟨table, row, now'⟩ = some e → d.event.eventId = e.event.eventId := by
  refine ⟨fun _ _ => draftBlank, fun _ mem => eventsTurn mem, fun _ _ _ _ place made first => firstKept place made first,
    hashesUnique, idsDistinct, ?_, fun dated clock' => planDated dated clock' clock, ?_⟩
  · intro one _ other _ d e id made made' named named' alike
    rw [draftSession made, draftSession made']
    exact sessionsAgree named named' alike
  · intro table row now now' d e own made made'
    obtain ⟨id, named⟩ := Option.isSome_iff_exists.mp own
    rw [draftId made, draftId made']
    exact ownIdKept named now now'

def sampleDigests : List (String × String) :=
  [("/d|1|user_prompt", "6ad70f15881b3ad91ec5ae7de895af1a970a89cd16cdceddd9de068f79622050"),
   ("/d|observations|1|s|user_prompt|2026-01-01T00:00:00.000Z|hello", "0935877a67c7ff1f5f8c8797602cf50ca9d1fcc006b1236344bf53d97f0cb130"),
   ("/d|1", "af5185bb819837310007aa95d4625bab38c845392b9c68046be46f5cbcdc1f6f"),
   ("/d|session_summaries|1|s|2026-01-01T00:00:00.000Z|done", "9aa80e3999d4ab02cbc98d75436d94fe238b1289b3dbb2c960eb875a9f2e478f")]
def sampleHost : Host where
  sha256 text := ((sampleDigests.find? (fun known => known.1 = text)).map Prod.snd).getD ""
  toLowerCase := id
  parseJson _ := none
  parseDate text := if text = "2026-01-01T00:00:00.000Z" then some 1767225600000 else none
  millis _ := .nan
  tokenize _ := []
  similar _ _ := false
def sampleSetting : Setting := ⟨sampleHost, "/", compare, none⟩
def sampleRow (content : String) : Row :=
  [("id", .num "1"), ("session_id", .str "s"), ("ts", .str "2026-01-01T00:00:00.000Z"), ("content", .str content)]
def sampleDatabase : Database :=
  ⟨"/d", [("observations", [sampleRow "hello"]), ("session_summaries", [sampleRow "done"])]⟩
def sampleTurns (now : String) : List Turn :=
  [⟨.observations, sampleRow "hello", now⟩, ⟨.sessionSummaries, sampleRow "done", now⟩]

theorem importPlanTwice :
    ((buildClaudeMemImportPlan sampleSetting sampleDatabase fun _ => "a").events.map NormalizedImportEvent.eventId).Nodup ∧
      buildClaudeMemImportPlan sampleSetting sampleDatabase (fun _ => "b") =
        buildClaudeMemImportPlan sampleSetting sampleDatabase fun _ => "a" := by
  obtain ⟨-, -, -, -, distinct, -, again, -⟩ := importPlan sampleSetting sampleDatabase fun _ => "a"
  have rows : turns sampleDatabase (fun _ => "a") = sampleTurns "a" := rfl
  have dated : ∀ entry ∈ sourceRows sampleDatabase, parsedTime sampleHost (timeOf entry.1 entry.2) ≠ none := by decide
  refine ⟨distinct ?_ ?_, again (fun entry mem => .inl (dated entry mem)) _⟩
  · unfold HashesApart
    rw [rows]
    decide
  · intro one here other here' d e made made' table _ _
    rw [rows, sampleTurns, List.mem_pair] at here here'
    have same : one = other := by
      rcases here with rfl | rfl <;> rcases here' with rfl | rfl <;> first | rfl | exact absurd table (by decide)
    subst same
    rw [made] at made'
    rw [Option.some.inj made']

-- A summary without any text is a row of its own and makes no event.
def blankDatabase : Database := ⟨"/d", [("session_summaries", [[("id", .num "1"), ("session_id", .str "s"), ("summary", .str " ")]])]⟩

theorem blankSummary : (turns blankDatabase fun _ => "a").length = 1 ∧
    (buildClaudeMemImportPlan sampleSetting blankDatabase fun _ => "a").events.length = 0 := by decide

end HarnessMem.ClaudeMemImport
