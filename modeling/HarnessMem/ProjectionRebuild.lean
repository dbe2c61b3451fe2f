import HarnessMem.Projector
import Mathlib.Data.List.Nodup

/-! When a rebuilt projection has the rows that were projected as the events arrived. -/
namespace HarnessMem.Projector

section
variable {host : Host} {pg : Postgres}

-- The observation an event names is named after the event.
def Named (eventId : String) (observationId : Option String) : Prop :=
  ∀ id, truthy observationId = some id → id = "obs_" ++ eventId

theorem observationRowKeys {now : Int} {e : Projected} {row : ObservationRow}
    (written : observationRow host pg now e = some row) :
    truthy e.observationId = some row.id ∧ row.eventId = e.eventId := by
  simp only [observationRow, Option.bind_eq_bind, Option.bind_eq_some_iff, Option.pure_def, Option.some.injEq] at written
  obtain ⟨id, named, _, _, _, _, _, _, _, _, _, _, _, _, _, _, _, _, rfl⟩ := written
  exact ⟨named, rfl⟩

theorem upsertNew {new : ObservationRow} {rows : List ObservationRow} (fresh : ∀ old ∈ rows, old.id ≠ new.id) :
    upsert new rows = rows ++ [new] := by
  unfold upsert
  rw [if_neg]
  simpa using fresh

theorem projectSnoc (events : List (Projected × Int)) (p : Projected × Int) (rows : List ObservationRow) :
    project host pg (events ++ [p]) rows = projectEvent host pg (project host pg events rows) p := by
  simp [project]

-- Events of distinct ids leave one row each, whatever their order.
theorem projectFresh (events : List (Projected × Int)) (named : ∀ p ∈ events, Named p.1.eventId p.1.observationId)
    (distinct : (events.map (fun p => p.1.eventId)).Nodup) :
    project host pg events [] = events.filterMap (fun p => observationRow host pg p.2 p.1) := by
  induction events using List.reverseRecOn with
  | nil => rfl
  | append_singleton events p ih =>
    rw [List.map_append, List.nodup_append] at distinct
    have earlier := ih (fun q mem => named q (List.mem_append_left _ mem)) distinct.1
    rw [projectSnoc, earlier, List.filterMap_append, projectEvent]
    cases written : observationRow host pg p.2 p.1 with
    | none => simp [written]
    | some row =>
      simp only [List.filterMap_cons, written, List.filterMap_nil]
      refine upsertNew (fun old mem same => ?_)
      obtain ⟨q, held, wrote⟩ := List.mem_filterMap.mp mem
      have mine := named p (by simp) row.id (observationRowKeys written).1
      have theirs := named q (List.mem_append_left _ held) old.id (observationRowKeys wrote).1
      rw [mine, theirs] at same
      exact distinct.2.2 _ (List.mem_map_of_mem held) _ (by simp) (String.append_right_inj _ |>.mp same)

def start : Managed := ⟨[], []⟩

def insertedBy (pg : Postgres) (m : Managed) (e : StoredEvent × Int) : List (StoredEvent × Int) :=
  match insertEvent pg m.events e.1 with
  | .inserted _ => [e]
  | _ => []

def inserted (host : Host) (pg : Postgres) (events : List (StoredEvent × Int)) : List (StoredEvent × Int) :=
  Runs.log (arrive host pg) (insertedBy pg) start events

theorem insertEventInserted {store : List EventRow} {e : StoredEvent} {row : EventRow}
    (new : insertEvent pg store e = .inserted row) :
    eventRow pg e = some row ∧ ∀ held ∈ store, held.eventId ≠ e.eventId := by
  unfold insertEvent at new
  split at new
  · cases new
  · rename_i fresh made
    split at new
    · cases new
    · split at new
      · cases new
      · rename_i _ unused
        cases new
        exact ⟨made, by simpa using unused⟩

variable (host pg) in
theorem arriveStep (m : Managed) (e : StoredEvent × Int) :
    insertedBy pg m e = [] ∧ arrive host pg m e = m ∨
      ∃ row, insertEvent pg m.events e.1 = .inserted row ∧ insertedBy pg m e = [e] ∧
        arrive host pg m e = ⟨m.events ++ [row], projectEvent host pg m.observations (received e.1, e.2)⟩ := by
  unfold arrive insertedBy append append
  cases new : insertEvent pg m.events e.1 with
  | failed => exact .inl ⟨rfl, rfl⟩
  | deduplicated => exact .inl ⟨rfl, rfl⟩
  | inserted row => exact .inr ⟨row, rfl, rfl, rfl⟩

-- What the store and the projection hold, in terms of the events inserted.
structure Holds (host : Host) (pg : Postgres) (m : Managed) (history : List (StoredEvent × Int)) : Prop where
  events : m.events.map some = history.map (fun p => eventRow pg p.1)
  distinct : (history.map (fun p => p.1.eventId)).Nodup
  observations : m.observations = project host pg (history.map (fun p => (received p.1, p.2))) []

theorem eventRowId {e : StoredEvent} {row : EventRow} (made : eventRow pg e = some row) :
    row.eventId = e.eventId ∧ row.observationId = truthy e.observationId := by
  simp only [eventRow, Option.bind_eq_bind, Option.bind_eq_some_iff, Option.pure_def, Option.some.injEq] at made
  obtain ⟨_, _, _, _, _, _, _, _, _, _, rfl⟩ := made
  exact ⟨rfl, rfl⟩

theorem holdsStep {m : Managed} {history : List (StoredEvent × Int)} (holds : Holds host pg m history)
    (e : StoredEvent × Int) : Holds host pg (arrive host pg m e) (history ++ insertedBy pg m e) := by
  rcases arriveStep host pg m e with ⟨none, same⟩ | ⟨row, new, one, next⟩
  · rw [none, same, List.append_nil]
    exact holds
  · obtain ⟨made, unused⟩ := insertEventInserted new
    rw [one, next]
    refine ⟨?_, ?_, ?_⟩
    · simp [holds.events, made]
    · rw [List.map_append, List.nodup_append]
      refine ⟨holds.distinct, by simp, fun id mem id' mem' same => ?_⟩
      obtain ⟨p, held, rfl⟩ := List.mem_map.mp mem
      have stored : eventRow pg p.1 ∈ m.events.map some := by
        rw [holds.events]
        exact List.mem_map_of_mem held
      obtain ⟨old, oldHeld, made'⟩ := List.mem_map.mp stored
      rw [List.map_singleton, List.mem_singleton] at mem'
      exact unused old oldHeld ((eventRowId made'.symm).1.trans (same.trans mem'))
    · rw [List.map_append, List.map_singleton, projectSnoc, holds.observations]

variable (host pg) in
theorem holdsRun (events : List (StoredEvent × Int)) :
    Holds host pg (Runs.run (arrive host pg) start events) (inserted host pg events) := by
  induction events using List.reverseRecOn with
  | nil => exact ⟨rfl, by simp [inserted, Runs.log], rfl⟩
  | append_singleton events e ih =>
    have next := holdsStep ih e
    simpa [inserted, Runs.logAppend, Runs.log, Runs.runSnoc] using next

theorem insertedMem {events : List (StoredEvent × Int)} {p : StoredEvent × Int} (mem : p ∈ inserted host pg events) :
    p ∈ events := by
  induction events using List.reverseRecOn with
  | nil => exact absurd mem List.not_mem_nil
  | append_singleton events e ih =>
    rw [inserted, Runs.logAppend, List.mem_append] at mem
    rcases mem with old | new
    · exact List.mem_append_left _ (ih old)
    · rcases arriveStep host pg (Runs.run (arrive host pg) start events) e with ⟨none, _⟩ | ⟨_, _, one, _⟩
      · simp [Runs.log, none] at new
      · have same : p = e := by simpa [Runs.log, one] using new
        simp [same]

theorem truthyTwice (value : Option String) : truthy (truthy value) = truthy value := by
  cases value with
  | none => rfl
  | some s =>
    by_cases empty : s = ""
    · simp [truthy, empty]
    · simp [truthy, empty]

section
variable {events : List (StoredEvent × Int)} {m : Managed} {history : List (StoredEvent × Int)}

theorem arrivedRow (holds : Holds host pg m history) (named : ∀ p ∈ history, Named p.1.eventId p.1.observationId)
    (row : ObservationRow) :
    row ∈ m.observations ↔ ∃ p ∈ history, observationRow host pg p.2 (received p.1) = some row := by
  rw [holds.observations, projectFresh]
  · simp [List.mem_filterMap]
  · intro q mem
    obtain ⟨p, held, rfl⟩ := List.mem_map.mp mem
    exact named p held
  · simpa [List.map_map, Function.comp_def, received] using holds.distinct

theorem storedOf (holds : Holds host pg m history) {p : StoredEvent × Int} (mem : p ∈ history) :
    ∃ row ∈ m.events, eventRow pg p.1 = some row := by
  have stored : eventRow pg p.1 ∈ m.events.map some := by
    rw [holds.events]
    exact List.mem_map_of_mem mem
  obtain ⟨row, held, made⟩ := List.mem_map.mp stored
  exact ⟨row, held, made.symm⟩

theorem ofStored (holds : Holds host pg m history) {row : EventRow} (mem : row ∈ m.events) :
    ∃ p ∈ history, eventRow pg p.1 = some row := by
  have stored : some row ∈ history.map (fun p => eventRow pg p.1) := by
    rw [← holds.events]
    exact List.mem_map_of_mem mem
  obtain ⟨p, held, made⟩ := List.mem_map.mp stored
  exact ⟨p, held, made⟩

theorem rebuiltRow (holds : Holds host pg m history) (named : ∀ p ∈ history, Named p.1.eventId p.1.observationId)
    {answer : List EventRow} (answers : Answers m answer) (now : EventRow → Int) (row : ObservationRow) :
    row ∈ rebuild host pg now answer ↔ ∃ p ∈ history, ∃ stored, eventRow pg p.1 = some stored ∧
      observationRow host pg (now stored) (readBack pg stored) = some row := by
  have ids : (m.events.map EventRow.eventId).Nodup := by
    have same : m.events.map EventRow.eventId = history.map (fun p => p.1.eventId) := by
      have mapped := congrArg (List.map (Option.map EventRow.eventId)) holds.events
      simp only [List.map_map, Function.comp_def, Option.map_some] at mapped
      have back : history.map (fun p => (eventRow pg p.1).map EventRow.eventId) = history.map (fun p => some p.1.eventId) := by
        refine List.map_congr_left (fun p mem => ?_)
        obtain ⟨row, _, made⟩ := storedOf holds mem
        rw [made, Option.map_some, (eventRowId made).1]
      rw [back] at mapped
      have unwrapped := congrArg (List.filterMap id) mapped
      simpa [List.filterMap_map, Function.comp_def, List.filterMap_eq_map'] using unwrapped
    rw [same]
    exact holds.distinct
  rw [rebuild, projectFresh]
  · simp only [List.mem_filterMap, List.mem_map]
    constructor
    · rintro ⟨q, ⟨stored, mem, rfl⟩, written⟩
      obtain ⟨p, held, made⟩ := ofStored holds (answers.1.mem_iff.mp mem)
      exact ⟨p, held, stored, made, written⟩
    · rintro ⟨p, held, stored, made, written⟩
      obtain ⟨row', mem, made'⟩ := storedOf holds held
      cases Option.some.inj (made.symm.trans made')
      exact ⟨_, ⟨stored, answers.1.mem_iff.mpr mem, rfl⟩, written⟩
  · intro q mem
    obtain ⟨stored, held, rfl⟩ := List.mem_map.mp mem
    obtain ⟨p, inHistory, made⟩ := ofStored holds (answers.1.mem_iff.mp held)
    intro id present
    have kept := eventRowId made
    rw [readBack] at present ⊢
    rw [kept.2, truthyTwice] at present
    rw [kept.1]
    exact named p inHistory id present
  · simpa [List.map_map, Function.comp_def, readBack] using (answers.1.map EventRow.eventId).nodup_iff.mpr ids

-- Row by row: each event leaves on reading back what it left when it arrived.
theorem sameRowsIff (holds : Holds host pg m history) (named : ∀ p ∈ history, Named p.1.eventId p.1.observationId)
    {answer : List EventRow} (answers : Answers m answer) (now : EventRow → Int) :
    (∀ row, row ∈ rebuild host pg now answer ↔ row ∈ m.observations) ↔
      ∀ p ∈ history, ∀ stored, eventRow pg p.1 = some stored →
        observationRow host pg (now stored) (readBack pg stored) = observationRow host pg p.2 (received p.1) := by
  have one : ∀ {p q : StoredEvent × Int}, p ∈ history → q ∈ history → p.1.eventId = q.1.eventId → p = q :=
    fun here there same => List.inj_on_of_nodup_map holds.distinct here there same
  constructor
  · intro same p mem stored made
    cases written : observationRow host pg p.2 (received p.1) with
    | some row =>
      obtain ⟨q, held, stored', made', again⟩ := (rebuiltRow holds named answers now row).mp
        ((same row).mpr ((arrivedRow holds named row).mpr ⟨p, mem, written⟩))
      have id : q.1.eventId = p.1.eventId :=
        (eventRowId made').1.symm.trans ((observationRowKeys again).2.symm.trans (observationRowKeys written).2)
      rw [one held mem id, made] at made'
      cases made'
      exact again
    | none =>
      cases again : observationRow host pg (now stored) (readBack pg stored) with
      | none => rfl
      | some row =>
        obtain ⟨q, held, written'⟩ := (arrivedRow holds named row).mp
          ((same row).mp ((rebuiltRow holds named answers now row).mpr ⟨p, mem, stored, made, again⟩))
        have id : q.1.eventId = p.1.eventId :=
          (observationRowKeys written').2.symm.trans ((observationRowKeys again).2.trans (eventRowId made).1)
        rw [one held mem id, written] at written'
        cases written'
  · intro each row
    rw [rebuiltRow holds named answers now, arrivedRow holds named]
    constructor
    · rintro ⟨p, mem, stored, made, again⟩
      exact ⟨p, mem, (each p mem stored made).symm.trans again⟩
    · rintro ⟨p, mem, written⟩
      obtain ⟨stored, _, made⟩ := storedOf holds mem
      exact ⟨p, mem, stored, made, (each p mem stored made).trans written⟩

end

-- Nothing the event carries is lost between `append` and the row read back.
structure Restored (host : Host) (pg : Postgres) (e : StoredEvent) (now : Int) (stored : EventRow) (later : Int) : Prop where
  anchors : e.eventTime = none ∧ e.validFrom = none ∧ e.validTo = none ∧ e.supersedes = none ∧ e.invalidatedAt = none
  observed : pg.timestamp (e.observedAt.getD e.ts) = some (pg.readTime stored.ts)
  payload : derive host (pg.readJson stored.payloadJson) = derive host (.text e.payloadJson)
  tags : pg.json (pg.readJson stored.tagsJson) = some stored.tagsJson
  privacyTags : pg.json (pg.readJson stored.privacyTagsJson) = some stored.privacyTagsJson
  clock : later = now

theorem nullableNone {s : Option String} (empty : nullable pg s = some none) : s = none := by
  cases s with
  | none => rfl
  | some text => simp [nullable] at empty

theorem instantReceived (e : StoredEvent) :
    pg.instant ((e.observedAt.map Stamp.text).getD (.text e.ts)) = pg.timestamp (e.observedAt.getD e.ts) := by
  cases e.observedAt <;> rfl

theorem restoredIff {e : StoredEvent} {now later : Int} {stored : EventRow} (made : eventRow pg e = some stored)
    {row : ObservationRow} (written : observationRow host pg now (received e) = some row) :
    observationRow host pg later (readBack pg stored) = some row ↔ Restored host pg e now stored later := by
  simp only [eventRow, Option.bind_eq_bind, Option.bind_eq_some_iff, Option.pure_def, Option.some.injEq] at made
  obtain ⟨ts, _, payload, _, tags, tagsMade, privacy, privacyMade, _, _, rfl⟩ := made
  simp only [observationRow, received, instantReceived, Postgres.json, Option.bind_eq_bind, Option.bind_eq_some_iff,
    Option.pure_def, Option.some.injEq] at written
  obtain ⟨id, named, derived, derives, eventTime, event, observedAt, observed, validFrom, from_, validTo, to_,
    invalidatedAt, invalidated, tags', tagsText, privacy', privacyText, rfl⟩ := written
  cases Option.some.inj (tagsMade.symm.trans tagsText)
  cases Option.some.inj (privacyMade.symm.trans privacyText)
  constructor
  · intro again
    simp only [observationRow, readBack, Postgres.instant, nullable, Option.map_none, Option.getD_none, Option.bind_eq_bind,
      Option.bind_eq_some_iff, Option.pure_def, Option.some.injEq, ObservationRow.mk.injEq] at again
    obtain ⟨_, _, _, derives', _, rfl, _, rfl, _, rfl, _, rfl, _, rfl, _, tags', _, privacy', eqs⟩ := again
    obtain ⟨_, _, _, _, _, _, rfl, _, rfl, rfl, rfl, rfl, replaced, rfl, rfl, rfl, clock, _⟩ := eqs
    exact ⟨⟨nullableNone event, nullableNone from_, nullableNone to_, replaced.symm, nullableNone invalidated⟩, observed,
      derives'.trans derives.symm, tags', privacy', clock⟩
  · rintro ⟨⟨noEvent, noFrom, noTo, notReplaced, valid⟩, observed', payload', tags', privacy', rfl⟩
    rw [noEvent] at event
    rw [noFrom] at from_
    rw [noTo] at to_
    rw [valid] at invalidated
    cases event
    cases from_
    cases to_
    cases invalidated
    cases Option.some.inj (observed.symm.trans observed')
    dsimp only at payload' tags' privacy'
    have kept : truthy (some id) = some id := by rw [← named, truthyTwice]
    simp [observationRow, readBack, Postgres.instant, nullable, named, kept, payload', derives, tags', privacy', notReplaced]
    rfl

-- Two events out of one hand never claim one observation.
def WellNamed (events : List (StoredEvent × Int)) : Prop := ∀ p ∈ events, Named p.1.eventId p.1.observationId

-- What was written is restored, and nothing is written that was not.
def Survives (host : Host) (pg : Postgres) (e : StoredEvent) (now : Int) (stored : EventRow) (later : Int) : Prop :=
  (∀ row, observationRow host pg now (received e) = some row → Restored host pg e now stored later) ∧
    (observationRow host pg now (received e) = none → observationRow host pg later (readBack pg stored) = none)

theorem survivesIff {e : StoredEvent} {stored : EventRow} (made : eventRow pg e = some stored) (now later : Int) :
    observationRow host pg later (readBack pg stored) = observationRow host pg now (received e) ↔
      Survives host pg e now stored later := by
  unfold Survives
  cases written : observationRow host pg now (received e) with
  | none => simp
  | some row => simp [restoredIff made written]

-- A driver that parses JSONB columns turns a payload object into "[object Object]".
theorem parsedPayload {row : EventRow} {entries : List (String × Json)} (payload : row.payloadJson = .obj entries)
    (parses : pg.readJson (.obj entries) = .value (.obj entries)) (broken : host.parseJson "[object Object]" = none)
    (now : Int) : observationRow host pg now (readBack pg row) = none := by
  have unread : derive host (readBack pg row).payloadJson = none := by
    simp only [readBack, payload, parses, derive, parseCell, falsy, Bool.false_eq_true, if_false, coerce, broken]
  cases named : truthy (readBack pg row).observationId <;> simp [observationRow, named, unread]

theorem rebuildSameIff (host : Host) (pg : Postgres) (events : List (StoredEvent × Int)) (named : WellNamed events)
    (answer : List EventRow) (now : EventRow → Int)
    (answers : Answers (Runs.run (arrive host pg) start events) answer) :
    ((∀ row, row ∈ rebuild host pg now answer ↔ row ∈ (Runs.run (arrive host pg) start events).observations) ↔
        ∀ p ∈ inserted host pg events, ∀ stored, eventRow pg p.1 = some stored →
          Survives host pg p.1 p.2 stored (now stored)) ∧
      (host.parseJson "[object Object]" = none → (∀ v, pg.readJson v = .value v) →
        (∀ p ∈ inserted host pg events, ∀ stored, eventRow pg p.1 = some stored → ∃ entries, stored.payloadJson = .obj entries) →
        ((∀ row, row ∈ rebuild host pg now answer ↔ row ∈ (Runs.run (arrive host pg) start events).observations) ↔
          ∀ p ∈ inserted host pg events, observationRow host pg p.2 (received p.1) = none)) := by
  have holds := holdsRun host pg events
  have namedIn : ∀ p ∈ inserted host pg events, Named p.1.eventId p.1.observationId := fun p mem => named p (insertedMem mem)
  rw [sameRowsIff holds namedIn answers now]
  refine ⟨?_, fun broken parses objects => ?_⟩
  · exact forall₂_congr fun p _ => forall₂_congr fun stored made => survivesIff made p.2 (now stored)
  · refine forall₂_congr fun p mem => ?_
    obtain ⟨stored, _, made⟩ := storedOf holds mem
    obtain ⟨entries, payload⟩ := objects p mem stored made
    have gone := parsedPayload payload (parses _) broken (now stored)
    constructor
    · exact fun same => (same stored made).symm.trans gone
    · intro none stored' made'
      cases Option.some.inj (made.symm.trans made')
      rw [gone, none]

end
def noteText : String := "\x7b\"content\":\"x\"\x7d"

def noteHost : Host where
  sha256 := id
  toLowerCase := id
  parseJson := fun s => if s = noteText then some (.obj [("content", .str "x")]) else if s = "[]" then some (.arr []) else none
  parseDate := fun _ => none
  millis := fun _ => .nan
  tokenize := fun _ => []
  similar := fun _ _ => false

-- One server, and a driver that hands JSONB columns over parsed or as text.
def notePostgres (readJson : Json → Cell) : Postgres where
  timestamp := fun s => if s = "2026-01-01T00:00:00Z" then some 1767225600000000
    else if s = "2025-12-31T00:00:00Z" then some 1767139200000000 else none
  jsonb := noteHost.parseJson
  readTime := id
  readJson
  sendJson := some

def noteEvent (eventTime : Option String) : StoredEvent where
  eventId := "e1"
  platform := "claude"
  project := "/p"
  workspaceUid := ""
  sessionId := "s1"
  eventType := "user_prompt"
  ts := "2026-01-01T00:00:00Z"
  payloadJson := noteText
  tagsJson := "[]"
  privacyTagsJson := "[]"
  dedupeHash := "h1"
  observationId := some "obs_e1"
  correlationId := none
  eventTime
  observedAt := some "2026-01-01T00:00:00Z"
  validFrom := none
  validTo := none
  supersedes := none
  invalidatedAt := none
  createdAt := "2026-01-01T00:00:00Z"

def arrived (readJson : Json → Cell) (eventTime : Option String) : Managed :=
  Runs.run (arrive noteHost (notePostgres readJson)) start [(noteEvent eventTime, 0)]

def rebuilt (readJson : Json → Cell) (eventTime : Option String) : List ObservationRow :=
  rebuild noteHost (notePostgres readJson) (fun _ => 0) (arrived readJson eventTime).events

theorem noteNamed (eventTime : Option String) : WellNamed [(noteEvent eventTime, 0)] := by
  intro p mem id present
  rw [List.mem_singleton.mp mem] at present ⊢
  exact (Option.some.inj present).symm

-- With text columns and no anchors but `observed_at` the row survives.
theorem rebuildSameOnce :
    (∀ row, row ∈ rebuilt (fun v => .text (Json.stringify v)) none ↔
        row ∈ (arrived (fun v => .text (Json.stringify v)) none).observations) ↔
      ∀ p ∈ inserted noteHost (notePostgres (fun v => .text (Json.stringify v))) [(noteEvent none, 0)], ∀ stored,
        eventRow (notePostgres (fun v => .text (Json.stringify v))) p.1 = some stored →
          Survives noteHost (notePostgres (fun v => .text (Json.stringify v))) p.1 p.2 stored 0 :=
  (rebuildSameIff noteHost (notePostgres (fun v => .text (Json.stringify v))) [(noteEvent none, 0)] (noteNamed none)
    (arrived (fun v => .text (Json.stringify v)) none).events (fun _ => 0) ⟨.refl _, List.pairwise_singleton _ _⟩).1

-- A driver that parses loses the whole row; one that hands over text loses the event time.
theorem rebuildLoses :
    (arrived .value none).observations.map ObservationRow.id = ["obs_e1"] ∧ (rebuilt .value none).map ObservationRow.id = [] ∧
      (arrived (fun v => .text (Json.stringify v)) (some "2025-12-31T00:00:00Z")).observations.map ObservationRow.eventTime =
        [some 1767139200000000] ∧
      (rebuilt (fun v => .text (Json.stringify v)) (some "2025-12-31T00:00:00Z")).map ObservationRow.eventTime = [none] := by
  decide

end HarnessMem.Projector
