import HarnessMem.ManagedAgreement
import HarnessMem.StreamEvents
import HarnessMem.Verify

/-! Recording and streaming together: what `recordEvent` puts on the live stream, and whether the stream hides
what the readers of the stored row hide. -/
namespace HarnessMem.StreamPrivacy
open Js Recorder Runs StreamEvents Visibility

structure World where
  db : Db
  server : Server

inductive Move where
  | record (env : Ambient) (allowQueue : Bool) (e : EventEnvelope) (ts : String)
  | finalized (sessionId project summaryMode finalizedAt ts : String)
  | partialFinalized (sessionId project summaryMode finalizedAt ts : String)
  | connect (request : StreamRequest) (core : ProjectScopes.Core)
  | poll (k : Nat) (core : ProjectScopes.Core)
  | close (k : Nat)

section
variable (host : Host)

def streamedItem (ts : String) : Outcome → List Action
  | .created item _ _ => [.append (.observationCreated item) ts]
  | _ => []

def actionsOf (w : World) : Move → List Action
  | .record env allowQueue e ts => streamedItem ts (recordEvent host env allowQueue e w.db).2
  | .finalized sessionId project summaryMode finalizedAt ts => [.append (.sessionFinalized sessionId project summaryMode finalizedAt) ts]
  | .partialFinalized sessionId project summaryMode finalizedAt ts =>
    [.append (.sessionPartialFinalized sessionId project summaryMode finalizedAt) ts]
  | .connect request core => [.connect request core w.db]
  | .poll k core => [.poll k core]
  | .close k => [.close k]

def storeAfter (w : World) : Move → Db
  | .record env allowQueue e _ => (recordEvent host env allowQueue e w.db).1
  | _ => w.db

def advance (w : World) (move : Move) : World := ⟨storeAfter host w move, run StreamEvents.step w.server (actionsOf host w move)⟩

def opening (db : Db) : World := ⟨db, started⟩

def served (db : Db) (moves : List Move) : List Action := Runs.log (advance host) (actionsOf host) (opening db) moves

-- What an event's privacy tags are stored as is read back, and lower case is what SQL's `lower` leaves alone.
structure ReadsTags (e : EventEnvelope) : Prop where
  parsed : host.parseJson (Json.stringify (texts (Text.normalizeTags host e.privacyTags))) =
    some (texts (Text.normalizeTags host e.privacyTags))
  lowered : ∀ tag ∈ Text.normalizeTags host e.privacyTags, tag.toLower = tag
def Reads (moves : List Move) : Prop :=
  ∀ env allowQueue e ts, Move.record env allowQueue e ts ∈ moves → ReadsTags host e

def privateTags (tags : List String) : Bool := tags.contains "private" || tags.contains "sensitive"

variable {host}

theorem servedRun (db : Db) (moves : List Move) :
    (run (advance host) (opening db) moves).server = run StreamEvents.step started (served host db moves) := by
  induction moves using List.reverseRecOn with
  | nil => rfl
  | append_singleton moves move ih =>
    rw [runSnoc, served, logAppend, runAppend, ← served, ← ih]
    simp [advance, Runs.log]

theorem visibleTags {e : EventEnvelope} (reads : ReadsTags host e) {row : Observation}
    (stored : row.privacyTagsJson = Json.stringify (texts (Text.normalizeTags host e.privacyTags))) :
    visibilityFilter host false row = !privateTags (Text.normalizeTags host e.privacyTags) := by
  have same : ∀ tag ∈ Text.normalizeTags host e.privacyTags, hiddenText (.str tag) = (tag = "private" || tag = "sensitive" : Bool) := by
    intro tag mem
    simp [hiddenText, reads.lowered tag mem]
  simp only [visibilityFilter, stored, reads.parsed, Bool.false_or]
  simp only [texts, values, List.any_map]
  congr 1
  rw [Bool.eq_iff_iff, List.any_eq_true, privateTags, Bool.or_eq_true, List.contains_iff_mem, List.contains_iff_mem]
  constructor
  · rintro ⟨tag, mem, hides⟩
    rw [Function.comp_apply, same tag mem] at hides
    rcases Bool.or_eq_true _ _ |>.mp hides with is | is
    · exact .inl (of_decide_eq_true is ▸ mem)
    · exact .inr (of_decide_eq_true is ▸ mem)
  · rintro (mem | mem)
    · exact ⟨_, mem, by rw [Function.comp_apply, same _ mem]; rfl⟩
    · exact ⟨_, mem, by rw [Function.comp_apply, same _ mem]; rfl⟩

theorem upsertedThere {new : Observation} {rows after : List Observation} (ok : upsertObservation new rows = .ok after) :
    ∃ row ∈ after, row.id = new.id := by
  unfold upsertObservation at ok
  dsimp only at ok
  split at ok
  · rename_i old found
    have here : old.id = new.id := by simpa using List.find?_some found
    split at ok
    · cases ok
    · cases ok
      exact ⟨_, Tables.memUpdate.mpr ⟨old, List.mem_of_find?_eq_some found, rfl⟩, by simp [here, overwrite]⟩
  · split at ok
    · cases ok
    · cases ok
      exact ⟨new, List.mem_append_right _ List.mem_cons_self, rfl⟩

-- The row that a created answer left behind.
theorem createdRow {env : Ambient} {allowQueue : Bool} {e : EventEnvelope} (reads : ReadsTags host e) {db after : Db} {item : Created}
    {copy : Recorder.StoredEvent} {warning : Option String}
    (recorded : recordEvent host env allowQueue e db = (after, .created item copy warning)) :
    ∃ row ∈ after.observations, row.id = item.id ∧ visibilityFilter host false row = !privateTags item.privacyTags := by
  have effect := Dedupe.recordEffect host env allowQueue e db
  rw [recorded] at effect
  cases effect with
  | refused _ refusal => cases refusal
  | stored named rows wrote new answered =>
    rename_i result project temporal before
    cases result with
    | duplicateEvent => exact absurd rfl new
    | duplicateContent id => cases answered
    | created flag =>
      cases answered
      cases wrote with
      | created payloadJson expiresAt _ _ _ observations =>
        obtain ⟨row, mem, same⟩ := upsertedThere observations
        obtain ⟨-, -, -, tags⟩ := ManagedAgreement.upsertedRow observations mem same
        exact ⟨row, mem, same, visibleTags reads tags⟩

-- The step that recorded an item, with the row it left.
def RecordedBy (db : Db) (moves : List Move) (item : Created) (visible : Bool) : Prop :=
  ∃ before env allowQueue e ts after, moves = before ++ .record env allowQueue e ts :: after ∧
    ∃ row ∈ (run (advance host) (opening db) (before ++ [.record env allowQueue e ts])).db.observations,
      row.id = item.id ∧ visibilityFilter host false row = visible

theorem RecordedBy.later {db : Db} {moves : List Move} {item : Created} {visible : Bool}
    (recorded : @RecordedBy host db moves item visible) (move : Move) : @RecordedBy host db (moves ++ [move]) item visible := by
  obtain ⟨before, env, allowQueue, e, ts, after, rfl, row⟩ := recorded
  exact ⟨before, env, allowQueue, e, ts, after ++ [move], by simp, row⟩

theorem appendedRecorded (db : Db) {moves : List Move} (reads : Reads host moves) {n : Nat} {item : Created}
    (mem : (n, StreamData.observationCreated item) ∈ appended (served host db moves)) :
    @RecordedBy host db moves item (!privateTags item.privacyTags) := by
  induction moves using List.reverseRecOn with
  | nil => cases mem
  | append_singleton moves move ih =>
    have split : served host db (moves ++ [move]) = served host db moves ++ actionsOf host (run (advance host) (opening db) moves) move := by
      rw [served, logAppend]
      simp [Runs.log, served]
    rw [split, appended, logAppend] at mem
    rcases List.mem_append.mp mem with old | new
    · exact (ih (fun env allowQueue e ts mem => reads env allowQueue e ts (List.mem_append_left _ mem)) old).later move
    · cases move with
      | record env allowQueue e ts =>
        cases outcome : recordEvent host env allowQueue e (run (advance host) (opening db) moves).db with
        | mk after answer =>
          cases answer with
          | created created copy warning =>
            simp only [actionsOf, outcome, streamedItem, Runs.log, appendedBy, List.append_nil, List.mem_singleton, Prod.mk.injEq,
              StreamData.observationCreated.injEq] at new
            obtain ⟨-, rfl⟩ := new
            obtain ⟨row, held, seen⟩ := createdRow (reads env allowQueue e ts (by simp)) outcome
            refine ⟨moves, env, allowQueue, e, ts, [], rfl, row, ?_, seen⟩
            rw [runSnoc]
            simpa [advance, storeAfter, outcome] using held
          | _ => simp [actionsOf, outcome, streamedItem, Runs.log] at new
      | _ => simp [actionsOf, Runs.log, appendedBy] at new

-- A connection that asked for no private events is sent an observation only where the row recorded with it was one
-- that the readers' filter shows, and the filter hides every row whose event the stream withholds for its tags.
theorem streamedVisible (db : Db) (moves : List Move) (reads : Reads host moves) {k : Nat} {c : Connection}
    (found : (run (advance host) (opening db) moves).server.connections[k]? = some c) (plain : c.filters.includePrivate = false) :
    (∀ chunk ∈ c.sent, ∀ item, chunk.data = .observationCreated item → @RecordedBy host db moves item true) ∧
      ∀ n item, (n, StreamData.observationCreated item) ∈ appended (served host db moves) → privateTags item.privacyTags = true →
        (n, StreamData.observationCreated item) ∉ c.entries ∧ @RecordedBy host db moves item false := by
  have sentOnly : ∀ entry ∈ c.entries, entry ∈ appended (served host db moves) ∧ shouldSkip c.filters entry.2 = false := by
    rw [servedRun] at found
    obtain ⟨before, request, core, db', after, actions, rfl⟩ := connectedBy found
    obtain ⟨d, there, followed⟩ := follow before request core db' after
    rw [← actions, found] at there
    obtain rfl := Option.some.inj there
    rw [actions]
    intro entry mem
    have known := followed.sends.known entry mem
    exact ⟨known, ((followed.exactly known).mp mem).2.2.1⟩
  have cleared : ∀ item, shouldSkip c.filters (.observationCreated item) = false → privateTags item.privacyTags = false := by
    intro item passed
    rw [shouldSkip, plain] at passed
    split at passed
    · cases passed
    · rename_i open_
      simpa [privateTags, StreamData.privacyTags] using open_
  refine ⟨fun chunk mem item is => ?_, fun n item logged hides => ⟨fun sent => ?_, ?_⟩⟩
  · obtain ⟨logged, passed⟩ := sentOnly chunk.entry (List.mem_map_of_mem mem)
    have clear := cleared item (by simpa [Chunk.entry, is] using passed)
    have recorded := appendedRecorded db reads (show (chunk.id, StreamData.observationCreated item) ∈ _ by simpa [Chunk.entry, is] using logged)
    rwa [clear] at recorded
  · have clear := cleared item (sentOnly _ sent).2
    rw [hides] at clear
    cases clear
  · have recorded := appendedRecorded db reads logged
    rwa [hides] at recorded

end

def tagHost : Host := {plainHost with parseJson := fun text => if text = "[\"private\"]" then some (texts ["private"]) else none}
def secretEvent : EventEnvelope := {plainEvent "a" "alpha" [("content", .str "x")] with privacyTags := ["Private"]}
def recordSecret : Move := .record plainAmbient true secretEvent "2026-01-01T00:00:00.000Z"
def secretMoves : List Move := [.connect plainRequest ProjectScopes.bareCore, recordSecret, .poll 0 ProjectScopes.bareCore]

theorem streamedVisibleSecret : ∃ c, (run (advance tagHost) (opening Db.empty) secretMoves).server.connections[0]? = some c ∧
    c.filters.includePrivate = false ∧ ∀ n item, (n, StreamData.observationCreated item) ∈ appended (served tagHost Db.empty secretMoves) →
      privateTags item.privacyTags = true → (n, StreamData.observationCreated item) ∉ c.entries := by
  obtain ⟨c, there, followed⟩ := follow [] plainRequest ProjectScopes.bareCore Db.empty
    (Runs.log (advance tagHost) (actionsOf tagHost) (advance tagHost (opening Db.empty) (.connect plainRequest ProjectScopes.bareCore))
      [recordSecret, .poll 0 ProjectScopes.bareCore])
  have found : (run (advance tagHost) (opening Db.empty) secretMoves).server.connections[0]? = some c := by
    rw [servedRun]
    exact there
  have plain : c.filters.includePrivate = false := by
    rw [followed.filtered]
    rfl
  have reads : Reads tagHost secretMoves := by
    intro env allowQueue e ts mem
    obtain ⟨-, -, rfl, -⟩ : env = plainAmbient ∧ allowQueue = true ∧ e = secretEvent ∧ ts = "2026-01-01T00:00:00.000Z" := by
      simpa [secretMoves, recordSecret] using mem
    have tags : Text.normalizeTags tagHost secretEvent.privacyTags = ["private"] := by decide +kernel
    have lower : ("private" : String).toLower = "private" := by decide +kernel
    constructor
    · rw [tags]
      rfl
    · rw [tags]
      simpa using lower
  exact ⟨c, found, plain, fun n item mem secret => ((streamedVisible Db.empty secretMoves reads found plain).2 n item mem secret).1⟩

end HarnessMem.StreamPrivacy
