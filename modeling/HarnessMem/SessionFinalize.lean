import HarnessMem.Handoff
import HarnessMem.Search
import HarnessMem.Sessions
import Mathlib.Data.List.Induction

/-! `finalizeSession`: the handoff of a session's first live observations, the update of its row, and the
`session_end` event recorded after it. -/
namespace HarnessMem.SessionFinalize
open Handoff Js Recorder Regex Text Visibility

structure FinalizeSessionRequest where
  platform : Option String
  project : Option String
  sessionId : String
  correlationId : Option String
  summaryMode : Option String
  persistSkill : Bool
  isPartial : Bool

-- The clock readings in order, the working directory's name, and what the two recordings read from outside.
structure Moment where
  readIso : String
  nowIso : String
  cwdName : String
  ending : Ambient
  skill : Ambient
  skillIso : String

section
variable (host : Host)

def maxRows (summaryMode : String) : Nat :=
  if summaryMode = "detailed" then 48 else if summaryMode = "short" then 20 else 32

def eventTypeOf (db : Db) (row : Observation) : Option String :=
  row.eventId.bind (fun id => (db.events.find? (fun event => event.eventId = id)).map Event.eventType)

def sessionOrder (a b : Observation) : Prop := a.createdAt < b.createdAt ∨ a.createdAt = b.createdAt ∧ a.id ≤ b.id
instance : DecidableRel sessionOrder := fun _ _ => inferInstanceAs (Decidable (_ ∨ _))

-- The live observations of a session, oldest first.
def sessionRows (now sessionId : String) (db : Db) : List SessionSummaryRow :=
  (Tables.orderBy sessionOrder
    (db.observations.filter (fun row => row.sessionId = sessionId && archivedFilter now false row))).map (fun row =>
      ⟨row.title, row.contentRedacted, row.createdAt, eventTypeOf db row, row.tagsJson⟩)

def loadSessionSummaryRows (now sessionId : String) (limit : Nat) (db : Db) : List SessionSummaryRow :=
  (sessionRows now sessionId db).take limit

def sessionHandoff (now sessionId summaryMode : String) (db : Db) : SessionHandoff :=
  buildStructuredHandoff host sessionId (loadSessionSummaryRows now sessionId (maxRows summaryMode) db) summaryMode

def completion : Re := chain [.boundary, wordsI ["completed", "done", "shipped", "merged", "deployed"], .boundary]

def skillRow (db : Db) (sessionId : String) (row : Observation) : Bool :=
  row.sessionId = sessionId && !like "%\"skill\"%" row.tagsJson && !like "%\"finalized\"%" row.tagsJson &&
    match eventTypeOf db row with
    | none => true
    | some kind => !(["session_start", "session_end"].contains kind)

-- `Math.round` of the minutes between two instants, not below 0; an unreadable one leaves null.
def durationJson (first last : Option Int) : Json :=
  match first, last with
  | some first, some last => .num (toString (max 0 ((2 * (last - first) + 60000) / 120000)))
  | _, _ => .null

def skillStep (row : Observation) (i : Nat) : Json :=
  .obj [("order", .num (toString (i + 1))), ("summary", .str (orElseText (slice (row.title.getD "") 0 120) ("step " ++ toString (i + 1)))),
    ("obs_id", .str row.id)]

structure SkillSuggestion where
  title : String
  json : Json

def detectSkillFromSession (sessionId createdAt : String) (db : Db) : Option SkillSuggestion :=
  let rows := Tables.orderBy sessionOrder (db.observations.filter (skillRow db sessionId))
  match rows.head?, rows.getLast? with
  | some first, some last =>
    if rows.length < 5 then none
    else if (parseArrayJson host last.tagsJson).any (test completion) || test completion (last.title.getD "") ||
        test completion last.contentRedacted then
      let firstTitle := orElseText (slice (first.title.getD "") 0 60) "start"
      let lastTitle := orElseText (slice (last.title.getD "") 0 60) "end"
      let title := firstTitle ++ " → " ++ lastTitle
      some ⟨title, .obj [("title", .str title), ("steps", .arr (rows.zipIdx.map (fun (row, i) => skillStep row i))),
        ("tools_used", .arr []),
        ("estimated_duration_min", durationJson (host.parseDate first.createdAt) (host.parseDate last.createdAt)),
        ("source_session_id", .str sessionId), ("created_at", .str createdAt)]⟩
    else none
  | _, _ => none

-- The fields both events take from the request; the others are left undefined.
def finalizeEvent (request : FinalizeSessionRequest) (m : Moment) (eventType : String)
    (payload : List (String × Json)) (tags : List String) : EventEnvelope where
  eventId := none
  platform := orElseText (request.platform.getD "") "claude"
  project := orElseText (request.project.getD "") m.cwdName
  sessionId := request.sessionId
  eventType
  ts := some m.nowIso
  payload
  metadata := none
  tags
  privacyTags := []
  dedupeHash := none
  correlationId := request.correlationId
  userId := none
  teamId := none
  threadId := none
  topic := none
  expiresAt := none
  eventTime := none
  observedAt := none
  validFrom := none
  validTo := none
  supersedes := none
  invalidatedAt := none
  branch := none

inductive Answer where
  | required
  | closedAlready
  | finalized (summaryMode summary : String) (handoff : SessionHandoff) (finalizedAt : String) (skill : Option SkillSuggestion)
  | partially (summaryMode summary : String) (handoff : SessionHandoff) (finalizedAt : String)

def endPayload (summary summaryMode : String) (handoff : SessionHandoff) : List (String × Json) :=
  [("summary", .str summary), ("summary_mode", .str summaryMode), ("handoff", handoff.toJson)]

def partialFinalizeSession (request : FinalizeSessionRequest) (m : Moment) (db : Db) : Db × Answer :=
  let closed := ((db.sessions.find? (fun row => row.sessionId = request.sessionId)).bind Session.endedAt).bind (truthy ∘ some)
  if closed.isSome then (db, .closedAlready)
  else
    let mode := orElseText (request.summaryMode.getD "") "standard"
    let handoff := sessionHandoff host m.readIso request.sessionId mode db
    let summary := renderHandoffSummary request.sessionId mode handoff
    let event := {finalizeEvent request m "session_end" (endPayload summary mode handoff) ["finalized", "partial"] with
      metadata := some [("is_partial", .bool true)]}
    ((recordEvent host m.ending true event db).1, .partially mode summary handoff m.nowIso)

def closeSession (request : FinalizeSessionRequest) (now summaryMode summary : String) (db : Db) : Db :=
  {db with sessions := Tables.update (fun row => row.sessionId = request.sessionId) (fun row => {row with
    endedAt := some now, summary := some summary, summaryMode := some summaryMode
    correlationId := row.correlationId.orElse (fun _ => request.correlationId), updatedAt := now}) db.sessions}

def endSession (request : FinalizeSessionRequest) (m : Moment) (summaryMode summary : String) (handoff : SessionHandoff)
    (db : Db) : Db :=
  (recordEvent host m.ending true
    (finalizeEvent request m "session_end" (endPayload summary summaryMode handoff) ["finalized"])
    (closeSession request m.nowIso summaryMode summary db)).1

def persistSkill (request : FinalizeSessionRequest) (m : Moment) (db : Db) : Option SkillSuggestion → Db
  | some skill =>
    if request.persistSkill then
      (recordEvent host m.skill true (finalizeEvent request m "checkpoint"
        [("title", .str skill.title), ("content", .str (Json.stringify skill.json))]
        ["skill", "procedural", "skill-from:" ++ request.sessionId]) db).1
    else db
  | none => db

def finalizeSession (request : FinalizeSessionRequest) (m : Moment) (db : Db) : Db × Answer :=
  if request.sessionId = "" then (db, .required)
  else if request.isPartial then partialFinalizeSession host request m db
  else
    let mode := orElseText (request.summaryMode.getD "") "standard"
    let handoff := sessionHandoff host m.readIso request.sessionId mode db
    let summary := renderHandoffSummary request.sessionId mode handoff
    let ended := endSession host request m mode summary handoff db
    let skill := detectSkillFromSession host request.sessionId m.skillIso ended
    (persistSkill host request m ended skill, .finalized mode summary handoff m.nowIso skill)

-- What the session rows say of one session.
def Closed (sessionId now summary : String) (db : Db) : Prop :=
  ∃ row ∈ db.sessions, row.sessionId = sessionId ∧ row.endedAt = some now ∧ row.summary = some summary
def Open (sessionId : String) (db : Db) : Prop := ∀ row ∈ db.sessions, row.sessionId = sessionId → row.endedAt = none

theorem ensureClosed {sessionId now summary : String} (c : Call) {db : Db} (closed : Closed sessionId now summary db) :
    Closed sessionId now summary (ensureSession c.env c.event c.draft db) := by
  obtain ⟨row, mem, id, ended, summed⟩ := closed
  unfold Closed
  rw [ensureSessionOf]
  split
  · by_cases own : row.sessionId = c.event.sessionId
    · exact ⟨meetSession row c, Tables.memUpdate.mpr ⟨row, mem, by simp [own]⟩, id, ended, summed⟩
    · exact ⟨row, Tables.memUpdate.mpr ⟨row, mem, by simp [own]⟩, id, ended, summed⟩
  · exact ⟨row, List.mem_append_left _ mem, id, ended, summed⟩

theorem ensureOpen {sessionId : String} (c : Call) {db : Db} (still : Open sessionId db) :
    Open sessionId (ensureSession c.env c.event c.draft db) := by
  unfold Open
  rw [ensureSessionOf]
  split
  · exact Tables.updateAll (fun row _ held id => held id) still
  · intro row mem id
    rcases List.mem_append.mp mem with old | new
    · exact still row old id
    · rw [List.mem_singleton.mp new]
      rfl

theorem recordClosed {sessionId now summary : String} {env : Ambient} (e : EventEnvelope) {db : Db}
    (closed : Closed sessionId now summary db) : Closed sessionId now summary (recordEvent host env true e db).1 := by
  rcases recordSessions host env true e db with kept | ⟨d, ensured⟩
  · rwa [Closed, kept]
  · rw [Closed, ensured]
    exact ensureClosed ⟨env, e, d⟩ closed

theorem recordOpen {sessionId : String} {env : Ambient} (e : EventEnvelope) {db : Db} (still : Open sessionId db) :
    Open sessionId (recordEvent host env true e db).1 := by
  rcases recordSessions host env true e db with kept | ⟨d, ensured⟩
  · rwa [Open, kept]
  · rw [Open, ensured]
    exact ensureOpen ⟨env, e, d⟩ still

-- A property of the session rows that recording keeps comes through the rest of a finalize.
theorem persistKeeps {P : Db → Prop} (keep : ∀ {env : Ambient} (e : EventEnvelope) {db : Db}, P db → P (recordEvent host env true e db).1)
    (request : FinalizeSessionRequest) (m : Moment) {db : Db} (held : P db) (skill : Option SkillSuggestion) :
    P (persistSkill host request m db skill) := by
  cases skill with
  | none => exact held
  | some skill =>
    unfold persistSkill
    simp only
    split
    · exact keep _ held
    · exact held

theorem finalizeKeeps {P : Db → Prop} (keep : ∀ {env : Ambient} (e : EventEnvelope) {db : Db}, P db → P (recordEvent host env true e db).1)
    {request : FinalizeSessionRequest} {m : Moment} {db after : Db} {mode summary now : String} {handoff : SessionHandoff}
    {skill : Option SkillSuggestion} (ok : finalizeSession host request m db = (after, .finalized mode summary handoff now skill))
    (closed : P (closeSession request now mode summary db)) : P after := by
  unfold finalizeSession at ok
  split at ok
  · cases ok
  split at ok
  · unfold partialFinalizeSession at ok
    simp only at ok
    split at ok <;> cases ok
  · cases ok
    refine persistKeeps host keep request m ?_ _
    exact keep _ closed

theorem fullFinalize {request : FinalizeSessionRequest} (named : request.sessionId ≠ "") (full : request.isPartial = false)
    (m : Moment) (db : Db) : ∃ after mode summary handoff skill,
      finalizeSession host request m db = (after, .finalized mode summary handoff m.nowIso skill) := by
  unfold finalizeSession
  rw [if_neg named, full]
  exact ⟨_, _, _, _, _, rfl⟩

theorem finalizeClosesKnown {request : FinalizeSessionRequest} {m : Moment} {db after : Db} {mode summary now : String}
    {handoff : SessionHandoff} {skill : Option SkillSuggestion}
    (ok : finalizeSession host request m db = (after, .finalized mode summary handoff now skill)) :
    Closed request.sessionId now summary after ↔ ∃ row ∈ db.sessions, row.sessionId = request.sessionId := by
  constructor
  · intro closed
    by_contra unknown
    push Not at unknown
    have still : Open request.sessionId after := by
      refine finalizeKeeps host (fun e => recordOpen host e) ok ?_
      intro row mem id
      obtain ⟨old, held, rfl⟩ := Tables.memUpdate.mp mem
      have other := unknown old held
      simp [other] at id
    obtain ⟨row, mem, id, ended, _⟩ := closed
    rw [still row mem id] at ended
    cases ended
  · rintro ⟨row, mem, id⟩
    refine finalizeKeeps host (fun e => recordClosed host e) ok ?_
    exact ⟨_, Tables.memUpdate.mpr ⟨row, mem, rfl⟩, by simp [id]⟩
end

def asked : FinalizeSessionRequest := ⟨none, some "p", "s", none, none, false, false⟩
def noon : Moment :=
  ⟨"2026-01-01T12:00:00.000Z", "2026-01-01T12:00:00.000Z", "p", plainAmbient, plainAmbient, "2026-01-01T12:00:00.000Z"⟩

def running : Db := ensureAll .empty [begun "a" "2026-01-01T11:00:00.000Z"]

theorem runningSessionCloses : ∃ after mode summary handoff skill,
    finalizeSession plainHost asked noon running = (after, .finalized mode summary handoff noon.nowIso skill) ∧
      Closed "s" noon.nowIso summary after := by
  obtain ⟨after, mode, summary, handoff, skill, ok⟩ := fullFinalize plainHost (by decide : asked.sessionId ≠ "") rfl noon running
  exact ⟨after, mode, summary, handoff, skill, ok, (finalizeClosesKnown plainHost ok).mpr ⟨_, List.mem_cons_self, rfl⟩⟩

theorem unknownSessionStaysOpen : ∃ after mode summary handoff skill,
    finalizeSession plainHost asked noon .empty = (after, .finalized mode summary handoff noon.nowIso skill) ∧
      ¬ Closed "s" noon.nowIso summary after := by
  obtain ⟨after, mode, summary, handoff, skill, ok⟩ := fullFinalize plainHost (by decide : asked.sessionId ≠ "") rfl noon .empty
  refine ⟨after, mode, summary, handoff, skill, ok, ?_⟩
  rintro ⟨row, mem, id, ended, _⟩
  have still : Open "s" after :=
    finalizeKeeps plainHost (fun e => recordOpen plainHost e) ok (fun row mem => by cases mem)
  rw [still row mem id] at ended
  cases ended

section
variable (host : Host)

-- How a row reads in the exchange: a visible prompt, a visible answer, or neither.
def promptOf (row : SessionSummaryRow) : Option String :=
  let title := summarizeLine (unwrapStructuredObservationText host (row.title.getD "")) 120
  let content := summarizeLine (unwrapStructuredObservationText host row.contentRedacted) 240
  if row.eventType = some "user_prompt" ∧ hasIgnoredVisibleTag (parseArrayJson host row.tagsJson) = false ∧
      isIgnoredVisiblePromptText (buildVisibleInteractionText title content) = false then
    some (orElseText content title)
  else none

def answerOf (row : SessionSummaryRow) : Option String :=
  let title := summarizeLine (unwrapStructuredObservationText host (row.title.getD "")) 120
  let content := summarizeLine (unwrapStructuredObservationText host row.contentRedacted) 240
  if row.eventType ≠ some "user_prompt" ∧ isStructuredHandoffNoiseRow host (row.eventType.getD "") title = false ∧
      title = "assistant_response" ∧ hasIgnoredVisibleTag (parseArrayJson host row.tagsJson) = false ∧
      isIgnoredVisibleResponseText content = false then
    some (orElseText content title)
  else none

-- The latest exchange of rows given newest first: the last answer with the closest prompt before it.
def exchangeOf : List SessionSummaryRow → LatestExchange
  | [] => ⟨none, none, false⟩
  | row :: older =>
    match answerOf host row with
    | some answer => ⟨older.findSome? (promptOf host), some answer, false⟩
    | none => exchangeOf older

def latestExchange (rows : List SessionSummaryRow) : LatestExchange :=
  if rows.any (fun row => (answerOf host row).isSome) then exchangeOf host rows.reverse
  else match rows.reverse.findSome? (promptOf host) with
    | some prompt => ⟨some prompt, none, true⟩
    | none => ⟨none, none, false⟩

-- What a row leaves the exchange as, sections and hints aside.
structure Exchanged (g after : Gathered) (prompt answer : Option String) : Prop where
  currentPrompt : after.currentPrompt = prompt.orElse (fun _ => g.currentPrompt)
  user : after.user = if answer.isSome then g.currentPrompt else g.user
  assistant : after.assistant = answer.orElse (fun _ => g.assistant)

theorem sectionsAside (sectionLimit keyPointLimit : Nat) (s : ExplicitHandoffSections) (g : Gathered) :
    Exchanged g (pushSections sectionLimit keyPointLimit s g) none none := ⟨rfl, rfl, rfl⟩
theorem hintsAside (sectionLimit keyPointLimit : Nat) (visibleText line : String) (g : Gathered) :
    Exchanged g (pushHints sectionLimit keyPointLimit visibleText line g) none none := ⟨rfl, rfl, rfl⟩
theorem Exchanged.then {g between after : Gathered} {prompt answer : Option String} (first : Exchanged g between prompt answer)
    (second : Exchanged between after none none) : Exchanged g after prompt answer :=
  ⟨second.currentPrompt.trans first.currentPrompt, second.user.trans first.user, second.assistant.trans first.assistant⟩

theorem gatherExchange (sectionLimit keyPointLimit : Nat) (g : Gathered) (row : SessionSummaryRow) :
    Exchanged g (gather host sectionLimit keyPointLimit g row) (promptOf host row) (answerOf host row) := by
  unfold gather promptOf answerOf orElseText
  dsimp only
  generalize unwrapStructuredObservationText host row.contentRedacted = normalizedContent
  generalize unwrapStructuredObservationText host (row.title.getD "") = normalizedTitle
  generalize parseExplicitHandoffSections (if normalizedContent = "" then normalizedTitle else normalizedContent) sectionLimit = explicit
  generalize summarizeLine normalizedTitle 120 = title
  generalize summarizeLine normalizedContent 240 = content
  generalize (if content = "" then title else content) = shown
  generalize hasIgnoredVisibleTag (parseArrayJson host row.tagsJson) = tagged
  generalize isIgnoredVisiblePromptText (buildVisibleInteractionText title content) = noPrompt
  generalize isStructuredHandoffNoiseRow host (row.eventType.getD "") title = noise
  generalize isIgnoredVisibleResponseText content = noAnswer
  have sections := sectionsAside sectionLimit keyPointLimit explicit g
  generalize pushSections sectionLimit keyPointLimit explicit g = pushed at *
  by_cases prompt : row.eventType = some "user_prompt"
  · have unanswered : ¬ (row.eventType ≠ some "user_prompt" ∧ noise = false ∧ title = "assistant_response" ∧ tagged = false ∧
        noAnswer = false) := fun answer => answer.1 prompt
    rw [if_pos prompt, if_neg unanswered]
    by_cases hidden : (tagged || noPrompt) = true
    · have unasked : ¬ (row.eventType = some "user_prompt" ∧ tagged = false ∧ noPrompt = false) := by
        rintro ⟨_, shown, visible⟩
        simp [shown, visible] at hidden
      rw [if_pos hidden, if_neg unasked]
      exact sections
    · have asked : row.eventType = some "user_prompt" ∧ tagged = false ∧ noPrompt = false := ⟨prompt, by simpa using hidden⟩
      rw [if_neg hidden, if_pos asked]
      exact ⟨rfl, sections.user, sections.assistant⟩
  · have unasked : ¬ (row.eventType = some "user_prompt" ∧ tagged = false ∧ noPrompt = false) := fun asked => prompt asked.1
    rw [if_neg prompt, if_neg unasked]
    by_cases answer : row.eventType ≠ some "user_prompt" ∧ noise = false ∧ title = "assistant_response" ∧ tagged = false ∧ noAnswer = false
    · have answered : Exchanged g {pushed with user := pushed.currentPrompt, assistant := some shown} none (some shown) :=
        ⟨sections.currentPrompt, sections.currentPrompt, rfl⟩
      rw [if_pos answer]
      obtain ⟨_, quiet, named, untagged, visible⟩ := answer
      rw [if_neg (by simp [quiet]), if_pos named, if_neg (by simp [untagged, visible])]
      split
      · exact answered
      · exact answered.then (hintsAside _ _ _ _ _)
    · rw [if_neg answer]
      split
      · exact sections
      split
      · split
        · exact sections
        · rename_i quiet named hidden
          rw [Bool.or_eq_true, not_or, Bool.not_eq_true, Bool.not_eq_true] at hidden
          exact absurd ⟨prompt, by simpa using quiet, named, hidden⟩ answer
      · split
        · exact sections
        · exact sections.then (hintsAside _ _ _ _ _)

-- The whole loop: the newest prompt, and the newest answer with the prompt before it.
theorem foldExchange (sectionLimit keyPointLimit : Nat) (rows : List SessionSummaryRow) :
    let g := rows.foldl (gather host sectionLimit keyPointLimit) ⟨[], [], [], [], [], none, none, none⟩
    g.currentPrompt = rows.reverse.findSome? (promptOf host) ∧
      g.user = (exchangeOf host rows.reverse).user ∧ g.assistant = (exchangeOf host rows.reverse).assistant := by
  induction rows using List.reverseRecOn with
  | nil => exact ⟨rfl, rfl, rfl⟩
  | append_singleton rows row ih =>
    intro g
    obtain ⟨prompt, user, assistant⟩ := ih
    have step := gatherExchange host sectionLimit keyPointLimit
      (rows.foldl (gather host sectionLimit keyPointLimit) ⟨[], [], [], [], [], none, none, none⟩) row
    simp only [g, List.foldl_append, List.foldl_cons, List.foldl_nil, List.reverse_append, List.reverse_cons, List.reverse_nil,
      List.nil_append, List.singleton_append, List.findSome?_cons, exchangeOf]
    refine ⟨?_, ?_, ?_⟩
    · rw [step.currentPrompt, prompt]
      cases promptOf host row <;> rfl
    · rw [step.user, prompt, user]
      cases answerOf host row <;> rfl
    · rw [step.assistant, assistant]
      cases answerOf host row <;> rfl

theorem answerShown {row : SessionSummaryRow} {answer : String} (found : answerOf host row = some answer) : answer ≠ "" := by
  unfold answerOf at found
  simp only at found
  split at found
  · rename_i seen
    obtain ⟨_, _, _, _, visible⟩ := seen
    rw [← Option.some.inj found]
    generalize summarizeLine (unwrapStructuredObservationText host row.contentRedacted) 240 = content at visible ⊢
    intro blank
    have empty : content ≠ "" := by
      rintro rfl
      exact absurd visible (by decide)
    rw [orElseText, if_neg empty] at blank
    exact empty blank
  · cases found

theorem exchangeComplete (rows : List SessionSummaryRow) : (exchangeOf host rows).incomplete = false ∧
    ((truthy (exchangeOf host rows).user).isSome && (truthy (exchangeOf host rows).assistant).isNone) = false := by
  induction rows with
  | nil => exact ⟨rfl, rfl⟩
  | cons row older ih =>
    rw [exchangeOf]
    cases found : answerOf host row with
    | none => exact ih
    | some answer => simp [truthy, Option.filter, answerShown host found]

theorem handoffExchange (now sessionId summaryMode : String) (db : Db) :
    (sessionHandoff host now sessionId summaryMode db).latestExchange =
      exchangeOf host (loadSessionSummaryRows now sessionId (maxRows summaryMode) db).reverse := by
  have fold := foldExchange host (if summaryMode = "detailed" then 5 else if summaryMode = "short" then 2 else 3)
    (if summaryMode = "detailed" then 6 else if summaryMode = "short" then 2 else 4)
    (loadSessionSummaryRows now sessionId (maxRows summaryMode) db)
  have complete := exchangeComplete host (loadSessionSummaryRows now sessionId (maxRows summaryMode) db).reverse
  simp only at fold
  simp only [sessionHandoff, buildStructuredHandoff, fold.2.1, fold.2.2, complete.2]
  rw [← complete.1]

theorem exchangeUnanswered {rows : List SessionSummaryRow} (none : ∀ row ∈ rows, answerOf host row = none) :
    exchangeOf host rows = ⟨.none, .none, false⟩ := by
  induction rows with
  | nil => rfl
  | cons row older ih =>
    rw [exchangeOf, none row List.mem_cons_self]
    exact ih (fun other mem => none other (List.mem_cons_of_mem _ mem))

theorem exchangeBeyond {newer : List SessionSummaryRow} (none : ∀ row ∈ newer, answerOf host row = none)
    (older : List SessionSummaryRow) : exchangeOf host (newer ++ older) = exchangeOf host older := by
  induction newer with
  | nil => rfl
  | cons row newer ih =>
    rw [List.cons_append, exchangeOf, none row List.mem_cons_self]
    exact ih (fun other mem => none other (List.mem_cons_of_mem _ mem))

-- Where the window of the first rows shows what the whole session would: an answer was given if anything was
-- asked, and none stands beyond the window but one that reads as the last inside it.
structure Reached (rows : List SessionSummaryRow) (limit : Nat) : Prop where
  answered : (∃ row ∈ rows, answerOf host row ≠ none) ∨ ∀ row ∈ rows, promptOf host row = none
  window : (∀ row ∈ rows.drop limit, answerOf host row = none) ∨
    exchangeOf host (rows.take limit).reverse = exchangeOf host rows.reverse

theorem latestExchangeExact (now sessionId summaryMode : String) (db : Db) :
    (sessionHandoff host now sessionId summaryMode db).latestExchange = latestExchange host (sessionRows now sessionId db) ↔
      Reached host (sessionRows now sessionId db) (maxRows summaryMode) := by
  rw [handoffExchange, loadSessionSummaryRows]
  generalize sessionRows now sessionId db = rows
  generalize maxRows summaryMode = limit
  by_cases some : ∃ row ∈ rows, answerOf host row ≠ none
  · have any : rows.any (fun row => (answerOf host row).isSome) = true := by
      simpa [List.any_eq_true, Option.isSome_iff_ne_none] using some
    rw [latestExchange, if_pos any]
    constructor
    · exact fun same => ⟨.inl some, .inr same⟩
    · rintro ⟨_, quiet | same⟩
      · have split : rows.reverse = (rows.drop limit).reverse ++ (rows.take limit).reverse := by
          rw [← List.reverse_append, List.take_append_drop]
        rw [split, exchangeBeyond host (fun row mem => quiet row (List.mem_reverse.mp mem))]
      · exact same
  · have silent : ∀ row ∈ rows, answerOf host row = none := by
      push Not at some
      exact some
    have none : ¬ rows.any (fun row => (answerOf host row).isSome) = true := by
      simpa [List.any_eq_true, Option.isSome_iff_ne_none] using silent
    rw [latestExchange, if_neg none,
      exchangeUnanswered host (fun row mem => silent row (List.mem_of_mem_take (List.mem_reverse.mp mem)))]
    constructor
    · intro same
      refine ⟨.inr (fun row mem => ?_), .inl (fun row mem => silent row (List.mem_of_mem_drop mem))⟩
      cases asked : rows.reverse.findSome? (promptOf host) with
      | none => exact List.findSome?_eq_none_iff.mp asked row (List.mem_reverse.mpr mem)
      | some prompt =>
        rw [asked] at same
        cases same
    · rintro ⟨answered | unasked, _⟩
      · exact absurd answered some
      · rw [List.findSome?_eq_none_iff.mpr (fun row mem => unasked row (List.mem_reverse.mp mem))]
end

def promptEvent : Event :=
  ⟨"e", "claude", "p", "s", "user_prompt", "2026-01-01T11:00:00.000Z", "\x7b\x7d", "[]", "[]", "e", some "obs_e", none, "default", none,
    "2026-01-01T11:00:00.000Z"⟩
def promptRow : Observation := {Search.plainRow "obs_e" "p" "default" with
  eventId := some "e", title := some "hello", contentRedacted := "hello", createdAt := "2026-01-01T11:00:00.000Z"}
def asking : Db := {Db.empty with events := [promptEvent], observations := [promptRow]}

theorem openPromptLost : (sessionHandoff plainHost noon.readIso "s" "standard" asking).latestExchange ≠
    latestExchange plainHost (sessionRows noon.readIso "s" asking) := by
  let row : SessionSummaryRow := ⟨some "hello", "hello", "2026-01-01T11:00:00.000Z", some "user_prompt", "[]"⟩
  have rows : sessionRows noon.readIso "s" asking = [row] := by rfl
  have prompt : promptOf plainHost row = some "hello" := by decide +kernel
  have answer : answerOf plainHost row = none := by decide
  rw [handoffExchange, loadSessionSummaryRows, rows]
  have window : exchangeOf plainHost ([row].take (maxRows "standard")).reverse = ⟨none, none, false⟩ :=
    exchangeUnanswered plainHost (fun other mem => by
      rw [List.mem_singleton.mp (List.mem_of_mem_take (List.mem_reverse.mp mem))]
      exact answer)
  intro same
  rw [window] at same
  simp [latestExchange, answer, prompt] at same

end HarnessMem.SessionFinalize
