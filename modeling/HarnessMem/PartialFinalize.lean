import HarnessMem.Dedupe
import HarnessMem.RecordFaults
import HarnessMem.SessionFinalize

/-! The partial finalize scheduler: the open sessions a tick takes up, and those it leaves for the next one. -/
namespace HarnessMem.PartialFinalize
open Recorder Runs SessionFinalize Text

structure ActiveSessionCandidate where
  sessionId : String
  platform : String
  project : String
  deriving DecidableEq

def liveRows (sessionId : String) (db : Db) : List Observation := db.observations.filter (fun row => row.sessionId = sessionId && row.live)
def isSessionEnd (db : Db) (row : Observation) : Bool :=
  db.events.any (fun event => row.eventId = some event.eventId && event.eventType = "session_end")

def latestEventAt (sessionId : String) (db : Db) : Option String := ((liveRows sessionId db).map Observation.createdAt).max?
def latestSummaryAt (sessionId : String) (db : Db) : Option String :=
  (((liveRows sessionId db).filter (isSessionEnd db)).map Observation.createdAt).max?

-- `HAVING latest_event_at > COALESCE(latest_summary_at, '')`; a session without live rows is not joined.
def stale (sessionId : String) (db : Db) : Bool :=
  (latestEventAt sessionId db).any (fun latest => (latestSummaryAt sessionId db).getD "" < latest)

def latest (db : Db) (row : Session) : String := (latestEventAt row.sessionId db).getD ""

-- One tick: how many sessions it takes at most, the order of sessions that tie, and what each finalize reads from outside.
structure Tick where
  maxSessionsPerTick : Nat
  scan : Tables.Scan Session
  moments : Nat → Moment

def waiting (db : Db) : List Session := db.sessions.filter (fun row => row.endedAt.isNone && stale row.sessionId db)

def inTurn (t : Tick) (db : Db) : List Session := Tables.orderBy (fun a b : Session => latest db b ≤ latest db a) (t.scan.arrange (waiting db))

def queryActiveSessions (t : Tick) (db : Db) : List ActiveSessionCandidate :=
  ((inTurn t db).take t.maxSessionsPerTick).map (fun row => ⟨row.sessionId, row.platform, row.project⟩)

section
variable (host : Host)

def partialRequest (session : ActiveSessionCandidate) : FinalizeSessionRequest :=
  ⟨some session.platform, some session.project, session.sessionId, none, none, false, true⟩

def processSessions (moments : Nat → Moment) : Nat → List ActiveSessionCandidate → Db → Db
  | _, [], db => db
  | i, session :: rest, db => processSessions moments (i + 1) rest (finalizeSession host (partialRequest session) (moments i) db).1

def tick (t : Tick) (db : Db) : Db := processSessions host t.moments 0 (queryActiveSessions t db) db

-- The other calls that write observations go on between ticks.
inductive Move where
  | tick (t : Tick)
  | record (env : Ambient) (allowQueue : Bool) (e : EventEnvelope)
  | archive (now : String) (ids : List String)

def step (db : Db) : Move → Db
  | .tick t => tick host t db
  | .record env allowQueue e => (recordEvent host env allowQueue e db).1
  | .archive now ids => Dedupe.archive now ids db

end

def standing (db : Db) : List (String × Option String) := db.sessions.map (fun row => (row.sessionId, row.endedAt))

-- An open session some row of which no summary covers.
def Selected (sessionId : String) (db : Db) : Prop := (sessionId, none) ∈ standing db ∧ stale sessionId db = true

def rowsIn (sessionId : String) (db : Db) : List Observation := db.observations.filter (fun row => row.sessionId = sessionId)

-- Rows are only ever added at the end.
def newRows (db after : Db) : List Observation := after.observations.drop db.observations.length

-- A move that neither records an event of the session nor archives one of its rows.
def Leaves (sessionId : String) (db : Db) : Move → Prop
  | .tick _ => True
  | .record _ _ e => e.sessionId ≠ sessionId
  | .archive _ ids => ∀ row ∈ rowsIn sessionId db, row.id ∉ ids

structure Grounded (db : Db) : Prop where
  sound : Dedupe.Sound db
  held : ∀ row ∈ db.observations, ∃ event ∈ db.events, row.eventId = some event.eventId

theorem maxText {texts : List String} {latest : String} : texts.max? = some latest ↔ latest ∈ texts ∧ ∀ text ∈ texts, text ≤ latest :=
  List.max?_eq_some_iff

theorem memLive {sessionId : String} {db : Db} {row : Observation} :
    row ∈ liveRows sessionId db ↔ row ∈ db.observations ∧ row.sessionId = sessionId ∧ row.live = true := by
  simp [liveRows]

theorem emptyLeast (text : String) : "" ≤ text :=
  String.le_iff_toList_le.mpr (not_lt.mp (List.not_lt_nil _))

-- The latest row of a session that has one.
theorem latestTop {sessionId : String} {db : Db} {row : Observation} (mem : row ∈ liveRows sessionId db) :
    ∃ top ∈ liveRows sessionId db, latestEventAt sessionId db = some top.createdAt ∧ row.createdAt ≤ top.createdAt := by
  unfold latestEventAt
  cases last : ((liveRows sessionId db).map Observation.createdAt).max? with
  | none =>
    rw [List.map_eq_nil_iff.mp (List.max?_eq_none_iff.mp last)] at mem
    cases mem
  | some date =>
    obtain ⟨held, most⟩ := maxText.mp last
    obtain ⟨top, live, rfl⟩ := List.mem_map.mp held
    exact ⟨top, live, rfl, most _ (List.mem_map_of_mem mem)⟩

-- Some row comes after every summary.
theorem staleIff (sessionId : String) (db : Db) : stale sessionId db = true ↔ ∃ row ∈ liveRows sessionId db, "" < row.createdAt ∧
    ∀ ended ∈ liveRows sessionId db, isSessionEnd db ended = true → ended.createdAt < row.createdAt := by
  have summed : ∀ date, (latestSummaryAt sessionId db).getD "" < date ↔ "" < date ∧
      ∀ ended ∈ liveRows sessionId db, isSessionEnd db ended = true → ended.createdAt < date := by
    intro date
    unfold latestSummaryAt
    cases last : (((liveRows sessionId db).filter (isSessionEnd db)).map Observation.createdAt).max? with
    | none =>
      have none := List.map_eq_nil_iff.mp (List.max?_eq_none_iff.mp last)
      exact (and_iff_left fun ended mem is => absurd (List.mem_filter.mpr ⟨mem, is⟩) (none ▸ List.not_mem_nil)).symm
    | some summary =>
      obtain ⟨mem, most⟩ := maxText.mp last
      constructor
      · intro later
        refine ⟨lt_of_le_of_lt (emptyLeast summary) later, fun ended live is => lt_of_le_of_lt ?_ later⟩
        exact most _ (List.mem_map_of_mem (List.mem_filter.mpr ⟨live, is⟩))
      · rintro ⟨-, all⟩
        obtain ⟨ended, held, rfl⟩ := List.mem_map.mp mem
        obtain ⟨live, is⟩ := List.mem_filter.mp held
        exact all ended live is
  constructor
  · intro later
    obtain ⟨date, last, later⟩ := (Option.any_eq_true _ _).mp later
    obtain ⟨row, live, rfl⟩ := List.mem_map.mp (maxText.mp last).1
    exact ⟨row, live, (summed _).mp (of_decide_eq_true later)⟩
  · rintro ⟨row, live, dated, all⟩
    obtain ⟨top, _, last, above⟩ := latestTop live
    rw [stale, last, Option.any_some, decide_eq_true_iff, summed]
    exact ⟨lt_of_lt_of_le dated above, fun ended held is => lt_of_lt_of_le (all ended held is) above⟩

-- Live rows added at the end, at most one for each session listed, and every old row a summary exactly when it was one.
structure Grew (sessions : List String) (summaries : Prop) (db after : Db) : Prop where
  observations : after.observations = db.observations ++ newRows db after
  ends : ∀ row ∈ db.observations, isSessionEnd after row = isSessionEnd db row
  own : ((newRows db after).map Observation.sessionId).Sublist sessions
  live : ∀ row ∈ newRows db after, row.live = true
  summed : summaries → ∀ row ∈ newRows db after, isSessionEnd after row = true

theorem newRowsOf {db after : Db} {added : List Observation} (observations : after.observations = db.observations ++ added) :
    newRows db after = added := by
  rw [newRows, observations, List.drop_left]

theorem grewKept (summaries : Prop) {db after : Db} (observations : after.observations = db.observations)
    (ends : ∀ row ∈ db.observations, isSessionEnd after row = isSessionEnd db row) : Grew [] summaries db after := by
  have none : newRows db after = [] := newRowsOf (observations.trans (List.append_nil _).symm)
  refine ⟨by rw [none, List.append_nil, observations], ends, ?_, ?_, ?_⟩
  · simp [none]
  · simp [none]
  · simp [none]

theorem grewSame (summaries : Prop) {db after : Db} (rows : db.SameRows after) : Grew [] summaries db after :=
  grewKept summaries rows.observations fun row _ => by rw [isSessionEnd, isSessionEnd, rows.events]

theorem grewTrans {sessions more : List String} {summaries : Prop} {a b c : Db} (first : Grew sessions summaries a b)
    (second : Grew more summaries b c) : Grew (sessions ++ more) summaries a c := by
  have all : c.observations = a.observations ++ (newRows a b ++ newRows b c) := by
    rw [second.observations, first.observations, List.append_assoc]
  have both := newRowsOf all
  have later : ∀ row, row ∈ a.observations ∨ row ∈ newRows a b → row ∈ b.observations := by
    intro row mem
    rw [first.observations]
    exact List.mem_append.mpr mem
  refine ⟨by rw [both]; exact all, fun row mem => ?_, ?_, ?_, fun summed => ?_⟩
  · exact (second.ends row (later row (.inl mem))).trans (first.ends row mem)
  · rw [both, List.map_append]
    exact first.own.append second.own
  · rw [both]
    exact List.forall_mem_append.mpr ⟨first.live, second.live⟩
  · rw [both]
    refine List.forall_mem_append.mpr ⟨fun row mem => ?_, second.summed summed⟩
    rw [second.ends row (later row (.inr mem))]
    exact first.summed summed row mem

theorem grewMono {sessions more : List String} {summaries : Prop} {db after : Db} (grew : Grew sessions summaries db after)
    (within : sessions.Sublist more) : Grew more summaries db after :=
  ⟨grew.observations, grew.ends, grew.own.trans within, grew.live, grew.summed⟩

-- An event under a new id is that of no row there was.
theorem endsKept {db after : Db} {event : Event} (held : ∀ row ∈ db.observations, ∃ event ∈ db.events, row.eventId = some event.eventId)
    (events : after.events = db.events ++ [event]) (fresh : ∀ old ∈ db.events, old.eventId ≠ event.eventId) :
    ∀ row ∈ db.observations, isSessionEnd after row = isSessionEnd db row := by
  intro row mem
  obtain ⟨own, stored, is⟩ := held row mem
  unfold isSessionEnd
  rw [events, List.any_append, is]
  simp [fresh own stored]

theorem groundedSame {db after : Db} (rows : db.SameRows after) (grounded : Grounded db) : Grounded after := by
  refine ⟨Dedupe.soundSame rows grounded.sound, ?_⟩
  rw [rows.observations, rows.events]
  exact grounded.held

theorem wroteGrew {env : Ambient} {e : EventEnvelope} {d : Draft} {temporal : Temporal} {db after : Db} {recorded : Recorded}
    (wrote : Dedupe.Wrote env e d temporal db after recorded) (grounded : Grounded db) :
    Grew [e.sessionId] (e.eventType = "session_end") db after ∧ Grounded after := by
  have sound := Dedupe.wroteSound wrote grounded.sound
  cases wrote with
  | duplicateEvent rows => exact ⟨grewMono (grewSame _ rows) (List.nil_sublist _), groundedSame rows grounded⟩
  | duplicateContent id fresh found events observations =>
    have kept := grewKept (e.eventType = "session_end") observations (endsKept grounded.held events fun old mem => (fresh old mem).1)
    refine ⟨grewMono kept (List.nil_sublist _), sound, ?_⟩
    rw [observations, events]
    intro row mem
    obtain ⟨event, stored, is⟩ := grounded.held row mem
    exact ⟨event, List.mem_append_left _ stored, is⟩
  | created payloadJson expiresAt fresh missing events stored =>
    obtain ⟨observations, -⟩ := Dedupe.upsertFresh (Dedupe.unclaimedId grounded.sound fresh) stored
    have added := newRowsOf observations
    refine ⟨⟨by rw [added]; exact observations, endsKept grounded.held events fun old mem => (fresh old mem).1, ?_, ?_, ?_⟩, sound, ?_⟩
    · rw [added]
      exact List.Sublist.refl _
    · rw [added, List.forall_mem_singleton]
      rfl
    · intro kind
      rw [added, List.forall_mem_singleton, isSessionEnd, events, List.any_append, Bool.or_eq_true]
      right
      simp [observationRow, eventRow, kind]
    · rw [observations, events]
      intro row mem
      rcases List.mem_append.mp mem with old | new
      · obtain ⟨event, held, is⟩ := grounded.held row old
        exact ⟨event, List.mem_append_left _ held, is⟩
      · rw [List.mem_singleton.mp new]
        exact ⟨_, List.mem_append_right _ (List.mem_singleton_self _), rfl⟩

theorem recordGrew (host : Host) (env : Ambient) (allowQueue : Bool) (e : EventEnvelope) {db : Db} (grounded : Grounded db) :
    Grew [e.sessionId] (e.eventType = "session_end") db (recordEvent host env allowQueue e db).1 ∧
      Grounded (recordEvent host env allowQueue e db).1 := by
  cases Dedupe.recordEffect host env allowQueue e db with
  | refused rows => exact ⟨grewMono (grewSame _ rows) (List.nil_sublist _), groundedSame rows grounded⟩
  | stored named rows wrote new =>
    obtain ⟨grew, ground⟩ := wroteGrew wrote (groundedSame rows grounded)
    exact ⟨grewTrans (grewSame _ rows) grew, ground⟩

-- A session's row is met where it is known, and a new one is open.
theorem ensureStanding (c : Call) (db : Db) : standing (ensureSession c.env c.event c.draft db) =
    if c.event.sessionId ∈ (standing db).map Prod.fst then standing db else standing db ++ [(c.event.sessionId, none)] := by
  have known : db.sessions.any (fun row => row.sessionId = c.event.sessionId) = true ↔
      c.event.sessionId ∈ (standing db).map Prod.fst := by
    rw [standing, List.map_map, List.mem_map, List.any_eq_true]
    exact exists_congr fun row => and_congr_right fun _ => decide_eq_true_iff
  unfold standing at known ⊢
  rw [ensureSessionOf]
  by_cases met : db.sessions.any (fun row => row.sessionId = c.event.sessionId) = true
  · rw [if_pos met, if_pos (known.mp met)]
    have same : ∀ row : Session, ((meetSession row c).sessionId, (meetSession row c).endedAt) = (row.sessionId, row.endedAt) := fun _ => rfl
    exact Tables.updateColumn _ same _
  · rw [if_neg met, if_neg (mt known.mpr met), List.map_append]
    rfl

theorem recordStanding (host : Host) (env : Ambient) (allowQueue : Bool) (e : EventEnvelope) (db : Db) :
    standing (recordEvent host env allowQueue e db).1 = standing db ∨
      e.sessionId ∉ (standing db).map Prod.fst ∧
        standing (recordEvent host env allowQueue e db).1 = standing db ++ [(e.sessionId, none)] := by
  rcases recordSessions host env allowQueue e db with kept | ⟨d, ensured⟩
  · exact .inl (by rw [standing, kept, standing])
  · have met := ensureStanding ⟨env, e, d⟩ db
    rw [standing, ensured]
    split at met
    · exact .inl met
    · exact .inr ⟨‹_›, met⟩

-- Finalizing sessions there are rows for: summaries of them at the end, and nothing else of theirs.
structure Summed (sessions : List String) (db after : Db) : Prop where
  grew : Grew sessions True db after
  standing : standing after = standing db
  grounded : Grounded after

section
variable (host : Host)

def partialEvent (request : FinalizeSessionRequest) (m : Moment) (mode summary : String) (handoff : Handoff.SessionHandoff) : EventEnvelope :=
  {finalizeEvent request m "session_end" (endPayload summary mode handoff) ["finalized", "partial"] with
    metadata := some [("is_partial", .bool true)]}

theorem visitOpen {session : ActiveSessionCandidate} {m : Moment} {db : Db} (named : session.sessionId ≠ "")
    (opened : ((db.sessions.find? (fun row => row.sessionId = session.sessionId)).bind Session.endedAt).bind (truthy ∘ some) = none) :
    ∃ mode summary handoff, (finalizeSession host (partialRequest session) m db).1 =
      (recordEvent host m.ending true (partialEvent (partialRequest session) m mode summary handoff) db).1 := by
  have own : (partialRequest session).sessionId = session.sessionId := rfl
  rw [← own] at named opened
  rw [finalizeSession, if_neg named, if_pos (show (partialRequest session).isPartial = true from rfl)]
  unfold partialFinalizeSession
  simp only [opened, Option.isSome_none, Bool.false_eq_true, if_false]
  exact ⟨_, _, _, rfl⟩

theorem visitRecords (session : ActiveSessionCandidate) (m : Moment) (db : Db) :
    (finalizeSession host (partialRequest session) m db).1 = db ∨
      ∃ e : EventEnvelope, e.sessionId = session.sessionId ∧ e.eventType = "session_end" ∧
        (finalizeSession host (partialRequest session) m db).1 = (recordEvent host m.ending true e db).1 := by
  by_cases named : session.sessionId = ""
  · rw [finalizeSession, if_pos (show (partialRequest session).sessionId = "" from named)]
    exact .inl rfl
  by_cases opened : ((db.sessions.find? (fun row => row.sessionId = session.sessionId)).bind Session.endedAt).bind (truthy ∘ some) = none
  · obtain ⟨mode, summary, handoff, recorded⟩ := visitOpen host (m := m) named opened
    exact .inr ⟨_, rfl, rfl, recorded⟩
  · have closed := Option.isSome_iff_ne_none.mpr opened
    refine .inl ?_
    rw [finalizeSession, if_neg (show (partialRequest session).sessionId ≠ "" from named),
      if_pos (show (partialRequest session).isPartial = true from rfl)]
    unfold partialFinalizeSession
    simp only [show (partialRequest session).sessionId = session.sessionId from rfl, closed, if_true]

theorem visitSummed (session : ActiveSessionCandidate) (m : Moment) {db : Db} (grounded : Grounded db)
    (known : session.sessionId ∈ (standing db).map Prod.fst) :
    Summed [session.sessionId] db (finalizeSession host (partialRequest session) m db).1 := by
  rcases visitRecords host session m db with same | ⟨e, own, kind, recorded⟩
  · rw [same]
    exact ⟨grewMono (grewSame _ (Db.sameRefl db)) (List.nil_sublist _), rfl, grounded⟩
  · have grew := recordGrew host m.ending true e grounded
    rw [recorded, ← own]
    refine ⟨⟨grew.1.observations, grew.1.ends, grew.1.own, grew.1.live, fun _ => grew.1.summed kind⟩, ?_, grew.2⟩
    rcases recordStanding host m.ending true e db with kept | ⟨unknown, _⟩
    · exact kept
    · rw [own] at unknown
      exact absurd known unknown

theorem processSummed (moments : Nat → Moment) (sessions : List ActiveSessionCandidate) (i : Nat) {db : Db} (grounded : Grounded db)
    (known : ∀ session ∈ sessions, session.sessionId ∈ (standing db).map Prod.fst) :
    Summed (sessions.map ActiveSessionCandidate.sessionId) db (processSessions host moments i sessions db) := by
  induction sessions generalizing i db with
  | nil => exact ⟨grewSame _ (Db.sameRefl db), rfl, grounded⟩
  | cons session rest ih =>
    have first := visitSummed host session (moments i) grounded (known session List.mem_cons_self)
    have later := ih (i + 1) first.grounded fun other mem => by
      rw [first.standing]
      exact known other (List.mem_cons_of_mem _ mem)
    exact ⟨grewTrans first.grew later.grew, later.standing.trans first.standing, later.grounded⟩

theorem memCandidates {t : Tick} {db : Db} {session : ActiveSessionCandidate} (mem : session ∈ queryActiveSessions t db) :
    Selected session.sessionId db := by
  obtain ⟨row, picked, rfl⟩ := List.mem_map.mp mem
  have held := (Tables.memOrderBy _).mp (List.mem_of_mem_take picked)
  obtain ⟨stored, chosen⟩ := List.mem_filter.mp ((Tables.Scan.mem t.scan).mp held)
  rw [Bool.and_eq_true, Option.isNone_iff_eq_none] at chosen
  exact ⟨List.mem_map.mpr ⟨row, stored, by rw [chosen.1]⟩, chosen.2⟩

theorem tickSummed (t : Tick) {db : Db} (grounded : Grounded db) :
    Summed ((queryActiveSessions t db).map ActiveSessionCandidate.sessionId) db (tick host t db) :=
  processSummed host t.moments _ 0 grounded fun _ mem => List.mem_map.mpr ⟨_, (memCandidates mem).1, rfl⟩

-- Summaries at the end leave a session stale exactly when they are all dated before its latest row.
theorem summedStale {sessions : List String} {db after : Db} (summed : Summed sessions db after) (sessionId : String) :
    stale sessionId after = true ↔ stale sessionId db = true ∧
      ∀ row ∈ newRows db after, row.sessionId = sessionId → row.createdAt < (latestEventAt sessionId db).getD "" := by
  have grew := summed.grew
  have members : ∀ row, row ∈ liveRows sessionId after ↔ row ∈ liveRows sessionId db ∨ row ∈ newRows db after ∧ row.sessionId = sessionId := by
    intro row
    rw [memLive, memLive, grew.observations, List.mem_append]
    constructor
    · rintro ⟨old | new, own, live⟩
      · exact .inl ⟨old, own, live⟩
      · exact .inr ⟨new, own⟩
    · rintro (⟨old, own, live⟩ | ⟨new, own⟩)
      · exact ⟨.inl old, own, live⟩
      · exact ⟨.inr new, own, grew.live row new⟩
  have ends : ∀ row ∈ liveRows sessionId db, isSessionEnd after row = isSessionEnd db row :=
    fun row mem => grew.ends row (memLive.mp mem).1
  rw [staleIff, staleIff]
  constructor
  · rintro ⟨row, mem, dated, covered⟩
    -- A summary among the new rows would have to come before itself.
    have old : row ∈ liveRows sessionId db :=
      ((members row).mp mem).resolve_right fun new => lt_irrefl _ (covered row mem (grew.summed trivial row new.1))
    obtain ⟨top, _, last, above⟩ := latestTop old
    rw [last, Option.getD_some]
    refine ⟨⟨row, old, dated, fun ended held is => ?_⟩, fun new added own => ?_⟩
    · exact covered ended ((members ended).mpr (.inl held)) ((ends ended held).trans is)
    · exact lt_of_lt_of_le (covered new ((members new).mpr (.inr ⟨added, own⟩)) (grew.summed trivial new added)) above
  · rintro ⟨⟨row, old, dated, covered⟩, later⟩
    obtain ⟨top, held, last, above⟩ := latestTop old
    rw [last, Option.getD_some] at later
    refine ⟨top, (members top).mpr (.inl held), lt_of_lt_of_le dated above, fun ended mem is => ?_⟩
    rcases (members ended).mp mem with before | ⟨added, own⟩
    · exact lt_of_lt_of_le (covered ended before ((ends ended before).symm.trans is)) above
    · exact later ended added own

theorem archiveGrounded (now : String) (ids : List String) {db : Db} (grounded : Grounded db) : Grounded (Dedupe.archive now ids db) :=
  ⟨Dedupe.archiveSound now ids grounded.sound, Tables.updateAll (fun _ _ held => held) grounded.held⟩

theorem stepGrounded (db : Db) (move : Move) (grounded : Grounded db) : Grounded (step host db move) := by
  cases move with
  | tick t => exact (tickSummed host t grounded).grounded
  | record env allowQueue e => exact (recordGrew host env allowQueue e grounded).2
  | archive now ids => exact archiveGrounded now ids grounded

theorem runGrounded (moves : List Move) : Grounded (Runs.run (step host) Db.empty moves) :=
  Runs.invariant (step host) (stepGrounded host) ⟨Dedupe.soundEmpty, by simp [Db.empty]⟩ moves

-- What a tick adds is one live summary at most for each session it takes up, it closes none of them, and a session waits for
-- the next tick exactly when it did before and each summary it was given is dated before its latest row.
structure Ticked (t : Tick) (db after : Db) : Prop where
  observations : after.observations = db.observations ++ newRows db after
  standing : standing after = standing db
  own : ((newRows db after).map Observation.sessionId).Sublist ((queryActiveSessions t db).map ActiveSessionCandidate.sessionId)
  summaries : ∀ row ∈ newRows db after, row.live = true ∧ isSessionEnd after row = true
  selected : ∀ sessionId, Selected sessionId after ↔ Selected sessionId db ∧
    ∀ row ∈ newRows db after, row.sessionId = sessionId → row.createdAt < (latestEventAt sessionId db).getD ""

theorem summedTicked {t : Tick} {db after : Db}
    (summed : Summed ((queryActiveSessions t db).map ActiveSessionCandidate.sessionId) db after) : Ticked t db after := by
  refine ⟨summed.grew.observations, summed.standing, summed.grew.own, fun row mem => ?_, fun sessionId => ?_⟩
  · exact ⟨summed.grew.live row mem, summed.grew.summed trivial row mem⟩
  · rw [Selected, summed.standing, summedStale summed, Selected, and_assoc]

theorem tickExact (moves : List Move) (t : Tick) :
    Ticked t (Runs.run (step host) Db.empty moves) (tick host t (Runs.run (step host) Db.empty moves)) :=
  summedTicked (tickSummed host t (runGrounded host moves))

-- A session is stale by its own rows alone.
theorem staleSame {sessionId : String} {db after : Db} (rows : rowsIn sessionId after = rowsIn sessionId db)
    (ends : ∀ row ∈ rowsIn sessionId db, isSessionEnd after row = isSessionEnd db row) : stale sessionId after = stale sessionId db := by
  have own : ∀ (held : Db) (row : Observation), row ∈ liveRows sessionId held ↔ row ∈ rowsIn sessionId held ∧ row.live = true := by
    intro held row
    rw [memLive, rowsIn, List.mem_filter, decide_eq_true_iff, and_assoc]
  have same : ∀ row, row ∈ liveRows sessionId after ↔ row ∈ liveRows sessionId db := fun row => by rw [own, own, rows]
  rw [Bool.eq_iff_iff, staleIff, staleIff]
  refine exists_congr fun row => and_congr (same row) (and_congr_right fun _ => forall_congr' fun ended => ?_)
  rw [same ended]
  refine forall_congr' fun held => ?_
  rw [ends ended ((own db ended).mp held).1]

theorem grewRows {sessions : List String} {summaries : Prop} {db after : Db} {sessionId : String} (grew : Grew sessions summaries db after)
    (other : sessionId ∉ sessions) : rowsIn sessionId after = rowsIn sessionId db := by
  have none : (newRows db after).filter (fun row => row.sessionId = sessionId) = [] := by
    refine List.filter_eq_nil_iff.mpr fun row mem own => other (grew.own.subset ?_)
    rw [← of_decide_eq_true own]
    exact List.mem_map_of_mem mem
  rw [rowsIn, grew.observations, List.filter_append, none, List.append_nil, rowsIn]

theorem memRowsIn {sessionId : String} {db : Db} {row : Observation} :
    row ∈ rowsIn sessionId db ↔ row ∈ db.observations ∧ row.sessionId = sessionId := by
  simp [rowsIn]

-- Where no session is taken up, recorded for or archived from, it keeps its rows and goes on unselected.
theorem stepQuiet {sessionId : String} {db : Db} (grounded : Grounded db) (quiet : ¬ Selected sessionId db) {move : Move}
    (leaves : Leaves sessionId db move) :
    ¬ Selected sessionId (step host db move) ∧ rowsIn sessionId (step host db move) = rowsIn sessionId db := by
  cases move with
  | tick t =>
    have summed := tickSummed host t grounded
    refine ⟨fun selected => quiet (((summedTicked summed).selected sessionId).mp selected).1, grewRows summed.grew ?_⟩
    intro taken
    obtain ⟨session, mem, rfl⟩ := List.mem_map.mp taken
    exact quiet (memCandidates mem)
  | record env allowQueue e =>
    have grew := (recordGrew host env allowQueue e grounded).1
    have rows := grewRows grew (fun mem => leaves (List.mem_singleton.mp mem).symm)
    refine ⟨fun selected => quiet ⟨?_, ?_⟩, rows⟩
    · rcases recordStanding host env allowQueue e db with kept | ⟨-, new⟩
      · exact kept ▸ selected.1
      · rcases List.mem_append.mp (new ▸ selected.1) with old | added
        · exact old
        · exact absurd (congrArg Prod.fst (List.mem_singleton.mp added)).symm leaves
    · rw [← staleSame rows fun row mem => grew.ends row (memRowsIn.mp mem).1]
      exact selected.2
  | archive now ids =>
    have rows : rowsIn sessionId (Dedupe.archive now ids db) = rowsIn sessionId db := by
      refine Tables.filterOutside (fun _ => rfl) fun row mem chosen => ?_
      rw [Bool.and_eq_true, List.contains_iff_mem] at chosen
      exact decide_eq_false fun own => leaves row (memRowsIn.mpr ⟨mem, own⟩) chosen.1
    refine ⟨fun selected => quiet ⟨selected.1, ?_⟩, rows⟩
    rw [← staleSame rows fun row _ => rfl]
    exact selected.2

theorem runQuiet {sessionId : String} {db : Db} (grounded : Grounded db) (quiet : ¬ Selected sessionId db) {moves : List Move}
    (leaves : Runs.Throughout (step host) (Leaves sessionId) db moves) :
    ¬ Selected sessionId (Runs.run (step host) db moves) ∧ rowsIn sessionId (Runs.run (step host) db moves) = rowsIn sessionId db := by
  induction moves generalizing db with
  | nil => exact ⟨quiet, rfl⟩
  | cons move rest ih =>
    obtain ⟨still, rows⟩ := stepQuiet host grounded quiet leaves.1
    obtain ⟨last, kept⟩ := ih (stepGrounded host db move grounded) still leaves.2
    exact ⟨last, kept.trans rows⟩

end

theorem freshNew {host : Host} {env : Ambient} {e : EventEnvelope} {d : Draft} {temporal : Temporal} {db after : Db} (fresh : Dedupe.Fresh d db) :
    transaction host env e d temporal db ≠ .ok (after, .duplicateEvent) := by
  intro ok
  have unused : (ensureSession env e d db).events.any (taken d) = false := by
    rw [(ensureSessionSame env e d db).events]
    exact Dedupe.takenFresh.mpr fresh
  unfold transaction at ok
  simp only [unused, Bool.false_eq_true, if_false] at ok
  split at ok
  · cases ok
  · obtain ⟨_, _, made⟩ := Js.mapOk ok
    cases made

-- An event that nothing refuses and no row stands against gets a row of its own.
theorem recordAdds {host : Host} {env : Ambient} {allowQueue : Bool} {e : EventEnvelope} {db : Db} {project : String}
    (sound : Dedupe.Sound db) (admitted : Admitted host env e project) (ungated : env.gateEnabled = false)
    (anchored : ∃ temporal, temporalAnchors host e (draft host env e project).timestamp = .ok temporal)
    (fresh : Dedupe.Fresh (draft host env e project) db) (missing : existingObservation (draft host env e project) db = none)
    (creates : Creates .none host env e (draft host env e project) db.observations) :
    ∃ row, (recordEvent host env allowQueue e db).1.observations = db.observations ++ [row] ∧ row.sessionId = e.sessionId ∧
      row.createdAt = (draft host env e project).timestamp := by
  obtain ⟨temporal, anchored⟩ := anchored
  have passes : ∀ held, gate host env e (draft host env e project) held = .ok held := fun held => by simp [gate, ungated]
  have tags : isBlockedTag (draft host env e project).privacyTags = false := admitted.stored
  have written : recordEvent host env allowQueue e db =
      write host env allowQueue e (draft host env e project) temporal (auditStrip host env e (draft host env e project) db) := by
    rw [recordEvent, if_neg (by simp [admitted.capture]), if_neg admitted.fields, admitted.named]
    simp only [tags, Bool.false_eq_true, if_false, if_neg admitted.durable, passes, anchored]
  have rows := auditStripSame host env e (draft host env e project) db
  generalize auditStrip host env e (draft host env e project) db = stripped at written rows
  have commits : Commits .none host env e (draft host env e project) stripped :=
    (commitsSame rows.events rows.observations).mpr ⟨fun _ _ => rfl, .inr ⟨fun _ _ => rfl, .inr ⟨missing, creates⟩⟩⟩
  obtain ⟨result, ok⟩ := (transactionOk temporal stripped).mpr commits
  rw [transactionNone] at ok
  rw [written, write, ok, ← rows.observations]
  have freshHere : Dedupe.Fresh (draft host env e project) stripped := by rwa [Dedupe.Fresh, rows.events]
  have soundHere := Dedupe.soundSame rows sound
  have missingHere : existingObservation (draft host env e project) stripped = none := by
    rwa [existingObservation, rows.observations]
  obtain ⟨after, recorded⟩ := result
  have wrote := Dedupe.transactionWrote ok
  cases wrote with
  | duplicateEvent => exact absurd ok (freshNew freshHere)
  | duplicateContent id _ found => exact absurd found (by simp [missingHere])
  | created payloadJson expiresAt _ _ events stored =>
    exact ⟨_, (Dedupe.upsertFresh (Dedupe.unclaimedId soundHere freshHere) stored).1, rfl, rfl⟩

-- A prompt that is private throughout leaves a row without a content hash.
def privately : EventEnvelope := {plainEvent "a" "p" [("content", .str "<private>k</private>")] with eventType := "user_prompt"}
def privatelyAsked : Db := Runs.run (step plainHost) Db.empty [.record plainAmbient true privately]
theorem privatelyReached : privatelyAsked = Runs.run (step plainHost) Db.empty [.record plainAmbient true privately] := rfl
def noonTick : Tick := ⟨5, Tables.inOrder, fun _ => noon⟩

theorem braced {text : String} {c : Char} {rest : List Char} (is : text.toList = c :: rest) (solid : Js.isSpace c = false) :
    (Js.trim text).toList.head? = some c := by
  have kept : Js.trimStart (c :: rest) = c :: rest := by simp [Js.trimStart, solid]
  rw [Js.trim, is, kept, String.toList_ofList, ← List.singleton_append, Js.trimEndAppend]
  split
  · simp [Js.trimEnd, solid]
  · rfl

theorem hashBraced {e : EventEnvelope} (unset : e.dedupeHash = none) : (dedupeHashOf plainHost e).toList.head? = some '\x7b' := by
  have built : dedupeHashOf plainHost e = Js.trim (buildDedupeHash plainHost e) := by
    rw [dedupeHashOf, unset]
    rfl
  have opens : ∀ entries, ∃ rest, (Json.stringify (.obj entries)).toList = '\x7b' :: rest := by
    intro entries
    rw [Json.stringify, String.toList_ofList, Json.print]
    exact ⟨_, rfl⟩
  obtain ⟨rest, is⟩ := opens _
  rw [built]
  exact braced is (by decide)

theorem draftHash (host : Host) (env : Ambient) (e : EventEnvelope) (project : String) :
    (draft host env e project).dedupeHash = dedupeHashOf host e := rfl

-- What an event sets apart from its payload.
structure Plainly (e : EventEnvelope) (stamp : String) : Prop where
  project : e.project = "p"
  fields : ¬ (e.project = "" ∨ e.sessionId = "" ∨ e.eventType = "" ∨ e.platform = "")
  eventId : e.eventId = none
  dedupeHash : e.dedupeHash = none
  privacyTags : e.privacyTags = []
  expiresAt : e.expiresAt = none
  ts : e.ts = some stamp
  dated : stamp ≠ ""
  anchored : ∀ timestamp, ∃ temporal, temporalAnchors plainHost e timestamp = .ok temporal

theorem plainlyAdds {e : EventEnvelope} {stamp : String} (plainly : Plainly e stamp) {db : Db} (sound : Dedupe.Sound db)
    (hashless : ∀ row ∈ db.observations, row.contentDedupeHash = none)
    (others : ∀ event ∈ db.events, event.eventId ≠ "fresh" ∧ event.dedupeHash.toList.head? ≠ some '\x7b') :
    ∃ row, (recordEvent plainHost plainAmbient true e db).1.observations = db.observations ++ [row] ∧ row.sessionId = e.sessionId ∧
      row.createdAt = stamp := by
  have admitted : Admitted plainHost plainAmbient e e.project := by
    refine ⟨rfl, plainly.fields, rfl, ?_, ?_⟩
    · rw [plainly.privacyTags]
      decide
    · rintro ⟨⟨⟩, -⟩
  have fresh : Dedupe.Fresh (draft plainHost plainAmbient e e.project) db := by
    intro old mem
    obtain ⟨id, hash⟩ := others old mem
    refine ⟨fun same => id ?_, fun same => hash ?_⟩
    · have own : (draft plainHost plainAmbient e e.project).eventId = Js.trim ((truthy e.eventId).getD "fresh") := rfl
      rw [same, own, plainly.eventId]
      decide
    · rw [same, draftHash]
      exact hashBraced plainly.dedupeHash
  have missing : existingObservation (draft plainHost plainAmbient e e.project) db = none := by
    unfold existingObservation
    split
    · rfl
    · rename_i hash _
      have none : db.observations.find? (liveHash hash) = none :=
        List.find?_eq_none.mpr fun row mem => by simp [liveHash, hashless row mem]
      rw [none]
      rfl
  have unclaimed : ¬ Claimed (draft plainHost plainAmbient e e.project) db.observations := by
    rintro ⟨given, ⟨other, mem, -, -, same⟩, -⟩
    rw [← same, hashless other mem] at given
    cases given
  have creates : Creates .none plainHost plainAmbient e (draft plainHost plainAmbient e e.project) db.observations := by
    refine ⟨⟨none, ?_⟩, unclaimed, fun _ _ => rfl, fun failure failed => ?_, fun _ _ _ => rfl⟩
    · rw [plainly.expiresAt]
      rfl
    · rw [vectorFailure, if_pos (show plainAmbient.vectorDisabled = true from rfl)] at failed
      cases failed
  obtain ⟨row, rows, own, dated⟩ := recordAdds sound admitted rfl (plainly.anchored _) fresh missing creates
  refine ⟨row, rows, own, dated.trans ?_⟩
  have stamped : (draft plainHost plainAmbient e e.project).timestamp = (truthy e.ts).getD (plainAmbient.clock 0) := rfl
  rw [stamped, plainly.ts, truthy, Option.filter_some_pos (by simpa using plainly.dated), Option.getD_some]

theorem noonPlainly (mode summary : String) (handoff : Handoff.SessionHandoff) :
    Plainly (partialEvent (partialRequest ⟨"s", "claude", "p"⟩) noon mode summary handoff) noon.nowIso where
  project := rfl
  fields := by
    show ¬ ("p" = "" ∨ "s" = "" ∨ "session_end" = "" ∨ "claude" = "")
    decide
  eventId := rfl
  dedupeHash := rfl
  privacyTags := rfl
  expiresAt := rfl
  ts := rfl
  dated := by decide
  anchored := fun timestamp => by
    refine ⟨⟨none, some timestamp, none, none, none, none⟩, ?_⟩
    simp [temporalAnchors, firstTemporalValue, firstTemporalId, partialEvent, finalizeEvent, endPayload, payloadOf, Json.get,
      normalizeExpiresAt]
    rfl

theorem noonAdds : ∃ row, newRows privatelyAsked (tick plainHost noonTick privatelyAsked) = [row] ∧ row.sessionId = "s" ∧ row.createdAt = noon.nowIso := by
  have taken : queryActiveSessions noonTick privatelyAsked = [⟨"s", "claude", "p"⟩] := by decide +kernel
  have opened : ((privatelyAsked.sessions.find? (fun row => row.sessionId = "s")).bind Session.endedAt).bind (truthy ∘ some) = none := by
    decide +kernel
  have hashless : ∀ row ∈ privatelyAsked.observations, row.contentDedupeHash = none := by decide +kernel
  have others : ∀ event ∈ privatelyAsked.events, event.eventId ≠ "fresh" ∧ event.dedupeHash.toList.head? ≠ some '\x7b' := by decide +kernel
  have sound : Dedupe.Sound privatelyAsked := (runGrounded plainHost [.record plainAmbient true privately]).sound
  obtain ⟨mode, summary, handoff, recorded⟩ :=
    visitOpen plainHost (show (ActiveSessionCandidate.mk "s" "claude" "p").sessionId ≠ "" by decide) opened
  obtain ⟨row, rows, own, dated⟩ := plainlyAdds (noonPlainly mode summary handoff) sound hashless others
  have ticked : tick plainHost noonTick privatelyAsked =
      (finalizeSession plainHost (partialRequest ⟨"s", "claude", "p"⟩) noon privatelyAsked).1 := by
    rw [tick, taken, processSessions, processSessions, noonTick]
  refine ⟨row, newRowsOf ?_, own, dated⟩
  have calm : noon.ending = plainAmbient := rfl
  rw [ticked, recorded, calm]
  exact rows

section
variable (host : Host)

-- One summary in time is the last of its session, whatever goes on elsewhere, until an event of it comes in or a row of it goes.
theorem summarisedOnce {before later : List Move} {t : Tick} {sessionId : String} {db after : Db}
    (reached : db = Runs.run (step host) Db.empty before) (ticked : after = tick host t db)
    (covered : ∃ row ∈ newRows db after, row.sessionId = sessionId ∧ (latestEventAt sessionId db).getD "" ≤ row.createdAt)
    (leaves : Runs.Throughout (step host) (Leaves sessionId) after later) :
    ¬ Selected sessionId (Runs.run (step host) after later) ∧
      rowsIn sessionId (Runs.run (step host) after later) = rowsIn sessionId after := by
  have grounded : Grounded db := reached ▸ runGrounded host before
  have summed := tickSummed host t grounded
  rw [← ticked] at summed
  refine runQuiet host summed.grounded (fun selected => ?_) leaves
  obtain ⟨row, mem, own, late⟩ := covered
  exact absurd ((((summedTicked summed).selected sessionId).mp selected).2 row mem own) (not_lt.mpr late)

end

def elsewhere : List Move := [.record plainAmbient true {plainEvent "b" "p" [("prompt", .str "hi")] with sessionId := "t"}, .tick noonTick]

theorem summarisedNoon : ¬ Selected "s" (Runs.run (step plainHost) (tick plainHost noonTick privatelyAsked) elsewhere) ∧
    rowsIn "s" (Runs.run (step plainHost) (tick plainHost noonTick privatelyAsked) elsewhere) = rowsIn "s" (tick plainHost noonTick privatelyAsked) := by
  have before : (latestEventAt "s" privatelyAsked).getD "" ≤ noon.nowIso := by decide +kernel
  obtain ⟨row, added, own, dated⟩ := noonAdds
  have apart : "t" ≠ "s" := by decide
  exact summarisedOnce plainHost privatelyReached rfl ⟨row, added ▸ List.mem_singleton_self _, own, dated ▸ before⟩ ⟨apart, trivial, trivial⟩

section
variable (host : Host)

-- Each session the tick takes up gets a summary dated no earlier than its latest row.
def Prompt (t : Tick) (db : Db) : Prop := ∀ session ∈ queryActiveSessions t db, ∃ row ∈ newRows db (tick host t db),
  row.sessionId = session.sessionId ∧ (latestEventAt session.sessionId db).getD "" ≤ row.createdAt

def Keyed (db : Db) : Prop := ((standing db).map Prod.fst).Nodup

theorem stepKeyed (db : Db) (move : Move) (grounded : Grounded db) (keyed : Keyed db) : Keyed (step host db move) := by
  cases move with
  | tick t =>
    unfold Keyed step
    rw [(tickSummed host t grounded).standing]
    exact keyed
  | record env allowQueue e =>
    unfold Keyed step
    rcases recordStanding host env allowQueue e db with kept | ⟨unknown, new⟩
    · rw [kept]
      exact keyed
    · rw [new, List.map_append]
      exact keyed.append (List.nodup_singleton _) (List.disjoint_singleton.mpr unknown)
  | archive now ids => exact keyed

theorem runKeyed (moves : List Move) : Grounded (Runs.run (step host) Db.empty moves) ∧ Keyed (Runs.run (step host) Db.empty moves) := by
  have keep : ∀ db move, Grounded db ∧ Keyed db → Grounded (step host db move) ∧ Keyed (step host db move) :=
    fun db move both => ⟨stepGrounded host db move both.1, stepKeyed host db move both.1 both.2⟩
  exact Runs.invariant (step host) keep ⟨runGrounded host [], List.nodup_nil⟩ moves

def waitingIds (db : Db) : List String :=
  ((standing db).filter (fun row => row.2.isNone && stale row.1 db)).map Prod.fst

theorem waitingOf (db : Db) : (waiting db).map Session.sessionId = waitingIds db := by
  unfold waiting waitingIds standing
  rw [List.filter_map, List.map_map]
  rfl

theorem memWaiting {sessionId : String} {db : Db} : sessionId ∈ waitingIds db ↔ Selected sessionId db := by
  simp [waitingIds, Selected]

theorem tickWaits {t : Tick} {db : Db} (grounded : Grounded db) (keyed : Keyed db) (told : Prompt host t db) :
    (waiting (tick host t db)).length = (waiting db).length - t.maxSessionsPerTick := by
  have ticked := summedTicked (tickSummed host t grounded)
  generalize after : tick host t db = next at ticked
  have left : ∀ sessionId, Selected sessionId next ↔
      Selected sessionId db ∧ sessionId ∉ (queryActiveSessions t db).map ActiveSessionCandidate.sessionId := by
    intro sessionId
    rw [ticked.selected]
    refine and_congr_right fun _ => ⟨fun later taken => ?_, fun skipped row mem own => ?_⟩
    · obtain ⟨session, mem, rfl⟩ := List.mem_map.mp taken
      obtain ⟨row, added, own, late⟩ := told session mem
      exact absurd (later row (after ▸ added) own) (not_lt.mpr late)
    · refine absurd (ticked.own.subset ?_) skipped
      rw [← own]
      exact List.mem_map_of_mem mem
  have unique : (waitingIds db).Nodup := keyed.sublist (List.filter_sublist.map _)
  have uniqueNext : (waitingIds next).Nodup := by
    have keyedNext : Keyed next := by
      rw [Keyed, ticked.standing]
      exact keyed
    exact keyedNext.sublist (List.filter_sublist.map _)
  have picked : (queryActiveSessions t db).map ActiveSessionCandidate.sessionId = ((inTurn t db).map Session.sessionId).take t.maxSessionsPerTick := by
    rw [queryActiveSessions, List.map_map, ← List.map_take]
    rfl
  have perm : ((inTurn t db).map Session.sessionId).Perm (waitingIds db) := by
    rw [← waitingOf]
    exact ((List.perm_insertionSort _ _).trans (t.scan.perm _)).map _
  have same : (waitingIds next).Perm ((waitingIds db).filter (fun sessionId =>
      !(((inTurn t db).map Session.sessionId).take t.maxSessionsPerTick).any (fun taken => id taken = id sessionId))) := by
    refine (List.perm_ext_iff_of_nodup uniqueNext (unique.filter _)).mpr fun sessionId => ?_
    rw [memWaiting, left, ← memWaiting, List.mem_filter, picked, Bool.not_eq_true', List.any_eq_false]
    refine and_congr_right fun _ => ⟨fun skipped other mem same => skipped ?_, fun others mem => others sessionId mem (decide_eq_true rfl)⟩
    exact (show other = sessionId from of_decide_eq_true same) ▸ mem
  have rest := Tables.takeLeaves (show ((waitingIds db).map id).Nodup by rwa [List.map_id]) perm t.maxSessionsPerTick
  have length := (same.trans rest).length_eq
  rwa [List.length_drop, perm.length_eq, ← waitingOf, ← waitingOf, List.length_map, List.length_map] at length

end

theorem noonPrompt : Prompt plainHost noonTick privatelyAsked := by
  have taken : queryActiveSessions noonTick privatelyAsked = [⟨"s", "claude", "p"⟩] := by decide +kernel
  have before : (latestEventAt "s" privatelyAsked).getD "" ≤ noon.nowIso := by decide +kernel
  obtain ⟨row, added, own, dated⟩ := noonAdds
  intro session mem
  rw [taken] at mem
  rw [List.mem_singleton.mp mem, added]
  exact ⟨row, List.mem_singleton_self _, own, dated ▸ before⟩

-- While nothing else is written, ticks that summarise in time take up one batch each until no session waits.
theorem drainExact (host : Host) {before : List Move} {ticks : List Tick} {n : Nat} {db : Db} (reached : db = Runs.run (step host) Db.empty before)
    (bound : ∀ t ∈ ticks, t.maxSessionsPerTick = n)
    (told : Runs.Throughout (fun db t => tick host t db) (fun db t => Prompt host t db) db ticks) :
    (waiting (Runs.run (fun db t => tick host t db) db ticks)).length = (waiting db).length - ticks.length * n := by
  obtain ⟨grounded, keyed⟩ := reached ▸ runKeyed host before
  clear reached
  induction ticks generalizing db with
  | nil => simp
  | cons t rest ih =>
    have next := stepGrounded host db (.tick t) grounded
    rw [Runs.runCons, ih (fun other mem => bound other (List.mem_cons_of_mem _ mem)) told.2 next (stepKeyed host db (.tick t) grounded keyed),
      tickWaits host grounded keyed told.1, bound t List.mem_cons_self, List.length_cons, Nat.succ_mul]
    omega

theorem drainNoon : (waiting (Runs.run (fun db t => tick plainHost t db) privatelyAsked [noonTick])).length = (waiting privatelyAsked).length - 1 * 5 :=
  drainExact plainHost privatelyReached (fun t mem => by rw [List.mem_singleton.mp mem]; rfl)
    ⟨noonPrompt, trivial⟩

end HarnessMem.PartialFinalize
