import HarnessMem.ProjectScopes
import HarnessMem.Recorder
import HarnessMem.SearchFilters
import HarnessMem.Lib.RetainedLog
import HarnessMem.Lib.Runs
import Mathlib.Data.List.TakeWhile

/-! The live stream: the recorder's numbered log of the newest events, and the connections of `/v1/stream`
that poll it, each from the last event it came to. -/
namespace HarnessMem.StreamEvents
open Js Recorder RetainedLog Runs

inductive StreamData where
  | observationCreated (item : Created)
  | sessionFinalized (sessionId project summaryMode finalizedAt : String)
  | sessionPartialFinalized (sessionId project summaryMode partialFinalizedAt : String)

def StreamData.type : StreamData → String
  | .observationCreated _ => "observation.created"
  | .sessionFinalized .. => "session.finalized"
  | .sessionPartialFinalized .. => "session.partial_finalized"
def StreamData.project : StreamData → String
  | .observationCreated item => item.project
  | .sessionFinalized _ project _ _ | .sessionPartialFinalized _ project _ _ => project
def StreamData.eventType : StreamData → String
  | .observationCreated item => item.eventType
  | _ => ""
def StreamData.privacyTags : StreamData → List String
  | .observationCreated item => item.privacyTags
  | _ => []

structure StreamEvent where
  id : Nat
  ts : String
  data : StreamData

structure StreamLog where
  streamEventCounter : Nat
  streamEvents : List StreamEvent

def streamEventRetention : Nat := 600

def appendStreamEvent (log : StreamLog) (data : StreamData) (ts : String) : StreamLog :=
  let event : StreamEvent := ⟨log.streamEventCounter + 1, ts, data⟩
  let streamEvents := log.streamEvents ++ [event]
  ⟨event.id, if streamEvents.length > streamEventRetention then streamEvents.drop (streamEvents.length - streamEventRetention)
    else streamEvents⟩

def getStreamEventsSince (log : StreamLog) (lastEventId : Int) (limitInput : Number) : List StreamEvent :=
  let limit := Search.clampLimit limitInput 100 1 500
  if log.streamEvents.length = 0 then [] else (log.streamEvents.filter (fun event => lastEventId < event.id)).take limit

def getLatestStreamEventId (log : StreamLog) : Nat :=
  match log.streamEvents.getLast? with
  | some latest => latest.id
  | none => log.streamEventCounter

-- `Number(text)`: a decimal literal, one with a radix, or nothing but white space.
def allDigits (text : List Char) : Option Nat := if text.all Char.isDigit then some (Nat.ofDigitChars 10 text 0) else none
def exponentOf : List Char → Option Int
  | [] => some 0
  | _ :: '-' :: digits => if digits = [] then none else (allDigits digits).map (fun n => -(n : Int))
  | _ :: '+' :: digits => if digits = [] then none else (allDigits digits).map (fun n => (n : Int))
  | _ :: digits => if digits = [] then none else (allDigits digits).map (fun n => (n : Int))
def unsignedDecimal (text : List Char) : Option ℚ :=
  let (mantissa, exponent) := text.span (fun c => c ≠ 'e' && c ≠ 'E')
  let (whole, rest) := mantissa.span (fun c => c ≠ '.')
  let fraction := rest.drop 1
  if whole = [] ∧ fraction = [] then none
  else do
    let above ← allDigits whole
    let below ← allDigits fraction
    let power ← exponentOf exponent
    return ((above : ℚ) + below / 10 ^ fraction.length) * 10 ^ power
def radixDigits (radix : Nat) (digits : List Char) : Option Nat :=
  let value := fun c : Char => if c.isDigit then c.toNat - 48 else if c.isAlpha then c.toLower.toNat - 87 else radix
  if digits ≠ [] ∧ digits.all (fun c => value c < radix) then some (digits.foldl (fun n c => radix * n + value c) 0) else none
def finite (value : ℚ) : Number :=
  let largest := 2 ^ 1024 - 2 ^ 970
  if value ≥ largest then .posInf else if value ≤ -largest then .negInf else .fin value
def toNumber (text : String) : Number :=
  let known : Option ℚ → Number := fun value => value.elim .nan finite
  match (trim text).toList with
  | [] => .fin 0
  | '0' :: 'x' :: digits | '0' :: 'X' :: digits => known ((radixDigits 16 digits).map (fun n => (n : ℚ)))
  | '0' :: 'o' :: digits | '0' :: 'O' :: digits => known ((radixDigits 8 digits).map (fun n => (n : ℚ)))
  | '0' :: 'b' :: digits | '0' :: 'B' :: digits => known ((radixDigits 2 digits).map (fun n => (n : ℚ)))
  | '-' :: rest => if rest = "Infinity".toList then .negInf else known ((unsignedDecimal rest).map (fun q => -q))
  | '+' :: rest => if rest = "Infinity".toList then .posInf else known (unsignedDecimal rest)
  | rest => if rest = "Infinity".toList then .posInf else known (unsignedDecimal rest)

def parseInteger (value : Option String) (fallback : Int) : Int :=
  match value with
  | none => fallback
  | some text =>
    if trim text = "" then fallback
    else match toNumber text with
      | .fin parsed => truncate parsed
      | _ => fallback

def parseBoolean (lower : String → String) (value : Option String) (fallback : Bool) : Bool :=
  match value with
  | none => fallback
  | some text =>
    let normalized := lower (trim text)
    if ["1", "true", "yes", "on"].contains normalized then true
    else if ["0", "false", "no", "off"].contains normalized then false
    else fallback

-- The query of `GET /v1/stream` and its `last-event-id` header.
structure StreamRequest where
  includePrivate : Option String
  project : Option String
  replay : Option String
  type : Option String
  since : Option String
  lastEventIdHeader : Option String

-- What one connection fixed when it was opened.
structure Filters where
  includePrivate : Bool
  projectFilterMembers : Option (List String)
  typeFilter : String

def shouldSkip (filters : Filters) (data : StreamData) : Bool :=
  if !filters.includePrivate && (data.privacyTags.contains "private" || data.privacyTags.contains "sensitive") then true
  else if filters.projectFilterMembers.any (fun members => data.project ≠ "" && !members.contains data.project) then true
  else if filters.typeFilter ≠ "" then
    match data with
    | .observationCreated item => item.eventType ≠ filters.typeFilter
    | .sessionFinalized .. => !(["session_end", "session_summary", "session.finalized"].contains filters.typeFilter)
    | .sessionPartialFinalized .. => false
  else false

-- A chunk that carries an event; the others have no id.
structure Chunk where
  id : Nat
  data : StreamData
  canonicalProject : String

structure Connection where
  request : StreamRequest
  filters : Filters
  lastEventId : Int
  streamClosed : Bool
  sent : List Chunk

def filtersOf (core : ProjectScopes.Core) (db : Db) (request : StreamRequest) : Filters :=
  let projectFilter := request.project.getD ""
  ⟨parseBoolean core.lower request.includePrivate false,
    if projectFilter ≠ "" then some (ProjectScopes.expandProjectSelection core db projectFilter .observations) else none,
    request.type.getD ""⟩

def openingId (lower : String → String) (log : StreamLog) (request : StreamRequest) : Int :=
  let given := parseInteger ((truthy request.since).orElse (fun _ => request.lastEventIdHeader)) 0
  if !parseBoolean lower request.replay true && given ≤ 0 then getLatestStreamEventId log else given

def emitEvent (core : ProjectScopes.Core) (c : Connection) (event : StreamEvent) : Connection :=
  let passed := {c with lastEventId := event.id}
  if shouldSkip c.filters event.data then passed
  else {passed with sent := c.sent ++ [⟨event.id, event.data, ProjectScopes.canonicalizeProjectName core event.data.project⟩]}

def emitEvents (core : ProjectScopes.Core) (log : StreamLog) (c : Connection) : Connection :=
  (getStreamEventsSince log c.lastEventId (.fin 200)).foldl (emitEvent core) c

structure Server where
  log : StreamLog
  connections : List Connection

-- A project's names and its canonical one are read from the tables and the disk of the moment.
inductive Action where
  | append (data : StreamData) (ts : String)
  | connect (request : StreamRequest) (core : ProjectScopes.Core) (db : Db)
  | poll (k : Nat) (core : ProjectScopes.Core)
  | close (k : Nat)

def opened (s : Server) (request : StreamRequest) (core : ProjectScopes.Core) (db : Db) : Connection :=
  ⟨request, filtersOf core db request, openingId core.lower s.log request, false, []⟩

def step (s : Server) : Action → Server
  | .append data ts => {s with log := appendStreamEvent s.log data ts}
  | .connect request core db => {s with connections := s.connections ++ [emitEvents core s.log (opened s request core db)]}
  | .poll k core => {s with connections := s.connections.modify k (fun c => if c.streamClosed then c else emitEvents core s.log c)}
  | .close k => {s with connections := s.connections.modify k (fun c => {c with streamClosed := true})}

def started : Server := ⟨⟨0, []⟩, []⟩

-- Everything that was ever appended, with its number.
def appendedBy (s : Server) : Action → List (Nat × StreamData)
  | .append data _ => [(s.log.streamEventCounter + 1, data)]
  | _ => []
def appended (actions : List Action) : List (Nat × StreamData) := Runs.log step appendedBy started actions

-- The event number from which an action has a connection read on.
def emitsFrom (s : Server) (k : Nat) : Action → Option Int
  | .connect request core _ => if k = s.connections.length then some (openingId core.lower s.log request) else none
  | .poll j _ => if k = j then ((s.connections[k]?).filter (fun c => !c.streamClosed)).map Connection.lastEventId else none
  | _ => none

-- Not so late that the event is dropped already.
def Timely (k n : Nat) (s : Server) (action : Action) : Prop :=
  ∀ cursor, emitsFrom s k action = some cursor → ¬ (cursor < n ∧ n + streamEventRetention ≤ s.log.streamEventCounter)

def StreamEvent.entry (event : StreamEvent) : Nat × StreamData := (event.id, event.data)
def Chunk.entry (chunk : Chunk) : Nat × StreamData := (chunk.id, chunk.data)
def Connection.entries (c : Connection) : List (Nat × StreamData) := c.sent.map Chunk.entry

def wanted (filters : Filters) (entry : Nat × StreamData) : Bool := !shouldSkip filters entry.2

structure Logged (log : StreamLog) (all : List (Nat × StreamData)) : Prop where
  counter : log.streamEventCounter = all.length
  events : log.streamEvents.map StreamEvent.entry = kept streamEventRetention all
  numbered : Numbered Prod.fst all

theorem appendEvents (log : StreamLog) (data : StreamData) (ts : String) :
    let streamEvents := log.streamEvents ++ [⟨log.streamEventCounter + 1, ts, data⟩]
    (appendStreamEvent log data ts).streamEvents = streamEvents.drop (streamEvents.length - streamEventRetention) := by
  simp only [appendStreamEvent]
  split
  · rfl
  · rw [Nat.sub_eq_zero_of_le (by omega), List.drop_zero]

theorem appendLogged {log : StreamLog} {all : List (Nat × StreamData)} (logged : Logged log all) (data : StreamData) (ts : String) :
    Logged (appendStreamEvent log data ts) (all ++ [(log.streamEventCounter + 1, data)]) where
  counter := by simp [appendStreamEvent, logged.counter]
  events := by
    rw [appendEvents, ← keptSnoc, ← logged.events, List.map_drop]
    simp [StreamEvent.entry]
  numbered := numberedSnoc logged.numbered (by simp [logged.counter])

theorem appendedSnoc (actions : List Action) (action : Action) :
    appended (actions ++ [action]) = appended actions ++ appendedBy (run step started actions) action := by
  rw [appended, logAppend]
  simp [appended, Runs.log]

theorem runLogged (actions : List Action) : Logged (run step started actions).log (appended actions) := by
  induction actions using List.reverseRecOn with
  | nil => exact ⟨rfl, rfl, numberedNil⟩
  | append_singleton actions action ih =>
    rw [runSnoc, appendedSnoc]
    cases action with
    | append data ts => exact appendLogged ih data ts
    | connect request core db => simpa [appendedBy, step] using ih
    | poll k core => simpa [appendedBy, step] using ih
    | close k => simpa [appendedBy, step] using ih

theorem sinceEntries {log : StreamLog} {all : List (Nat × StreamData)} (logged : Logged log all) (lastEventId : Int) :
    (getStreamEventsSince log lastEventId (.fin 200)).map StreamEvent.entry =
      since Prod.fst (kept streamEventRetention all) lastEventId.toNat 200 := by
  have limit : Search.clampLimit (.fin 200) 100 1 500 = 200 := by decide
  have passes : ∀ event ∈ log.streamEvents, decide (lastEventId < event.id) = decide (lastEventId.toNat < event.entry.1) := by
    intro event mem
    have placed : 1 ≤ event.entry.1 := by
      have held := logged.events ▸ List.mem_map_of_mem (f := StreamEvent.entry) mem
      exact (placeOf logged.numbered (List.mem_of_mem_drop held)).1
    refine decide_eq_decide.mpr ?_
    change 1 ≤ event.id at placed
    change _ ↔ lastEventId.toNat < event.id
    omega
  rw [← logged.events, since, List.filter_map, ← List.map_take, getStreamEventsSince, limit]
  split
  · rename_i none
    rw [List.length_eq_zero_iff.mp none]
    rfl
  · rw [List.filter_congr passes]
    rfl

theorem emitted (core : ProjectScopes.Core) (c : Connection) (events : List StreamEvent) :
    (events.foldl (emitEvent core) c).filters = c.filters ∧ (events.foldl (emitEvent core) c).request = c.request ∧
      (events.foldl (emitEvent core) c).streamClosed = c.streamClosed ∧
      (events.foldl (emitEvent core) c).lastEventId = (events.getLast?.map (fun event => (event.id : Int))).getD c.lastEventId ∧
      (events.foldl (emitEvent core) c).entries = c.entries ++ (events.map StreamEvent.entry).filter (wanted c.filters) := by
  induction events using List.reverseRecOn with
  | nil => simp
  | append_singleton events event ih =>
    obtain ⟨filters, request, closed, -, entries⟩ := ih
    rw [List.foldl_append]
    generalize events.foldl (emitEvent core) c = d at filters request closed entries ⊢
    simp only [List.foldl_cons, List.foldl_nil, emitEvent]
    cases skipped : shouldSkip d.filters event.data with
    | true =>
      refine ⟨filters, request, closed, by simp, ?_⟩
      rw [filters] at skipped
      simpa [wanted, StreamEvent.entry, skipped, Connection.entries] using entries
    | false =>
      refine ⟨filters, request, closed, by simp, ?_⟩
      rw [filters] at skipped
      simp only [Connection.entries] at entries
      simp [wanted, StreamEvent.entry, Chunk.entry, Connection.entries, skipped, entries]

def Sends (all : List (Nat × StreamData)) (start : Int) (c : Connection) (timely : Nat → Prop) : Prop :=
  Held Prod.fst (wanted c.filters) all start.toNat c.lastEventId.toNat c.entries timely

theorem emitSends (core : ProjectScopes.Core) {log : StreamLog} {all : List (Nat × StreamData)} (logged : Logged log all)
    {start : Int} {c : Connection} {timely : Nat → Prop} (sends : Sends all start c timely) :
    Sends all start (emitEvents core log c)
      (fun n => timely n ∧ ¬ (c.lastEventId < n ∧ n + streamEventRetention ≤ log.streamEventCounter)) := by
  obtain ⟨filters, _, _, last, entries⟩ := emitted core c (getStreamEventsSince log c.lastEventId (.fin 200))
  have read := readHeld logged.numbered (by decide : 0 < streamEventRetention) (by decide : 0 < 200) rfl sends
  rw [← sinceEntries logged] at read
  have cursor : (emitEvents core log c).lastEventId.toNat = afterwards Prod.fst c.lastEventId.toNat
      ((getStreamEventsSince log c.lastEventId (.fin 200)).map StreamEvent.entry) := by
    rw [emitEvents, last, afterwards, List.getLast?_map]
    cases (getStreamEventsSince log c.lastEventId (.fin 200)).getLast? <;> rfl
  rw [Sends, cursor]
  rw [emitEvents, filters, entries]
  refine read.congr logged.numbered fun n placed => and_congr_right fun _ => ?_
  rw [logged.counter]
  omega

theorem openedSends {all : List (Nat × StreamData)} (c : Connection) (fresh : c.sent = []) :
    Sends all c.lastEventId c (fun _ => True) := by
  rw [Sends, Connection.entries, fresh]
  exact openedHeld all c.lastEventId.toNat

theorem growConnections (s : Server) (action : Action) : s.connections.length ≤ (step s action).connections.length := by
  cases action <;> simp [step]

-- Nothing is read for a connection that is yet to be opened.
theorem unopened (actions : List Action) {k : Nat} (late : (run step started actions).connections.length ≤ k) (n : Nat) :
    Throughout step (Timely k n) started actions := by
  induction actions using List.reverseRecOn with
  | nil => trivial
  | append_singleton actions action ih =>
    rw [runSnoc] at late
    have grown := growConnections (run step started actions) action
    refine (throughoutSnoc step).mpr ⟨ih (grown.trans late), fun cursor emits => ?_⟩
    cases action with
    | append data ts => cases emits
    | connect request core db =>
      simp only [step, List.length_append, List.length_singleton] at late
      rw [emitsFrom, if_neg (by omega)] at emits
      cases emits
    | poll j core =>
      rw [emitsFrom, List.getElem?_eq_none (grown.trans late)] at emits
      split at emits <;> cases emits
    | close j => cases emits

-- A connection as it is at the end of a run that opened it after `before`.
structure Followed (before : List Action) (request : StreamRequest) (core : ProjectScopes.Core) (db : Db)
    (after : List Action) (c : Connection) : Prop where
  asked : c.request = request
  filtered : c.filters = filtersOf core db request
  sends : Sends (appended (before ++ .connect request core db :: after))
    (openingId core.lower (run step started before).log request) c
    (fun n => Throughout step (Timely (run step started before).connections.length n) started
      (before ++ .connect request core db :: after))

section
variable {before after : List Action} {request : StreamRequest} {core : ProjectScopes.Core} {db : Db} {c : Connection}

theorem Followed.next (followed : Followed before request core db after c) {action : Action} {d : Connection}
    (asked : d.request = c.request) (filtered : d.filters = c.filters)
    (sends : Sends (appended (before ++ .connect request core db :: (after ++ [action])))
      (openingId core.lower (run step started before).log request) d
      (fun n => Throughout step (Timely (run step started before).connections.length n) started
        (before ++ .connect request core db :: after) ∧ Timely (run step started before).connections.length n
          (run step started (before ++ .connect request core db :: after)) action)) :
    Followed before request core db (after ++ [action]) d where
  asked := asked.trans followed.asked
  filtered := filtered.trans followed.filtered
  sends := by
    refine sends.congr (runLogged _).numbered fun n _ => ?_
    rw [← List.cons_append, ← List.append_assoc, throughoutSnoc]

-- A step that the connection has no part in.
theorem Followed.apart (followed : Followed before request core db after c) {action : Action} {d : Connection}
    (quiet : emitsFrom (run step started (before ++ .connect request core db :: after))
      (run step started before).connections.length action = none)
    (same : d.request = c.request ∧ d.filters = c.filters ∧ d.lastEventId = c.lastEventId ∧ d.sent = c.sent)
    (unlogged : appendedBy (run step started (before ++ .connect request core db :: after)) action = []) :
    Followed before request core db (after ++ [action]) d := by
  obtain ⟨asked, filtered, last, sent⟩ := same
  refine followed.next asked filtered ?_
  have all : appended (before ++ .connect request core db :: (after ++ [action])) =
      appended (before ++ .connect request core db :: after) := by
    rw [← List.cons_append, ← List.append_assoc, appendedSnoc, unlogged, List.append_nil]
  rw [Sends, filtered, last, Connection.entries, sent, all]
  refine followed.sends.congr (runLogged _).numbered fun n _ => (and_iff_left fun cursor emits => ?_).symm
  rw [quiet] at emits
  cases emits

theorem follow (before : List Action) (request : StreamRequest) (core : ProjectScopes.Core) (db : Db) (after : List Action) :
    ∃ c, (run step started (before ++ .connect request core db :: after)).connections[(run step started before).connections.length]? = some c ∧
      Followed before request core db after c := by
  induction after using List.reverseRecOn with
  | nil =>
    refine ⟨emitEvents core (run step started before).log (opened (run step started before) request core db), ?_, ?_⟩
    · rw [runSnoc]
      simp [step]
    · have logged := runLogged before
      have sends := emitSends core logged (openedSends (opened (run step started before) request core db) rfl)
      have all : appended (before ++ [.connect request core db]) = appended before := by
        rw [appendedSnoc]
        simp [appendedBy]
      refine ⟨(emitted core _ _).2.1, (emitted core _ _).1, ?_⟩
      rw [all]
      refine sends.congr logged.numbered fun n _ => ?_
      rw [throughoutSnoc, iff_true_intro (unopened before (le_refl _) n), true_and, true_and]
      simp [Timely, emitsFrom, opened]
  | append_singleton after action ih =>
    obtain ⟨c, found, followed⟩ := ih
    rw [← List.cons_append, ← List.append_assoc, runSnoc]
    have there := (List.getElem?_eq_some_iff.mp found).1
    cases action with
    | append data ts =>
      refine ⟨c, found, followed.next rfl rfl ?_⟩
      have logged := runLogged (before ++ .connect request core db :: after)
      rw [← List.cons_append, ← List.append_assoc, appendedSnoc]
      have longer := appendedHeld logged.numbered (x := ((run step started (before ++ .connect request core db :: after)).log.streamEventCounter + 1, data))
        (by simp [logged.counter]) followed.sends
      refine longer.congr (appendLogged logged data ts).numbered fun n _ => (and_iff_left fun cursor emits => ?_).symm
      cases emits
    | connect other core' db' =>
      refine ⟨c, ?_, followed.apart ?_ ⟨rfl, rfl, rfl, rfl⟩ rfl⟩
      · rw [step, List.getElem?_append_left there, found]
      · rw [emitsFrom, if_neg (by omega)]
    | poll j core' =>
      simp only [step, List.getElem?_modify, found, Option.map_eq_map, Option.map_some]
      by_cases mine : j = (run step started before).connections.length
      · rw [if_pos mine]
        cases shut : c.streamClosed with
        | true =>
          refine ⟨c, by simp, followed.apart ?_ ⟨rfl, rfl, rfl, rfl⟩ rfl⟩
          simp [emitsFrom, found, shut]
        | false =>
          refine ⟨emitEvents core' (run step started (before ++ .connect request core db :: after)).log c, by simp,
            followed.next (emitted core' c _).2.1 (emitted core' c _).1 ?_⟩
          have logged := runLogged (before ++ .connect request core db :: after)
          rw [← List.cons_append, ← List.append_assoc, appendedSnoc]
          simp only [appendedBy, List.append_nil]
          refine (emitSends core' logged followed.sends).congr logged.numbered fun n _ => and_congr_right fun _ => ?_
          simp [Timely, emitsFrom, mine, found, shut]
      · rw [if_neg mine]
        refine ⟨c, rfl, followed.apart ?_ ⟨rfl, rfl, rfl, rfl⟩ rfl⟩
        simp [emitsFrom, Ne.symm mine]
    | close j =>
      simp only [step, List.getElem?_modify, found, Option.map_eq_map, Option.map_some]
      refine ⟨_, rfl, followed.apart rfl ?_ rfl⟩
      split <;> exact ⟨rfl, rfl, rfl, rfl⟩
theorem Followed.exactly (followed : Followed before request core db after c) {entry : Nat × StreamData}
    (mem : entry ∈ appended (before ++ .connect request core db :: after)) :
    entry ∈ c.entries ↔ openingId core.lower (run step started before).log request < entry.1 ∧ entry.1 ≤ c.lastEventId ∧
      shouldSkip c.filters entry.2 = false ∧
      Throughout step (Timely (run step started before).connections.length entry.1) started (before ++ .connect request core db :: after) := by
  have placed := (placeOf (runLogged _).numbered mem).1
  rw [followed.sends.exactly entry mem, wanted, Bool.not_eq_true']
  exact and_congr (by omega) (and_congr (by omega) Iff.rfl)

-- A connection is sent, once each and in order, exactly the events behind its opening id up to its last one that
-- its filters let through and that were not dropped before it came to them.
theorem streamExact (before : List Action) (request : StreamRequest) (core : ProjectScopes.Core) (db : Db) (after : List Action) :
    let actions := before ++ .connect request core db :: after
    let k := (run step started before).connections.length
    ∃ c, (run step started actions).connections[k]? = some c ∧ c.filters = filtersOf core db request ∧
      c.entries.Pairwise (fun a b => a.1 < b.1) ∧ (∀ entry ∈ c.entries, entry ∈ appended actions) ∧
      ∀ entry ∈ appended actions, entry ∈ c.entries ↔
        openingId core.lower (run step started before).log request < entry.1 ∧ entry.1 ≤ c.lastEventId ∧
          shouldSkip c.filters entry.2 = false ∧ Throughout step (Timely k entry.1) started actions := by
  intro actions k
  obtain ⟨c, found, followed⟩ := follow before request core db after
  exact ⟨c, found, followed.filtered, followed.sends.inOrder, followed.sends.known, fun entry mem => followed.exactly mem⟩

-- At most 200 events between two polls of a connection.
def Paced (k : Nat) : Nat → List Action → Prop
  | _, [] => True
  | n, .append _ _ :: rest => n < 200 ∧ Paced k (n + 1) rest
  | n, .poll j _ :: rest => Paced k (if j = k then 0 else n) rest
  | n, _ :: rest => Paced k n rest

-- How far an open connection is behind, with `n` events appended since it last read.
def Near (k n : Nat) (s : Server) : Prop :=
  ∀ c, s.connections[k]? = some c → c.streamClosed = false → s.log.streamEventCounter ≤ c.lastEventId.toNat + 400 + n

theorem emitNear (core : ProjectScopes.Core) {log : StreamLog} {all : List (Nat × StreamData)} (logged : Logged log all)
    (c : Connection) : log.streamEventCounter ≤ (emitEvents core log c).lastEventId.toNat + 400 := by
  have lag := readLag logged.numbered (by decide : 0 < streamEventRetention) (by decide : 0 < 200) c.lastEventId.toNat
  have ends := (emitted core c (getStreamEventsSince log c.lastEventId (.fin 200))).2.2.2.1
  rw [← sinceEntries logged, afterwards, List.getLast?_map] at lag
  rw [emitEvents, ends, logged.counter]
  cases last : (getStreamEventsSince log c.lastEventId (.fin 200)).getLast? with
  | none => simpa [last, streamEventRetention] using lag
  | some event => simpa [last, streamEventRetention, StreamEvent.entry] using lag

theorem nearTimely {k n : Nat} {s : Server} (near : Near k n s) (there : k < s.connections.length) (within : n ≤ 200) {id : Nat}
    (placed : 0 < id) (action : Action) : Timely k id s action := by
  rintro cursor emits ⟨behind, dropped⟩
  cases action with
  | append data ts => cases emits
  | connect request core db =>
    rw [emitsFrom, if_neg (by omega)] at emits
    cases emits
  | poll j core =>
    simp only [emitsFrom] at emits
    split at emits
    · obtain ⟨c, some, rfl⟩ := Option.map_eq_some_iff.mp emits
      obtain ⟨found, live⟩ := Option.filter_eq_some_iff.mp some
      have close := near c found (by simpa using live)
      simp only [streamEventRetention] at dropped
      omega
    · cases emits
  | close j => cases emits

theorem pacedNear {k : Nat} (after : List Action) {actions : List Action} {n : Nat} (within : n ≤ 200)
    (there : k < (run step started actions).connections.length) (near : Near k n (run step started actions)) (paced : Paced k n after) :
    (∀ id, 0 < id → Throughout step (Timely k id) (run step started actions) after) ∧
      Near k 200 (run step started (actions ++ after)) := by
  induction after generalizing actions n with
  | nil =>
    refine ⟨fun _ _ => trivial, fun c found live => ?_⟩
    rw [List.append_nil] at found ⊢
    have := near c found live
    omega
  | cons action after ih =>
    have later : ∀ m, m ≤ 200 → Near k m (run step started (actions ++ [action])) → Paced k m after →
        (∀ id, 0 < id → Throughout step (Timely k id) (run step started actions) (action :: after)) ∧
          Near k 200 (run step started (actions ++ action :: after)) := by
      intro m fits close paced
      have still : k < (run step started (actions ++ [action])).connections.length := by
        rw [runSnoc]
        exact there.trans_le (growConnections _ action)
      obtain ⟨timely, ends⟩ := ih fits still close paced
      rw [List.append_assoc, List.singleton_append] at ends
      refine ⟨fun id placed => ⟨nearTimely near there within placed action, ?_⟩, ends⟩
      rw [← runSnoc step started actions action]
      exact timely id placed
    have logged := runLogged actions
    cases action with
    | append data ts =>
      refine later (n + 1) (by have := paced.1; omega) ?_ paced.2
      rw [runSnoc]
      intro c found live
      have := near c found live
      simp only [step, appendStreamEvent]
      omega
    | connect request core db =>
      refine later n within ?_ paced
      rw [runSnoc]
      intro c found live
      rw [step, List.getElem?_append_left there] at found
      exact near c found live
    | poll j core =>
      refine later (if j = k then 0 else n) (by split <;> omega) ?_ paced
      rw [runSnoc]
      intro c found live
      simp only [step, List.getElem?_modify] at found
      obtain ⟨d, old, rfl⟩ := Option.map_eq_some_iff.mp found
      split at live
      · rename_i mine
        rw [if_pos mine, if_pos mine]
        split at live
        · rename_i shut
          rw [shut] at live
          cases live
        · rename_i shut
          rw [if_neg shut]
          exact emitNear core logged d
      · rename_i other
        rw [if_neg other, if_neg other]
        exact near d old live
    | close j =>
      refine later n within ?_ paced
      rw [runSnoc]
      intro c found live
      simp only [step, List.getElem?_modify] at found
      obtain ⟨d, old, rfl⟩ := Option.map_eq_some_iff.mp found
      split at live
      · cases live
      · rename_i other
        rw [if_neg other]
        exact near d old live

-- With at most 200 events between its polls a connection is sent everything that was still there when it was
-- opened, and is never more than 600 events behind.
theorem pacedComplete (before : List Action) (request : StreamRequest) (core : ProjectScopes.Core) (db : Db) (after : List Action)
    (paced : Paced (run step started before).connections.length 0 after) :
    let actions := before ++ .connect request core db :: after
    let opening := (run step started before).log
    ∃ c, (run step started actions).connections[(run step started before).connections.length]? = some c ∧
      (c.streamClosed = false → (run step started actions).log.streamEventCounter ≤ c.lastEventId.toNat + streamEventRetention) ∧
      ∀ entry ∈ appended actions, openingId core.lower opening request < entry.1 →
        opening.streamEventCounter < entry.1 + streamEventRetention → entry.1 ≤ c.lastEventId →
          shouldSkip (filtersOf core db request) entry.2 = false → entry ∈ c.entries := by
  intro actions opening
  obtain ⟨c, found, followed⟩ := follow before request core db after
  have logged := runLogged before
  have opens : run step started (before ++ [.connect request core db]) = step (run step started before) (.connect request core db) :=
    runSnoc step started before _
  have there : (run step started before).connections.length <
      (run step started (before ++ [.connect request core db])).connections.length := by simp [opens, step]
  have near : Near (run step started before).connections.length 0 (run step started (before ++ [.connect request core db])) := by
    intro d there live
    rw [opens] at there ⊢
    obtain rfl : emitEvents core (run step started before).log (opened (run step started before) request core db) = d := by
      simpa [step] using there
    exact emitNear core logged _
  obtain ⟨timely, ends⟩ := pacedNear after (by omega) there near paced
  rw [List.append_assoc, List.singleton_append] at ends
  refine ⟨c, found, fun live => ends c found live, fun entry mem beyond kept behind passed => ?_⟩
  refine (followed.exactly mem).mpr ⟨beyond, behind, followed.filtered ▸ passed, ?_⟩
  have placed := (placeOf (runLogged actions).numbered mem).1
  rw [throughoutAppend]
  refine ⟨unopened before (le_refl _) entry.1, ?_, ?_⟩
  · rintro cursor - ⟨_, dropped⟩
    exact absurd dropped (Nat.not_le.mpr kept)
  · rw [← opens]
    exact timely entry.1 placed
end

def plainRequest : StreamRequest := ⟨none, none, none, none, none, none⟩
def oneEnd : Action := .append (.sessionFinalized "s" "p" "standard" "2026-01-01T00:00:00.000Z") "2026-01-01T00:00:00.000Z"

def pacedRun : List Action := [.connect plainRequest ProjectScopes.bareCore Db.empty, oneEnd, .poll 0 ProjectScopes.bareCore]

theorem pacedCompleteOne : ∃ c, (run step started pacedRun).connections[0]? = some c ∧
    (c.streamClosed = false → (run step started pacedRun).log.streamEventCounter ≤ c.lastEventId.toNat + 600) ∧
    ∀ entry ∈ appended pacedRun, (0 : Int) < entry.1 → 0 < entry.1 + 600 → (entry.1 : Int) ≤ c.lastEventId →
      shouldSkip (filtersOf ProjectScopes.bareCore Db.empty plainRequest) entry.2 = false → entry ∈ c.entries :=
  pacedComplete [] plainRequest ProjectScopes.bareCore Db.empty [oneEnd, .poll 0 ProjectScopes.bareCore] ⟨by decide, trivial⟩

theorem spanAll {p : Char → Bool} {text : List Char} (all : ∀ c ∈ text, p c = true) : text.span p = (text, []) := by
  rw [List.span_eq_takeWhile_dropWhile, List.takeWhile_eq_self_iff.mpr all, List.dropWhile_eq_nil_iff.mpr all]

theorem digitNot {c d : Char} (digit : c.isDigit = true) (other : d.isDigit = false) : c ≠ d := by
  rintro rfl
  rw [digit] at other
  cases other

theorem unsignedNat {text : List Char} (filled : text ≠ []) (digits : ∀ c ∈ text, c.isDigit = true) :
    unsignedDecimal text = some (Nat.ofDigitChars 10 text 0 : ℚ) := by
  have mantissa : ∀ c ∈ text, (c ≠ 'e' && c ≠ 'E') = true := fun c mem => by
    simp [digitNot (digits c mem) (by decide : 'e'.isDigit = false), digitNot (digits c mem) (by decide : 'E'.isDigit = false)]
  have whole : ∀ c ∈ text, decide (c ≠ '.') = true := fun c mem => by
    simp [digitNot (digits c mem) (by decide : '.'.isDigit = false)]
  have value : allDigits text = some (Nat.ofDigitChars 10 text 0) := by
    rw [allDigits, if_pos (List.all_eq_true.mpr digits)]
  simp only [unsignedDecimal, spanAll mantissa, spanAll whole, List.drop_nil, filled, false_and, if_false, value]
  simp [allDigits, exponentOf]

theorem trimDigits {text : List Char} (digits : ∀ c ∈ text, c.isDigit = true) : trim (String.ofList text) = String.ofList text := by
  have dense : ∀ c ∈ text, isSpace c = false := by
    intro c mem
    have digit := digits c mem
    simp only [Char.isDigit, Bool.and_eq_true, decide_eq_true_eq, ge_iff_le, UInt32.le_iff_toNat_le] at digit
    change 48 ≤ c.toNat ∧ c.toNat ≤ 57 at digit
    simp only [isSpace]
    grind
  rw [trim, String.toList_ofList, trimStartOf (fun c first => dense c (List.mem_of_head? first)),
    trimEndOf (fun c last => dense c (List.mem_of_getLast? last))]

-- What `toSseChunk` writes of an id is read back.
theorem toNumberNat {n : Nat} (small : n < 2 ^ 53) : toNumber (toString n) = .fin n := by
  have shown : toString n = String.ofList (Nat.toDigits 10 n) := by simp [← String.toList_inj]
  have digits : ∀ c ∈ Nat.toDigits 10 n, c.isDigit = true := fun c mem => Nat.isDigit_of_mem_toDigits (by decide) (by decide) mem
  have decimal : unsignedDecimal (Nat.toDigits 10 n) = some (n : ℚ) := by
    rw [unsignedNat Nat.toDigits_ne_nil digits, Nat.ofDigitChars_toDigits (by decide) (by decide)]
  have bounded : finite (n : ℚ) = .fin n := by
    have cast : (n : ℚ) < 2 ^ 53 := by exact_mod_cast small
    have large : (2 : ℚ) ^ 53 ≤ 2 ^ 1024 - 2 ^ 970 := by
      have double : (2 : ℚ) ^ 1024 = 2 ^ 1023 + 2 ^ 1023 := by rw [← two_mul, ← pow_succ']
      rw [double]
      exact le_sub_iff_add_le.mpr (add_le_add (pow_le_pow_right₀ (by norm_num) (by norm_num)) (pow_le_pow_right₀ (by norm_num) (by norm_num)))
    have above : (n : ℚ) < 2 ^ 1024 - 2 ^ 970 := cast.trans_le large
    have below : -(2 ^ 1024 - 2 ^ 970 : ℚ) < n :=
      lt_of_lt_of_le (neg_neg_of_pos (lt_of_lt_of_le (by norm_num) large)) (Nat.cast_nonneg n)
    rw [finite, if_neg (not_le.mpr above), if_neg (not_le.mpr below)]
  rw [shown, toNumber, trimDigits digits, String.toList_ofList]
  have filled : Nat.toDigits 10 n ≠ [] := Nat.toDigits_ne_nil
  have apart : ∀ c d, c ∈ Nat.toDigits 10 n → d.isDigit = false → c ≠ d := fun c d mem other => digitNot (digits c mem) other
  generalize Nat.toDigits 10 n = text at digits decimal filled apart
  have finitely : text ≠ "Infinity".toList := by
    rintro rfl
    exact absurd (digits 'I' (by decide)) (by decide)
  split
  · exact absurd rfl filled
  · exact absurd rfl (apart 'x' 'x' (by simp) (by decide))
  · exact absurd rfl (apart 'X' 'X' (by simp) (by decide))
  · exact absurd rfl (apart 'o' 'o' (by simp) (by decide))
  · exact absurd rfl (apart 'O' 'O' (by simp) (by decide))
  · exact absurd rfl (apart 'b' 'b' (by simp) (by decide))
  · exact absurd rfl (apart 'B' 'B' (by simp) (by decide))
  · exact absurd rfl (apart '-' '-' (by simp) (by decide))
  · exact absurd rfl (apart '+' '+' (by simp) (by decide))
  · rw [if_neg finitely, decimal]
    exact bounded

theorem parseNat {n : Nat} (small : n < 2 ^ 53) (fallback : Int) : parseInteger (some (toString n)) fallback = n := by
  have shown : toString n = String.ofList (Nat.toDigits 10 n) := by simp [← String.toList_inj]
  have whole : trim (toString n) = toString n := by
    rw [shown, trimDigits (fun c mem => Nat.isDigit_of_mem_toDigits (by decide) (by decide) mem)]
  have filled : toString n ≠ "" := by
    rw [shown, ← String.toList_inj.ne, String.toList_ofList]
    exact Nat.toDigits_ne_nil
  simp only [parseInteger, whole, filled, if_false, toNumberNat small]
  simp [truncate]

-- An event source that asks neither for a starting point nor for no replay.
def Plain (request : StreamRequest) : Prop := truthy request.since = none ∧ request.replay = none

-- A stream opened again in place of another: the id last received comes along in the header.
structure Reopens (c d : Connection) : Prop where
  plain : Plain d.request
  filters : d.filters = c.filters
  header : d.request.lastEventIdHeader = match c.sent.getLast? with
    | some chunk => some (toString chunk.id)
    | none => c.request.lastEventIdHeader

-- What the header says; nothing is 0.
def headerId (request : StreamRequest) : Int := parseInteger request.lastEventIdHeader 0

theorem openingPlain {lower : String → String} {log : StreamLog} {request : StreamRequest} (plain : Plain request) :
    openingId lower log request = headerId request := by
  simp [openingId, plain.1, plain.2, parseBoolean, headerId]

-- Every connection of a run was opened by one of its steps.
theorem connectedBy {actions : List Action} {k : Nat} {c : Connection} (found : (run step started actions).connections[k]? = some c) :
    ∃ before request core db after, actions = before ++ .connect request core db :: after ∧
      (run step started before).connections.length = k := by
  induction actions using List.reverseRecOn generalizing c with
  | nil => cases found
  | append_singleton actions action ih =>
    have earlier : ∀ d, (run step started actions).connections[k]? = some d → ∃ before request core db after,
        actions ++ [action] = before ++ .connect request core db :: after ∧ (run step started before).connections.length = k := by
      intro d old
      obtain ⟨before, request, core, db, after, rfl, length⟩ := ih old
      exact ⟨before, request, core, db, after ++ [action], by simp, length⟩
    rw [runSnoc] at found
    cases action with
    | append data ts => exact earlier c found
    | connect request core db =>
      rcases lt_trichotomy k (run step started actions).connections.length with low | same | high
      · rw [step, List.getElem?_append_left low] at found
        exact earlier c found
      · exact ⟨actions, request, core, db, [], rfl, same.symm⟩
      · rw [step, List.getElem?_eq_none (by simp; omega)] at found
        cases found
    | poll j core =>
      simp only [step, List.getElem?_modify] at found
      obtain ⟨d, old, -⟩ := Option.map_eq_some_iff.mp found
      exact earlier d old
    | close j =>
      simp only [step, List.getElem?_modify] at found
      obtain ⟨d, old, -⟩ := Option.map_eq_some_iff.mp found
      exact earlier d old

theorem plainSends {actions : List Action} {k : Nat} {c : Connection} (found : (run step started actions).connections[k]? = some c)
    (plain : Plain c.request) :
    Sends (appended actions) (headerId c.request) c (fun n => Throughout step (Timely k n) started actions) := by
  obtain ⟨before, request, core, db, after, rfl, rfl⟩ := connectedBy found
  obtain ⟨d, there, followed⟩ := follow before request core db after
  rw [found] at there
  obtain rfl := Option.some.inj there
  rw [followed.asked] at plain ⊢
  exact openingPlain plain ▸ followed.sends

theorem reopensAt {actions : List Action} (few : (appended actions).length < 2 ^ 53) {start : Int} {c d : Connection} {timely : Nat → Prop}
    (sends : Sends (appended actions) start c timely) (reopens : Reopens c d) :
    (headerId d.request).toNat = resume Prod.fst (headerId c.request).toNat c.entries := by
  rw [headerId, reopens.header, resume, Connection.entries, List.getLast?_map]
  cases last : c.sent.getLast? with
  | none => rfl
  | some chunk =>
    have sent : chunk.entry ∈ c.entries := List.mem_map_of_mem (List.mem_of_getLast? last)
    have placed := (placeOf (runLogged actions).numbered (sends.known _ sent)).2
    change chunk.id ≤ _ at placed
    rw [parseNat (by omega)]
    rfl

-- The connections of one event source, one after the other, as if they were one.
theorem chainSends {actions : List Action} (few : (appended actions).length < 2 ^ 53) (k : Nat) (c : Connection)
    (others : List (Nat × Connection)) (found : ∀ p ∈ (k, c) :: others, (run step started actions).connections[p.1]? = some p.2)
    (plain : Plain c.request) (chain : ((k, c) :: others).IsChain (fun p q => Reopens p.2 q.2)) :
    ∃ timely, Held Prod.fst (wanted c.filters) (appended actions) (headerId c.request).toNat
      (((k, c) :: others).getLast (List.cons_ne_nil _ _)).2.lastEventId.toNat (((k, c) :: others).flatMap (fun p => p.2.entries)) timely ∧
      ∀ n, (∀ p ∈ (k, c) :: others, Throughout step (Timely p.1 n) started actions) → timely n := by
  induction others generalizing k c with
  | nil =>
    have sends := plainSends (found (k, c) List.mem_cons_self) plain
    refine ⟨_, ?_, fun n all => all (k, c) List.mem_cons_self⟩
    rw [List.flatMap_singleton]
    exact sends
  | cons next others ih =>
    obtain ⟨j, d⟩ := next
    obtain ⟨reopens, rest⟩ := List.isChain_cons_cons.mp chain
    obtain ⟨later, held, timely⟩ := ih j d (fun p mem => found p (List.mem_cons_of_mem _ mem)) reopens.plain rest
    have sends := plainSends (found (k, c) List.mem_cons_self) plain
    rw [reopens.filters, reopensAt few sends reopens] at held
    refine ⟨_, by simpa using resumeHeld (runLogged actions).numbered sends held, fun n all => ?_⟩
    split
    · exact all (k, c) List.mem_cons_self
    · exact timely n (fun p mem => all p (List.mem_cons_of_mem _ mem))

-- An event source that opens its stream again and again, each time with the id it last received, is sent every event
-- at most once and in order, and all that its filters let through but what was dropped before one of its connections
-- came to it.
theorem resumedExact (actions : List Action) (few : (appended actions).length < 2 ^ 53) (k : Nat) (c : Connection)
    (others : List (Nat × Connection)) (found : ∀ p ∈ (k, c) :: others, (run step started actions).connections[p.1]? = some p.2)
    (plain : Plain c.request) (chain : ((k, c) :: others).IsChain (fun p q => Reopens p.2 q.2)) :
    let sent := ((k, c) :: others).flatMap (fun p => p.2.entries)
    let last := (((k, c) :: others).getLast (List.cons_ne_nil _ _)).2.lastEventId
    sent.Pairwise (fun a b => a.1 < b.1) ∧
      (∀ entry ∈ sent, entry ∈ appended actions ∧ headerId c.request < entry.1 ∧ entry.1 ≤ last ∧ shouldSkip c.filters entry.2 = false) ∧
      ∀ entry ∈ appended actions, headerId c.request < entry.1 → entry.1 ≤ last → shouldSkip c.filters entry.2 = false →
        (∀ p ∈ (k, c) :: others, Throughout step (Timely p.1 entry.1) started actions) → entry ∈ sent := by
  intro sent last
  obtain ⟨timely, held, all⟩ := chainSends few k c others found plain chain
  refine ⟨held.inOrder, fun entry mem => ?_, fun entry mem beyond behind passed inTime => ?_⟩
  · have known := held.known entry mem
    have placed := (placeOf (runLogged actions).numbered known).1
    obtain ⟨above, below, passed, -⟩ := (held.exactly entry known).mp mem
    exact ⟨known, by omega, by omega, by simpa [wanted] using passed⟩
  · have placed := (placeOf (runLogged actions).numbered mem).1
    exact (held.exactly entry mem).mpr ⟨by omega, by omega, by simp [wanted, passed], all entry.1 inTime⟩

def resumingRequest : StreamRequest := {plainRequest with lastEventIdHeader := some "1"}
def resumedRun : List Action := [oneEnd, .connect plainRequest ProjectScopes.bareCore Db.empty, .close 0, oneEnd,
  .connect resumingRequest ProjectScopes.bareCore Db.empty]
def connectionAt (k : Nat) : Connection := (run step started resumedRun).connections.getD k ⟨plainRequest, ⟨false, none, ""⟩, 0, true, []⟩

theorem resumedExactTwice : ([(0, connectionAt 0), (1, connectionAt 1)].flatMap (fun p => p.2.entries)).Pairwise (fun a b => a.1 < b.1) ∧
    (connectionAt 0).entries.map Prod.fst = [1] := by
  have found : ∀ p ∈ [(0, connectionAt 0), (1, connectionAt 1)], (run step started resumedRun).connections[p.1]? = some p.2 := by
    simp only [List.forall_mem_cons]
    exact ⟨rfl, rfl, by simp⟩
  have request : (connectionAt 1).request = resumingRequest := (emitted ProjectScopes.bareCore _ _).2.1
  have filters : (connectionAt 1).filters = (connectionAt 0).filters := (emitted ProjectScopes.bareCore _ _).1
  have reopens : Reopens (connectionAt 0) (connectionAt 1) := by
    refine ⟨by rw [request]; exact ⟨rfl, rfl⟩, filters, ?_⟩
    rw [request]
    rfl
  exact ⟨(resumedExact resumedRun (by decide) 0 (connectionAt 0) [(1, connectionAt 1)] found ⟨rfl, rfl⟩
    (.cons_cons reopens (.singleton _))).1, rfl⟩

end HarnessMem.StreamEvents
