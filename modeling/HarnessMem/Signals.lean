import HarnessMem.Lease
import HarnessMem.Lib.Backlinks

/-! The signal store: `mem_signals` and the calls that send, read and acknowledge. A thrown error
(an invalid clock reading, an id already taken, a limit SQLite cannot read) changes no row. -/
namespace HarnessMem.Signals
open Js
open Lease (sqlEq)

structure Row where
  signalId : String
  threadId : String
  fromAgent : String
  toAgent : Option String
  replyTo : Option String
  content : String
  project : Option String
  sentAt : String
  expiresAt : Option String
  ackedAt : Option String
  ackedBy : Option String
  userId : Option String
  teamId : Option String
  deriving DecidableEq, Repr

structure SignalRow where
  signalId : String
  threadId : String
  fromAgent : String
  toAgent : Option String
  replyTo : Option String
  content : String
  project : Option String
  sentAt : String
  expiresAt : Option String
  ackedAt : Option String
  ackedBy : Option String
  deriving DecidableEq, Repr

def parseRow (row : Row) : SignalRow :=
  ⟨row.signalId, row.threadId, row.fromAgent, row.toAgent, row.replyTo, row.content, row.project, row.sentAt,
    row.expiresAt, row.ackedAt, row.ackedBy⟩

-- `project` may be left out, or be given as null.
structure SendRequest where
  fromAgent : String
  toAgent : Option String
  threadId : Option String
  replyTo : Option String
  content : String
  project : Option (Option String)
  expiresInMs : Option Number
  userId : Option String
  teamId : Option String

structure ReadRequest where
  agentId : String
  threadId : Option String
  includeBroadcast : Option Bool
  project : Option String
  allProjects : Bool
  userId : Option String
  teamId : Option String
  limit : Option Number

structure AckRequest where
  signalId : String
  agentId : String
  userId : Option String
  teamId : Option String

inductive Thrown where | invalidDate | duplicateKey | datatypeMismatch
  deriving DecidableEq, Repr
inductive SendError where | invalidFrom | invalidContent | replyTargetMissing
  deriving DecidableEq, Repr
inductive AckError where | notFound | alreadyAcked | notRecipient
  deriving DecidableEq, Repr

def untagged (row : Row) : Bool := row.userId.isNone && row.teamId.isNone

-- The one tenant check of `send`, `read` and `ack`; a caller without a scope passes it.
def matchesTenant (userId teamId : Option String) (row : Row) : Bool :=
  (userId.isNone && teamId.isNone) || untagged row || sqlEq row.userId userId || sqlEq row.teamId teamId

def findRow (signalId : String) (rows : List Row) : Option Row := rows.find? (fun row => row.signalId = signalId)

-- The thread and project a signal goes to; an empty `replyTo` looks no parent up.
def replyScope (req : SendRequest) (rows : List Row) : Except SendError (String × Option String) :=
  let threadId := trim (req.threadId.getD "")
  let effectiveProject := req.project.getD none
  match req.replyTo with
  | none => .ok (threadId, effectiveProject)
  | some replyTo =>
    if replyTo = "" then .ok (threadId, effectiveProject)
    else match findRow replyTo rows with
      | none => .error .replyTargetMissing
      | some parent =>
        if req.project.isSome ∧ parent.project ≠ effectiveProject then .error .replyTargetMissing
        else if matchesTenant req.userId req.teamId parent = false then .error .replyTargetMissing
        else .ok (parent.threadId, if req.project.isSome then effectiveProject else parent.project)

-- No `expires_at`, or its text; `none` is the RangeError of an invalid date.
def expiry (now : Number) : Option Number → Option (Option String)
  | some ms => if ms.positive then (toIso (now.add ms)).map some else some none
  | none => some none

def newRow (id threadId : String) (project : Option String) (sentAt : String) (expiresAt : Option String)
    (req : SendRequest) : Row :=
  ⟨id, if threadId = "" then id else threadId, trim req.fromAgent, req.toAgent, req.replyTo, req.content, project,
    sentAt, expiresAt, none, none, req.userId, req.teamId⟩

def send (now : Number) (id : String) (req : SendRequest) (rows : List Row) :
    List Row × Except Thrown (Except SendError SignalRow) :=
  if trim req.fromAgent = "" then (rows, .ok (.error .invalidFrom))
  else if req.content = "" then (rows, .ok (.error .invalidContent))
  else match replyScope req rows with
    | .error missing => (rows, .ok (.error missing))
    | .ok (threadId, project) =>
      match toIso now with
      | none => (rows, .error .invalidDate)
      | some sentAt =>
        match expiry now req.expiresInMs with
        | none => (rows, .error .invalidDate)
        | some expiresAt =>
          if rows.any (fun row => row.signalId = id) then (rows, .error .duplicateKey)
          else
            let row := newRow id threadId project sentAt expiresAt req
            (rows ++ [row], .ok (.ok (parseRow row)))

-- `none` is a LIMIT that is no 64-bit integer.
def readLimit : Option Number → Option Nat
  | some (.fin q) => if 0 < q then (if ⌊q⌋ < 2 ^ 63 then some ⌊q⌋.toNat else none) else some 100
  | some .posInf => none
  | _ => some 100

def inProject (req : ReadRequest) (row : Row) : Bool :=
  req.allProjects || row.project.isNone || sqlEq row.project req.project

def pending (nowIso : String) (row : Row) : Bool :=
  row.ackedAt.isNone && (match row.expiresAt with | none => true | some expiresAt => nowIso < expiresAt)

def addressed (req : ReadRequest) (row : Row) : Bool :=
  row.toAgent = some (trim req.agentId) || (req.includeBroadcast ≠ some false && row.toAgent.isNone)

def onThread (req : ReadRequest) (row : Row) : Bool :=
  match req.threadId with
  | none => true
  | some threadId => threadId = "" || row.threadId = threadId

def readable (nowIso : String) (req : ReadRequest) (row : Row) : Bool :=
  pending nowIso row && addressed req row && onThread req row && matchesTenant req.userId req.teamId row && inProject req row

def read (now : Number) (req : ReadRequest) (rows : List Row) : Except Thrown (List SignalRow) :=
  if trim req.agentId = "" then .ok []
  else match toIso now with
    | none => .error .invalidDate
    | some nowIso =>
      match readLimit req.limit with
      | none => .error .datatypeMismatch
      | some limit =>
        .ok (((Tables.orderBy (fun a b => a.sentAt ≤ b.sentAt) (rows.filter (readable nowIso req))).take limit).map parseRow)

def markAcked (nowIso agentId : String) (row : Row) : Row := {row with ackedAt := some nowIso, ackedBy := some agentId}

def ack (now : Number) (req : AckRequest) (rows : List Row) : List Row × Except Thrown (Except AckError SignalRow) :=
  match findRow req.signalId rows with
  | none => (rows, .ok (.error .notFound))
  | some row =>
    if matchesTenant req.userId req.teamId row = false then (rows, .ok (.error .notFound))
    else if row.ackedAt.isSome then (rows, .ok (.error .alreadyAcked))
    else if row.toAgent.isSome ∧ row.toAgent ≠ some req.agentId then (rows, .ok (.error .notRecipient))
    else match toIso now with
      | none => (rows, .error .invalidDate)
      | some nowIso =>
        (Tables.update (fun row => row.signalId = req.signalId) (markAcked nowIso req.agentId) rows,
          .ok (.ok (parseRow (markAcked nowIso req.agentId row))))

inductive Call where
  | send (now : Number) (id : String) (req : SendRequest)
  | read (now : Number) (req : ReadRequest)
  | ack (now : Number) (req : AckRequest)

def step (rows : List Row) : Call → List Row
  | .send now id req => (send now id req rows).1
  | .read _ _ => rows
  | .ack now req => (ack now req rows).1

def run (calls : List Call) : List Row := Runs.run step [] calls

-- What one call can do to the rows.
inductive Effect (rows : List Row) (call : Call) : List Row → Prop where
  | same : Effect rows call rows
  | sent (now : Number) (id : String) (req : SendRequest) (threadId : String) (project : Option String) (sentAt : String)
      (expiresAt : Option String) (asked : call = .send now id req) (scope : replyScope req rows = .ok (threadId, project))
      (dated : toIso now = some sentAt) (expires : expiry now req.expiresInMs = some expiresAt)
      (fresh : ∀ row ∈ rows, row.signalId ≠ id) :
      Effect rows call (rows ++ [newRow id threadId project sentAt expiresAt req])
  | acked (signalId nowIso agentId : String) :
      Effect rows call (Tables.update (fun row => row.signalId = signalId) (markAcked nowIso agentId) rows)

-- A send either leaves the rows alone and hands no signal back, or appends the one it hands back.
theorem sendCases (now : Number) (id : String) (req : SendRequest) (rows : List Row) :
    ((send now id req rows).1 = rows ∧ ∀ signal, (send now id req rows).2 ≠ .ok (.ok signal)) ∨
      ∃ threadId project sentAt expiresAt, replyScope req rows = .ok (threadId, project) ∧ toIso now = some sentAt ∧
        expiry now req.expiresInMs = some expiresAt ∧ (∀ row ∈ rows, row.signalId ≠ id) ∧
        send now id req rows = (rows ++ [newRow id threadId project sentAt expiresAt req],
          .ok (.ok (parseRow (newRow id threadId project sentAt expiresAt req)))) := by
  unfold send
  split
  · exact .inl ⟨rfl, fun _ same => by cases same⟩
  split
  · exact .inl ⟨rfl, fun _ same => by cases same⟩
  split
  · exact .inl ⟨rfl, fun _ same => by cases same⟩
  rename_i threadId project scope
  split
  · exact .inl ⟨rfl, fun _ same => by cases same⟩
  rename_i sentAt dated
  split
  · exact .inl ⟨rfl, fun _ same => by cases same⟩
  rename_i expiresAt expires
  split
  · exact .inl ⟨rfl, fun _ same => by cases same⟩
  · rename_i unused
    refine .inr ⟨threadId, project, sentAt, expiresAt, scope, dated, expires, fun row mem same => unused ?_, rfl⟩
    exact List.any_eq_true.mpr ⟨row, mem, by simpa using same⟩

theorem ackCases (now : Number) (req : AckRequest) (rows : List Row) :
    (ack now req rows).1 = rows ∨ ∃ nowIso row, findRow req.signalId rows = some row ∧
      matchesTenant req.userId req.teamId row = true ∧ (ack now req rows).1 =
        Tables.update (fun row => row.signalId = req.signalId) (markAcked nowIso req.agentId) rows := by
  unfold ack
  split
  · exact .inl rfl
  rename_i row found
  split
  · exact .inl rfl
  rename_i seen
  split
  · exact .inl rfl
  split
  · exact .inl rfl
  split
  · exact .inl rfl
  · rename_i nowIso _
    exact .inr ⟨nowIso, row, found, Bool.eq_true_of_not_eq_false seen, rfl⟩

theorem stepEffect (rows : List Row) (call : Call) : Effect rows call (step rows call) := by
  cases call with
  | send now id req =>
    rcases sendCases now id req rows with ⟨same, -⟩ | ⟨threadId, project, sentAt, expiresAt, scope, dated, expires, fresh, sent⟩
    · rw [step, same]
      exact .same
    · rw [step, sent]
      exact .sent now id req threadId project sentAt expiresAt rfl scope dated expires fresh
  | read now req => exact .same
  | ack now req =>
    rcases ackCases now req rows with same | ⟨nowIso, row, -, -, acked⟩
    · rw [step, same]
      exact .same
    · rw [step, acked]
      exact .acked req.signalId nowIso req.agentId

theorem keysStep (rows : List Row) (call : Call) (unique : (rows.map Row.signalId).Nodup) :
    ((step rows call).map Row.signalId).Nodup := by
  generalize after : step rows call = next
  have effect := stepEffect rows call
  rw [after] at effect
  cases effect with
  | same => exact unique
  | sent now id req threadId project sentAt expiresAt asked scope dated expires fresh =>
    rw [List.map_append, List.map_singleton]
    refine List.nodup_append.mpr ⟨unique, List.nodup_singleton _, fun a mem b last same => ?_⟩
    obtain ⟨row, held, rfl⟩ := List.mem_map.mp mem
    exact fresh row held (same.trans (List.mem_singleton.mp last))
  | acked signalId nowIso agentId =>
    rw [Tables.updateColumn Row.signalId (fun row => show (markAcked nowIso agentId row).signalId = row.signalId from rfl)]
    exact unique

theorem runKeys (calls : List Call) : ((run calls).map Row.signalId).Nodup :=
  Runs.invariant step keysStep (show (([] : List Row).map Row.signalId).Nodup from List.nodup_nil) calls

-- A later table still holds every row, at most acknowledged since.
def Later (rows next : List Row) : Prop :=
  ∀ row ∈ rows, row ∈ next ∨ ∃ nowIso agentId, markAcked nowIso agentId row ∈ next

theorem laterStep (rows : List Row) (call : Call) : Later rows (step rows call) := by
  intro row mem
  generalize after : step rows call = next
  have effect := stepEffect rows call
  rw [after] at effect
  cases effect with
  | same => exact .inl mem
  | sent => exact .inl (List.mem_append_left _ mem)
  | acked signalId nowIso agentId =>
    by_cases chosen : row.signalId = signalId
    · exact .inr ⟨nowIso, agentId, Tables.memUpdate.mpr ⟨row, mem, by simp [chosen]⟩⟩
    · exact .inl (Tables.memUpdate.mpr ⟨row, mem, by simp [chosen]⟩)

theorem laterTrans {a b c : List Row} (first : Later a b) (second : Later b c) : Later a c := by
  intro row mem
  rcases first row mem with kept | ⟨nowIso, agentId, acked⟩
  · exact second row kept
  · rcases second _ acked with kept | ⟨nowIso', agentId', again⟩
    · exact .inr ⟨nowIso, agentId, kept⟩
    · exact .inr ⟨nowIso', agentId', again⟩

theorem laterRow {rows next : List Row} (later : Later rows next) {row : Row} (mem : row ∈ rows) :
    ∃ kept ∈ next, kept.signalId = row.signalId ∧ kept.expiresAt = row.expiresAt ∧ (row.ackedAt.isSome → kept.ackedAt.isSome) := by
  rcases later row mem with kept | ⟨nowIso, agentId, acked⟩
  · exact ⟨row, kept, rfl, rfl, id⟩
  · exact ⟨_, acked, rfl, rfl, fun _ => rfl⟩

theorem laterRun (rows : List Row) (calls : List Call) : Later rows (Runs.run step rows calls) :=
  Runs.monotone step (show ∀ rows, Later rows rows from fun _ _ mem => .inl mem) laterTrans laterStep rows calls

-- A reply stays in its parent's thread and project.
def SameThread (parent row : Row) : Prop := parent.threadId = row.threadId ∧ parent.project = row.project

-- No stored signal replies to the empty string.
def PlainReplies (rows : List Row) : Prop := ∀ row ∈ rows, row.replyTo ≠ some ""

structure Threaded (rows : List Row) : Prop where
  named : ∀ row ∈ rows, row.threadId = "" → row.signalId = ""
  back : PlainReplies rows → Backlinks.Backward Row.signalId Row.replyTo SameThread rows

theorem plainLater {rows next : List Row} (later : Later rows next) (plain : PlainReplies next) : PlainReplies rows := by
  intro row mem
  rcases later row mem with kept | ⟨nowIso, agentId, acked⟩
  · exact plain row kept
  · exact plain (markAcked nowIso agentId row) acked

theorem scopeParent {req : SendRequest} {rows : List Row} {threadId replyTo : String} {project : Option String}
    (scope : replyScope req rows = .ok (threadId, project)) (reply : req.replyTo = some replyTo) (plain : replyTo ≠ "") :
    ∃ parent ∈ rows, parent.signalId = replyTo ∧ parent.threadId = threadId ∧ parent.project = project := by
  simp only [replyScope, reply, if_neg plain] at scope
  split at scope
  · cases scope
  · rename_i parent found
    split at scope
    · cases scope
    · rename_i agree
      split at scope
      · cases scope
      · cases scope
        refine ⟨parent, List.mem_of_find?_eq_some found, by simpa using List.find?_some found, rfl, ?_⟩
        split
        · rename_i given
          exact not_ne_iff.mp (fun apart => agree ⟨given, apart⟩)
        · rfl

theorem threadedStep (rows : List Row) (call : Call) (threaded : Threaded rows) : Threaded (step rows call) := by
  have later := laterStep rows call
  generalize after : step rows call = next
  have effect := stepEffect rows call
  rw [after] at effect later
  cases effect with
  | same => exact threaded
  | sent now id req threadId project sentAt expiresAt asked scope dated expires fresh =>
    subst asked
    refine ⟨fun row mem blank => ?_, fun plain =>
      Backlinks.backwardSnoc (threaded.back (plainLater later plain)) fun replyTo reply => ?_⟩
    · rcases List.mem_append.mp mem with old | new
      · exact threaded.named row old blank
      · obtain rfl := List.mem_singleton.mp new
        simp only [newRow] at blank ⊢
        split at blank
        · exact blank
        · contradiction
    · have nonempty : replyTo ≠ "" := fun empty => plain _ (List.mem_append_right _ List.mem_cons_self) (empty ▸ reply)
      obtain ⟨parent, held, same, thread, place⟩ := scopeParent scope reply nonempty
      have kept : threadId ≠ "" := fun blank => nonempty (same.symm.trans (threaded.named parent held (thread.trans blank)))
      exact ⟨parent, held, same, by simp [newRow, kept, thread], place⟩
  | acked signalId nowIso agentId =>
    refine ⟨Tables.updateAll (fun row _ named => named) threaded.named, fun plain => ?_⟩
    refine Backlinks.backwardMap (fun row => ?_) (fun row => ?_) (fun a b alike => ?_) (threaded.back (plainLater later plain))
    · split <;> rfl
    · split <;> rfl
    · split <;> split <;> exact alike

theorem runThreaded (calls : List Call) : Threaded (run calls) :=
  Runs.invariant step threadedStep ⟨fun _ mem => (List.not_mem_nil mem).elim, fun _ => Backlinks.backwardNil⟩ calls

-- Replies name an earlier row of their thread and project, never circle, and end at a root there.
structure WellFormed (rows : List Row) : Prop where
  back : Backlinks.Backward Row.signalId Row.replyTo SameThread rows
  acyclic : ∀ row ∈ rows, ¬ Relation.TransGen (Backlinks.Follows Row.signalId Row.replyTo rows) row row
  rooted : ∀ row ∈ rows, ∃ root ∈ rows, Relation.ReflTransGen (Backlinks.Follows Row.signalId Row.replyTo rows) row root ∧
    root.replyTo = none ∧ SameThread root row

def Call.named : Call → Prop
  | .send _ id _ => id ≠ ""
  | _ => True

theorem namedStep (rows : List Row) (call : Call) (named : call.named) (held : ∀ row ∈ rows, row.signalId ≠ "") :
    ∀ row ∈ step rows call, row.signalId ≠ "" := by
  generalize after : step rows call = next
  have effect := stepEffect rows call
  rw [after] at effect
  cases effect with
  | same => exact held
  | sent now id req threadId project sentAt expiresAt asked scope dated expires fresh =>
    subst asked
    intro row mem
    rcases List.mem_append.mp mem with old | new
    · exact held row old
    · exact List.mem_singleton.mp new ▸ named
  | acked signalId nowIso agentId => exact Tables.updateAll (fun row _ named => named) held

theorem threadsExact (calls : List Call) (named : ∀ call ∈ calls, call.named) :
    WellFormed (run calls) ↔ PlainReplies (run calls) := by
  constructor
  · intro formed row mem empty
    have nonempty : ∀ row ∈ run calls, row.signalId ≠ "" :=
      Runs.invariantOn step namedStep (fun _ mem => (List.not_mem_nil mem).elim) calls named
    obtain ⟨before, after, split⟩ := List.append_of_mem mem
    obtain ⟨parent, earlier, blank, -⟩ := formed.back before row after split "" empty
    exact nonempty parent (split ▸ List.mem_append_left _ earlier) blank
  · intro plain
    have back := (runThreaded calls).back plain
    exact ⟨back, Backlinks.acyclic (runKeys calls) back, Backlinks.rooted (fun _ => ⟨rfl, rfl⟩)
      (fun _ _ _ first second => ⟨first.1.trans second.1, first.2.trans second.2⟩) back⟩

def hello (toAgent replyTo : Option String) : SendRequest := ⟨"alice", toAgent, none, replyTo, "hi", none, none, none, none⟩
def helloRow (id : String) (toAgent replyTo : Option String) : Row :=
  ⟨id, id, "alice", toAgent, replyTo, "hi", none, "1970-01-01T00:00:00.000Z", none, none, none, none, none⟩

theorem helloSent {toAgent replyTo : Option String} (plain : replyTo = none ∨ replyTo = some "") :
    send (.fin 0) "s1" (hello toAgent replyTo) [] =
      ([helloRow "s1" toAgent replyTo], .ok (.ok (parseRow (helloRow "s1" toAgent replyTo)))) := by
  have zero : toIso (.fin 0) = some "1970-01-01T00:00:00.000Z" := by decide
  have sender : trim "alice" = "alice" := by decide
  have thread : trim "" = "" := by decide
  rcases plain with rfl | rfl <;> simp [send, hello, replyScope, zero, expiry, newRow, helloRow, sender, thread]

theorem threadsExactHello : WellFormed (run [.send (.fin 0) "s1" (hello none none)]) := by
  refine (threadsExact [.send (.fin 0) "s1" (hello none none)] (fun call mem => ?_)).mpr fun row mem => ?_
  · rw [List.mem_singleton.mp mem]
    exact (by decide : "s1" ≠ "")
  · have rows : run [.send (.fin 0) "s1" (hello none none)] = [helloRow "s1" none none] := congrArg Prod.fst (helloSent (.inl rfl))
    rw [rows] at mem
    rw [List.mem_singleton.mp mem]
    exact (Option.some_ne_none "").symm

theorem emptyReply : ¬ WellFormed (run [.send (.fin 0) "s1" (hello none (some ""))]) := by
  have rows : run [.send (.fin 0) "s1" (hello none (some ""))] = [helloRow "s1" none (some "")] :=
    congrArg Prod.fst (helloSent (.inr rfl))
  rw [rows]
  intro formed
  obtain ⟨parent, earlier, -⟩ := formed.back [] (helloRow "s1" none (some "")) [] rfl "" rfl
  cases earlier

-- The instant a send asks its signal to expire at.
def expiryTime (now : Number) : Option Number → Option Int
  | some ms => if ms.positive then timeClip (now.add ms) else none
  | none => none

theorem expiryText {now : Number} {ms : Option Number} {expiresAt : Option String} (ok : expiry now ms = some expiresAt) :
    expiresAt = (expiryTime now ms).map isoText := by
  cases ms with
  | none => exact (Option.some.inj ok).symm
  | some ms =>
    simp only [expiry, expiryTime] at ok ⊢
    split at ok
    · rename_i positive
      rw [if_pos positive]
      obtain ⟨text, dated, rfl⟩ := Option.map_eq_some_iff.mp ok
      obtain ⟨instant, clipped, rfl⟩ := Option.map_eq_some_iff.mp dated
      rw [clipped]
      rfl
    · rename_i other
      rw [if_neg other]
      exact (Option.some.inj ok).symm

theorem sqlEqSelf (tag : Option String) : sqlEq tag tag = tag.isSome := by cases tag <;> simp [sqlEq]

theorem ownTenant (row : Row) : matchesTenant row.userId row.teamId row = true := by
  simp only [matchesTenant, untagged, sqlEqSelf]
  cases row.userId <;> cases row.teamId <;> rfl

theorem findHeld {rows : List Row} (unique : (rows.map Row.signalId).Nodup) {row : Row} (mem : row ∈ rows) :
    findRow row.signalId rows = some row := by
  cases found : findRow row.signalId rows with
  | none => exact absurd (List.find?_eq_none.mp found row mem) (by simp)
  | some other =>
    have same : other.signalId = row.signalId := by simpa using List.find?_some found
    rw [Tables.keyUnique unique (List.mem_of_find?_eq_some found) mem same]

-- What a read hands back: rows that qualify, all of them when the limit leaves room.
theorem readRows {now : Number} {req : ReadRequest} {rows : List Row} {found : List SignalRow}
    (ok : read now req rows = .ok found) {signal : SignalRow} (mem : signal ∈ found) :
    ∃ nowIso, toIso now = some nowIso ∧ ∃ row ∈ rows, readable nowIso req row = true ∧ parseRow row = signal := by
  unfold read at ok
  split at ok
  · cases ok
    cases mem
  split at ok
  · cases ok
  rename_i nowIso dated
  split at ok
  · cases ok
  · cases ok
    obtain ⟨row, taken, same⟩ := List.mem_map.mp mem
    have held := (Tables.memOrderBy _).mp (List.mem_of_mem_take taken)
    exact ⟨nowIso, dated, row, (List.mem_filter.mp held).1, (List.mem_filter.mp held).2, same⟩

def inbox (agentId : String) (project userId teamId : Option String) (includeBroadcast : Option Bool) (limit : Nat) :
    ReadRequest := ⟨agentId, none, includeBroadcast, project, false, userId, teamId, some (.fin limit)⟩

theorem inboxLimit {limit : Nat} (positive : 0 < limit) (small : limit < 2 ^ 63) : readLimit (some (.fin limit)) = some limit := by
  have positive : (0 : ℚ) < limit := by exact_mod_cast positive
  have floor : ⌊(limit : ℚ)⌋ = (limit : Int) := Int.floor_natCast limit
  rw [readLimit, if_pos positive, floor, if_pos (by exact_mod_cast small)]
  rfl

theorem inboxHolds {rows : List Row} {agent nowIso : String} {project userId teamId : Option String}
    {includeBroadcast : Option Bool} {limit : Nat} {now : Number} (named : trim agent ≠ "") (dated : toIso now = some nowIso)
    (room : rows.length ≤ limit) (positive : 0 < limit) (small : limit < 2 ^ 63) {row : Row} (mem : row ∈ rows)
    (qualifies : readable nowIso (inbox agent project userId teamId includeBroadcast limit) row = true) :
    ∃ found, read now (inbox agent project userId teamId includeBroadcast limit) rows = .ok found ∧ parseRow row ∈ found := by
  have asked : trim (inbox agent project userId teamId includeBroadcast limit).agentId ≠ "" := named
  have limited : readLimit (inbox agent project userId teamId includeBroadcast limit).limit = some limit := inboxLimit positive small
  unfold read
  rw [if_neg asked]
  simp only [dated, limited]
  refine ⟨_, rfl, List.mem_map_of_mem ?_⟩
  rw [List.take_of_length_le]
  · exact (Tables.memOrderBy _).mpr (List.mem_filter.mpr ⟨mem, qualifies⟩)
  · rw [Tables.orderBy, List.length_insertionSort]
    exact (List.length_filter_le _ _).trans room

def Unacked (id : String) (rows : List Row) : Prop := ∀ row ∈ rows, row.signalId = id → row.ackedAt = none

-- The row a send stored, in any later table where it is not acknowledged.
theorem sentHeld (after : List Call) {before : List Call} {now : Number} {id : String} {req : SendRequest} {signal : SignalRow}
    (sent : (send now id req (run before)).2 = .ok (.ok signal)) :
    ∃ row, parseRow row = signal ∧ row.signalId = id ∧ row.toAgent = req.toAgent ∧ row.userId = req.userId ∧
      row.teamId = req.teamId ∧ row.ackedAt = none ∧ row.expiresAt = (expiryTime now req.expiresInMs).map isoText ∧
      Later [row] (run (before ++ .send now id req :: after)) := by
  rcases sendCases now id req (run before) with ⟨-, refused⟩ | ⟨threadId, project, sentAt, expiresAt, -, -, expires, -, stored⟩
  · exact absurd sent (refused signal)
  · rw [stored] at sent
    refine ⟨newRow id threadId project sentAt expiresAt req, Except.ok.inj (Except.ok.inj sent), rfl, rfl, rfl, rfl, rfl,
      expiryText expires, ?_⟩
    rw [run, Runs.runAppend, Runs.runCons, step]
    change Later _ (Runs.run step (send now id req (run before)).1 after)
    rw [stored]
    refine laterTrans (fun row mem => .inl ?_) (laterRun _ after)
    exact List.mem_append_right _ mem

theorem unackedHeld {row : Row} {rows : List Row} (later : Later [row] rows) (unacked : Unacked row.signalId rows) : row ∈ rows := by
  rcases later row List.mem_cons_self with kept | ⟨nowIso, agentId, acked⟩
  · exact kept
  · exact absurd (unacked _ acked rfl) (Option.some_ne_none _)

theorem toIsoText {now : Number} {t : Int} (clipped : timeClip now = some t) : toIso now = some (isoText t) := by
  rw [toIso, clipped]
  rfl

-- An inbox read finds a pending signal to the agent exactly when `to` is already trimmed.
theorem deliveredExact {rows : List Row} (unique : (rows.map Row.signalId).Nodup) {row : Row} (held : row ∈ rows)
    (unacked : row.ackedAt = none) {agent : String} (direct : row.toAgent = some agent) (named : trim agent ≠ "")
    {now : Number} {t : Int} (clipped : timeClip now = some t) {limit : Nat} (room : rows.length ≤ limit)
    (small : limit < 2 ^ 63) (includeBroadcast : Option Bool) :
    (∃ found, read now (inbox agent row.project row.userId row.teamId includeBroadcast limit) rows = .ok found ∧
        parseRow row ∈ found) ↔
      trim agent = agent ∧ ∀ expiresAt, row.expiresAt = some expiresAt → isoText t < expiresAt := by
  have dated := toIsoText clipped
  generalize asked : inbox agent row.project row.userId row.teamId includeBroadcast limit = req
  have shown : readable (isoText t) req row = true ↔
      trim agent = agent ∧ ∀ expiresAt, row.expiresAt = some expiresAt → isoText t < expiresAt := by
    have tenant : matchesTenant req.userId req.teamId row = true := asked ▸ ownTenant row
    have thread : onThread req row = true := asked ▸ rfl
    have place : inProject req row = true := by
      simp only [← asked, inProject, inbox, sqlEqSelf]
      cases row.project <;> rfl
    have target : addressed req row = true ↔ trim agent = agent := by
      simp [← asked, addressed, inbox, direct, eq_comm]
    have live : pending (isoText t) row = true ↔ ∀ expiresAt, row.expiresAt = some expiresAt → isoText t < expiresAt := by
      cases expires : row.expiresAt <;> simp [pending, unacked, expires]
    simp only [readable, Bool.and_eq_true, target, live, place, thread, tenant, and_true]
    exact and_comm
  constructor
  · rintro ⟨found, ok, mem⟩
    obtain ⟨nowIso, dated', other, within, qualifies, same⟩ := readRows ok mem
    obtain rfl := Tables.keyUnique unique within held (congrArg SignalRow.signalId same)
    exact shown.mp (Option.some.inj (dated'.symm.trans dated) ▸ qualifies)
  · intro condition
    subst asked
    exact inboxHolds named dated room (List.length_pos_of_mem held |>.trans_le room) small held (shown.mpr condition)

-- An agent that read a direct signal can acknowledge it exactly when its id is already trimmed.
theorem ackableExact {rows next : List Row} (unique : (next.map Row.signalId).Nodup) (later : Later rows next)
    {readNow : Number} {req : ReadRequest} {found : List SignalRow} (ok : read readNow req rows = .ok found)
    {signal : SignalRow} (mem : signal ∈ found) (direct : signal.toAgent ≠ none) (unacked : Unacked signal.signalId next)
    {now : Number} {t : Int} (clipped : timeClip now = some t) :
    (∃ acked, (ack now ⟨signal.signalId, req.agentId, req.userId, req.teamId⟩ next).2 = .ok (.ok acked)) ↔
      trim req.agentId = req.agentId := by
  obtain ⟨nowIso, -, row, within, qualifies, rfl⟩ := readRows ok mem
  have held : row ∈ next := unackedHeld (fun other mem => later other (List.mem_singleton.mp mem ▸ within)) unacked
  have open_ : row.ackedAt = none := unacked row held rfl
  simp only [readable, Bool.and_eq_true] at qualifies
  obtain ⟨⟨⟨⟨-, target⟩, -⟩, tenant⟩, -⟩ := qualifies
  have toAgent : row.toAgent = some (trim req.agentId) := by
    have given : row.toAgent ≠ none := direct
    simpa [addressed, given] using target
  have found : findRow (parseRow row).signalId next = some row := findHeld unique held
  unfold ack
  simp only [found, tenant, open_, toAgent, toIsoText clipped, Bool.true_eq_false, if_false, Option.isSome_none,
    Option.isSome_some, Bool.false_eq_true, ne_eq, Option.some_inj, true_and]
  by_cases same : trim req.agentId = req.agentId
  · rw [if_neg (not_not_intro same)]
    exact iff_of_true ⟨_, rfl⟩ same
  · rw [if_pos same]
    exact iff_of_false (fun ⟨_, refused⟩ => by cases refused) same

theorem silentRow {rows : List Row} (unique : (rows.map Row.signalId).Nodup) {row : Row} (held : row ∈ rows)
    {now : Number} {t : Int} (clipped : timeClip now = some t)
    (ended : row.ackedAt.isSome ∨ ∃ expiresAt, row.expiresAt = some expiresAt ∧ expiresAt ≤ isoText t) {req : ReadRequest}
    {found : List SignalRow} (ok : read now req rows = .ok found) : ∀ signal ∈ found, signal.signalId ≠ row.signalId := by
  intro signal mem same
  obtain ⟨nowIso, dated, other, within, qualifies, rfl⟩ := readRows ok mem
  obtain rfl := Tables.keyUnique unique within held same
  rw [toIsoText clipped, Option.some_inj] at dated
  subst dated
  simp only [readable, pending, Bool.and_eq_true] at qualifies
  obtain ⟨⟨⟨⟨⟨unacked, live⟩, -⟩, -⟩, -⟩, -⟩ := qualifies
  rcases ended with acked | ⟨expiresAt, expires, past⟩
  · rw [Option.isNone_iff_eq_none.mp unacked] at acked
    cases acked
  · simp only [expires, decide_eq_true_eq] at live
    exact absurd past (String.not_le.mpr live)

-- A signal's whole life: `rows` is any table after its send.
theorem signalsExact (before after : List Call) (now : Number) (id : String) (req : SendRequest) (signal : SignalRow)
    (sent : (send now id req (run before)).2 = .ok (.ok signal)) :
    let rows := run (before ++ .send now id req :: after)
    -- pending mail is in the inbox exactly when `to` is trimmed and the two ISO texts compare as the instants do
    (∀ agent readNow t includeBroadcast limit, req.toAgent = some agent → trim agent ≠ "" → timeClip readNow = some t →
      rows.length ≤ limit → limit < 2 ^ 63 → Unacked id rows → (∀ e, expiryTime now req.expiresInMs = some e → t < e) →
        ((∃ found, read readNow (inbox agent signal.project req.userId req.teamId includeBroadcast limit) rows = .ok found ∧
            signal ∈ found) ↔
          trim agent = agent ∧ ∀ e, expiryTime now req.expiresInMs = some e → isoText t < isoText e)) ∧
    -- whoever read a direct signal can acknowledge it exactly when that agent id is trimmed
    (∀ readNow query found mail more ackNow t, read readNow query rows = .ok found → mail ∈ found → mail.toAgent ≠ none →
      Unacked mail.signalId (Runs.run step rows more) → timeClip ackNow = some t →
        ((∃ acked, (ack ackNow ⟨mail.signalId, query.agentId, query.userId, query.teamId⟩ (Runs.run step rows more)).2 =
            .ok (.ok acked)) ↔ trim query.agentId = query.agentId)) ∧
    -- once acknowledged, or expired by both the instants and their texts, no read returns it
    (∀ more readNow t query found, timeClip readNow = some t → read readNow query (Runs.run step rows more) = .ok found →
      (¬ Unacked id rows ∨ ∃ e, expiryTime now req.expiresInMs = some e ∧ e ≤ t ∧ isoText e ≤ isoText t) →
        ∀ mail ∈ found, mail.signalId ≠ id) := by
  intro rows
  have unique : (rows.map Row.signalId).Nodup := runKeys _
  obtain ⟨row, same, sameId, toAgent, userId, teamId, fresh, expires, later⟩ := sentHeld after sent
  subst same sameId
  have laterKeys : ∀ more, ((Runs.run step rows more).map Row.signalId).Nodup := fun more => by
    have whole := runKeys (before ++ .send now row.signalId req :: after ++ more)
    rwa [run, Runs.runAppend] at whole
  refine ⟨fun agent readNow t includeBroadcast limit direct named clipped room small unacked _ => ?_,
    fun readNow query found mail more ackNow t ok mem direct unacked clipped => ?_,
    fun more readNow t query found clipped ok ended => ?_⟩
  · have exact_ := deliveredExact unique (unackedHeld later unacked) fresh (toAgent.trans direct) named clipped room small
      includeBroadcast
    rw [userId, teamId] at exact_
    refine exact_.trans (and_congr_right fun _ => ?_)
    rw [expires]
    simp
  · exact ackableExact (laterKeys more) (laterRun rows more) ok mem direct unacked clipped
  · rcases ended with acked | ⟨e, asked, -, past⟩
    · simp only [Unacked, not_forall] at acked
      obtain ⟨other, held, sameId, acked⟩ := acked
      obtain ⟨now_, kept, keptId, -, keptAck⟩ := laterRow (laterRun rows more) held
      rw [← sameId, ← keptId]
      exact silentRow (laterKeys more) kept clipped (.inl (keptAck (Option.isSome_iff_ne_none.mpr acked))) ok
    · obtain ⟨now_, kept, keptId, keptExpiry, -⟩ := laterRow (laterTrans later (laterRun rows more)) List.mem_cons_self
      rw [← keptId]
      refine silentRow (laterKeys more) kept clipped (.inr ⟨isoText e, ?_, past⟩) ok
      rw [keptExpiry, expires, asked]
      rfl

theorem signalsExactHello : ∃ found, read (.fin 1) (inbox "bob" none none none none 10) [helloRow "s1" (some "bob") none] = .ok found ∧
    parseRow (helloRow "s1" (some "bob") none) ∈ found := by
  have rows : run ([] ++ [.send (.fin 0) "s1" (hello (some "bob") none)]) = [helloRow "s1" (some "bob") none] :=
    congrArg Prod.fst (helloSent (.inl rfl))
  have life := signalsExact [] [] (.fin 0) "s1" (hello (some "bob") none) _ (congrArg Prod.snd (helloSent (.inl rfl)))
  rw [rows] at life
  exact (life.1 "bob" (.fin 1) 1 none 10 rfl (by decide) (by decide) (by decide) (by decide)
    (fun row mem _ => List.mem_singleton.mp mem ▸ rfl) (fun e asked => by cases asked)).mpr
      ⟨by decide, fun e asked => by cases asked⟩

-- A padded `to` is never read, and a padded reader cannot acknowledge.
theorem paddedMissed :
    (send (.fin 0) "s1" (hello (some " bob ") none) []).2 = .ok (.ok (parseRow (helloRow "s1" (some " bob ") none))) ∧
      read (.fin 1) (inbox " bob " none none none none 10) (run [.send (.fin 0) "s1" (hello (some " bob ") none)]) = .ok [] ∧
      read (.fin 1) (inbox " bob " none none none none 10) (run [.send (.fin 0) "s1" (hello (some "bob") none)]) =
        .ok [parseRow (helloRow "s1" (some "bob") none)] ∧
      (ack (.fin 1) ⟨"s1", " bob ", none, none⟩ (run [.send (.fin 0) "s1" (hello (some "bob") none)])).2 =
        .ok (.error .notRecipient) := by
  have rows : ∀ toAgent, run [.send (.fin 0) "s1" (hello toAgent none)] = [helloRow "s1" toAgent none] := fun toAgent =>
    congrArg Prod.fst (helloSent (.inl rfl))
  rw [rows, rows, helloSent (.inl rfl)]
  refine ⟨rfl, ?_⟩
  decide

end HarnessMem.Signals
