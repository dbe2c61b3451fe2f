import HarnessMem.CodexResume
import HarnessMem.IngestOffsets

/-! Polling one Codex rollout file while it grows. A refused event stops the poll at its line;
the offset of that line and a context are stored for the next poll. -/
namespace HarnessMem.CodexRollouts
open Js Text JsonLines LineStream CodexSessions IngestOffsets

-- The name of the file, the key of its stored rows, and the configured project.
structure Rollout where
  host : Host
  sourceKey : String
  fileName : String
  defaultProject : String

def hexDigit (c : Char) : Bool := ('0' ≤ c && c ≤ '9') || ('a' ≤ c && c ≤ 'f') || ('A' ≤ c && c ≤ 'F')
def isUuid (text : List Char) : Bool :=
  text.length = 36 && text.zipIdx.all (fun at_ => if [8, 13, 18, 23].contains at_.2 then at_.1 = '-' else hexDigit at_.1)

def inferSessionIdFromRolloutPath (fileName : String) : Option String :=
  let name := fileName.toList
  if "rollout-".toList.isPrefixOf name && ".jsonl".toList.isSuffixOf name then
    let stem := name.take (name.length - 6)
    let id := stem.drop (stem.length - 36)
    if isUuid id then some (String.ofList id) else none
  else none

def fallbackSessionId (r : Rollout) (context : SessionContext) : String :=
  firstOf [(inferSessionIdFromRolloutPath r.fileName).getD "", context.sessionId]

def sourceOf (r : Rollout) (context : SessionContext) : Source :=
  ⟨r.sourceKey, fallbackSessionId r context, r.defaultProject⟩

-- An event that was answered ok.
def commit (committed : SessionContext) (entry : IngestEvent) : SessionContext :=
  remember {committed with
    sessionId := firstOf [entry.sessionId, committed.sessionId]
    project := firstOf [entry.project, committed.project]} entry.eventType entry.payload

-- Nothing is stored where an exception leaves the loop.
structure Looped where
  recorded : List IngestEvent
  stored : Option (SessionContext × Nat)

def recordEntries (answers : Nat → Answer) (offset : Nat) : Nat → SessionContext → Nat → List IngestEvent → Looped
  | _, committed, nextOffset, [] => ⟨[], some (committed, nextOffset)⟩
  | index, committed, nextOffset, entry :: others =>
    match answers index with
    | .thrown => ⟨[], none⟩
    | .failed => ⟨[], some (committed, max offset entry.lineOffset)⟩
    | .ok =>
      let later := recordEntries answers offset (index + 1) (commit committed entry) nextOffset others
      ⟨entry :: later.recorded, later.stored⟩

-- One file of `ingestCodexSessionsRollouts`.
def ingestRollout (r : Rollout) (s : Progress SessionContext IngestEvent) (p : Poll) : Progress SessionContext IngestEvent :=
  if s.offset.isNone && p.stale then {s with offset := some p.bytes.length}
  else
    let offset := startOffset s p
    if offset = p.bytes.length then s
    else match parseCodexSessionsChunk r.host (sourceOf r s.context) p.clock offset s.context
        (bufferText (p.bytes.drop offset)) with
      | .error _ => s
      | .ok parsedChunk =>
        let committed : SessionContext :=
          ⟨firstOf [parsedChunk.context.sessionId, fallbackSessionId r s.context],
            firstOf [parsedChunk.context.project, r.defaultProject], s.context.lastUserPrompt, s.context.lastAssistantContent⟩
        let looped := recordEntries p.answers offset 0 committed (offset + parsedChunk.consumed) parsedChunk.events
        match looped.stored with
        | none => {s with accepted := s.accepted ++ looped.recorded}
        | some (committed, nextOffset) =>
          ⟨some nextOffset, storeContext s.context committed, s.accepted ++ looped.recorded⟩

-- An event whose dedupe hash is stored already is answered ok, and not stored again.
def firstByHash (seen : List String) : List IngestEvent → List IngestEvent
  | [] => []
  | event :: others =>
    if seen.contains event.dedupeHash then firstByHash seen others
    else event :: firstByHash (event.dedupeHash :: seen) others

def recordedEvents (s : Progress SessionContext IngestEvent) : List IngestEvent := firstByHash [] s.accepted

def unread : Progress SessionContext IngestEvent := ⟨none, SessionContext.none, []⟩
def failureFree (r : Rollout) (bytes : List UInt8) (clock : Nat → String) : Progress SessionContext IngestEvent :=
  ingestRollout r unread ⟨bytes, false, clock, fun _ => .ok⟩

theorem firstByHashTimeless (seen : List String) (events : List IngestEvent) :
    (firstByHash seen events).map timeless = firstByHash seen (events.map timeless) := by
  induction events generalizing seen with
  | nil => rfl
  | cons event others ih =>
    rw [List.map_cons, firstByHash, firstByHash, show (timeless event).dedupeHash = event.dedupeHash from rfl]
    split
    · exact ih seen
    · rw [List.map_cons, ih]

theorem firstByHashPrefix (seen : List String) {events more : List IngestEvent} (front : events <+: more) :
    firstByHash seen events <+: firstByHash seen more := by
  induction events generalizing seen more with
  | nil => exact List.nil_prefix
  | cons event others ih =>
    obtain ⟨rest, rfl⟩ := front
    rw [List.cons_append, firstByHash, firstByHash]
    split
    · exact ih seen (List.prefix_append others rest)
    · exact List.cons_prefix_cons.mpr ⟨rfl, ih _ (List.prefix_append others rest)⟩

-- What one line says: the context after it, and its events.
def readLine (r : Rollout) (source : Source) (clock : Nat → String) (context : SessionContext) (offset : Nat)
    (bytes : List UInt8) : SessionContext × List IngestEvent :=
  match lineObject r.host bytes with
  | none => (context, [])
  | some (rawLine, parsed) => handled r.host source clock context offset rawLine parsed

theorem parseSteps (r : Rollout) (source : Source) (clock : Nat → String) (base : Nat) {context : SessionContext}
    (settled : context.Settled) {bytes : List UInt8} (valid : ∀ l ∈ lines newline bytes, Valid l) :
    parseCodexSessionsChunk r.host source clock base context (bufferText bytes) =
      .ok ⟨(steps (readLine r source clock) context base (lines newline bytes)).2, consumed newline bytes,
        (steps (readLine r source clock) context base (lines newline bytes)).1⟩ := by
  have total : jsonLine r.host (handle r.host source clock) =
      fun context offset bytes => (Except.ok (readLine r source clock context offset bytes) : Except String _) := by
    funext context offset bytes
    unfold jsonLine readLine
    cases lineObject r.host bytes <;> rfl
  rw [parseCodexSessionsChunk, parseRead _ _ _ _ valid, show context.normal = context from settled, scan, total, foldTotal]
  rfl

-- A pass over the file from its start; only the time stamps depend on the clock.
def passLine (r : Rollout) : SessionContext → Nat → List UInt8 → SessionContext × List IngestEvent :=
  readLine r (sourceOf r SessionContext.none) (fun _ => "")
def passed (r : Rollout) (parts : List (List UInt8)) : SessionContext × List IngestEvent :=
  steps (passLine r) SessionContext.none 0 parts

-- The events answered ok before the first that is not.
def granted (answers : Nat → Answer) : Nat → List IngestEvent → List IngestEvent
  | _, [] => []
  | index, entry :: others => if answers index = .ok then entry :: granted answers (index + 1) others else []

section
variable (r : Rollout) (s : Progress SessionContext IngestEvent) (p : Poll)

def newLines : List (List UInt8) := lines newline (p.bytes.drop (startOffset s p))
def readOn : SessionContext × List IngestEvent :=
  steps (readLine r (sourceOf r s.context) p.clock) s.context (startOffset s p) (newLines s p)
def taken : List IngestEvent := granted p.answers 0 (readOn r s p).2
def left : List IngestEvent := (readOn r s p).2.drop (taken r s p).length

-- Where the next poll reads on.
def stop : Nat :=
  match left r s p with
  | [] => startOffset s p + consumed newline (p.bytes.drop (startOffset s p))
  | entry :: _ => max (startOffset s p) entry.lineOffset

def rememberEntry (context : SessionContext) (entry : IngestEvent) : SessionContext :=
  remember context entry.eventType entry.payload
def latest : SessionContext := (taken r s p).foldl rememberEntry s.context
def named (upTo : Nat) : SessionContext := (passed r (lines newline (p.bytes.take upTo))).1

-- Until a session_meta line has named the session, the stored one must be the event's own, if
-- any is stored; and so for the project.
structure Fits (kept context : SessionContext) (entry : IngestEvent) : Prop where
  session : context.sessionId = "" → kept.sessionId = "" ∨ kept.sessionId = entry.sessionId
  project : context.project = "" → kept.project = "" ∨ kept.project = entry.project

-- The polls that store the right context. A session or project named so far must be that of the
-- last event taken or, where none is, the one named at the end of what was read; the last texts
-- must not be cut; and where the events of a line are taken in part, the others must not repeat
-- the last text of their kind.
structure Careful : Prop where
  reads : s.offset ≠ none ∨ p.stale = false
  valid : ∀ l ∈ lines newline p.bytes, Valid l
  returns : ∀ index < (readOn r s p).2.length, p.answers index ≠ .thrown
  fits : ∀ found ∈ placed (passLine r) (named r p (startOffset s p)) (startOffset s p) (newLines s p),
    Fits s.context found.1 found.2
  session : (named r p (stop r s p)).sessionId ≠ "" →
    ((taken r s p).getLast?.map IngestEvent.sessionId).getD (readOn r s p).1.sessionId = (named r p (stop r s p)).sessionId
  project : (named r p (stop r s p)).project ≠ "" →
    ((taken r s p).getLast?.map IngestEvent.project).getD (readOn r s p).1.project = (named r p (stop r s p)).project
  short : length (latest r s p).lastUserPrompt ≤ 4000 ∧ length (latest r s p).lastAssistantContent ≤ 4000
  distinct : ∀ first ∈ (left r s p).head?, ∀ entry ∈ left r s p, entry.lineOffset = first.lineOffset →
    (∃ other ∈ s.accepted ++ taken r s p, other.lineOffset = first.lineOffset) →
      knownText (latest r s p) entry.eventType entry.payload = false

end

-- A context against the one a pass has: the same where a name has been given in the file, else
-- the one kept from the polls before; and the texts with some events of the next line remembered.
structure Carried (kept c t : String) : Prop where
  given : t ≠ "" → c = t
  free : t = "" → c = kept

structure Follows (kept : SessionContext) (prior : List IngestEvent) (c t : SessionContext) : Prop where
  session : Carried kept.sessionId c.sessionId t.sessionId
  project : Carried kept.project c.project t.project
  texts : SameTexts c (prior.foldl rememberEntry t)

-- The events of the next line that are taken already, if any are.
def Resumable (c : SessionContext) (prior whole : List IngestEvent) : Prop :=
  prior = [] ∨ ∃ pending, whole = prior ++ pending ∧ pending ≠ [] ∧
    ∀ entry ∈ pending, knownText c entry.eventType entry.payload = false

theorem firstOfCons {first : String} (some : first ≠ "") (others : List String) : firstOf (first :: others) = first := by
  simp [firstOf, some]

theorem firstOfSkip (others : List String) : firstOf ("" :: others) = firstOf others := by
  simp [firstOf]

theorem Carried.renamed {kept c t : String} (carried : Carried kept c t) (name : String) :
    Carried kept (firstOf [name, c]) (firstOf [name, t]) := by
  by_cases none : name = ""
  · have only (other : String) : firstOf [other] = other := by
      by_cases empty : other = ""
      · rw [empty]; rfl
      · exact firstOfCons empty []
    rw [none, firstOfSkip, firstOfSkip, only, only]
    exact carried
  · rw [firstOfCons none, firstOfCons none]
    exact ⟨fun _ => rfl, fun empty => absurd empty none⟩

-- A name is resolved alike where it is the pass's own, or the one the event has anyway.
theorem Carried.resolves {kept c t : String} (carried : Carried kept c t) (trimmed : Trimmed kept) (settled : Trimmed t)
    {own others : List String} (agree : kept = "" → own = others)
    (fits : t = "" → kept = "" ∨ kept = firstOf (trim t :: others)) :
    firstOf (trim c :: own) = firstOf (trim t :: others) := by
  by_cases empty : t = ""
  · rw [carried.free empty]
    by_cases none : kept = ""
    · rw [agree none, none, empty]
    · rw [show trim kept = kept from trimmed, firstOfCons none]
      exact (fits empty).resolve_left none
  · rw [carried.given empty, show trim t = t from settled, firstOfCons empty, firstOfCons empty]

section
variable {r : Rollout} {kept c t : SessionContext} {prior : List IngestEvent}

theorem Follows.ids (follows : Follows kept prior c t) (keptSettled : kept.Settled) (settled : t.Settled)
    (parsed payload : List (String × Json)) {entry : IngestEvent} (fits : Fits kept t entry)
    (session : entry.sessionId = resolveSessionId ⟨parsed, payload, sourceOf r SessionContext.none⟩ t)
    (project : entry.project = resolveProject ⟨parsed, payload, sourceOf r SessionContext.none⟩ t) :
    resolveSessionId ⟨parsed, payload, sourceOf r kept⟩ c =
        resolveSessionId ⟨parsed, payload, sourceOf r SessionContext.none⟩ t ∧
      resolveProject ⟨parsed, payload, sourceOf r kept⟩ c =
        resolveProject ⟨parsed, payload, sourceOf r SessionContext.none⟩ t := by
  obtain ⟨keptSession, keptProject, _, _⟩ := SessionContext.settledIff.mp keptSettled
  obtain ⟨ownSession, ownProject, _, _⟩ := SessionContext.settledIff.mp settled
  constructor
  · refine follows.session.resolves keptSession ownSession (fun none => ?_) 
      (fun empty => (fits.session empty).imp_right (fun same => same.trans session))
    rw [sourceOf, fallbackSessionId, none]
    rfl
  · exact follows.project.resolves keptProject ownProject (fun _ => rfl) 
      (fun empty => (fits.project empty).imp_right (fun same => same.trans project))

theorem normalizedIds (line : Line) (context : SessionContext) {e : NormalizedCodexEvent}
    (mem : e ∈ normalizeEvents line context) :
    e.sessionId = resolveSessionId line context ∧ e.project = resolveProject line context := by
  obtain ⟨parsed, payload, source⟩ := line
  rw [normalizeStamped parsed payload source source (SameTexts.refl context)] at mem
  obtain ⟨_, _, rfl⟩ := List.mem_map.mp mem
  simp only [stampSession, stampProject, and_self]

theorem rememberedIds (events : List NormalizedCodexEvent) (c : SessionContext) :
    (events.foldl rememberEvent c).sessionId = c.sessionId ∧ (events.foldl rememberEvent c).project = c.project := by
  induction events generalizing c with
  | nil => exact ⟨rfl, rfl⟩
  | cons e others ih =>
    obtain ⟨session, project⟩ := ih (rememberEvent c e)
    obtain ⟨sameSession, sameProject⟩ := rememberIds c e.eventType e.payload
    exact ⟨session.trans sameSession, project.trans sameProject⟩

theorem rememberedTexts (events : List NormalizedCodexEvent) {c t : SessionContext} (texts : SameTexts c t) :
    SameTexts (events.foldl rememberEvent c) (events.foldl rememberEvent t) := by
  induction events generalizing c t with
  | nil => exact texts
  | cons e others ih => exact ih (rememberTexts texts e.eventType e.payload)

theorem rememberAlike {events others : List IngestEvent} (same : events.map timeless = others.map timeless)
    {c t : SessionContext} (texts : SameTexts c t) :
    SameTexts (events.foldl rememberEntry c) (others.foldl rememberEntry t) := by
  induction events generalizing others c t with
  | nil =>
    rw [List.map_eq_nil_iff.mp same.symm]
    exact texts
  | cons event events ih =>
    cases others with
    | nil => exact absurd same (by simp)
    | cons other others =>
      obtain ⟨head, tail⟩ := List.cons.inj same
      have type : event.eventType = other.eventType :=
        (congrArg IngestEvent.eventType head : (timeless event).eventType = (timeless other).eventType)
      have payload : event.payload = other.payload :=
        (congrArg IngestEvent.payload head : (timeless event).payload = (timeless other).payload)
      rw [List.foldl_cons, List.foldl_cons]
      refine ih tail ?_
      rw [rememberEntry, rememberEntry, type, payload]
      exact rememberTexts texts _ _

theorem rememberIngested (host : Host) (source : Source) (clock : Nat → String) (offset : Nat) (rawLine : String)
    (parsed : List (String × Json)) (events : List NormalizedCodexEvent) (c : SessionContext) :
    (events.map (ingested host source clock offset rawLine parsed)).foldl rememberEntry c = events.foldl rememberEvent c := by
  rw [List.foldl_map]
  rfl

theorem normalizedRest (follows : Follows kept prior c t) (keptSettled : kept.Settled) (mine : c.Settled)
    (settled : t.Settled) {clock : Nat → String} {offset : Nat} {rawLine : String} {parsed payload : List (String × Json)}
    (fits : ∀ e ∈ normalizeEvents ⟨parsed, payload, sourceOf r SessionContext.none⟩ t,
      Fits kept t (ingested r.host (sourceOf r SessionContext.none) clock offset rawLine parsed e))
    (resumable : Resumable c prior ((normalizeEvents ⟨parsed, payload, sourceOf r SessionContext.none⟩ t).map
      (ingested r.host (sourceOf r SessionContext.none) clock offset rawLine parsed))) :
    ∃ done, normalizeEvents ⟨parsed, payload, sourceOf r SessionContext.none⟩ t =
        done ++ normalizeEvents ⟨parsed, payload, sourceOf r kept⟩ c ∧
      prior = done.map (ingested r.host (sourceOf r SessionContext.none) clock offset rawLine parsed) := by
  have ids : ∀ e ∈ normalizeEvents ⟨parsed, payload, sourceOf r SessionContext.none⟩ t,
      resolveSessionId ⟨parsed, payload, sourceOf r kept⟩ c =
          resolveSessionId ⟨parsed, payload, sourceOf r SessionContext.none⟩ t ∧
        resolveProject ⟨parsed, payload, sourceOf r kept⟩ c =
          resolveProject ⟨parsed, payload, sourceOf r SessionContext.none⟩ t := fun e mem =>
    follows.ids keptSettled settled parsed payload (fits e mem) (normalizedIds _ t mem).1 (normalizedIds _ t mem).2
  have texts := follows.texts
  by_cases none : prior = []
  · subst none
    refine ⟨[], ?_, rfl⟩
    refine (normalizeSame parsed payload _ _ texts (fun some => ?_)).symm
    obtain ⟨e, mem⟩ := List.exists_mem_of_ne_nil _ some
    exact ids e mem
  · obtain ⟨pending, whole, some, new⟩ := resumable.resolve_left none
    obtain ⟨done, rest, split, taken, others⟩ := List.map_eq_append_iff.mp whole
    rw [← taken, rememberIngested] at texts
    have first : done ≠ [] := fun empty => none (by rw [← taken, empty]; rfl)
    have last : rest ≠ [] := fun empty => some (by rw [← others, empty]; rfl)
    obtain ⟨e, mem⟩ := List.exists_mem_of_ne_nil _ first
    have resumed := normalizeResumed parsed payload (sourceOf r kept) _ mine settled
      (ids e (split ▸ List.mem_append_left _ mem)) split first last texts
      (fun e mem => new _ (others ▸ List.mem_map_of_mem mem))
    exact ⟨done, by rw [resumed, split], taken.symm⟩

-- The names carry over, and the events found are the pass's less those taken before.
theorem readSame (follows : Follows kept prior c t) (keptSettled : kept.Settled) (mine : c.Settled) (settled : t.Settled)
    (clock : Nat → String) (offset : Nat) (bytes : List UInt8)
    (fits : ∀ entry ∈ (passLine r t offset bytes).2, Fits kept t entry)
    (resumable : Resumable c prior (passLine r t offset bytes).2) :
    (passLine r t offset bytes).2.map timeless =
        (prior ++ (readLine r (sourceOf r kept) clock c offset bytes).2).map timeless ∧
      Follows kept [] (readLine r (sourceOf r kept) clock c offset bytes).1 (passLine r t offset bytes).1 := by
  have nothing : (passLine r t offset bytes).2 = [] → prior = [] := by
    intro empty
    rcases resumable with none | ⟨pending, whole, some, _⟩
    · exact none
    · exact absurd (List.append_eq_nil_iff.mp (whole.symm.trans empty)).2 some
  unfold passLine readLine at fits resumable nothing ⊢
  cases object : lineObject r.host bytes with
  | none =>
    rw [object] at nothing
    obtain rfl := nothing rfl
    exact ⟨rfl, follows⟩
  | some found =>
    obtain ⟨rawLine, parsed⟩ := found
    simp only [object, handled] at fits resumable nothing ⊢
    by_cases header : str (Json.get parsed "type") = "session_meta"
    · simp only [if_pos header] at nothing ⊢
      obtain rfl := nothing trivial
      exact ⟨rfl, follows.session.renamed _, follows.project.renamed _, follows.texts.prompt, follows.texts.content⟩
    · simp only [if_neg header] at fits resumable ⊢
      obtain ⟨done, whole, rfl⟩ := normalizedRest follows keptSettled mine settled
        (fun e mem => fits _ (List.mem_map_of_mem mem)) resumable
      generalize normalizeEvents ⟨parsed, toRecord (Json.get parsed "payload"), sourceOf r kept⟩ c = rest at whole ⊢
      have texts := follows.texts
      rw [rememberIngested] at texts
      refine ⟨by simp only [whole, List.map_append, List.map_map]; rfl, ?_⟩
      rw [whole, List.foldl_append]
      have mineKept := rememberedIds rest c
      have passKept := rememberedIds rest (done.foldl rememberEvent t)
      have doneKept := rememberedIds done t
      show Follows kept [] (rest.foldl rememberEvent c) (rest.foldl rememberEvent (done.foldl rememberEvent t))
      exact ⟨by rw [mineKept.1, passKept.1, doneKept.1]; exact follows.session,
        by rw [mineKept.2, passKept.2, doneKept.2]; exact follows.project, rememberedTexts rest texts⟩

theorem readSettled (settled : c.Settled) (source : Source) (clock : Nat → String) (offset : Nat) (bytes : List UInt8) :
    (readLine r source clock c offset bytes).1.Settled := by
  unfold readLine
  cases lineObject r.host bytes with
  | none => exact settled
  | some found =>
    obtain ⟨rawLine, parsed⟩ := found
    exact handledSettled settled r.host source clock offset rawLine parsed

theorem passSettled (settled : t.Settled) (offset : Nat) (bytes : List UInt8) :
    (passLine r t offset bytes).1.Settled := by
  unfold passLine
  exact readSettled settled _ _ offset bytes

theorem stepsSettled (settled : c.Settled) (source : Source) (clock : Nat → String) (base : Nat)
    (parts : List (List UInt8)) : (steps (readLine r source clock) c base parts).1.Settled := by
  induction parts generalizing c base with
  | nil => exact settled
  | cons first others ih =>
    have next := readSettled (r := r) settled source clock base first
    simp only [stepsCons]
    exact ih next (base + first.length + 1)

-- What is still taken of the next line once some lines have been read.
def stillTaken (prior : List IngestEvent) : List (List UInt8) → List IngestEvent
  | [] => prior
  | _ :: _ => []

theorem stepsFollow (follows : Follows kept prior c t) (keptSettled : kept.Settled) (mine : c.Settled)
    (settled : t.Settled) (clock : Nat → String) (base : Nat) {parts : List (List UInt8)}
    (fits : ∀ found ∈ placed (passLine r) t base parts, Fits kept found.1 found.2)
    (resumable : ∀ first ∈ parts.head?, Resumable c prior (passLine r t base first).2) :
    (prior ++ (steps (readLine r (sourceOf r kept) clock) c base parts).2).map timeless =
        ((steps (passLine r) t base parts).2 ++ stillTaken prior parts).map timeless ∧
      Follows kept (stillTaken prior parts) (steps (readLine r (sourceOf r kept) clock) c base parts).1
        (steps (passLine r) t base parts).1 := by
  induction parts generalizing c t prior base with
  | nil => exact ⟨by simp [steps, stillTaken], follows⟩
  | cons first others ih =>
    obtain ⟨here, next⟩ := readSame follows keptSettled mine settled clock base first
      (fun entry mem => fits (t, entry) (List.mem_append_left _ (List.mem_map_of_mem mem)))
      (resumable first rfl)
    have mineNext := readSettled (r := r) mine (sourceOf r kept) clock base first
    have passNext := passSettled (r := r) settled base first
    obtain ⟨later, last⟩ := ih next mineNext passNext (base + first.length + 1)
      (fun found mem => fits found (List.mem_append_right _ mem)) (fun _ _ => .inl rfl)
    have none : stillTaken [] others = [] := by cases others <;> rfl
    rw [none] at later last
    refine ⟨?_, by simp only [stepsCons]; exact last⟩
    rw [List.nil_append, List.append_nil] at later
    simp only [stepsCons]
    rw [stillTaken, List.append_nil, ← List.append_assoc, List.map_append, ← here, List.map_append, later]


theorem readOffsets (source : Source) (clock : Nat → String) (offset : Nat) (bytes : List UInt8) :
    ∀ entry ∈ (readLine r source clock c offset bytes).2, entry.lineOffset = offset := by
  intro entry mem
  unfold readLine at mem
  cases object : lineObject r.host bytes with
  | none =>
    rw [object] at mem
    exact absurd mem List.not_mem_nil
  | some found =>
    obtain ⟨rawLine, parsed⟩ := found
    simp only [object, handled] at mem
    split at mem
    · exact absurd mem List.not_mem_nil
    · obtain ⟨_, _, rfl⟩ := List.mem_map.mp mem
      rfl

theorem readTexts (source : Source) (clock : Nat → String) (offset : Nat) (bytes : List UInt8) :
    SameTexts (readLine r source clock c offset bytes).1
      ((readLine r source clock c offset bytes).2.foldl rememberEntry c) := by
  unfold readLine
  cases lineObject r.host bytes with
  | none => exact SameTexts.refl c
  | some found =>
    obtain ⟨rawLine, parsed⟩ := found
    simp only [handled]
    split
    · exact ⟨rfl, rfl⟩
    · rw [rememberIngested]
      exact SameTexts.refl _

theorem stepsTexts (source : Source) (clock : Nat → String) (base : Nat) (parts : List (List UInt8)) :
    SameTexts (steps (readLine r source clock) c base parts).1
      ((steps (readLine r source clock) c base parts).2.foldl rememberEntry c) := by
  induction parts generalizing c base with
  | nil => exact SameTexts.refl c
  | cons first others ih =>
    have here := readTexts (r := r) (c := c) source clock base first
    have later := ih (c := (readLine r source clock c base first).1) (base + first.length + 1)
    simp only [stepsCons, List.foldl_append]
    exact later.trans (rememberAlike rfl here)

end

end HarnessMem.CodexRollouts
