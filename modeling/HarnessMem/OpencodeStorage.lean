import HarnessMem.HookIsolation
import HarnessMem.IngestOffsets

/-! OpenCode's message files: one JSON object each, rewritten whole as the message grows, and read from the
offset the poll before stored. -/
namespace HarnessMem.OpencodeStorage
open Js Text JsonLines IngestOffsets

-- What the parser is handed besides the chunk.
structure Lookups where
  fallbackNowIso : String
  fallbackProject : Option String
  resolveSessionDirectory : String → Option String
  resolveMessageText : String → String

-- `a ?? b`
def orElse : Option Json → Option Json → Option Json
  | none, other | some .null, other => other
  | value, _ => value

def fromUnixMs (spool : Spool) : Option Json → Except String String
  | some (.num text) => if Number.finite (spool.number text) then CursorHooks.toISOString (spool.number text) else .ok ""
  | _ => .ok ""

section
variable (spool : Spool) (lookups : Lookups) (parsed : List (String × Json))

def role : String := spool.toLowerCase (str (Json.get parsed "role"))
def messageId : String := str (Json.get parsed "id")
def sessionId : String := firstOf [str (Json.get parsed "sessionID"), str (Json.get parsed "session_id"), "opencode-message"]
def cwd : String := firstOf [str (Json.get (toRecord (Json.get parsed "path")) "cwd"),
  str ((lookups.resolveSessionDirectory (sessionId parsed)).map Json.str)]
def summaryTitle : String := str (Json.get (toRecord (Json.get parsed "summary")) "title")
def messageText : String := trim (lookups.resolveMessageText (messageId parsed))
def finish : String := str (Json.get parsed "finish")

-- An assistant's turn that ended in a tool call, with no text of its own.
def intermediate : Bool :=
  role spool parsed = "assistant" && messageText lookups parsed = "" && finish parsed ≠ "" && finish parsed ≠ "stop"

def eventType : Option String :=
  if intermediate spool lookups parsed then none
  else if role spool parsed = "assistant" then some "checkpoint"
  else if role spool parsed = "user" then some "user_prompt"
  else none

def userPayload : List (String × Json) :=
  let text := firstOf [messageText lookups parsed, summaryTitle parsed, "(empty prompt)"]
  [("source_type", .str "opencode_message"), ("role", .str "user"), ("prompt", .str text), ("content", .str text),
    ("message_id", .str (messageId parsed)), ("cwd", .str (cwd lookups parsed))]

def assistantPayload : List (String × Json) :=
  [("source_type", .str "opencode_message"), ("role", .str "assistant"),
    ("content", .str (firstOf [messageText lookups parsed, summaryTitle parsed, "(assistant completed)"])),
    ("title", .str (firstOf [summaryTitle parsed, "assistant_response"])), ("finish", .str (finish parsed)),
    ("message_id", .str (messageId parsed)), ("cwd", .str (cwd lookups parsed))]

def unixMs : Option Json :=
  let time := toRecord (Json.get parsed "time")
  orElse (Json.get time "completed") (Json.get time "created")

def timestamp : Except String String :=
  let iso := Json.get (toRecord (Json.get parsed "time")) "iso"
  (fromUnixMs spool (unixMs parsed)).map (fun time =>
    firstOf [time, str (if GeminiEvents.falsy iso then Json.get parsed "timestamp" else iso), lookups.fallbackNowIso])

def messageEvent (sourceKey : String) (baseOffset : Nat) (rawLine : String) : Except String (List IngestEvent) :=
  match eventType spool lookups parsed with
  | none => .ok []
  | some type => (timestamp spool lookups parsed).map (fun time =>
      [⟨baseOffset, rawLine, parsed, type, sessionId parsed,
        firstOf [cwd lookups parsed, str (lookups.fallbackProject.map Json.str), "unknown"], time,
        if type = "user_prompt" then userPayload lookups parsed else assistantPayload lookups parsed,
        spool.sha256 (sourceKey ++ ":" ++ toString baseOffset ++ ":" ++ rawLine)⟩])

end

-- The events of a chunk and the bytes it takes up; text that is no JSON takes none, to be read again.
def parseOpencodeMessageChunk (spool : Spool) (sourceKey : String) (lookups : Lookups) (baseOffset : Nat) (chunk : String) :
    Except String (List IngestEvent × Nat) :=
  let rawLine := trim chunk
  let byteLength := (buffer chunk).length
  if rawLine = "" then .ok ([], byteLength)
  else match spool.parseJson rawLine with
    | none => .ok ([], 0)
    | some (.obj parsed) => (messageEvent spool lookups parsed sourceKey baseOffset rawLine).map (fun events => (events, byteLength))
    | some _ => .ok ([], byteLength)

-- One poll of one file: its bytes, whether they were last written before the backfill cutoff, and what `recordEvent` does.
structure Poll where
  bytes : List UInt8
  stale : Bool
  lookups : Lookups
  answers : Nat → Answer

structure Progress where
  offset : Option Nat
  accepted : List IngestEvent

def readOffset (s : Progress) (p : Poll) : Nat := if p.bytes.length < s.offset.getD 0 then 0 else s.offset.getD 0
def skipped (s : Progress) (p : Poll) : Bool := s.offset.isNone && p.stale
def chunk (s : Progress) (p : Poll) : String := bufferText (p.bytes.drop (readOffset s p))

def ingestOpencodeStorageMessages (spool : Spool) (sourceKey : String) (s : Progress) (p : Poll) : Progress :=
  if skipped s p then {s with offset := some p.bytes.length}
  else if readOffset s p = p.bytes.length then s
  else match parseOpencodeMessageChunk spool sourceKey p.lookups (readOffset s p) (chunk s p) with
    | .error _ => s
    | .ok (events, consumedBytes) =>
      let recorded := recordAll p.answers 0 events
      let accepted := s.accepted ++ recorded.1
      if recorded.2 then ⟨s.offset, accepted⟩
      else ⟨if 0 < consumedBytes then some (readOffset s p + consumedBytes) else s.offset, accepted⟩

section
variable (spool : Spool) (sourceKey : String) (s : Progress) (p : Poll)

def version : String := bufferText p.bytes

-- A number of milliseconds that no date has.
def undated : Option Json → Bool
  | some (.num text) => Number.finite (spool.number text) && (toIso (spool.number text)).isNone
  | _ => false

-- The whole file is one object with a message to be recorded.
def HoldsMessage : Prop := trim (version p) ≠ "" ∧
  ∃ parsed, spool.parseJson (trim (version p)) = some (.obj parsed) ∧ (eventType spool p.lookups parsed).isSome

def Timely : Prop := ∀ parsed, spool.parseJson (trim (version p)) = some (.obj parsed) → undated spool (unixMs parsed) = false

-- The text of the file is among what was recorded.
def Recorded : Prop := ∃ event ∈ s.accepted, event.line = trim (version p)

-- Nothing but white space lies before the offset the poll reads from.
def ReadsWhole : Prop := skipped s p = false ∧ trim (chunk s p) = trim (version p)

def Met : Prop := Recorded s p ∨ ReadsWhole s p ∧ Timely spool p ∧ p.answers 0 = .ok

end

section
variable {spool : Spool} {sourceKey : String} {s : Progress} {p : Poll}

theorem fromUnixMsOk (value : Option Json) : (∃ time, fromUnixMs spool value = .ok time) ↔ undated spool value = false := by
  unfold fromUnixMs undated
  split
  · rename_i text
    cases Number.finite (spool.number text) with
    | false => simp
    | true =>
      simp only [if_true, Bool.true_and]
      rw [← Bool.not_eq_true, ← CursorHooks.printThrows]
      cases CursorHooks.toISOString (spool.number text) with
      | error thrown => simp
      | ok time => simp
  · simp

theorem timestampOk (lookups : Lookups) (parsed : List (String × Json)) :
    (∃ time, timestamp spool lookups parsed = .ok time) ↔ undated spool (unixMs parsed) = false := by
  rw [← fromUnixMsOk]
  unfold timestamp
  cases fromUnixMs spool (unixMs parsed) with
  | error thrown => simp [Except.map]
  | ok time => simp [Except.map]

theorem messageEventLine {lookups : Lookups} {parsed : List (String × Json)} {baseOffset : Nat} {rawLine : String} {events : List IngestEvent}
    (ok : messageEvent spool lookups parsed sourceKey baseOffset rawLine = .ok events) : ∀ event ∈ events, event.line = rawLine := by
  unfold messageEvent at ok
  split at ok
  · obtain rfl := Except.ok.inj ok
    simp
  · obtain ⟨time, -, rfl⟩ := mapOk ok
    simp

theorem parsedLine {lookups : Lookups} {baseOffset : Nat} {text : String} {done : List IngestEvent × Nat}
    (ok : parseOpencodeMessageChunk spool sourceKey lookups baseOffset text = .ok done) : ∀ event ∈ done.1, event.line = trim text := by
  unfold parseOpencodeMessageChunk at ok
  dsimp only at ok
  split at ok
  · obtain rfl := Except.ok.inj ok
    simp
  · split at ok
    · obtain rfl := Except.ok.inj ok
      simp
    · obtain ⟨events, made, rfl⟩ := mapOk ok
      exact messageEventLine made
    · obtain rfl := Except.ok.inj ok
      simp

theorem recordedFrom {answers : Nat → Answer} {index : Nat} {events : List IngestEvent} {event : IngestEvent}
    (mem : event ∈ (recordAll answers index events).1) : event ∈ events := by
  induction events generalizing index with
  | nil => exact mem
  | cons first others ih =>
    unfold recordAll at mem
    split at mem
    · cases mem
    · exact List.mem_cons_of_mem _ (ih mem)
    · rcases List.mem_cons.mp mem with rfl | later
      · exact List.mem_cons_self
      · exact List.mem_cons_of_mem _ (ih later)

-- What a poll records is the text it read.
theorem pollAdds : ∃ added, (ingestOpencodeStorageMessages spool sourceKey s p).accepted = s.accepted ++ added ∧
    ∀ event ∈ added, skipped s p = false ∧ event.line = trim (chunk s p) := by
  unfold ingestOpencodeStorageMessages
  cases skip : skipped s p with
  | true => exact ⟨[], (List.append_nil _).symm, by simp⟩
  | false =>
    rw [if_neg Bool.false_ne_true]
    split
    · exact ⟨[], (List.append_nil _).symm, by simp⟩
    · split
      · exact ⟨[], (List.append_nil _).symm, by simp⟩
      · rename_i events consumedBytes ok
        refine ⟨(recordAll p.answers 0 events).1, ?_, fun event mem => ⟨rfl, parsedLine ok event (recordedFrom mem)⟩⟩
        dsimp only
        split
        · rfl
        · rfl

theorem recordOne (answers : Nat → Answer) (event : IngestEvent) :
    event ∈ (recordAll answers 0 [event]).1 ↔ answers 0 = .ok := by
  cases answer : answers 0 with
  | ok => simp [recordAll, answer]
  | failed => simp [recordAll, answer]
  | thrown => simp [recordAll, answer]

-- A chunk that is the whole text gives its one event, if the time in it is one of a date.
theorem wholeChunk (whole : trim (chunk s p) = trim (version p)) (holds : HoldsMessage spool p) :
    (∃ event, parseOpencodeMessageChunk spool sourceKey p.lookups (readOffset s p) (chunk s p) =
        .ok ([event], (buffer (chunk s p)).length) ∧ event.line = trim (version p) ∧ Timely spool p) ∨
      (∃ thrown, parseOpencodeMessageChunk spool sourceKey p.lookups (readOffset s p) (chunk s p) = .error thrown) ∧ ¬ Timely spool p := by
  obtain ⟨filled, parsed, reads, said⟩ := holds
  obtain ⟨type, said⟩ := Option.isSome_iff_exists.mp said
  have timely : Timely spool p ↔ ∃ time, timestamp spool p.lookups parsed = .ok time := by
    rw [timestampOk]
    constructor
    · exact fun all => all parsed reads
    · intro here other same
      rw [reads, Option.some.injEq, Json.obj.injEq] at same
      exact same ▸ here
  unfold parseOpencodeMessageChunk
  dsimp only
  rw [whole, if_neg filled, reads]
  dsimp only
  unfold messageEvent
  rw [said, timely]
  dsimp only
  cases timestamp spool p.lookups parsed with
  | error thrown => exact .inr ⟨⟨thrown, rfl⟩, by simp⟩
  | ok time => exact .inl ⟨_, rfl, rfl, time, rfl⟩

theorem chunkEnd (atEnd : readOffset s p = p.bytes.length) : trim (chunk s p) = "" := by
  rw [chunk, atEnd, List.drop_length]
  decide

theorem notAtEnd (whole : ReadsWhole s p) (holds : HoldsMessage spool p) : readOffset s p ≠ p.bytes.length :=
  fun atEnd => holds.1 (whole.2.symm.trans (chunkEnd atEnd))

theorem pollWhole (whole : ReadsWhole s p) (holds : HoldsMessage spool p) :
    (∃ event ∈ (ingestOpencodeStorageMessages spool sourceKey s p).accepted, event.line = trim (version p)) ↔
      Recorded s p ∨ Timely spool p ∧ p.answers 0 = .ok := by
  unfold ingestOpencodeStorageMessages
  rw [whole.1, if_neg Bool.false_ne_true, if_neg (notAtEnd whole holds)]
  rcases @wholeChunk spool sourceKey _ _ whole.2 holds with ⟨event, ok, line, timely⟩ | ⟨⟨thrown, error⟩, late⟩
  · rw [ok]
    have accepted : (∃ e ∈ s.accepted ++ (recordAll p.answers 0 [event]).1, e.line = trim (version p)) ↔
        Recorded s p ∨ Timely spool p ∧ p.answers 0 = .ok := by
      rw [and_iff_right timely, ← recordOne p.answers event]
      constructor
      · rintro ⟨e, mem, same⟩
        rcases List.mem_append.mp mem with old | new
        · exact .inl ⟨e, old, same⟩
        · obtain rfl := List.mem_singleton.mp (recordedFrom new)
          exact .inr new
      · rintro (⟨e, mem, same⟩ | new)
        · exact ⟨e, List.mem_append_left _ mem, same⟩
        · exact ⟨event, List.mem_append_right _ new, line⟩
    dsimp only
    split
    · exact accepted
    · exact accepted
  · rw [error]
    exact (or_iff_left (fun ⟨timely, _⟩ => late timely)).symm

theorem pollRecords (holds : HoldsMessage spool p) :
    Recorded (ingestOpencodeStorageMessages spool sourceKey s p) p ↔ Met spool s p := by
  by_cases whole : ReadsWhole s p
  · rw [Met, and_iff_right whole]
    exact pollWhole whole holds
  · rw [Met, or_iff_left (fun ⟨reads, _⟩ => whole reads), Recorded]
    obtain ⟨added, same, read⟩ := @pollAdds spool sourceKey s p
    rw [same]
    constructor
    · rintro ⟨event, mem, line⟩
      rcases List.mem_append.mp mem with old | new
      · exact ⟨event, old, line⟩
      · obtain ⟨reads, here⟩ := read event new
        exact absurd ⟨reads, here.symm.trans line⟩ whole
    · rintro ⟨event, mem, line⟩
      exact ⟨event, List.mem_append_left _ mem, line⟩

def StartsOver (s : Progress) (p : Poll) : Prop := s.offset.getD 0 = 0 ∨ p.bytes.length < s.offset.getD 0

theorem startsOver (past : StartsOver s p) : readOffset s p = 0 ∧ chunk s p = version p := by
  have start : readOffset s p = 0 := by
    unfold readOffset
    split
    · rfl
    · exact past.resolve_right (by assumption)
  exact ⟨start, by rw [chunk, start, List.drop_zero, version]⟩

-- The offset after a version read from its first byte is its length.
theorem startedOffset (fresh : skipped s p = false) (past : StartsOver s p) (valid : Valid p.bytes)
    (holds : HoldsMessage spool p) (timely : Timely spool p) (taken : p.answers 0 = .ok) :
    (ingestOpencodeStorageMessages spool sourceKey s p).offset = some p.bytes.length := by
  obtain ⟨start, whole⟩ := startsOver past
  have size : (buffer (chunk s p)).length = p.bytes.length := by
    rw [whole, version, buffer, bufferText, String.toList_ofList, (validIff _).mpr valid]
  have reads : ReadsWhole s p := ⟨fresh, by rw [whole]⟩
  have more := notAtEnd reads holds
  unfold ingestOpencodeStorageMessages
  rw [fresh, if_neg Bool.false_ne_true, if_neg more]
  rcases @wholeChunk spool sourceKey _ _ reads.2 holds with ⟨event, ok, -, -⟩ | ⟨-, late⟩
  · rw [ok, size, start]
    have one : (recordAll p.answers 0 [event]).2 = false := by simp [recordAll, taken]
    dsimp only
    rw [one, if_neg Bool.false_ne_true, Nat.zero_add]
    exact if_pos (by omega)
  · exact absurd timely late

theorem blankBytes (n : Nat) : (Utf8.encode (List.replicate n ' ')).length = n := by
  rw [Utf8.encode, List.length_flatMap, List.map_replicate, List.sum_replicate]
  exact Nat.mul_one n

theorem blankTrim (n : Nat) (text : List Char) : trim (String.ofList (List.replicate n ' ' ++ text)) = trim (String.ofList text) := by
  have blank : ∀ c ∈ List.replicate n ' ', isSpace c = true := by
    intro c mem
    rw [List.eq_of_mem_replicate mem]
    decide
  rw [trim, trim, String.toList_ofList, String.toList_ofList, trimStart, List.dropWhile_append_of_pos blank, trimStart]

-- Whatever the offset, there is a later version that is read: the same object after as many blanks.
theorem laterRead (holds : HoldsMessage spool p) (timely : Timely spool p) (s : Progress) : ∃ q : Poll,
    trim (version q) = trim (version p) ∧ q.lookups = p.lookups ∧ Recorded (ingestOpencodeStorageMessages spool sourceKey s q) q := by
  let q : Poll := ⟨Utf8.encode (List.replicate (s.offset.getD 0) ' ') ++ p.bytes, false, p.lookups, fun _ => .ok⟩
  have same : trim (version q) = trim (version p) := by
    rw [version, bufferText, Utf8.decodeAppend, blankTrim, version, bufferText]
  have start : readOffset s q = s.offset.getD 0 := if_neg (by simp [q, blankBytes])
  have tail : chunk s q = version p := by
    rw [chunk, start, version, List.drop_left' (blankBytes _)]
  have whole : ReadsWhole s q := ⟨Bool.and_false _, by rw [tail, same]⟩
  have held : HoldsMessage spool q := by
    rw [HoldsMessage, same]
    exact holds
  have dated : Timely spool q := by
    rw [Timely, same]
    exact timely
  exact ⟨q, same, rfl, (pollRecords held).mpr (.inr ⟨whole, dated, rfl⟩)⟩

end

section
variable {spool : Spool} {sourceKey : String}

-- A message that only gets shorter is recorded in every version.
theorem shrinkingRecorded {polls : List Poll} {s : Progress}
    (each : ∀ p ∈ polls, p.stale = false ∧ Valid p.bytes ∧ HoldsMessage spool p ∧ Timely spool p ∧ p.answers 0 = .ok)
    (shrinking : polls.Pairwise (fun p q => q.bytes.length < p.bytes.length)) (start : ∀ p ∈ polls, StartsOver s p) :
    Runs.Throughout (ingestOpencodeStorageMessages spool sourceKey) (Met spool) s polls := by
  induction polls generalizing s with
  | nil => trivial
  | cons p rest ih =>
    obtain ⟨fresh, valid, holds, timely, taken⟩ := each p List.mem_cons_self
    have reads : skipped s p = false := by simp [skipped, fresh]
    have past := start p List.mem_cons_self
    refine ⟨.inr ⟨⟨reads, by rw [(startsOver past).2]⟩, timely, taken⟩, ?_⟩
    rw [List.pairwise_cons] at shrinking
    refine ih (fun q mem => each q (List.mem_cons_of_mem _ mem)) shrinking.2 (fun q mem => .inr ?_)
    rw [startedOffset reads past valid holds timely taken]
    exact shrinking.1 q mem

end

theorem rewritesRecorded (spool : Spool) (sourceKey : String) :
    (∀ (s : Progress) (polls : List Poll), (∀ p ∈ polls, HoldsMessage spool p) →
      ((∀ before p, before ++ [p] <+: polls → Recorded (Runs.run (ingestOpencodeStorageMessages spool sourceKey) s (before ++ [p])) p) ↔
        Runs.Throughout (ingestOpencodeStorageMessages spool sourceKey) (Met spool) s polls)) ∧
    ∀ (s : Progress) (p : Poll), HoldsMessage spool p → Timely spool p → ∃ q : Poll, trim (version q) = trim (version p) ∧
      q.lookups = p.lookups ∧ Recorded (ingestOpencodeStorageMessages spool sourceKey s q) q := by
  refine ⟨fun s polls all => ?_, fun s p holds timely => laterRead holds timely s⟩
  simp only [Runs.runSnoc]
  rw [Runs.everyStep (ingestOpencodeStorageMessages spool sourceKey)
    (P := fun s p => Recorded (ingestOpencodeStorageMessages spool sourceKey s p) p)]
  exact ⟨Runs.throughoutImp _ (fun s p mem => (pollRecords (all p mem)).mp),
    Runs.throughoutImp _ (fun s p mem => (pollRecords (all p mem)).mpr)⟩

-- A prompt, and the same prompt once OpenCode has given it an id.
def promptText : String := "\x7b\"role\":\"user\"\x7d"
def namedText : String := "\x7b\"role\":\"user\",\"id\":\"m\"\x7d"
def parseMessages (text : String) : Option Json :=
  if text = promptText then some (.obj [("role", .str "user")])
  else if text = namedText then some (.obj [("role", .str "user"), ("id", .str "m")])
  else none
def messageSpool : Spool := {stopSpool with toLowerCase := id, parseJson := parseMessages}

def noLookups : Lookups := ⟨"", none, fun _ => none, fun _ => ""⟩
def pollOf (text : String) : Poll := ⟨buffer text, false, noLookups, fun _ => .ok⟩
def unread : Progress := ⟨none, []⟩

theorem versionOf (text : String) : version (pollOf text) = text := by
  rw [version, pollOf, bufferText, buffer, Utf8.decodeEncode, String.ofList_toList]

theorem promptRead : messageSpool.parseJson promptText = some (.obj [("role", .str "user")]) := by
  change parseMessages promptText = _
  rw [parseMessages, if_pos rfl]
theorem namedRead : messageSpool.parseJson namedText = some (.obj [("role", .str "user"), ("id", .str "m")]) := by
  change parseMessages namedText = _
  rw [parseMessages, if_neg (by decide), if_pos rfl]

theorem messageHolds {text : String} {parsed : List (String × Json)} (trimmed : trim text = text) (filled : text ≠ "")
    (reads : messageSpool.parseJson text = some (.obj parsed)) (said : (eventType messageSpool noLookups parsed).isSome = true) :
    HoldsMessage messageSpool (pollOf text) := by
  rw [HoldsMessage, versionOf, trimmed]
  exact ⟨filled, parsed, reads, said⟩

theorem promptHolds : HoldsMessage messageSpool (pollOf promptText) :=
  messageHolds (by decide) (by decide) promptRead (by decide)
theorem namedHolds : HoldsMessage messageSpool (pollOf namedText) :=
  messageHolds (by decide) (by decide) namedRead (by decide)

theorem alwaysTimely (p : Poll) : Timely messageSpool p := by
  intro parsed _
  unfold undated
  split
  · rfl
  · rfl

theorem rewritesRecordedShrinking :
    (∀ before p, before ++ [p] <+: [pollOf namedText, pollOf promptText] →
      Recorded (Runs.run (ingestOpencodeStorageMessages messageSpool "k") unread (before ++ [p])) p) ∧
    ∃ q : Poll, trim (version q) = trim (version (pollOf promptText)) ∧ q.lookups = noLookups ∧
      Recorded (ingestOpencodeStorageMessages messageSpool "k" ⟨some 3, []⟩ q) q := by
  obtain ⟨each, later⟩ := rewritesRecorded messageSpool "k"
  have holds : ∀ p ∈ [pollOf namedText, pollOf promptText], HoldsMessage messageSpool p := by
    simp [promptHolds, namedHolds]
  refine ⟨(each unread _ holds).mpr (shrinkingRecorded (fun p mem => ?_) (by decide) (fun p _ => .inl rfl)),
    later ⟨some 3, []⟩ (pollOf promptText) promptHolds (alwaysTimely _)⟩
  have made : ∃ text, p = pollOf text := by
    simp only [List.mem_cons, List.not_mem_nil, or_false] at mem
    rcases mem with rfl | rfl
    · exact ⟨_, rfl⟩
    · exact ⟨_, rfl⟩
  obtain ⟨text, rfl⟩ := made
  exact ⟨rfl, ⟨text.toList, rfl⟩, holds _ mem, alwaysTimely _, rfl⟩

def tailText : String := "\"id\":\"m\"\x7d"

-- What follows the first fifteen bytes of the named prompt is no JSON: the poll changes nothing.
theorem namedStuck {s : Progress} (stored : s.offset = some 15) :
    ingestOpencodeStorageMessages messageSpool "k" s (pollOf namedText) = s := by
  have start : readOffset s (pollOf namedText) = 15 := by
    rw [readOffset, stored]
    decide
  have tail : chunk s (pollOf namedText) = tailText := by
    rw [chunk, start]
    decide
  have none : parseOpencodeMessageChunk messageSpool "k" noLookups 15 tailText = .ok ([], 0) := by
    unfold parseOpencodeMessageChunk
    have kept : trim tailText = tailText := by decide
    have unread : messageSpool.parseJson tailText = .none := by
      change parseMessages tailText = _
      rw [parseMessages, if_neg (by decide), if_neg (by decide)]
    dsimp only
    rw [kept, if_neg (by decide), unread]
  unfold ingestOpencodeStorageMessages
  rw [if_neg (by simp [skipped, stored]), start, tail, if_neg (by decide), show (pollOf namedText).lookups = noLookups from rfl, none]
  cases s
  simp [recordAll]

theorem growthLost : HoldsMessage messageSpool (pollOf promptText) ∧ HoldsMessage messageSpool (pollOf namedText) ∧
    ∀ n, ¬ Recorded (Runs.run (ingestOpencodeStorageMessages messageSpool "k") unread
      (pollOf promptText :: List.replicate (n + 1) (pollOf namedText))) (pollOf namedText) := by
  refine ⟨promptHolds, namedHolds, fun n => ?_⟩
  have stuck : ∀ s : Progress, s.offset = some 15 →
      Runs.run (ingestOpencodeStorageMessages messageSpool "k") s (List.replicate (n + 1) (pollOf namedText)) = s := by
    intro s stored
    induction n + 1 with
    | zero => rfl
    | succ m ih => rw [List.replicate_succ, Runs.runCons, namedStuck stored, ih]
  have past : StartsOver unread (pollOf promptText) := .inl rfl
  have first := @startedOffset _ "k" _ _ rfl past ⟨_, rfl⟩ promptHolds (alwaysTimely _) rfl
  rw [Runs.runCons, stuck _ (first.trans (by decide))]
  obtain ⟨added, same, read⟩ := @pollAdds messageSpool "k" unread (pollOf promptText)
  rintro ⟨event, mem, line⟩
  rw [same] at mem
  have here := (read event mem).2.symm.trans line
  rw [(startsOver past).2] at here
  exact absurd here (by decide)

end HarnessMem.OpencodeStorage
