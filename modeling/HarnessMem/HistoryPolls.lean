import HarnessMem.IngestOffsets
import Mathlib.Data.List.Nodup
import Mathlib.Order.Monotone.Basic

/-! Runs of polls over one growing Codex history file: where they stop, what they record, and under which hashes. -/
namespace HarnessMem.HistoryPolls
open Js Text JsonLines LineStream IngestOffsets CodexHistory

abbrev History := Progress Nat CodexHistoryEvent
def untouched : History := ⟨none, 0, []⟩

section
variable (host : Host) (sourceKey : String)

-- The trimmed text of a complete line that is JSON.
def jsonText (raw : List UInt8) : Option String :=
  let line := trim (bufferText raw)
  if line ≠ "" ∧ (host.parseJson line).isSome then some line else none

-- JSON lines and their places, counted on from a start.
def placed : Nat → List (List UInt8) → List (Nat × String)
  | _, [] => []
  | place, raw :: others => (jsonText host raw).toList.map (fun line => (place, line)) ++ placed (place + 1) others
def jsonLines (bytes : List UInt8) : List (Nat × String) := placed host 0 (lines newline bytes)

def hashText (place : Nat) (line : String) : String := sourceKey ++ ":" ++ toString place ++ ":" ++ line
def lineHash (place : Nat) (line : String) : String := host.sha256 (hashText sourceKey place line)

-- No two of the texts have one digest.
def Apart (texts : List String) : Prop := ∀ a ∈ texts, ∀ b ∈ texts, host.sha256 a = host.sha256 b → a = b

def pollHistory (s : History) (p : Poll) : History := ingestLegacyCodexHistoryFile host sourceKey s p

-- The complete lines past the stored offset.
def news (s : History) (p : Poll) : List (List UInt8) := lines newline (p.bytes.drop (startOffset s p))
def Thrown (s : History) (p : Poll) : Prop := ∃ i < (placed host 0 (news s p)).length, p.answers i = .thrown

-- Reading the new lines as text and writing them back keeps their size, none of them is `null`, and
-- every event is taken, unless `recordEvent` throws and the poll counts for nothing.
structure Sound (s : History) (p : Poll) : Prop where
  steady : (glue newline ((news s p).map (fun raw => Utf8.encode (Utf8.decode raw)))).length = (glue newline (news s p)).length
  plain : ∀ raw ∈ news s p, ∀ line, jsonText host raw = some line → host.parseJson line ≠ some .null
  answered : Thrown host s p ∨ ∀ i < (placed host 0 (news s p)).length, p.answers i = .ok

-- New JSON lines are read from an offset that counts the lines before it, all of them empty.
def Aligned (s : History) (p : Poll) : Prop :=
  placed host 0 (news s p) ≠ [] → startOffset s p = (lines newline (p.bytes.take (startOffset s p))).length

def Recorded (s : History) (place : Nat) (line : String) : Prop :=
  ∃ event ∈ s.accepted, event.dedupeHash = lineHash host sourceKey place line

-- The offset ends a line; each JSON line before it is recorded under its hash, and nothing but JSON
-- lines is; no two lines share a hash; and a poll that goes through leaves no complete line out.
structure Once (place : Nat → Nat) (s : History) (p : Poll) (next : History) : Prop where
  boundary : ∃ before after, lines newline p.bytes = before ++ after ∧ next.offset.getD 0 = (glue newline before).length ∧
    ∀ at_ ∈ placed host 0 before, Recorded host sourceKey next (place at_.1) at_.2
  known : ∀ event ∈ next.accepted, ∃ at_ ∈ jsonLines host p.bytes, event.dedupeHash = lineHash host sourceKey (place at_.1) at_.2
  apart : ((jsonLines host p.bytes).map (fun at_ => lineHash host sourceKey (place at_.1) at_.2)).Nodup
  whole : Thrown host s p ∨ next.offset.getD 0 = consumed newline p.bytes ∧
    ∀ at_ ∈ jsonLines host p.bytes, Recorded host sourceKey next (place at_.1) at_.2

variable {host : Host} {sourceKey : String} {s : History} {p : Poll}

theorem memPlaced {start : Nat} {parts : List (List UInt8)} {at_ : Nat × String} : at_ ∈ placed host start parts ↔
    ∃ k raw, parts[k]? = some raw ∧ at_.1 = start + k ∧ jsonText host raw = some at_.2 := by
  induction parts generalizing start with
  | nil => simp [placed]
  | cons first others ih =>
    rw [placed, List.mem_append, ih, List.mem_map]
    constructor
    · rintro (⟨line, text, rfl⟩ | ⟨k, raw, here, place, text⟩)
      · exact ⟨0, first, rfl, rfl, Option.mem_toList.mp text⟩
      · exact ⟨k + 1, raw, here, by omega, text⟩
    · rintro ⟨k, raw, here, place, text⟩
      cases k with
      | zero =>
        obtain rfl := Option.some.inj here
        exact .inl ⟨at_.2, Option.mem_toList.mpr text, Prod.ext place.symm rfl⟩
      | succ k => exact .inr ⟨k, raw, here, by omega, text⟩

theorem placedApart (start : Nat) (parts : List (List UInt8)) : (placed host start parts).Pairwise (fun a b => a.1 < b.1) := by
  induction parts generalizing start with
  | nil => exact .nil
  | cons first others ih =>
    rw [placed]
    refine List.pairwise_append.mpr ⟨?_, ih (start + 1), ?_⟩
    · cases jsonText host first with
      | none => exact .nil
      | some line => exact List.pairwise_singleton _ _
    · intro a mine b later
      obtain ⟨line, -, rfl⟩ := List.mem_map.mp mine
      obtain ⟨k, raw, -, place, -⟩ := memPlaced.mp later
      change start < b.1
      omega

theorem propertyRead {parsed : Json} (object : parsed ≠ .null) (key : String) : ∃ text, property parsed key = .ok text := by
  cases parsed with
  | null => exact absurd rfl object
  | _ => exact ⟨_, rfl⟩

variable (host sourceKey) in
theorem eventRead (baseOffset : Nat) (now line : String) (index : Nat) {parsed : Json} (object : parsed ≠ .null) :
    ∃ event, historyEvent host sourceKey baseOffset now line index parsed = .ok event ∧
      event.dedupeHash = lineHash host sourceKey (baseOffset + index) line := by
  obtain ⟨role, role'⟩ := propertyRead object "role"
  obtain ⟨sessionId, sessionId'⟩ := propertyRead object "session_id"
  obtain ⟨threadId, threadId'⟩ := propertyRead object "thread_id"
  obtain ⟨ts, ts'⟩ := propertyRead object "ts"
  obtain ⟨timestamp, timestamp'⟩ := propertyRead object "timestamp"
  unfold historyEvent
  rw [role', sessionId', threadId', ts', timestamp']
  exact ⟨_, rfl, rfl⟩

theorem lineRead (baseOffset : Nat) (now : Nat → String) (index : Nat) {raw : List UInt8}
    (plain : ∀ line, jsonText host raw = some line → host.parseJson line ≠ some .null) :
    ∃ events, historyLine host sourceKey baseOffset now index (Utf8.decode raw) = .ok events ∧
      events.map CodexHistoryEvent.dedupeHash = (jsonText host raw).toList.map (lineHash host sourceKey (baseOffset + index)) := by
  have line : bufferText raw = String.ofList (Utf8.decode raw) := rfl
  unfold historyLine
  unfold jsonText at plain ⊢
  rw [← line]
  by_cases empty : trim (bufferText raw) = ""
  · exact ⟨[], by simp [empty], by simp [empty]⟩
  · cases parsed : host.parseJson (trim (bufferText raw)) with
    | none => exact ⟨[], by simp [empty, parsed], by simp [parsed]⟩
    | some value =>
      have object : value ≠ .null := by simpa [empty, parsed] using plain
      obtain ⟨event, read, hash⟩ := eventRead host sourceKey baseOffset (now index) (trim (bufferText raw)) index object
      exact ⟨[event], by simp [empty, parsed, read, Except.map], by simp [empty, parsed, hash]⟩

theorem readLines (baseOffset index : Nat) (now : Nat → String) {parts : List (List UInt8)}
    (plain : ∀ raw ∈ parts, ∀ line, jsonText host raw = some line → host.parseJson line ≠ some .null) :
    ∃ events, historyLines host sourceKey baseOffset now index (parts.map Utf8.decode) = .ok events ∧
      events.map CodexHistoryEvent.dedupeHash =
        (placed host (baseOffset + index) parts).map (fun at_ => lineHash host sourceKey at_.1 at_.2) := by
  induction parts generalizing index with
  | nil => exact ⟨[], rfl, rfl⟩
  | cons raw others ih =>
    obtain ⟨mine, first, same⟩ := lineRead baseOffset now index (plain raw List.mem_cons_self)
    obtain ⟨later, ok, hashes⟩ := ih (index + 1) (fun other mem => plain other (List.mem_cons_of_mem _ mem))
    refine ⟨mine ++ later, ?_, ?_⟩
    · rw [List.map_cons, historyLines, first, ok]
      rfl
    · rw [List.map_append, same, hashes, placed, List.map_append, List.map_map, Nat.add_assoc]
      rfl

variable (host sourceKey) in
theorem readBytes (now : Nat → String) (baseOffset context : Nat) {bytes : List UInt8}
    (plain : ∀ raw ∈ lines newline bytes, ∀ line, jsonText host raw = some line → host.parseJson line ≠ some .null) :
    ∃ parsed, readChunk host sourceKey now baseOffset context (bufferText bytes) = .ok parsed ∧ parsed.consumed = rewritten bytes ∧
      parsed.events.map CodexHistoryEvent.dedupeHash =
        (placed host baseOffset (lines newline bytes)).map (fun at_ => lineHash host sourceKey at_.1 at_.2) := by
  obtain ⟨events, ok, hashes⟩ := readLines baseOffset 0 now plain
  rw [readChunkBytes, ok]
  exact ⟨_, rfl, rfl, hashes⟩

-- Places counted from elsewhere.
theorem placedMoved {place : Nat → Nat} {start other : Nat} (ahead : ∀ k, place (start + k) = other + k) (parts : List (List UInt8)) :
    (placed host start parts).map (fun at_ => (place at_.1, at_.2)) = placed host other parts := by
  induction parts generalizing start other with
  | nil => rfl
  | cons first others ih =>
    have here : place start = other := ahead 0
    have next : ∀ k, place (start + 1 + k) = other + 1 + k := by
      intro k
      rw [Nat.add_assoc, ahead, Nat.add_assoc]
    rw [placed, placed, List.map_append, List.map_map, ih next]
    simp only [Function.comp_def, here]

variable (host) in
theorem placedLength (start other : Nat) (parts : List (List UInt8)) :
    (placed host start parts).length = (placed host other parts).length := by
  induction parts generalizing start other with
  | nil => rfl
  | cons first others ih =>
    rw [placed, placed, List.length_append, List.length_append, List.length_map, List.length_map, ih (start + 1) (other + 1)]

theorem placedInside {parts : List (List UInt8)} {at_ : Nat × String} (mem : at_ ∈ placed host 0 parts) : at_.1 < parts.length := by
  obtain ⟨k, raw, here, is, -⟩ := memPlaced.mp mem
  have inside := (List.getElem?_eq_some_iff.mp here).1
  omega

theorem recordSubset {Event : Type} (answers : Nat → Answer) (index : Nat) (events : List Event) :
    (recordAll answers index events).1 ⊆ events := by
  induction events generalizing index with
  | nil => exact List.Subset.refl _
  | cons event others ih =>
    rw [recordAll]
    cases answers index with
    | thrown => exact List.nil_subset _
    | failed => exact List.subset_cons_of_subset _ (ih (index + 1))
    | ok => exact List.cons_subset_cons _ (ih (index + 1))

theorem wholeRead (fits : s.offset.getD 0 ≤ p.bytes.length) :
    startOffset s p = s.offset.getD 0 ∧ readOffset s Options.whole p = s.offset.getD 0 ∧
      readSize s Options.whole p = p.bytes.length - s.offset.getD 0 ∧ chunk s Options.whole p = p.bytes.drop (s.offset.getD 0) := by
  have start : startOffset s p = s.offset.getD 0 := if_neg (by omega)
  have reads : readOffset s Options.whole p = s.offset.getD 0 := start
  have size : readSize s Options.whole p = p.bytes.length - s.offset.getD 0 := by
    unfold readSize
    rw [reads]
    rfl
  refine ⟨start, reads, size, ?_⟩
  rw [chunk, reads, size]
  exact List.take_of_length_le (by rw [List.length_drop])

theorem thrownIff {events : List CodexHistoryEvent} (count : events.length = (placed host 0 (news s p)).length) :
    (recordAll p.answers 0 events).2 = true ↔ Thrown host s p := by
  rw [recordThrown, Thrown, ← count]
  simp only [Nat.zero_add]
  constructor
  · rintro ⟨later, event, here, broken⟩
    exact ⟨later, (List.getElem?_eq_some_iff.mp here).1, broken⟩
  · rintro ⟨later, inside, broken⟩
    exact ⟨later, _, List.getElem?_eq_getElem inside, broken⟩

-- An answer for each event, and no exception among them: all events are recorded.
theorem takenAll {answers : Nat → Answer} {events : List CodexHistoryEvent} (whole : (recordAll answers 0 events).2 = false)
    (ok : ∀ i < events.length, answers i = .ok) : ∀ event ∈ events, event ∈ (recordAll answers 0 events).1 := by
  intro event mem
  obtain ⟨i, inside, rfl⟩ := List.mem_iff_getElem.mp mem
  refine (recordTaken whole _).mpr ⟨i, List.getElem?_eq_getElem inside, ?_⟩
  rw [Nat.zero_add]
  exact ok i inside

variable (sourceKey) in
-- The events of a chunk: as many as it has lines, and one with the hash of each line.
theorem chunkRead (sound : Sound host s p) (fresh : news s p = lines newline (p.bytes.drop (s.offset.getD 0))) :
    ∃ parsed, readChunk host sourceKey p.clock (s.offset.getD 0) (loaded (legacyCodexHistory host sourceKey) s Options.whole)
        (bufferText (p.bytes.drop (s.offset.getD 0))) = .ok parsed ∧
      parsed.consumed = (glue newline (news s p)).length ∧ parsed.events.length = (placed host 0 (news s p)).length ∧
      (∀ event ∈ parsed.events, ∃ at_ ∈ placed host (s.offset.getD 0) (news s p), event.dedupeHash = lineHash host sourceKey at_.1 at_.2) ∧
      ∀ at_ ∈ placed host (s.offset.getD 0) (news s p), ∃ event ∈ parsed.events, event.dedupeHash = lineHash host sourceKey at_.1 at_.2 := by
  obtain ⟨parsed, ok, size, hashes⟩ := readBytes host sourceKey p.clock (s.offset.getD 0)
    (loaded (legacyCodexHistory host sourceKey) s Options.whole) (fresh ▸ sound.plain)
  rw [rewritten] at size
  rw [← fresh] at size hashes
  refine ⟨parsed, ok, size.trans sound.steady, ?_, fun event mem => ?_, fun at_ mem => ?_⟩
  · have lengths := congrArg List.length hashes
    rw [List.length_map, List.length_map] at lengths
    exact lengths.trans (placedLength _ _ _ _)
  · obtain ⟨at_, held, same⟩ := List.mem_map.mp (hashes ▸ List.mem_map_of_mem (f := CodexHistoryEvent.dedupeHash) mem)
    exact ⟨at_, held, same.symm⟩
  · have hashed : lineHash host sourceKey at_.1 at_.2 ∈ parsed.events.map CodexHistoryEvent.dedupeHash := by
      rw [hashes]
      exact List.mem_map.mpr ⟨at_, mem, rfl⟩
    exact List.mem_map.mp hashed

variable (sourceKey) in
-- One poll: what it adds, and where it leaves the offset.
theorem pollAdds (fits : s.offset.getD 0 ≤ p.bytes.length) (sound : Sound host s p) :
    startOffset s p = s.offset.getD 0 ∧ ∃ taken, (pollHistory host sourceKey s p).accepted = s.accepted ++ taken ∧
      (∀ event ∈ taken, ∃ at_ ∈ placed host (s.offset.getD 0) (news s p), event.dedupeHash = lineHash host sourceKey at_.1 at_.2) ∧
      (Thrown host s p ∧ (pollHistory host sourceKey s p).offset = s.offset ∨
        (pollHistory host sourceKey s p).offset.getD 0 = s.offset.getD 0 + (glue newline (news s p)).length ∧
          ∀ at_ ∈ placed host (s.offset.getD 0) (news s p), ∃ event ∈ taken, event.dedupeHash = lineHash host sourceKey at_.1 at_.2) := by
  obtain ⟨start, reads, size, rest⟩ := wholeRead fits
  refine ⟨start, ?_⟩
  unfold pollHistory ingestLegacyCodexHistoryFile ingestFile outcome
  have fresh : news s p = lines newline (p.bytes.drop (s.offset.getD 0)) := by rw [news, start]
  have skips : skipped (legacyCodexHistory host sourceKey) s Options.whole p = false := by
    simp [skipped, legacyCodexHistory]
  rw [if_neg (by simp [skips])]
  by_cases rests : idle s Options.whole p = true
  · rw [if_pos rests]
    have ends : p.bytes.length ≤ s.offset.getD 0 := by
      rw [idle, start, size, Bool.or_eq_true, Bool.and_eq_true, decide_eq_true_eq, decide_eq_true_eq] at rests
      omega
    have none : news s p = [] := by rw [fresh, List.drop_of_length_le ends]; rfl
    refine ⟨[], rfl, by simp, .inr ?_⟩
    rw [none]
    exact ⟨rfl, by simp [placed]⟩
  · rw [if_neg rests]
    obtain ⟨parsed, ok, consumes, count, source, meets⟩ := chunkRead sourceKey sound fresh
    have read : (legacyCodexHistory host sourceKey).parse p.clock (readOffset s Options.whole p)
        (loaded (legacyCodexHistory host sourceKey) s Options.whole) (bufferText (chunk s Options.whole p)) = .ok parsed := by
      rw [reads, rest]
      exact ok
    rw [read]
    by_cases broken : (recordAll p.answers 0 parsed.events).2 = true
    · refine ⟨(recordAll p.answers 0 parsed.events).1, ?_, fun event mem => source event (recordSubset _ _ _ mem),
        .inl ⟨(thrownIff count).mp broken, ?_⟩⟩
      · simp only [if_pos broken]
      · simp only [if_pos broken, Option.orElse_none]
    · have taken := takenAll (Bool.eq_false_of_not_eq_true broken)
        (count ▸ sound.answered.resolve_left (fun is => broken ((thrownIff count).mpr is)))
      refine ⟨(recordAll p.answers 0 parsed.events).1, ?_, fun event mem => source event (recordSubset _ _ _ mem), .inr ⟨?_, ?_⟩⟩
      · simp only [if_neg broken]
      · simp only [if_neg broken, reads, start, consumes]
        simp [legacyCodexHistory]
      · intro at_ mem
        obtain ⟨event, held, same⟩ := meets at_ mem
        exact ⟨event, taken event held, same⟩

variable (host sourceKey) in
-- Between two polls: the lines passed are recorded, and those to come have their places from the offset on.
structure Kept (exact : Prop) (bytes : List UInt8) (before : List (List UInt8)) (place : Nat → Nat) (s : History) : Prop where
  split : before <+: lines newline bytes
  offset : s.offset.getD 0 = (glue newline before).length
  rises : StrictMono place
  ahead : ∀ k, place (before.length + k) = s.offset.getD 0 + k
  passed : ∀ at_ ∈ placed host 0 before, Recorded host sourceKey s (place at_.1) at_.2
  known : ∀ event ∈ s.accepted, ∃ at_ ∈ jsonLines host bytes, event.dedupeHash = lineHash host sourceKey (place at_.1) at_.2
  straight : exact → ∀ at_ ∈ placed host 0 before, place at_.1 = at_.1

theorem glueSize (parts : List (List UInt8)) : parts.length ≤ (glue newline parts).length := by
  induction parts with
  | nil => exact Nat.le_refl 0
  | cons first others ih =>
    rw [glueCons, List.length_append, List.length_cons, List.length_cons]
    omega

theorem placedAppend (start : Nat) (before after : List (List UInt8)) :
    placed host start (before ++ after) = placed host start before ++ placed host (start + before.length) after := by
  induction before generalizing start with
  | nil => rfl
  | cons first others ih =>
    rw [List.cons_append, placed, placed, ih, List.append_assoc, List.length_cons, Nat.add_assoc, Nat.add_comm 1]

-- Where a poll starts, the file's complete lines fall apart into those passed and the new ones.
theorem keptSplit {exact : Prop} {bytes : List UInt8} {before : List (List UInt8)} {place : Nat → Nat}
    (kept : Kept host sourceKey exact bytes before place s) (grown : bytes <+: p.bytes) :
    s.offset.getD 0 ≤ p.bytes.length ∧ lines newline (p.bytes.take (s.offset.getD 0)) = before ∧
      lines newline p.bytes = before ++ lines newline (p.bytes.drop (s.offset.getD 0)) ∧
      jsonLines host bytes <+: jsonLines host p.bytes := by
  obtain ⟨after, split⟩ := kept.split
  obtain ⟨more, is⟩ := grown
  have longer := (linesAppend newline bytes more).1
  rw [is, ← split, List.append_assoc] at longer
  obtain ⟨first, last, size⟩ := linesAt newline longer
  rw [← kept.offset] at first last size
  refine ⟨?_, first, by rw [longer, last], ?_⟩
  · have whole := congrArg List.length (glueCut newline p.bytes)
    rw [List.length_append] at whole
    unfold consumed at size
    omega
  · unfold jsonLines
    rw [longer, ← List.append_assoc, split, placedAppend]
    exact List.prefix_append _ _

variable (host sourceKey) in
-- The same after a poll, whose own lines are at their places too.
structure Advanced (exact : Prop) (s : History) (p : Poll) (before : List (List UInt8)) (place : Nat → Nat) (next : History) : Prop where
  kept : Kept host sourceKey exact p.bytes before place next
  level : exact → ∀ at_ ∈ jsonLines host p.bytes, place at_.1 = at_.1
  whole : Thrown host s p ∨ before = lines newline p.bytes

-- The places up to a line, and from it on those that count from an offset.
def resume (place : Nat → Nat) (count offset i : Nat) : Nat := if i < count then place i else offset + (i - count)

theorem resumeRises {place : Nat → Nat} (rises : StrictMono place) {count offset : Nat} (after : place count ≤ offset) :
    StrictMono (resume place count offset) := by
  refine strictMono_nat_of_lt_succ (fun i => ?_)
  have next : place i < place (i + 1) := rises (Nat.lt_succ_self i)
  unfold resume
  split
  · split
    · exact next
    · rename_i low high
      have is : i + 1 = count := by omega
      rw [is] at next
      omega
  · rw [if_neg (by omega)]
    omega

theorem pollKeeps {exact : Prop} {bytes : List UInt8} {before : List (List UInt8)} {place : Nat → Nat}
    (kept : Kept host sourceKey exact bytes before place s) (grown : bytes <+: p.bytes) (sound : Sound host s p)
    (aligned : exact → Aligned host s p) :
    ∃ before place, Advanced host sourceKey exact s p before place (pollHistory host sourceKey s p) := by
  obtain ⟨fits, first, split, longer⟩ := keptSplit kept grown
  obtain ⟨start, taken, added, source, ends⟩ := pollAdds sourceKey fits sound
  have fresh : news s p = lines newline (p.bytes.drop (s.offset.getD 0)) := by rw [news, start]
  rw [← fresh] at split
  have all : jsonLines host p.bytes = placed host 0 before ++ placed host before.length (news s p) := by
    rw [jsonLines, split, placedAppend, Nat.zero_add]
  have offset := kept.offset
  have ahead := kept.ahead
  generalize s.offset.getD 0 = o at *
  have moved : (placed host before.length (news s p)).map (fun at_ => (place at_.1, at_.2)) = placed host o (news s p) :=
    placedMoved ahead _
  have apart : ∀ at_ ∈ placed host before.length (news s p), (place at_.1, at_.2) ∈ placed host o (news s p) := by
    intro at_ mem
    rw [← moved]
    exact List.mem_map_of_mem mem
  have meets : ∀ at_ ∈ placed host o (news s p), ∃ other ∈ jsonLines host p.bytes, (place other.1, other.2) = at_ := by
    intro at_ mem
    obtain ⟨other, held, same⟩ := List.mem_map.mp (moved ▸ mem)
    exact ⟨other, all ▸ List.mem_append_right _ held, same⟩
  have level : exact → ∀ at_ ∈ jsonLines host p.bytes, place at_.1 = at_.1 := by
    intro is at_ mem
    rw [all] at mem
    rcases List.mem_append.mp mem with old | new
    · exact kept.straight is at_ old
    · obtain ⟨k, raw, here, same, text⟩ := memPlaced.mp new
      have counts := aligned is (List.ne_nil_of_mem (memPlaced.mpr ⟨k, raw, here, rfl, text⟩ : (0 + k, at_.2) ∈ _))
      rw [start, first] at counts
      rw [same, ahead, counts]
  have known : ∀ event ∈ (pollHistory host sourceKey s p).accepted, ∃ at_ ∈ jsonLines host p.bytes,
      event.dedupeHash = lineHash host sourceKey (place at_.1) at_.2 := by
    rw [added]
    intro event mem
    rcases List.mem_append.mp mem with old | new
    · obtain ⟨at_, held, same⟩ := kept.known event old
      exact ⟨at_, longer.subset held, same⟩
    · obtain ⟨_, held, same⟩ := source event new
      obtain ⟨at_, mine, rfl⟩ := meets _ held
      exact ⟨at_, mine, same⟩
  have recorded : ∀ {at_ : Nat × String}, Recorded host sourceKey s (place at_.1) at_.2 →
      Recorded host sourceKey (pollHistory host sourceKey s p) (place at_.1) at_.2 := by
    rintro at_ ⟨event, mem, same⟩
    exact ⟨event, added ▸ List.mem_append_left _ mem, same⟩
  have whole : before <+: lines newline p.bytes := split ▸ List.prefix_append _ _
  rcases ends with ⟨thrown, stays⟩ | ⟨moves, takes⟩
  · refine ⟨before, place, ⟨whole, stays ▸ kept.offset, kept.rises, stays ▸ kept.ahead, ?_, known, kept.straight⟩, level, .inl thrown⟩
    exact fun at_ mem => recorded (kept.passed at_ mem)
  · have size : (glue newline (before ++ news s p)).length = o + (glue newline (news s p)).length := by
      rw [glueAppend, List.length_append, offset]
    have below : place (lines newline p.bytes).length ≤ (pollHistory host sourceKey s p).offset.getD 0 := by
      rw [split, List.length_append, ahead, moves]
      exact Nat.add_le_add_left (glueSize _) o
    have same : ∀ at_ ∈ jsonLines host p.bytes,
        resume place (lines newline p.bytes).length ((pollHistory host sourceKey s p).offset.getD 0) at_.1 = place at_.1 :=
      fun at_ mem => if_pos (placedInside mem)
    refine ⟨lines newline p.bytes, resume place (lines newline p.bytes).length ((pollHistory host sourceKey s p).offset.getD 0),
      ⟨List.prefix_refl _, by rw [moves, split, size], resumeRises kept.rises below, fun k => ?_, ?_, ?_, ?_⟩, ?_, .inr rfl⟩
    · rw [resume, if_neg (by omega), Nat.add_sub_cancel_left]
    · intro at_ mem
      rw [same at_ mem]
      rw [← jsonLines, all] at mem
      rcases List.mem_append.mp mem with old | new
      · exact recorded (kept.passed at_ old)
      · obtain ⟨event, held, hash⟩ := takes _ (apart at_ new)
        exact ⟨event, added ▸ List.mem_append_right _ held, hash⟩
    · intro event mem
      obtain ⟨at_, held, hash⟩ := known event mem
      exact ⟨at_, held, by rw [same at_ held, hash]⟩
    · exact fun is at_ mem => (same at_ mem).trans (level is at_ mem)
    · exact fun is at_ mem => (same at_ mem).trans (level is at_ mem)

theorem keptStart (exact : Prop) : Kept host sourceKey exact [] [] id untouched where
  split := List.nil_prefix
  offset := rfl
  rises := strictMono_id
  ahead := fun _ => rfl
  passed := fun _ mem => by cases mem
  known := fun _ mem => by cases mem
  straight := fun _ _ mem => by cases mem

theorem runAdvances {exact : Prop} {bytes : List UInt8} {before : List (List UInt8)} {place : Nat → Nat} {polls : List Poll}
    (kept : Kept host sourceKey exact bytes before place s) (grows : (bytes :: polls.map Poll.bytes).IsChain (· <+: ·))
    (sound : Runs.Throughout (pollHistory host sourceKey) (Sound host) s polls)
    (aligned : exact → Runs.Throughout (pollHistory host sourceKey) (Aligned host) s polls) :
    Runs.Throughout (pollHistory host sourceKey)
      (fun s p => ∃ before place, Advanced host sourceKey exact s p before place (pollHistory host sourceKey s p)) s polls := by
  induction polls generalizing s bytes before place with
  | nil => trivial
  | cons p others ih =>
    obtain ⟨grown, later⟩ := List.isChain_cons_cons.mp grows
    obtain ⟨before, place, advanced⟩ := pollKeeps kept grown sound.1 (fun is => (aligned is).1)
    exact ⟨⟨before, place, advanced⟩, ih advanced.kept later sound.2 (fun is => (aligned is).2)⟩

theorem hashTextInjective {place other : Nat} {line text : String} (same : hashText sourceKey place line = hashText sourceKey other text) :
    place = other ∧ line = text := by
  have digits : ∀ n : Nat, (toString n).toList = Nat.toDigits 10 n := fun n => by simp
  have free : ∀ n : Nat, ':' ∉ (toString n).toList := by
    intro n mem
    rw [digits] at mem
    exact absurd (Nat.isDigit_of_mem_toDigits (by decide) (by decide) mem) (by decide)
  have chars := congrArg String.toList same
  simp only [hashText, String.toList_append, List.append_assoc] at chars
  obtain ⟨number, lines⟩ := fieldEnds ':' (free place) (free other) (List.append_cancel_left (List.append_cancel_left chars))
  rw [digits, digits] at number
  have value := congrArg (fun shown => Nat.ofDigitChars 10 shown 0) number
  simp only [Nat.ofDigitChars_toDigits (b := 10) (by decide) (by decide)] at value
  exact ⟨value, String.toList_inj.mp lines⟩

theorem onceAdvanced {exact : Prop} {before : List (List UInt8)} {place : Nat → Nat} {next : History}
    (advanced : Advanced host sourceKey exact s p before place next)
    (free : Apart host ((jsonLines host p.bytes).map (fun at_ => hashText sourceKey (place at_.1) at_.2))) :
    Once host sourceKey place s p next := by
  obtain ⟨kept, -, whole⟩ := advanced
  obtain ⟨after, split⟩ := kept.split
  refine ⟨⟨before, after, split.symm, kept.offset, kept.passed⟩, kept.known, ?_, ?_⟩
  · have distinct : (jsonLines host p.bytes).Nodup :=
      (placedApart 0 _).imp (fun less same => absurd (congrArg Prod.fst same) (Nat.ne_of_lt less))
    refine List.Nodup.map_on (fun a one b two same => ?_) distinct
    obtain ⟨places, texts⟩ := hashTextInjective (free _ (List.mem_map_of_mem one) _ (List.mem_map_of_mem two) same)
    exact Prod.ext (kept.rises.injective places) texts
  · refine whole.imp_right (fun all => ?_)
    subst all
    exact ⟨kept.offset, kept.passed⟩

theorem onceSame {place other : Nat → Nat} {next : History} (same : ∀ at_ ∈ jsonLines host p.bytes, place at_.1 = other at_.1)
    (once : Once host sourceKey place s p next) : Once host sourceKey other s p next := by
  obtain ⟨⟨before, after, split, offset, passed⟩, known, apart, whole⟩ := once
  have within : ∀ at_ ∈ placed host 0 before, at_ ∈ jsonLines host p.bytes := by
    intro at_ mem
    rw [jsonLines, split, placedAppend]
    exact List.mem_append_left _ mem
  refine ⟨⟨before, after, split, offset, fun at_ mem => ?_⟩, fun event mem => ?_, ?_, whole.imp_right (fun all => ⟨all.1, fun at_ mem => ?_⟩)⟩
  · rw [← same at_ (within at_ mem)]
    exact passed at_ mem
  · obtain ⟨at_, held, hash⟩ := known event mem
    exact ⟨at_, held, by rw [← same at_ held, hash]⟩
  · rwa [List.map_congr_left (fun at_ mem => by rw [← same at_ mem])]
  · rw [← same at_ mem]
    exact all.2 at_ mem

variable {polls : List Poll}

theorem grownStart {files : List (List UInt8)} (grows : files.IsChain (· <+: ·)) : ([] :: files).IsChain (· <+: ·) := by
  cases files with
  | nil => exact .singleton []
  | cons first others => exact .cons_cons List.nil_prefix grows

-- Whatever the schedule, each line is recorded once, under a hash of a place of its own.
theorem placesOnce (grows : (polls.map Poll.bytes).IsChain (· <+: ·))
    (sound : Runs.Throughout (pollHistory host sourceKey) (Sound host) untouched polls) :
    Runs.Throughout (pollHistory host sourceKey) (fun s p => ∃ place : Nat → Nat, StrictMono place ∧
      (Apart host ((jsonLines host p.bytes).map (fun at_ => hashText sourceKey (place at_.1) at_.2)) →
        Once host sourceKey place s p (pollHistory host sourceKey s p))) untouched polls := by
  refine Runs.throughoutImp _ (fun s p _ => ?_) (runAdvances (keptStart False) (grownStart grows) sound False.elim)
  rintro ⟨before, place, advanced⟩
  exact ⟨place, advanced.kept.rises, onceAdvanced advanced⟩

theorem historyOnce (grows : (polls.map Poll.bytes).IsChain (· <+: ·))
    (free : ∀ p ∈ polls, Apart host ((jsonLines host p.bytes).map (fun at_ => hashText sourceKey at_.1 at_.2)))
    (sound : Runs.Throughout (pollHistory host sourceKey) (fun s p => Sound host s p ∧ Aligned host s p) untouched polls) :
    Runs.Throughout (pollHistory host sourceKey) (fun s p => Once host sourceKey id s p (pollHistory host sourceKey s p)) untouched polls := by
  obtain ⟨sound, aligned⟩ := (Runs.throughoutAnd _).mp sound
  refine Runs.throughoutImp _ (fun s p mem => ?_) (runAdvances (keptStart True) (grownStart grows) sound (fun _ => aligned))
  rintro ⟨before, place, advanced⟩
  have level := advanced.level trivial
  refine onceSame level (onceAdvanced advanced ?_)
  rw [List.map_congr_left (fun at_ held => by rw [level at_ held])]
  exact free p mem

end

-- An empty object, a host that reads it, and a poll that finds some lines in the file.
def object : String := "\x7b\x7d"
def objectHost : Host where
  sha256 := id
  toLowerCase := String.toLower
  parseJson := fun text => if text = object then some (.obj []) else none
  parseDate := fun _ => none
  millis := fun _ => .nan
  tokenize := fun _ => []
  similar := fun _ _ => false
def found (file : List String) : Poll := ⟨file.flatMap (fun line => buffer line ++ [newline]), false, fun _ => "", fun _ => .ok⟩

theorem objectSound {s : History} {p : Poll} (steady : (glue newline ((news s p).map (fun raw => Utf8.encode (Utf8.decode raw)))).length =
    (glue newline (news s p)).length) (taken : ∀ i, p.answers i = .ok) : Sound objectHost s p := by
  refine ⟨steady, fun raw _ line _ null => ?_, .inr (fun i _ => taken i)⟩
  change (if line = object then some (Json.obj []) else none) = some Json.null at null
  split at null
  · cases null
  · cases null

theorem historyOnceFound : Runs.Throughout (pollHistory objectHost "k") (fun s p => Once objectHost "k" id s p (pollHistory objectHost "k" s p))
    untouched [found [""], found ["", object, object]] := by
  refine historyOnce ?_ (fun p _ a _ b _ same => same) ⟨⟨objectSound ?_ (fun _ => rfl), ?_⟩, ⟨objectSound ?_ (fun _ => rfl), ?_⟩, trivial⟩
  · exact .cons_cons ⟨(found [object, object]).bytes, by decide⟩ (.singleton _)
  · decide
  · intro _
    decide
  · decide
  · intro _
    decide

def hashes (polls : List Poll) : List String :=
  (Runs.run (pollHistory objectHost "k") untouched polls).accepted.map CodexHistoryEvent.dedupeHash

-- The second line of one file, read in a poll of its own and together with the first.
theorem hashByPoll : hashes [found [object], found [object, object]] = ["k:0:" ++ object, "k:3:" ++ object] ∧
    hashes [found [object, object]] = ["k:0:" ++ object, "k:1:" ++ object] ∧
      ¬ Runs.Throughout (pollHistory objectHost "k") (fun s p => Once objectHost "k" id s p (pollHistory objectHost "k" s p)) untouched
        [found [object], found [object, object]] := by
  have moved : hashes [found [object], found [object, object]] = ["k:0:" ++ object, "k:3:" ++ object] := by decide
  refine ⟨moved, by decide, ?_⟩
  rintro ⟨-, once, -⟩
  have held : "k:3:" ++ object ∈ hashes [found [object], found [object, object]] := by
    rw [moved]
    exact List.mem_cons_of_mem _ List.mem_cons_self
  obtain ⟨event, mem, hash⟩ := List.mem_map.mp held
  obtain ⟨at_, line, same⟩ := once.known event mem
  have lines : jsonLines objectHost (found [object, object]).bytes = [(0, object), (1, object)] := by decide
  rw [lines] at line
  rw [hash] at same
  have apart : ∀ at_ ∈ [(0, object), (1, object)], "k:3:" ++ object ≠ lineHash objectHost "k" at_.1 at_.2 := by decide
  exact apart at_ line same

end HarnessMem.HistoryPolls
