import HarnessMem.Lib.LineStream
import HarnessMem.Lib.Utf8
import HarnessMem.Text

/-! The loop every JSONL ingester runs over the chunk it read: newline-terminated lines at
their byte offsets, decoded, trimmed and parsed, each JSON object given to the format's handler. -/
namespace HarnessMem.JsonLines
open Js LineStream

def newline : UInt8 := 10

-- `Buffer.from(text, "utf8")` and `buffer.toString("utf8")`
def buffer (text : String) : List UInt8 := Utf8.encode text.toList
def bufferText (bytes : List UInt8) : String := String.ofList (Utf8.decode bytes)

-- `.replace(/\r$/, "")`
def cutReturn (s : String) : String :=
  if s.toList.getLast? = some '\r' then String.ofList s.toList.dropLast else s

-- `normalizeString` of every format, called `str` by one of them.
def str (value : Option Json) : String := ((Json.text? value).map trim).getD ""
def toRecord : Option Json → List (String × Json)
  | some (.obj entries) => entries
  | _ => []
def toArray : Option Json → List Json
  | some (.arr items) => items
  | _ => []
-- `a || b || ..` on strings
def firstOf (candidates : List String) : String := (candidates.find? (fun s => s ≠ "")).getD ""

-- The trimmed text of a message: itself, or its blocks of the allowed types.
def textBlocks (allowed : List String) : Option Json → String
  | some (.str text) => trim text
  | some (.arr items) => trim ("\n\n".intercalate (items.filterMap (fun item =>
      match item with
      | .obj entry =>
        if allowed.contains (str (Json.get entry "type")) then
          some (str (Json.get entry "text")) |>.filter (fun text => text ≠ "")
        else none
      | _ => none)))
  | _ => ""

-- Text that trimming leaves as it is.
def Trimmed (s : String) : Prop := trim s = s

theorem trimTrimmed (s : String) : Trimmed (trim s) := trimIdem s

theorem emptyTrimmed : Trimmed "" := show trim "" = "" by decide

theorem strTrimmed (value : Option Json) : Trimmed (str value) := by
  unfold str
  cases Json.text? value with
  | none => exact emptyTrimmed
  | some s => exact trimTrimmed s

theorem firstOfTrimmed {candidates : List String} (all : ∀ s ∈ candidates, Trimmed s) : Trimmed (firstOf candidates) := by
  unfold firstOf
  cases found : candidates.find? (fun s => s ≠ "") with
  | none => exact emptyTrimmed
  | some s => exact all s (List.mem_of_find?_eq_some found)

theorem textBlocksTrimmed (allowed : List String) (content : Option Json) : Trimmed (textBlocks allowed content) := by
  unfold textBlocks
  split
  · exact trimTrimmed _
  · exact trimTrimmed _
  · exact emptyTrimmed

structure IngestEvent where
  lineOffset : Nat
  line : String
  parsed : List (String × Json)
  eventType : String
  sessionId : String
  project : String
  timestamp : String
  payload : List (String × Json)
  dedupeHash : String

-- An event up to its time stamp, which may come from the clock.
def timeless (event : IngestEvent) : IngestEvent := {event with timestamp := ""}

section
variable {Ctx : Type}

-- What a format does with the object of one line: its context, the line's offset and raw text.
abbrev Handler (Ctx : Type) :=
  Ctx → Nat → String → List (String × Json) → Except String (Ctx × List IngestEvent)

-- The raw text of a line and the object it holds; other lines are skipped.
def lineObject (host : Host) (bytes : List UInt8) : Option (String × List (String × Json)) :=
  let rawLine := cutReturn (bufferText bytes)
  let line := trim rawLine
  if line = "" then none
  else match host.parseJson line with
    | some (.obj parsed) => some (rawLine, parsed)
    | _ => none

def jsonLine (host : Host) (handle : Handler Ctx) (context : Ctx) (lineOffset : Nat) (bytes : List UInt8) :
    Except String (Ctx × List IngestEvent) :=
  match lineObject host bytes with
  | none => .ok (context, [])
  | some (rawLine, parsed) => handle context lineOffset rawLine parsed

def parseChunk (host : Host) (handle : Handler Ctx) (baseOffset : Nat) (context : Ctx) (chunk : String) :
    Except String (Scan Ctx IngestEvent) :=
  scan newline (jsonLine host handle) baseOffset context (buffer chunk)

def Valid (bytes : List UInt8) : Prop := ∃ text, bytes = Utf8.encode text

theorem validIff (bytes : List UInt8) : Utf8.encode (Utf8.decode bytes) = bytes ↔ Valid bytes := by
  constructor
  · exact fun same => ⟨_, same.symm⟩
  · rintro ⟨text, rfl⟩
    rw [Utf8.decodeEncode]

instance (bytes : List UInt8) : Decidable (Valid bytes) := decidable_of_iff _ (validIff bytes)

theorem newlineEncoded : String.utf8EncodeChar '\n' = [newline] := by decide

theorem newlineInside {text : List Char} : newline ∈ Utf8.encode text ↔ '\n' ∈ text := by
  rw [Utf8.asciiInside (by decide)]
  constructor
  · rintro ⟨c, mem, same⟩
    rwa [Char.toNat_inj.mp (show c.toNat = '\n'.toNat from same)] at mem
  · exact fun mem => ⟨'\n', mem, rfl⟩

theorem newlineDecoded {bytes : List UInt8} (free : newline ∉ bytes) : '\n' ∉ Utf8.decode bytes := by
  intro mem
  have ascii : Utf8.Ascii '\n' := ⟨by decide, by decide⟩
  obtain ⟨b, held, same⟩ := Utf8.decodedAscii (by simp) ascii mem
  have equal : b = newline := UInt8.toNat_inj.mp same
  exact free (equal ▸ held)

-- A line of valid text is valid text: the newline byte is never part of another character.
theorem linesValid (text : List Char) : ∀ line ∈ lines newline (Utf8.encode text), Valid line := by
  induction text with
  | nil => exact fun line mem => absurd mem List.not_mem_nil
  | cons c text ih =>
    rw [Utf8.encode, List.flatMap_cons, ← Utf8.encode]
    by_cases ends : c = '\n'
    · rw [ends, newlineEncoded]
      have split := cutLine newline (List.not_mem_nil (a := newline)) (Utf8.encode text)
      intro line mem
      rw [lines, List.singleton_append, ← List.nil_append (newline :: _), split] at mem
      rcases List.mem_cons.mp mem with rfl | later
      · exact ⟨[], rfl⟩
      · exact ih line later
    · have free : newline ∉ String.utf8EncodeChar c := by
        rw [Utf8.asciiEncoded (by decide)]
        exact fun same => ends (Char.toNat_inj.mp same)
      rw [linesBefore newline free]
      intro line mem
      cases found : lines newline (Utf8.encode text) with
      | nil => rw [found] at mem; exact absurd mem List.not_mem_nil
      | cons first others =>
        rw [found] at mem ih
        rcases List.mem_cons.mp mem with rfl | later
        · obtain ⟨part, rfl⟩ := ih first List.mem_cons_self
          exact ⟨c :: part, rfl⟩
        · exact ih line (List.mem_cons_of_mem _ later)

theorem glueValid {parts : List (List UInt8)} (valid : ∀ line ∈ parts, Valid line) :
    ∃ text, glue newline parts = Utf8.encode text := by
  induction parts with
  | nil => exact ⟨[], rfl⟩
  | cons line others ih =>
    obtain ⟨first, rfl⟩ := valid line List.mem_cons_self
    obtain ⟨later, same⟩ := ih (fun other mem => valid other (List.mem_cons_of_mem _ mem))
    refine ⟨first ++ '\n' :: later, ?_⟩
    rw [glueCons, same, Utf8.encodeAppend, show Utf8.encode ('\n' :: later) = newline :: Utf8.encode later from rfl]

-- Decoding what was read and encoding it again changes only the unfinished line.
theorem rereadLines {bytes : List UInt8} (valid : ∀ line ∈ lines newline bytes, Valid line) :
    lines newline (buffer (bufferText bytes)) = lines newline bytes := by
  obtain ⟨text, same⟩ := glueValid valid
  have free : newline ∉ Utf8.encode (Utf8.decode (rest newline bytes)) :=
    fun mem => newlineDecoded (linesFree newline bytes).2 (newlineInside.mp mem)
  have shown : buffer (bufferText bytes) =
      glue newline (lines newline bytes) ++ Utf8.encode (Utf8.decode (rest newline bytes)) := by
    rw [buffer, bufferText, String.toList_ofList]
    calc Utf8.encode (Utf8.decode bytes)
        = Utf8.encode (Utf8.decode (glue newline (lines newline bytes) ++ rest newline bytes)) := by rw [glueCut]
      _ = _ := by rw [same, Utf8.decodeAppend, Utf8.encodeAppend]
  rw [shown, lines, cutGlue newline (linesFree newline bytes).1, cutFree newline free]
  exact List.append_nil _

theorem parseRead (host : Host) (handle : Handler Ctx) (baseOffset : Nat) (context : Ctx) {bytes : List UInt8}
    (valid : ∀ line ∈ lines newline bytes, Valid line) :
    parseChunk host handle baseOffset context (bufferText bytes) =
      scan newline (jsonLine host handle) baseOffset context bytes := by
  rw [parseChunk, scan, scan, consumed, consumed, rereadLines valid]

end

end HarnessMem.JsonLines
