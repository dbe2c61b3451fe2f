import HarnessMem.JsonLines

/-! Codex's older history file: split as text, and measured in UTF-16 units. -/
namespace HarnessMem.CodexHistory
open Js Text JsonLines LineStream

structure CodexHistoryEvent where
  lineIndex : Nat
  line : String
  parsed : Json
  role : String
  eventType : String
  sessionId : String
  timestamp : String
  dedupeHash : String

-- `parsed[key]` where it is a text; `null` has no properties to read.
def property (parsed : Json) (key : String) : Except String String :=
  match parsed with
  | .null => .error "null is not an object"
  | .obj entries => .ok ((Json.text? (Json.get entries key)).getD "")
  | _ => .ok ""

def historyEvent (host : Host) (sourceKey : String) (baseOffset : Nat) (now line : String) (lineIndex : Nat)
    (parsed : Json) : Except String CodexHistoryEvent := do
  let role ← property parsed "role"
  let sessionId ← property parsed "session_id"
  let threadId ← property parsed "thread_id"
  let ts ← property parsed "ts"
  let timestamp ← property parsed "timestamp"
  return {
    lineIndex, line, parsed, role
    eventType := if role = "assistant" || role = "tool" then "tool_use" else "user_prompt"
    sessionId := firstOf [sessionId, threadId, "codex-history"]
    timestamp := firstOf [ts, timestamp, now]
    dedupeHash := host.sha256 (sourceKey ++ ":" ++ toString (baseOffset + lineIndex) ++ ":" ++ line) }

def historyLine (host : Host) (sourceKey : String) (baseOffset : Nat) (now : Nat → String) (index : Nat)
    (text : List Char) : Except String (List CodexHistoryEvent) :=
  let line := trim (String.ofList text)
  if line = "" then .ok []
  else match host.parseJson line with
    | none => .ok []
    | some parsed => (historyEvent host sourceKey baseOffset (now index) line index parsed).map (fun event => [event])

def historyLines (host : Host) (sourceKey : String) (baseOffset : Nat) (now : Nat → String) :
    Nat → List (List Char) → Except String (List CodexHistoryEvent)
  | _, [] => .ok []
  | index, text :: others => do
    let here ← historyLine host sourceKey baseOffset now index text
    let later ← historyLines host sourceKey baseOffset now (index + 1) others
    return here ++ later

structure HistoryChunk where
  events : List CodexHistoryEvent
  consumedLength : Nat

def parseCodexHistoryChunk (host : Host) (sourceKey : String) (now : Nat → String) (baseOffset : Nat)
    (chunk : String) : Except String HistoryChunk :=
  let last := String.ofList (rest '\n' chunk.toList)
  (historyLines host sourceKey baseOffset now 0 (lines '\n' chunk.toList)).map
    (fun events => ⟨events, length chunk - length last⟩)

-- The slice up to the consumed length is the text up to and including the last line break.
theorem sliceConsumed (chunk : String) :
    slice chunk 0 (length chunk - length (String.ofList (rest '\n' chunk.toList))) =
      String.ofList (glue '\n' (lines '\n' chunk.toList)) := by
  have whole := glueCut '\n' chunk.toList
  generalize lines '\n' chunk.toList = parts at whole
  generalize rest '\n' chunk.toList = last at whole
  unfold slice length
  rw [String.toList_ofList, ← whole, unitsAppend]
  have none : dropUnits (glue '\n' parts ++ last) 0 = glue '\n' parts ++ last := by
    cases glue '\n' parts ++ last <;> rfl
  rw [none, show units (glue '\n' parts) + units last - units last - 0 = units (glue '\n' parts) by omega,
    takeUnitsAppend]

theorem encodeGlue (parts : List (List Char)) : Utf8.encode (glue '\n' parts) = glue newline (parts.map Utf8.encode) := by
  induction parts with
  | nil => rfl
  | cons line others ih =>
    rw [glueCons, Utf8.encodeAppend, List.map_cons, glueCons, ← ih,
      show ∀ more, Utf8.encode ('\n' :: more) = newline :: Utf8.encode more from fun _ => rfl]

-- The lines of the decoded text are the decoded lines, valid or not.
theorem linesDecoded (bytes : List UInt8) : lines '\n' (Utf8.decode bytes) = (lines newline bytes).map Utf8.decode := by
  have glued : ∀ (parts : List (List UInt8)) (more : List UInt8),
      Utf8.decode (glue newline parts ++ more) = glue '\n' (parts.map Utf8.decode) ++ Utf8.decode more := by
    intro parts more
    induction parts with
    | nil => rfl
    | cons line others ih =>
      have ends : Utf8.decode (line ++ newline :: (glue newline others ++ more)) =
          Utf8.decode line ++ '\n' :: Utf8.decode (glue newline others ++ more) :=
        @Utf8.decodeAscii newline (by decide) none (by simp) line (glue newline others ++ more)
      rw [ih] at ends
      rw [glueCons, List.append_assoc, List.cons_append, ends, List.map_cons, glueCons, List.append_assoc, List.cons_append]
  have free : ∀ line ∈ (lines newline bytes).map Utf8.decode, '\n' ∉ line := by
    intro line mem
    obtain ⟨raw, held, rfl⟩ := List.mem_map.mp mem
    exact newlineDecoded ((linesFree newline bytes).1 raw held)
  have shown := glued (lines newline bytes) (rest newline bytes)
  rw [glueCut] at shown
  rw [shown, lines, cutGlue '\n' free, cutFree '\n' (newlineDecoded (linesFree newline bytes).2)]
  exact List.append_nil _

-- One line of bytes, the context being the index of the line.
def lineBytes (host : Host) (sourceKey : String) (now : Nat → String) (baseOffset index : Nat) (_offset : Nat)
    (bytes : List UInt8) : Except String (Nat × List CodexHistoryEvent) :=
  (historyLine host sourceKey baseOffset now index (Utf8.decode bytes)).map (fun events => (index + 1, events))

theorem foldLines (host : Host) (sourceKey : String) (now : Nat → String) (baseOffset index offset : Nat)
    (parts : List (List UInt8)) : fold (lineBytes host sourceKey now baseOffset) index offset parts =
      (historyLines host sourceKey baseOffset now index (parts.map Utf8.decode)).map
        (fun events => (index + parts.length, events)) := by
  induction parts generalizing index offset with
  | nil => rfl
  | cons first others ih =>
    rw [foldCons, List.map_cons, historyLines, lineBytes]
    cases historyLine host sourceKey baseOffset now index (Utf8.decode first) with
    | error thrown => rfl
    | ok here =>
      simp only [Except.map, chain, bind, Except.bind, ih]
      cases historyLines host sourceKey baseOffset now (index + 1) (others.map Utf8.decode) with
      | error thrown => rfl
      | ok later => simp only [pure, Except.pure, List.length_cons, Nat.add_assoc, Nat.add_comm 1]

-- The call and the measure the coordinator takes of what it consumed, in bytes; the context
-- stands for the number of lines.
def readChunk (host : Host) (sourceKey : String) (now : Nat → String) (baseOffset : Nat) (_context : Nat)
    (chunk : String) : Except String (Scan Nat CodexHistoryEvent) :=
  (parseCodexHistoryChunk host sourceKey now baseOffset chunk).map (fun parsed =>
    ⟨parsed.events, (buffer (slice chunk 0 parsed.consumedLength)).length, (lines '\n' chunk.toList).length⟩)

-- The new lines of any bytes, and the size they have when they are written back.
def rewritten (bytes : List UInt8) : Nat := (glue newline ((lines newline bytes).map (fun raw => Utf8.encode (Utf8.decode raw)))).length

theorem readChunkBytes (host : Host) (sourceKey : String) (now : Nat → String) (baseOffset context : Nat) (bytes : List UInt8) :
    readChunk host sourceKey now baseOffset context (bufferText bytes) =
      (historyLines host sourceKey baseOffset now 0 ((lines newline bytes).map Utf8.decode)).map
        (fun events => ⟨events, rewritten bytes, (lines newline bytes).length⟩) := by
  have text : (bufferText bytes).toList = Utf8.decode bytes := String.toList_ofList
  have slices := sliceConsumed (bufferText bytes)
  rw [text, linesDecoded] at slices
  unfold readChunk parseCodexHistoryChunk
  rw [text, linesDecoded]
  cases historyLines host sourceKey baseOffset now 0 ((lines newline bytes).map Utf8.decode) with
  | error thrown => rfl
  | ok events =>
    simp only [Except.map, slices, buffer, String.toList_ofList, encodeGlue, List.map_map, List.length_map]
    rfl

theorem readChunkLines (host : Host) (sourceKey : String) (now : Nat → String) (baseOffset context : Nat)
    {bytes : List UInt8} (valid : ∀ line ∈ lines newline bytes, Valid line) :
    readChunk host sourceKey now baseOffset context (bufferText bytes) =
      scan newline (lineBytes host sourceKey now baseOffset) baseOffset 0 bytes := by
  have same : (lines newline bytes).map (fun raw => Utf8.encode (Utf8.decode raw)) = lines newline bytes :=
    (List.map_congr_left fun line mem => (validIff line).mpr (valid line mem)).trans (List.map_id' _)
  rw [readChunkBytes, scan, foldLines, rewritten, same]
  cases historyLines host sourceKey baseOffset now 0 ((lines newline bytes).map Utf8.decode) with
  | error thrown => rfl
  | ok events => simp only [Except.map, consumed, Nat.zero_add]

end HarnessMem.CodexHistory
