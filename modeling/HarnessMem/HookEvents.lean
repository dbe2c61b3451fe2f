import HarnessMem.JsonLines

/-! Spool files the hooks write, one event a line and no context: Cursor's and Gemini's. -/
namespace HarnessMem
open Js Text JsonLines Regex

-- What reading a time stamp or a path takes besides: the number a numeral denotes, and
-- `path.basename`.
structure Spool extends Host where
  number : String → Number
  basename : String → String

def Number.below (bound : ℚ) : Number → Bool
  | .fin value => value < bound
  | .negInf => true
  | _ => false
def Number.finite : Number → Bool
  | .fin _ => true
  | _ => false

-- Seconds or milliseconds since the epoch, whichever the size suggests, in milliseconds.
def epochMillis (spool : Spool) (text : String) : Option Number :=
  let value := spool.number text
  if Number.finite value && value.positive then
    some (if Number.below 1000000000000 value then spool.millis text else value)
  else none

def allDigits (s : String) : Bool := s ≠ "" && s.toList.all Char.isDigit

-- `parseIsoValue` of both formats: they differ in how a number of milliseconds is printed.
def isoValue (spool : Spool) (print : Number → Except String String) : Option Json → Except String String
  | some (.num text) => match epochMillis spool text with
    | some millis => print millis
    | none => .ok ""
  | some (.str text) =>
    let trimmed := trim text
    if trimmed = "" then .ok ""
    else if allDigits trimmed then match epochMillis spool trimmed with
      | some millis => print millis
      | none => .ok ""
    else .ok (((spool.parseDate trimmed).map isoText).getD "")
  | _ => .ok ""

-- The first candidate that reads as a time; a later one is not looked at.
def firstIso (spool : Spool) (print : Number → Except String String) (now : String) :
    List (Option Json) → Except String String
  | [] => .ok now
  | value :: others => do
    let parsedIso ← isoValue spool print value
    if parsedIso ≠ "" then return parsedIso else firstIso spool print now others

-- Either the line decides the answer, or the clock does.
theorem firstIsoEither (spool : Spool) (print : Number → Except String String) (candidates : List (Option Json)) :
    (∃ answer, ∀ now, firstIso spool print now candidates = answer) ∨
      ∀ now, firstIso spool print now candidates = .ok now := by
  induction candidates with
  | nil => exact .inr fun _ => rfl
  | cons value others ih =>
    cases read : isoValue spool print value with
    | error thrown => exact .inl ⟨.error thrown, fun now => by rw [firstIso, read]; rfl⟩
    | ok parsedIso =>
      by_cases blank : parsedIso = ""
      · have skip : ∀ now, firstIso spool print now (value :: others) = firstIso spool print now others := by
          intro now
          rw [firstIso, read, blank]
          rfl
        rcases ih with ⟨answer, fixed⟩ | clock
        · exact .inl ⟨answer, fun now => (skip now).trans (fixed now)⟩
        · exact .inr fun now => (skip now).trans (clock now)
      · refine .inl ⟨.ok parsedIso, fun now => ?_⟩
        rw [firstIso, read]
        simp only [bind, Except.bind]
        rw [if_pos blank]
        rfl

namespace CursorHooks

def toISOString (millis : Number) : Except String String :=
  match toIso millis with
  | some iso => .ok iso
  | none => .error "Invalid Date"

def resolveHookEventName (spool : Spool) (parsed : List (String × Json)) : String :=
  spool.toLowerCase (firstOf [str (Json.get parsed "hook_event_name"), str (Json.get parsed "hook_event"),
    str (Json.get parsed "event_name"), str (Json.get parsed "event"),
    str (Json.get (toRecord (Json.get parsed "meta")) "hook_event")])

def resolveProject (parsed : List (String × Json)) : String :=
  firstOf ((toArray (Json.get parsed "workspace_roots")).map (fun value => str (some value)) ++
    [str (Json.get parsed "workspace_root"), str (Json.get parsed "cwd"),
      str (Json.get (toRecord (Json.get parsed "path")) "cwd"), str (Json.get parsed "project")])

-- /^\d{4}-\d{2}-\d{2}/
def startsWithDate (s : String) : Bool :=
  let digit := Re.set Char.isDigit
  test (chain [.start, Regex.times 4 digit, char '-', Regex.times 2 digit, char '-', Regex.times 2 digit]) s

def resolveSessionId (parsed : List (String × Json)) (project timestamp now : String) : String :=
  let direct := firstOf [str (Json.get parsed "conversation_id"), str (Json.get parsed "generation_id"),
    str (Json.get parsed "session_id"), str (Json.get parsed "thread_id")]
  if direct ≠ "" then direct
  else
    let dateSource := firstOf [timestamp, now]
    let datePart := if startsWithDate dateSource then slice dateSource 0 10 else slice now 0 10
    "cursor:" ++ firstOf [project, "unknown"] ++ ":" ++ datePart

def resolveTimestamp (spool : Spool) (parsed : List (String × Json)) (now : String) : Except String String :=
  let time := toRecord (Json.get parsed "time")
  firstIso spool toISOString now
    [Json.get parsed "ts", Json.get parsed "timestamp", Json.get parsed "created_at", Json.get parsed "time",
      Json.get time "iso", Json.get parsed "time_created", Json.get parsed "timeCreated", Json.get parsed "created",
      Json.get time "created", Json.get time "completed"]

def extractPrompt (spool : Spool) (parsed : List (String × Json)) : String :=
  let payload := toRecord (Json.get parsed "payload")
  let direct := firstOf [str (Json.get parsed "prompt"), str (Json.get parsed "user_prompt"),
    str (Json.get parsed "userPrompt"), str (Json.get parsed "message"), str (Json.get parsed "input"),
    str (Json.get parsed "text"), str (Json.get payload "prompt"), str (Json.get payload "message"),
    str (Json.get payload "text")]
  if direct ≠ "" then direct
  else trim ("\n\n".intercalate ((toArray (Json.get payload "messages")).filterMap (fun entry =>
    match entry with
    | .obj row =>
      let role := spool.toLowerCase (str (Json.get row "role"))
      if role ≠ "" && role ≠ "user" then none
      else some (firstOf [str (Json.get row "content"), str (Json.get row "text")]) |>.filter (fun text => text ≠ "")
    | _ => none)))

def extractAttachments (parsed : List (String × Json)) : List Json :=
  ((toArray (Json.get parsed "attachments")).filterMap (fun value =>
    match value with
    | .str text => some (trim text) |>.filter (fun text => text ≠ "")
    | .obj record =>
      some (firstOf [str (Json.get record "path"), str (Json.get record "file_path"), str (Json.get record "name")])
        |>.filter (fun path => path ≠ "")
    | _ => none)).map .str

def toNumber (spool : Spool) : Option Json → Json
  | some (.num text) => if Number.finite (spool.number text) then .num text else .null
  | _ => .null

def payloadOf (spool : Spool) (hookEventName : String) (parsed : List (String × Json)) :
    Option (String × List (String × Json)) :=
  if hookEventName = "beforesubmitprompt" then
    let prompt := extractPrompt spool parsed
    if prompt = "" then none
    else some ("user_prompt", [("source_type", .str "cursor_hook"), ("hook_event_name", .str "beforeSubmitPrompt"),
      ("title", .str "Cursor prompt"), ("prompt", .str prompt), ("content", .str prompt),
      ("attachments", .arr (extractAttachments parsed))])
  else if hookEventName = "aftermcpexecution" then
    let toolName := firstOf [str (Json.get parsed "tool_name"),
      str (Json.get (toRecord (Json.get parsed "payload")) "tool_name"), "mcp_tool"]
    some ("tool_use", [("source_type", .str "cursor_hook"), ("hook_event_name", .str "afterMCPExecution"),
      ("title", .str ("MCP: " ++ toolName)), ("content", .str ("MCP tool executed: " ++ toolName)),
      ("tool_name", .str toolName), ("tool_input", .obj (toRecord (Json.get parsed "tool_input"))),
      ("tool_response", .obj (toRecord (Json.get parsed "result_json")))])
  else if hookEventName = "aftershellexecution" then
    let command := str (Json.get parsed "command")
    let summary := if command ≠ "" then slice command 0 160 else "shell command"
    some ("tool_use", [("source_type", .str "cursor_hook"), ("hook_event_name", .str "afterShellExecution"),
      ("title", .str ("Shell: " ++ summary)), ("content", .str (firstOf [command, "Shell command executed"])),
      ("command", .str command), ("output", .str (str (Json.get parsed "output"))),
      ("exit_code", toNumber spool (Json.get parsed "exit_code"))])
  else if hookEventName = "afterfileedit" then
    let filePath := str (Json.get parsed "file_path")
    let shortName := if filePath ≠ "" then spool.basename filePath else "file"
    some ("tool_use", [("source_type", .str "cursor_hook"), ("hook_event_name", .str "afterFileEdit"),
      ("title", .str ("Edit: " ++ shortName)),
      ("content", .str (if filePath ≠ "" then "Edited " ++ filePath else "File edit event")),
      ("file_path", .str filePath), ("edits", .arr (toArray (Json.get parsed "edits")))])
  else if hookEventName = "stop" then
    let status := firstOf [str (Json.get parsed "status"), "completed"]
    some ("session_end", [("source_type", .str "cursor_hook"), ("hook_event_name", .str "stop"),
      ("title", .str "Cursor session end"), ("content", .str ("Cursor session ended (" ++ status ++ ")")),
      ("status", .str status)])
  else none

def hashOf (spool : Spool) (sourceKey : String) (lineOffset : Nat) (rawLine : String) : String :=
  spool.sha256 (sourceKey ++ ":" ++ toString lineOffset ++ ":" ++ rawLine)

def handle (spool : Spool) (sourceKey : String) (now : Nat → String) : Handler Unit :=
  fun _ lineOffset rawLine parsed =>
    let hookEventName := resolveHookEventName spool parsed
    if hookEventName = "" then .ok ((), [])
    else (resolveTimestamp spool parsed (now lineOffset)).map (fun timestamp =>
      let project := firstOf [resolveProject parsed, "unknown"]
      let sessionId := resolveSessionId parsed project timestamp (now lineOffset)
      match payloadOf spool hookEventName parsed with
      | none => ((), [])
      | some (eventType, payload) => ((), [⟨lineOffset, rawLine, parsed, eventType, sessionId, project, timestamp, payload,
          hashOf spool sourceKey lineOffset rawLine⟩]))

def parseCursorHooksChunk (spool : Spool) (sourceKey : String) (now : Nat → String) (baseOffset : Nat)
    (chunk : String) : Except String (LineStream.Scan Unit IngestEvent) :=
  parseChunk spool.toHost (handle spool sourceKey now) baseOffset () chunk

theorem firstOfPair (s t : String) : firstOf [s, t] = if s = "" then t else s := by
  by_cases blank : s = ""
  · by_cases empty : t = ""
    · subst blank empty
      decide
    · simp [firstOf, blank, empty]
  · simp [firstOf, blank]

-- Of the clock the session takes at most the date.
theorem sessionSameDay (parsed : List (String × Json)) (project timestamp : String) {now other : String}
    (day : slice other 0 10 = slice now 0 10) :
    resolveSessionId parsed project timestamp other = resolveSessionId parsed project timestamp now := by
  unfold resolveSessionId
  simp only [firstOfPair timestamp]
  by_cases blank : timestamp = ""
  · simp only [if_pos blank, ite_self, day]
  · simp only [if_neg blank, day]

theorem sessionClock (parsed : List (String × Json)) (project : String) {now other : String}
    (day : slice other 0 10 = slice now 0 10) :
    resolveSessionId parsed project other other = resolveSessionId parsed project now now := by
  unfold resolveSessionId
  simp only [firstOfPair, ite_self, day]

theorem handleTimeless (spool : Spool) (sourceKey : String) {now other : Nat → String} (context : Unit) (offset : Nat)
    (rawLine : String) (parsed : List (String × Json)) (day : slice (other offset) 0 10 = slice (now offset) 0 10) :
    LineStream.through timeless (handle spool sourceKey other context offset rawLine parsed) =
      LineStream.through timeless (handle spool sourceKey now context offset rawLine parsed) := by
  unfold handle
  simp only
  split
  · rfl
  · unfold resolveTimestamp
    rcases firstIsoEither spool toISOString _ with ⟨answer, fixed⟩ | clock
    · rw [fixed, fixed]
      cases answer with
      | error thrown => rfl
      | ok timestamp =>
        simp only [Except.map, sessionSameDay parsed _ timestamp day]
    · rw [clock, clock]
      simp only [Except.map, LineStream.through, sessionClock parsed _ day]
      split <;> rfl

end CursorHooks

namespace GeminiEvents

def maxTimestampMs : ℚ := 32503680000000

def safeToISOString (millis : Number) : Except String String :=
  if Number.below 0 millis || millis.exceeds maxTimestampMs then .ok ""
  else .ok ((toIso millis).getD "")

def resolveTimestamp (spool : Spool) (parsed : List (String × Json)) (now : String) : Except String String :=
  firstIso spool safeToISOString now
    [Json.get parsed "ts", Json.get parsed "timestamp", Json.get parsed "created_at", Json.get parsed "time"]

-- A value JavaScript takes for false: the payload then gets the default source type.
def falsy : Option Json → Bool
  | none | some .null | some (.bool false) | some (.num "0") | some (.str "") => true
  | _ => false

def withSourceType (payload : List (String × Json)) : List (String × Json) :=
  if falsy (Json.get payload "source_type") then Json.put payload "source_type" (.str "gemini_hook") else payload

def handle (spool : Spool) (sourceKey : String) (now : Nat → String) : Handler Unit :=
  fun _ lineOffset rawLine parsed =>
    let eventType := str (Json.get parsed "event_type")
    if eventType = "" then .ok ((), [])
    else (resolveTimestamp spool parsed (now lineOffset)).map (fun timestamp =>
      ((), [⟨lineOffset, rawLine, parsed, eventType, firstOf [str (Json.get parsed "session_id"), "gemini:unknown"],
        firstOf [str (Json.get parsed "project"), "unknown"], timestamp,
        withSourceType (toRecord (Json.get parsed "payload")), CursorHooks.hashOf spool sourceKey lineOffset rawLine⟩]))

def parseGeminiEventsChunk (spool : Spool) (sourceKey : String) (now : Nat → String) (baseOffset : Nat)
    (chunk : String) : Except String (LineStream.Scan Unit IngestEvent) :=
  parseChunk spool.toHost (handle spool sourceKey now) baseOffset () chunk

theorem handleTimeless (spool : Spool) (sourceKey : String) (now other : Nat → String) (context : Unit) (offset : Nat)
    (rawLine : String) (parsed : List (String × Json)) :
    LineStream.through timeless (handle spool sourceKey other context offset rawLine parsed) =
      LineStream.through timeless (handle spool sourceKey now context offset rawLine parsed) := by
  unfold handle
  simp only
  split
  · rfl
  · unfold resolveTimestamp
    rcases firstIsoEither spool safeToISOString _ with ⟨answer, fixed⟩ | clock
    · rw [fixed, fixed]
    · rw [clock, clock]
      rfl

end GeminiEvents

-- A spool whose every line is a stop event without a session or a time of its own.
def stopSpool : Spool where
  sha256 := id
  toLowerCase := String.toLower
  parseJson := fun _ => some (.obj [("event", .str "stop")])
  parseDate := fun _ => none
  millis := fun _ => .nan
  tokenize := fun _ => []
  similar := fun _ _ => false
  number := fun _ => .nan
  basename := id

end HarnessMem
