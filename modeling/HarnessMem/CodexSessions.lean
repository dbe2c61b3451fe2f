import HarnessMem.ClaudeCodeSessions

/-! Codex rollout files. A compacted line stands for several events, of which only those past
the last known text are new. -/
namespace HarnessMem.CodexSessions
open Js Text JsonLines

-- The time stamp, the same for all events of a line, is the line's and is put in by `handle`.
structure NormalizedCodexEvent where
  eventType : String
  sessionId : String
  project : String
  payload : List (String × Json)
  dedupeSuffix : Option String

-- One line being normalized: the object, its payload, and the call's parameters.
structure Line where
  parsed : List (String × Json)
  payload : List (String × Json)
  source : Source

def resolveSessionId (line : Line) (context : SessionContext) : String :=
  firstOf [trim context.sessionId, str (Json.get line.payload "session_id"), str (Json.get line.parsed "session_id"),
    str (Json.get line.payload "thread_id"), str (Json.get line.parsed "thread_id"),
    trim line.source.defaultSessionId, "codex-rollout"]

def normalizeProjectFromCwd (value : Option Json) : String := str value

def resolveProject (line : Line) (context : SessionContext) : String :=
  firstOf [trim context.project, normalizeProjectFromCwd (Json.get line.payload "cwd"),
    normalizeProjectFromCwd (Json.get line.parsed "cwd"), str (Json.get line.payload "project"),
    str (Json.get line.parsed "project"), trim line.source.defaultProject, "unknown"]

def resolveTimestamp (parsed : List (String × Json)) (now : String) : String :=
  firstOf [str (Json.get parsed "timestamp"), str (Json.get parsed "ts"), now]

def extractMessageText (content : Option Json) (allowedTypes : List String) : String := textBlocks allowedTypes content

def userTypes : List String := ["input_text", "text"]
def assistantTypes : List String := ["output_text", "text", "input_text"]

def event (line : Line) (context : SessionContext) (eventType : String) (payload : List (String × Json))
    (dedupeSuffix : Option String) : NormalizedCodexEvent :=
  ⟨eventType, resolveSessionId line context, resolveProject line context, payload, dedupeSuffix⟩

def createAssistantCheckpoint (line : Line) (context : SessionContext)
    (sourceType assistantContent title : String) (eventSubtype : Option String) : NormalizedCodexEvent :=
  event line context "checkpoint"
    [("source_type", .str sourceType), ("role", .str "assistant"), ("type", .str (eventSubtype.getD "assistant_message")),
      ("title", .str title), ("content", .str assistantContent), ("last_agent_message", .str assistantContent),
      ("prompt", .str (trim context.lastUserPrompt)), ("turn_id", .str (str (Json.get line.payload "turn_id")))] none

def normalizeEvent (line : Line) (context : SessionContext) : Option NormalizedCodexEvent :=
  let type := str (Json.get line.parsed "type")
  let payloadType := str (Json.get line.payload "type")
  let known := fun content : String => content = "" || content = trim context.lastAssistantContent
  if type = "response_item" then
    let role := str (Json.get line.payload "role")
    if payloadType ≠ "message" then none
    else if role = "user" then
      let prompt := extractMessageText (Json.get line.payload "content") userTypes
      if prompt = "" then none
      else some (event line context "user_prompt"
        [("source_type", .str "response_item"), ("role", .str "user"), ("prompt", .str prompt), ("content", .str prompt)] none)
    else if role ≠ "assistant" then none
    else
      let assistantContent := extractMessageText (Json.get line.payload "content") assistantTypes
      if known assistantContent then none
      else some (createAssistantCheckpoint line context "response_item" assistantContent "assistant_response" none)
  else if type = "event_msg" then
    if payloadType = "agent_message" then
      let assistantContent := firstOf [str (Json.get line.payload "message"), str (Json.get line.payload "text")]
      if known assistantContent then none
      else some (createAssistantCheckpoint line context "event_msg" assistantContent "assistant_response" (some "agent_message"))
    else if payloadType ≠ "task_complete" then none
    else
      let lastAgentMessage := str (Json.get line.payload "last_agent_message")
      if known lastAgentMessage then none
      else some (event line context "checkpoint"
        [("source_type", .str "event_msg"), ("role", .str "assistant"), ("type", .str "task_complete"),
          ("title", .str "task_complete"), ("content", .str lastAgentMessage), ("last_agent_message", .str lastAgentMessage),
          ("prompt", .str (trim context.lastUserPrompt)), ("turn_id", .str (str (Json.get line.payload "turn_id")))] none)
  else none

-- The messages of a replacement history, from the given index on; the context is the loop's own.
def recover (line : Line) : Nat → SessionContext → List Json → List NormalizedCodexEvent
  | _, _, [] => []
  | index, context, item :: others =>
    let replacement := toRecord (some item)
    let role := str (Json.get replacement "role")
    if str (Json.get replacement "type") ≠ "message" then recover line (index + 1) context others
    else if role = "user" then
      let prompt := extractMessageText (Json.get replacement "content") userTypes
      if prompt = "" then recover line (index + 1) context others
      else event line context "user_prompt"
          [("source_type", .str "compacted"), ("role", .str "user"), ("prompt", .str prompt), ("content", .str prompt)]
          (some ("compacted-user-" ++ toString index)) ::
        recover line (index + 1) {context with lastUserPrompt := prompt} others
    else if role ≠ "assistant" then recover line (index + 1) context others
    else
      let assistantContent := extractMessageText (Json.get replacement "content") assistantTypes
      if assistantContent = "" then recover line (index + 1) context others
      else event line context "checkpoint"
          [("source_type", .str "compacted"), ("role", .str "assistant"), ("type", .str "assistant_message"),
            ("title", .str "assistant_response"), ("content", .str assistantContent),
            ("last_agent_message", .str assistantContent), ("prompt", .str (trim context.lastUserPrompt)), ("turn_id", .str "")]
          (some ("compacted-assistant-" ++ toString index)) ::
        recover line (index + 1) {context with lastAssistantContent := assistantContent} others

def contentOf (payload : List (String × Json)) : String := str (Json.get payload "content")
def promptOf (payload : List (String × Json)) : String := firstOf [str (Json.get payload "prompt"), contentOf payload]

-- An event that repeats the last known text of its kind.
def knownText (context : SessionContext) (eventType : String) (payload : List (String × Json)) : Bool :=
  let lastUserPrompt := trim context.lastUserPrompt
  let lastAssistantContent := trim context.lastAssistantContent
  (eventType = "checkpoint" && lastAssistantContent ≠ "" && contentOf payload = lastAssistantContent) ||
    (eventType = "user_prompt" && lastUserPrompt ≠ "" && promptOf payload = lastUserPrompt)

-- What follows the last recovered event that is known already.
def unseen (context : SessionContext) (recovered : List NormalizedCodexEvent) : List NormalizedCodexEvent :=
  (recovered.reverse.takeWhile (fun item => !knownText context item.eventType item.payload)).reverse

def normalizeCompactedEvents (line : Line) (context : SessionContext) : List NormalizedCodexEvent :=
  unseen context (recover line 0 context.normal (toArray (Json.get line.payload "replacement_history")))

def normalizeEvents (line : Line) (context : SessionContext) : List NormalizedCodexEvent :=
  if str (Json.get line.parsed "type") = "compacted" then normalizeCompactedEvents line context
  else (normalizeEvent line context).toList

-- What an event leaves in the context.
def remember (context : SessionContext) (eventType : String) (payload : List (String × Json)) : SessionContext :=
  if eventType = "user_prompt" then {context with lastUserPrompt := firstOf [promptOf payload, context.lastUserPrompt]}
  else if eventType = "checkpoint" then
    {context with lastAssistantContent := firstOf [contentOf payload, context.lastAssistantContent]}
  else context

def hashOf (host : Host) (source : Source) (lineOffset : Nat) (rawLine : String) (suffix : Option String) : String :=
  let place := source.sourceKey ++ ":" ++ toString lineOffset ++ ":"
  host.sha256 (match suffix with
    | some suffix => place ++ suffix ++ ":" ++ rawLine
    | none => place ++ rawLine)

def ingested (host : Host) (source : Source) (now : Nat → String) (lineOffset : Nat) (rawLine : String)
    (parsed : List (String × Json)) (normalized : NormalizedCodexEvent) : IngestEvent :=
  ⟨lineOffset, rawLine, parsed, normalized.eventType, normalized.sessionId, normalized.project,
    resolveTimestamp parsed (now lineOffset), normalized.payload,
    hashOf host source lineOffset rawLine normalized.dedupeSuffix⟩

def metaContext (context : SessionContext) (payload : List (String × Json)) : SessionContext :=
  {context with
    sessionId := firstOf [str (Json.get payload "id"), context.sessionId]
    project := firstOf [normalizeProjectFromCwd (Json.get payload "cwd"), context.project]}

def handled (host : Host) (source : Source) (now : Nat → String) (context : SessionContext) (lineOffset : Nat)
    (rawLine : String) (parsed : List (String × Json)) : SessionContext × List IngestEvent :=
  let payload := toRecord (Json.get parsed "payload")
  if str (Json.get parsed "type") = "session_meta" then (metaContext context payload, [])
  else
    let normalizedEvents := normalizeEvents ⟨parsed, payload, source⟩ context
    (normalizedEvents.foldl (fun context normalized => remember context normalized.eventType normalized.payload) context,
      normalizedEvents.map (ingested host source now lineOffset rawLine parsed))

def handle (host : Host) (source : Source) (now : Nat → String) : Handler SessionContext :=
  fun context lineOffset rawLine parsed => .ok (handled host source now context lineOffset rawLine parsed)

def parseCodexSessionsChunk (host : Host) (source : Source) (now : Nat → String) (baseOffset : Nat)
    (context : SessionContext) (chunk : String) : Except String (LineStream.Scan SessionContext IngestEvent) :=
  parseChunk host (handle host source now) baseOffset context.normal chunk

theorem rememberSettled {context : SessionContext} (settled : context.Settled) (eventType : String)
    (payload : List (String × Json)) : (remember context eventType payload).Settled := by
  obtain ⟨session, project, prompt, content⟩ := SessionContext.settledIff.mp settled
  have contentTrimmed : Trimmed (contentOf payload) := strTrimmed _
  have promptTrimmed : Trimmed (promptOf payload) := firstOfTrimmed (by simp [strTrimmed, contentTrimmed])
  unfold remember
  split
  · exact SessionContext.settledIff.mpr
      ⟨session, project, firstOfTrimmed (by simp [promptTrimmed, prompt]), content⟩
  split
  · exact SessionContext.settledIff.mpr
      ⟨session, project, prompt, firstOfTrimmed (by simp [contentTrimmed, content])⟩
  · exact settled

theorem handledSettled {context : SessionContext} (settled : context.Settled) (host : Host) (source : Source)
    (now : Nat → String) (offset : Nat) (rawLine : String) (parsed : List (String × Json)) :
    (handled host source now context offset rawLine parsed).1.Settled := by
  unfold handled
  simp only
  split
  · obtain ⟨session, project, prompt, content⟩ := SessionContext.settledIff.mp settled
    have cwdTrimmed : Trimmed (normalizeProjectFromCwd (Json.get (toRecord (Json.get parsed "payload")) "cwd")) := strTrimmed _
    exact SessionContext.settledIff.mpr ⟨firstOfTrimmed (by simp [strTrimmed, session]),
      firstOfTrimmed (by simp [cwdTrimmed, project]), prompt, content⟩
  · exact List.foldlRecOn _ _ settled (fun context settled normalized _ => rememberSettled settled _ _)

theorem handleSettled {host : Host} {source : Source} {now : Nat → String} {context next : SessionContext} {offset : Nat}
    {rawLine : String} {parsed : List (String × Json)} {events : List IngestEvent} (settled : context.Settled)
    (ok : handle host source now context offset rawLine parsed = .ok (next, events)) : next.Settled := by
  have same : (handled host source now context offset rawLine parsed).1 = next :=
    congrArg Prod.fst (Except.ok.inj ok)
  exact same ▸ handledSettled settled host source now offset rawLine parsed

theorem handleTimeless (host : Host) (source : Source) (now other : Nat → String) (context : SessionContext) (offset : Nat)
    (rawLine : String) (parsed : List (String × Json)) :
    LineStream.through timeless (handle host source other context offset rawLine parsed) =
      LineStream.through timeless (handle host source now context offset rawLine parsed) := by
  unfold handle handled
  simp only
  split
  · rfl
  · simp only [LineStream.through, Except.map, List.map_map]
    rfl

end HarnessMem.CodexSessions
