import HarnessMem.JsonLines

/-! Session logs with a context carried from line to line: Claude Code's and Codex's. -/
namespace HarnessMem
open Js Text JsonLines Regex

-- A field the source leaves undefined is empty here: every reader treats the two alike.
structure SessionContext where
  sessionId : String
  project : String
  lastUserPrompt : String
  lastAssistantContent : String
  deriving DecidableEq, Repr

def SessionContext.none : SessionContext := ⟨"", "", "", ""⟩
-- What the parsers do to the context they are handed.
def SessionContext.normal (c : SessionContext) : SessionContext :=
  ⟨trim c.sessionId, trim c.project, trim c.lastUserPrompt, trim c.lastAssistantContent⟩

-- Storing a context, over the one kept so far: an empty one is not stored, a long text is cut.
def storeContext (kept context : SessionContext) : SessionContext :=
  let stored : SessionContext := ⟨trim context.sessionId, trim context.project,
    slice (trim context.lastUserPrompt) 0 4000, slice (trim context.lastAssistantContent) 0 4000⟩
  if stored = SessionContext.none then kept else stored

def SessionContext.Settled (c : SessionContext) : Prop := c.normal = c

theorem SessionContext.normalIdem (c : SessionContext) : c.normal.normal = c.normal := by
  simp only [SessionContext.normal, trimIdem]

theorem SessionContext.settledIff {c : SessionContext} : c.Settled ↔
    Trimmed c.sessionId ∧ Trimmed c.project ∧ Trimmed c.lastUserPrompt ∧ Trimmed c.lastAssistantContent := by
  cases c
  simp only [SessionContext.Settled, SessionContext.normal, SessionContext.mk.injEq, Trimmed]

-- The parameters of one call to a parser that stay the same from call to call.
structure Source where
  sourceKey : String
  defaultSessionId : String
  defaultProject : String

namespace ClaudeCodeSessions

def ignoredVisiblePromptPatterns : List Re :=
  [chain [wordI "# AGENTS.md instructions", .boundary], wordI "<skill>", wordI "<turn_aborted>",
    wordI "Base directory for this skill:", wordI "<command-message>", wordI "<command-name>",
    wordI "<command-args>", wordI "<local-command-caveat>",
    chain [wordI "<local-command-", oneOf [wordI "stdout", wordI "stderr"], char '>'],
    wordI "This session is being continued from a previous conversation that ran out of context."]

def isIgnoredVisiblePromptText (text : String) : Bool :=
  let normalized := trim text
  normalized = "" || ignoredVisiblePromptPatterns.any (fun pattern => test (.seq .start pattern) normalized)

-- Tool results are skipped along with every block that is not text; so are thinking blocks.
def extractUserText (content : Option Json) : String := textBlocks ["text"] content
def extractAssistantText (content : Option Json) : String := textBlocks ["text"] content

-- What one line says: the context after it, the event's type and payload, and what is hashed
-- after the source and the offset.
structure Said where
  context : SessionContext
  eventType : String
  payload : List (String × Json)
  hashed : String

def userSaid (context : SessionContext) (rawLine : String) (message : List (String × Json)) : Option Said :=
  let content := extractUserText (Json.get message "content")
  if content = "" then none
  else if isIgnoredVisiblePromptText content then none
  else some ⟨{context with lastUserPrompt := content}, "user_prompt",
    [("source_type", .str "claude_code_user"), ("role", .str "user"), ("prompt", .str content), ("content", .str content)],
    rawLine⟩

def assistantSaid (context : SessionContext) (rawLine : String) (message : List (String × Json)) : Option Said :=
  let assistantText := extractAssistantText (Json.get message "content")
  if assistantText = "" then none
  else if assistantText = context.lastAssistantContent then none
  else some ⟨{context with lastAssistantContent := assistantText}, "checkpoint",
    [("source_type", .str "claude_code_assistant"), ("role", .str "assistant"), ("type", .str "assistant_message"),
      ("title", .str "assistant_response"), ("content", .str assistantText), ("last_agent_message", .str assistantText),
      ("prompt", .str context.lastUserPrompt), ("model", .str (str (Json.get message "model")))],
    rawLine⟩

def summarySaid (context : SessionContext) (parsed : List (String × Json)) : Option Said :=
  let summaryText := str (Json.get parsed "summary")
  if summaryText = "" then none
  else some ⟨context, "checkpoint",
    [("source_type", .str "claude_code_summary"), ("role", .str "system"), ("type", .str "session_summary"),
      ("title", .str "session_summary"), ("content", .str summaryText)],
    "summary:" ++ summaryText⟩

def prLinkSaid (context : SessionContext) (parsed : List (String × Json)) : Option Said :=
  let prUrl := str (Json.get parsed "prUrl")
  let prNumber := match Json.get parsed "prNumber" with | some (.num text) => text | _ => "0"
  if prUrl = "" then none
  else some ⟨context, "checkpoint",
    [("source_type", .str "claude_code_pr_link"), ("role", .str "system"), ("type", .str "pr_link"),
      ("title", .str ("PR #" ++ prNumber)), ("content", .str ("PR #" ++ prNumber ++ ": " ++ prUrl)),
      ("pr_url", .str prUrl), ("pr_number", .num prNumber), ("pr_repository", .str (str (Json.get parsed "prRepository")))],
    "pr-link:" ++ prUrl⟩

def said (context : SessionContext) (rawLine : String) (parsed : List (String × Json)) : Option Said :=
  let type := str (Json.get parsed "type")
  let message := toRecord (Json.get parsed "message")
  if type = "user" then userSaid context rawLine message
  else if type = "assistant" then assistantSaid context rawLine message
  else if type = "summary" then summarySaid context parsed
  else if type = "pr-link" then prLinkSaid context parsed
  else none

-- The session and the working directory a line names hold from that line on.
def located (context : SessionContext) (parsed : List (String × Json)) : SessionContext :=
  {context with
    sessionId := firstOf [str (Json.get parsed "sessionId"), context.sessionId]
    project := firstOf [str (Json.get parsed "cwd"), context.project]}

def handle (host : Host) (source : Source) (now : Nat → String) : Handler SessionContext :=
  fun context lineOffset rawLine parsed =>
    let context := located context parsed
    match said context rawLine parsed with
    | none => .ok (context, [])
    | some said => .ok (said.context, [
      { lineOffset, line := rawLine, parsed, eventType := said.eventType
        sessionId := firstOf [context.sessionId, trim source.defaultSessionId, "claude-code-unknown"]
        project := firstOf [context.project, trim source.defaultProject, "unknown"]
        timestamp := firstOf [str (Json.get parsed "timestamp"), now lineOffset]
        payload := said.payload
        dedupeHash := host.sha256 (source.sourceKey ++ ":" ++ toString lineOffset ++ ":" ++ said.hashed) }])

def parseClaudeCodeChunk (host : Host) (source : Source) (now : Nat → String) (baseOffset : Nat)
    (context : SessionContext) (chunk : String) : Except String (LineStream.Scan SessionContext IngestEvent) :=
  parseChunk host (handle host source now) baseOffset context.normal chunk

theorem saidSettled {context : SessionContext} {rawLine : String} {parsed : List (String × Json)} {entry : Said}
    (settled : context.Settled) (found : said context rawLine parsed = some entry) : entry.context.Settled := by
  obtain ⟨session, project, prompt, content⟩ := SessionContext.settledIff.mp settled
  unfold said at found
  simp only at found
  split at found
  · unfold userSaid at found
    simp only at found
    split at found
    · cases found
    split at found
    · cases found
    · cases found
      exact SessionContext.settledIff.mpr ⟨session, project, textBlocksTrimmed _ _, content⟩
  split at found
  · unfold assistantSaid at found
    simp only at found
    split at found
    · cases found
    split at found
    · cases found
    · cases found
      exact SessionContext.settledIff.mpr ⟨session, project, prompt, textBlocksTrimmed _ _⟩
  split at found
  · unfold summarySaid at found
    simp only at found
    split at found <;> cases found
    exact settled
  split at found
  · unfold prLinkSaid at found
    simp only at found
    split at found <;> cases found
    exact settled
  · cases found

theorem handleSettled {host : Host} {source : Source} {now : Nat → String} {context next : SessionContext} {offset : Nat}
    {rawLine : String} {parsed : List (String × Json)} {events : List IngestEvent} (settled : context.Settled)
    (ok : handle host source now context offset rawLine parsed = .ok (next, events)) : next.Settled := by
  obtain ⟨session, project, prompt, content⟩ := SessionContext.settledIff.mp settled
  have here : (located context parsed).Settled := SessionContext.settledIff.mpr
    ⟨firstOfTrimmed (by simp [strTrimmed, session]), firstOfTrimmed (by simp [strTrimmed, project]), prompt, content⟩
  unfold handle at ok
  simp only at ok
  split at ok
  · cases ok
    exact here
  · rename_i entry found
    cases ok
    exact saidSettled here found

theorem handleTimeless (host : Host) (source : Source) (now other : Nat → String) (context : SessionContext) (offset : Nat)
    (rawLine : String) (parsed : List (String × Json)) :
    LineStream.through timeless (handle host source other context offset rawLine parsed) =
      LineStream.through timeless (handle host source now context offset rawLine parsed) := by
  unfold handle
  simp only
  split <;> rfl

end ClaudeCodeSessions
end HarnessMem
