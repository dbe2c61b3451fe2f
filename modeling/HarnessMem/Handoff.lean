import HarnessMem.Provenance
import HarnessMem.Visibility

/-! The structured handoff of a session: what a finalize reads off its first observations, and the
text it renders from that. -/
namespace HarnessMem.Handoff
open Js Regex Text Recorder Visibility

structure SessionSummaryRow where
  title : Option String
  contentRedacted : String
  createdAt : String
  eventType : Option String
  tagsJson : String

structure LatestExchange where
  user : Option String
  assistant : Option String
  incomplete : Bool

structure SessionHandoff where
  overview : String
  decisions : List String
  openLoops : List String
  nextActions : List String
  risks : List String
  keyPoints : List String
  latestExchange : LatestExchange
  observationCount : Nat

def wordsI (choices : List String) : Re := oneOf (choices.map wordI)
-- /\b(english)\b|(others)/i
def hint (english others : List String) : Re :=
  .alt (chain [.boundary, wordsI english, .boundary]) (wordsI others)

def decisionHint : Re := hint
  ["decided", "decision", "chose", "choose", "picked", "adopted", "switched", "implemented", "fixed", "completed"]
  ["決定", "方針", "採用", "選択", "切り替え", "実装完了", "修正した", "完了"]
def openLoopHint : Re := hint
  ["pending", "need to", "needs to", "investigate", "follow up", "unknown", "unresolved", "confirm", "check"]
  ["保留", "未完", "未解決", "要確認", "確認する", "調査する", "検討する"]
def nextActionHint : Re := hint
  ["next step", "next action", "todo", "follow up", "continue", "remaining", "plan to"]
  ["次対応", "次の対応", "次アクション", "次の一手", "TODO", "続き", "今後やる", "残件"]
def riskHint : Re := hint
  ["risk", "blocker", "blocked", "issue", "problem", "concern", "regression"]
  ["リスク", "懸念", "課題", "問題", "ブロッカー", "詰まり", "後退"]
def scopeGuard : Re := hint
  ["out of scope", "not the main thread", "not the focus", "do not mix", "avoid mixing"]
  ["本筋ではない", "スコープ外", "混ぜない", "対象外"]

def ignoredVisiblePrompt : Re := chain [.start, oneOf [
  .seq (wordI "# AGENTS.md instructions") .boundary, wordI "<skill>", wordI "<turn_aborted>",
  wordI "Base directory for this skill:", wordI "<command-message>", wordI "<command-name>",
  wordI "<command-args>", wordI "<local-command-caveat>",
  chain [wordI "<local-command-", wordsI ["stdout", "stderr"], char '>'],
  wordI "This session is being continued from a previous conversation that ran out of context."]]
def ignoredVisibleResponse : Re := chain [.start, wordI "No response requested", opt (char '.'), .stop]

def isIgnoredVisiblePromptText (text : String) : Bool := trim text = "" || test ignoredVisiblePrompt (trim text)
def isIgnoredVisibleResponseText (text : String) : Bool := trim text = "" || test ignoredVisibleResponse (trim text)
def hasIgnoredVisibleTag (tags : List String) : Bool := tags.any (fun tag => trim tag = "visibility_suppressed")
def buildVisibleInteractionText (title content : String) : String := trim (title ++ "\n" ++ content)

def summarizeLine (text : String) (maxLength : Nat) : String :=
  if text = "" then "" else slice (trim (replaceAll (plus space) " " text)) 0 maxLength
def pushUniqueLine (target : List String) (value : String) (maxItems : Nat) : List String :=
  if value = "" ∨ value ∈ target ∨ maxItems ≤ target.length then target else target ++ [value]

-- The first of the three that is a text with more than white space in it.
def unwrapStructuredObservationText (host : Host) (raw : String) : String :=
  let trimmed := trim raw
  if trimmed.startsWith "\x7b" && trimmed.endsWith "\x7d" then
    match host.parseJson trimmed with
    | some (.obj parsed) =>
      ((["content", "prompt", "title"].filterMap (fun key => Json.text? (Json.get parsed key))).find?
        (fun text => trim text ≠ "")).getD raw
    | _ => raw
  else raw

def isStructuredHandoffNoiseRow (host : Host) (eventType title : String) : Bool :=
  ["session_start", "session_end"].contains (host.toLowerCase (trim eventType)) ||
    ["session_start", "session_end", "continuity_handoff"].contains (host.toLowerCase (trim title))

inductive ExplicitSectionKey where | problems | decisions | openLoops | nextActions | risks
  deriving DecidableEq, Repr

structure ExplicitHandoffSections where
  problems : List String
  decisions : List String
  openLoops : List String
  nextActions : List String
  risks : List String

def ExplicitHandoffSections.any (s : ExplicitHandoffSections) : Bool :=
  !(s.problems.isEmpty && s.decisions.isEmpty && s.openLoops.isEmpty && s.nextActions.isEmpty && s.risks.isEmpty)

def ExplicitHandoffSections.push (s : ExplicitHandoffSections) (key : ExplicitSectionKey) (value : String)
    (maxItems : Nat) : ExplicitHandoffSections :=
  match key with
  | .problems => {s with problems := pushUniqueLine s.problems value maxItems}
  | .decisions => {s with decisions := pushUniqueLine s.decisions value maxItems}
  | .openLoops => {s with openLoops := pushUniqueLine s.openLoops value maxItems}
  | .nextActions => {s with nextActions := pushUniqueLine s.nextActions value maxItems}
  | .risks => {s with risks := pushUniqueLine s.risks value maxItems}

def digit : Re := .set Char.isDigit
def bullet : Re := .set (inSet "-*+")

-- /^(?:[-*+]|(?:\d+\.))\s*/
def normalizeBulletContent (line : String) (maxLength : Nat) : String :=
  let marker := chain [.start, .alt bullet (.seq (plus digit) (char '.')), star space]
  slice (trim (replaceAll (plus space) " " (replaceFirst marker "" line))) 0 maxLength

def isPlaceholderSectionLine (line : String) : Bool :=
  test (chain [.start, oneOf [wordI "no ", wordI "not captured", .seq (wordI "none") .boundary,
    .seq (word "なし") .boundary, .seq (word "未記載") .boundary, .seq (word "未設定") .boundary]]) line

-- The name may be followed by more of the line: the first alternative that matches is taken.
def sectionPattern (names : List Re) : Re :=
  let lead := opt (.alt (.seq bullet (star space)) (chain [plus digit, .set (inSet ".)"), star space]))
  chain [.start, opt (.seq (plus (char '#')) (star space)), lead, oneOf names, star space,
    opt (.set (inSet ":：")), star space, .group 1 (star HarnessMem.Provenance.line), .stop]

def sectionMatchers : List (ExplicitSectionKey × Re) :=
  [(.problems, sectionPattern (["problem", "problems", "issue", "issues", "問題", "課題"].map wordI)),
    (.decisions, sectionPattern (["decision", "decisions", "決定", "方針"].map wordI)),
    (.openLoops, sectionPattern ([.seq (wordI "open loop") (opt (wordI "s")), .seq (wordI "open question") (opt (wordI "s"))] ++
      ["unresolved", "pending", "保留", "未解決", "確認事項"].map wordI)),
    (.nextActions, sectionPattern ([.seq (wordI "next action") (opt (wordI "s")), .seq (wordI "next step") (opt (wordI "s"))] ++
      ["next step", "next action", "todo", "todos", "次アクション", "次の対応", "次対応", "次にやるべきこと", "残件"].map wordI)),
    (.risks, sectionPattern (["risk", "risks", "懸念", "リスク"].map wordI))]

def classifyExplicitSection (line : String) : Option (ExplicitSectionKey × String) :=
  sectionMatchers.findSome? (fun (key, pattern) => (exec pattern (trim line)).map (fun found =>
    (key, normalizeBulletContent ((capture 1 found.2).getD "") 220)))

def readLine (maxItems : Nat) (read : Option ExplicitSectionKey × ExplicitHandoffSections) (rawLine : String) :
    Option ExplicitSectionKey × ExplicitHandoffSections :=
  let trimmed := trim rawLine
  if trimmed = "" then read
  else match classifyExplicitSection trimmed with
    | some (key, value) =>
      (some key, if value = "" ∨ isPlaceholderSectionLine value then read.2 else read.2.push key value maxItems)
    | none =>
      match read.1 with
      | none => read
      | some key =>
        let normalized := normalizeBulletContent trimmed 220
        if normalized = "" ∨ isPlaceholderSectionLine normalized then read
        else (some key, read.2.push key normalized maxItems)

def parseExplicitHandoffSections (text : String) (maxItems : Nat) : ExplicitHandoffSections :=
  let lines := if text = "" then [] else split (.seq (opt (char '\r')) (char '\n')) text
  (lines.foldl (readLine maxItems) (none, ⟨[], [], [], [], []⟩)).2

-- What the loop over the rows has gathered.
structure Gathered where
  decisions : List String
  openLoops : List String
  nextActions : List String
  risks : List String
  keyPoints : List String
  currentPrompt : Option String
  user : Option String
  assistant : Option String

def pushSections (sectionLimit keyPointLimit : Nat) (s : ExplicitHandoffSections) (g : Gathered) : Gathered :=
  let aside := s.nextActions.filter (test scopeGuard)
  let ahead := s.nextActions.filter (fun action => !test scopeGuard action)
  { g with
    keyPoints := (s.problems ++ aside).foldl (pushUniqueLine · · keyPointLimit) g.keyPoints
    decisions := s.decisions.foldl (pushUniqueLine · · sectionLimit) g.decisions
    openLoops := s.openLoops.foldl (pushUniqueLine · · sectionLimit) g.openLoops
    nextActions := ahead.foldl (pushUniqueLine · · sectionLimit) g.nextActions
    risks := s.risks.foldl (pushUniqueLine · · sectionLimit) g.risks }

def pushHints (sectionLimit keyPointLimit : Nat) (visibleText line : String) (g : Gathered) : Gathered :=
  let push := fun (on : Bool) target limit => if on then pushUniqueLine target line limit else target
  { g with
    decisions := push (test decisionHint visibleText) g.decisions sectionLimit
    nextActions := push (test nextActionHint visibleText) g.nextActions sectionLimit
    risks := push (test riskHint visibleText) g.risks sectionLimit
    openLoops := push (test openLoopHint visibleText) g.openLoops sectionLimit
    keyPoints := push (!test decisionHint visibleText && !test nextActionHint visibleText) g.keyPoints keyPointLimit }

def gather (host : Host) (sectionLimit keyPointLimit : Nat) (before : Gathered) (row : SessionSummaryRow) : Gathered :=
  let tags := parseArrayJson host row.tagsJson
  let normalizedContent := unwrapStructuredObservationText host row.contentRedacted
  let normalizedTitle := unwrapStructuredObservationText host (row.title.getD "")
  let explicit := parseExplicitHandoffSections
    (if normalizedContent = "" then normalizedTitle else normalizedContent) sectionLimit
  let g := pushSections sectionLimit keyPointLimit explicit before
  let title := summarizeLine normalizedTitle 120
  let content := summarizeLine normalizedContent 240
  let visibleText := buildVisibleInteractionText title content
  let shown := if content = "" then title else content
  let line := if title ≠ "" ∧ content ≠ "" ∧ title ≠ content then title ++ ": " ++ content else shown
  if row.eventType = some "user_prompt" then
    if hasIgnoredVisibleTag tags || isIgnoredVisiblePromptText visibleText then g
    else
      let asks := content.endsWith "?" || test openLoopHint visibleText
      { g with
        currentPrompt := some shown
        openLoops := if asks then pushUniqueLine g.openLoops shown sectionLimit else g.openLoops }
  else if isStructuredHandoffNoiseRow host (row.eventType.getD "") title then g
  else if title = "assistant_response" then
    if hasIgnoredVisibleTag tags || isIgnoredVisibleResponseText content then g
    else
      let answered := {g with user := g.currentPrompt, assistant := some shown}
      if explicit.any then answered else pushHints sectionLimit keyPointLimit visibleText line answered
  else if explicit.any then g
  else pushHints sectionLimit keyPointLimit visibleText line g

def orElseText (first second : String) : String := if first = "" then second else first

def buildStructuredHandoff (host : Host) (sessionId : String) (rows : List SessionSummaryRow) (summaryMode : String) :
    SessionHandoff :=
  let sectionLimit := if summaryMode = "detailed" then 5 else if summaryMode = "short" then 2 else 3
  let keyPointLimit := if summaryMode = "detailed" then 6 else if summaryMode = "short" then 2 else 4
  let g := rows.foldl (gather host sectionLimit keyPointLimit) ⟨[], [], [], [], [], none, none, none⟩
  let fallbackOverview := " / ".intercalate (((rows.drop (rows.length - 2)).map (fun row =>
    summarizeLine (orElseText row.contentRedacted (row.title.getD "")) 140)).filter (fun text => text ≠ ""))
  let heads := ([g.decisions, g.nextActions, g.openLoops, g.risks, g.keyPoints].filterMap List.head?).filter
    (fun text => text ≠ "")
  { overview := orElseText (" ".intercalate (heads.take 2))
      (orElseText fallbackOverview ("Session " ++ sessionId ++ " handoff."))
    decisions := g.decisions
    openLoops := g.openLoops
    nextActions := g.nextActions
    risks := g.risks
    keyPoints := g.keyPoints
    latestExchange := ⟨g.user, g.assistant, (truthy g.user).isSome && (truthy g.assistant).isNone⟩
    observationCount := rows.length }

def renderSection (title emptyText : String) (items : List String) : List String :=
  ["## " ++ title] ++ (if items = [] then ["- " ++ emptyText] else items.map ("- " ++ ·)) ++ [""]

def renderHandoffSummary (sessionId summaryMode : String) (handoff : SessionHandoff) : String :=
  let exchange := handoff.latestExchange
  let assistant := match truthy exchange.assistant with
    | some text => "- Assistant: " ++ text
    | none => if exchange.incomplete then "- Assistant: no response recorded yet" else "- Assistant: not captured"
  "\n".intercalate (["# Session Handoff", "", "- Session: " ++ sessionId, "- Summary mode: " ++ summaryMode,
      "- Observations reviewed: " ++ toString handoff.observationCount, "", "## Overview",
      orElseText handoff.overview "- no overview captured", ""] ++
    renderSection "Decisions" "No explicit decisions captured." handoff.decisions ++
    renderSection "Open Loops" "No unresolved follow-ups captured." handoff.openLoops ++
    renderSection "Next Actions" "No next actions captured." handoff.nextActions ++
    renderSection "Risks" "No explicit risks captured." handoff.risks ++
    renderSection "Key Points" "No additional key points captured." handoff.keyPoints ++
    ["## Latest Exchange", "- User: " ++ (truthy exchange.user).getD "not captured", assistant])

def textOrNull : Option String → Json
  | some text => .str text
  | none => .null

def SessionHandoff.toJson (h : SessionHandoff) : Json :=
  .obj [("overview", .str h.overview), ("decisions", texts h.decisions), ("open_loops", texts h.openLoops),
    ("next_actions", texts h.nextActions), ("risks", texts h.risks), ("key_points", texts h.keyPoints),
    ("latest_exchange", .obj [("user", textOrNull h.latestExchange.user),
      ("assistant", textOrNull h.latestExchange.assistant), ("incomplete", .bool h.latestExchange.incomplete)]),
    ("observation_count", .num (toString h.observationCount))]

end HarnessMem.Handoff
