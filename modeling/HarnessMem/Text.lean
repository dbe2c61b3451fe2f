import HarnessMem.Json
import HarnessMem.Lib.Regex

/-! What ingest does to text before it stores it: stripping private blocks, redaction, the
normal form the content hash reads, classification, and what is mined from the text. -/
namespace HarnessMem
open Js Regex

-- What the runtime supplies: a digest, Unicode lower case, JSON, date and number reading,
-- word segmentation and vector similarity.
structure Host where
  sha256 : String → String
  toLowerCase : String → String
  parseJson : String → Option Json
  parseDate : String → Option Int
  millis : String → Number
  tokenize : String → List String
  similar : String → String → Bool

namespace Text

def wide (c : Char) : Bool := 0x10000 ≤ c.toNat
def units (text : List Char) : Nat := text.foldr (fun c n => (if wide c then 2 else 1) + n) 0
def length (s : String) : Nat := units s.toList

-- Positions count UTF-16 units; half a pair is stored as U+FFFD.
def takeUnits : List Char → Nat → List Char
  | _, 0 => []
  | [], _ => []
  | c :: rest, n + 1 =>
    if wide c then (if n = 0 then [Char.ofNat 0xFFFD] else c :: takeUnits rest (n - 1))
    else c :: takeUnits rest n
def dropUnits : List Char → Nat → List Char
  | text, 0 => text
  | [], _ => []
  | c :: rest, n + 1 =>
    if wide c then (if n = 0 then Char.ofNat 0xFFFD :: rest else dropUnits rest (n - 1))
    else dropUnits rest n
def slice (s : String) (first last : Nat) : String :=
  String.ofList (takeUnits (dropUnits s.toList first) (last - first))

theorem takeUnitsWhole (text : List Char) {n : Nat} (short : units text ≤ n) : takeUnits text n = text := by
  induction text generalizing n with
  | nil => cases n <;> rfl
  | cons c rest ih =>
    have more : units (c :: rest) = (if wide c then 2 else 1) + units rest := rfl
    rw [more] at short
    cases n with
    | zero => split at short <;> omega
    | succ n =>
      rw [takeUnits]
      split
      · rename_i two
        rw [if_pos two] at short
        rw [if_neg (by omega), ih (by omega)]
      · rename_i one
        rw [if_neg one] at short
        rw [ih (by omega)]

theorem takeUnitsAppend (a b : List Char) : takeUnits (a ++ b) (units a) = a := by
  induction a with
  | nil =>
    cases b with
    | nil => rfl
    | cons c b => rfl
  | cons c a ih =>
    have step : units (c :: a) = (if wide c then 2 else 1) + units a := rfl
    rw [step]
    by_cases big : wide c
    · rw [if_pos big, show 2 + units a = (units a + 1) + 1 by omega, List.cons_append, takeUnits, if_pos big]
      simp [ih]
    · rw [if_neg big, show 1 + units a = units a + 1 by omega, List.cons_append, takeUnits, if_neg big, ih]

theorem unitsAppend (a b : List Char) : units (a ++ b) = units a + units b := by
  induction a with
  | nil => exact (Nat.zero_add _).symm
  | cons c a ih =>
    have step : ∀ text, units (c :: text) = (if wide c then 2 else 1) + units text := fun _ => rfl
    rw [List.cons_append, step, step, ih]
    omega

theorem takeUnitsPlain {text : List Char} (plain : ∀ c ∈ text, wide c = false) (n : Nat) : takeUnits text n = text.take n := by
  induction text generalizing n with
  | nil => cases n <;> rfl
  | cons c rest ih =>
    cases n with
    | zero => rfl
    | succ n =>
      rw [takeUnits, plain c List.mem_cons_self, if_neg (by simp), ih (fun d mem => plain d (List.mem_cons_of_mem _ mem)),
        List.take_succ_cons]

theorem sliceWhole {s : String} {n : Nat} (short : length s ≤ n) : slice s 0 n = s := by
  rw [slice, dropUnits, Nat.sub_zero, takeUnitsWhole s.toList short, String.ofList_toList]

def includes (s piece : String) : Bool := s.toList.tails.any (fun tail => piece.toList.isPrefixOf tail)
def hasAny (pieces : List String) (s : String) : Bool := pieces.any (includes s)

def space : Re := .set isSpace
def inSet (members : String) (c : Char) : Bool := members.toList.contains c
def notIn (members : String) (c : Char) : Bool := !inSet members c
def backquote : Char := Char.ofNat 96
def words (choices : List String) : Re := oneOf (choices.map word)
def wholeWord (body : Re) : Re := chain [.boundary, body, .boundary]

-- /<private\b[^>]*>[\s\S]*?<\/private>/gi
def privateTag : Re :=
  chain [wordI "<private", .boundary, star (.set (notIn ">")), char '>', lazyStar any, wordI "</private>"]
def stripPrivateBlocks (s : String) : String := if s = "" then s else replaceAll privateTag "" s
-- The sanitised text, and the hashes handed to the callback when a block was stripped.
def stripPrivateBlocksAudited (host : Host) (s : String) : String × List String :=
  if s = "" then (s, [])
  else (replaceAll privateTag "" s,
    (matchAll privateTag s).map (fun found => slice (host.sha256 (String.ofList found.1)) 0 16))

def isBlockedTag (tags : List String) : Bool := tags.contains "block" || tags.contains "no_mem"
def shouldRedact (tags : List String) : Bool := tags.contains "redact" || tags.contains "mask"
def isPrivateTag (tags : List String) : Bool := tags.contains "private" || tags.contains "sensitive"

def mailLocal (c : Char) : Bool := c.isAlphanum || inSet "._%+-" c
def mailHost (c : Char) : Bool := c.isAlphanum || inSet ".-" c
def redactEmail : Re :=
  wholeWord (chain [plus (.set mailLocal), char '@', plus (.set mailHost), char '.', atLeast 2 (.set Char.isAlpha)])
def redactKey : Re :=
  wholeWord (chain [words ["sk", "rk", "pk"], char '_', atLeast 16 (.set Char.isAlphanum)])
def redactSecret : Re :=
  chain [.boundary,
    oneOf [chain [wordI "api", opt (.set (inSet "-_ ")), wordI "key"], wordI "token", wordI "secret", wordI "password"],
    star space, .set (inSet ":="), star space, plus (.set (fun c => !isSpace c && notIn ",;" c))]
def redactHex : Re := wholeWord (atLeast 32 (.set (either (fun c => c.isDigit || inSet "abcdef" c))))

def redactContent (raw : String) (tags : List String) : String :=
  if shouldRedact tags then
    [(redactEmail, "[REDACTED_EMAIL]"), (redactKey, "[REDACTED_KEY]"),
      (redactSecret, "[REDACTED_SECRET]"), (redactHex, "[REDACTED_HEX]")].foldl
      (fun content rule => replaceAll rule.1 rule.2 content) raw
  else raw

def normalizeTags (host : Host) (tags : List String) : List String :=
  (tags.map (fun tag => host.toLowerCase (trim tag))).foldl
    (fun kept tag => if tag = "" ∨ tag ∈ kept then kept else kept ++ [tag]) []

def normalizeDedupeText (host : Host) (s : String) : String :=
  host.toLowerCase (trim (replaceAll (plus space) " " s))

-- /https?:\/\/[^\s"'`<>)\]]+/ and the punctuation cut from its end
def url : Re := chain [word "http", opt (char 's'), word "://",
  plus (.set (fun c => !isSpace c && notIn "\"'<>)]" c && c ≠ backquote))]
def cutPunctuation (s : String) : String :=
  replaceFirst (.seq (plus (.set (inSet ".,;:!?"))) .stop) "" s
def extractFirstUrl (s : String) : Option String :=
  match exec url s with
  | some (found, _) => if found = [] then none else some (cutPunctuation (String.ofList found))
  | none => none

def classifyObservation (host : Host) (eventType title content : String) : String :=
  if eventType = "session_end" then "summary"
  else if eventType = "session_start" then "context"
  else if eventType = "tool_use" then "action"
  else
    let text := host.toLowerCase (title ++ " " ++ content)
    if hasAny ["decided", "chose", "picked", "switched to", "方針", "決定", "採用", "選択"] text then "decision"
    else if hasAny ["pattern", "usually", "consistently", "repeatedly", "傾向", "パターン", "毎回", "常に"] text then "pattern"
    else if hasAny ["prefer", "dislike", "avoid", "rather", "preference", "好み", "希望", "避けたい"] text then "preference"
    else if hasAny ["learned", "lesson", "realized", "gotcha", "mistake", "学び", "反省", "気づき", "教訓"] text then "lesson"
    else if hasAny ["next step", "todo", "next action", "次対応", "次の対応", "アクション"] text then "action"
    else "context"

def classifyMemoryType (host : Host) (eventType title content : String) : String :=
  let text := host.toLowerCase (title ++ " " ++ content)
  let said := fun choices => test (wholeWord (words choices)) text
  if eventType = "session_start" ∨ eventType = "session_end" then "episodic"
  else if said ["happened", "occurred", "experienced", "encountered", "ran into", "found that"] then "episodic"
  else if said ["today", "yesterday", "last time", "this morning", "earlier"] then "episodic"
  else if hasAny ["実行した", "発生した", "やった", "起きた", "遭遇した", "出会った", "経験した"] text then "episodic"
  else if eventType = "tool_use" then "procedural"
  else if said ["how to", "step", "steps", "procedure", "instruction", "instructions", "tutorial", "guide"] then "procedural"
  else if said ["run", "execute", "install", "configure", "setup", "deploy", "build", "compile"] then "procedural"
  else if hasAny ["方法", "手順", "やり方", "コマンド", "設定方法", "インストール", "実行する"] text then "procedural"
  else if test (chain [word "```", star any, word "```"]) content then "procedural"
  else "semantic"

def extractSignalScore (content : String) : ℚ :=
  let signal := ["remember", "architecture", "decision", "bug", "fix"].any
    (fun key => test (wholeWord (wordI key)) content)
  let noise := ["<environment_context>", "<AGENTS.md>"].any (fun key => test (wordI key) content)
  (if signal then 3 / 10 else 0) - (if noise then 2 / 10 else 0)

def fileExtensions : List String :=
  ["ts", "js", "py", "rs", "go", "tsx", "jsx", "vue", "sql", "css", "scss", "html", "json", "yaml", "yml", "toml", "md", "sh"]
def fileExt : Re := chain
  [oneOf [.start, space, .set (fun c => inSet "\"'(" c || c = backquote)],
    .group 1 (chain [plus (.set (fun c => isWord c || inSet "./\\-" c)), char '.', words fileExtensions]), .boundary]
def package : Re := chain
  [words ["npm", "yarn", "pnpm", "pip", "cargo", "bun"], plus space, words ["install", "add", "i", "remove"],
    plus space, .group 1 (plus (.set (fun c => isWord c || inSet "@/.+-" c)))]
def func : Re := chain
  [words ["function", "def", "fn", "func", "const", "let", "var"], plus space,
    .group 1 (.seq (.set (fun c => c.isAlpha || c = '_')) (atLeast 2 (.set isWord)))]

structure ExtractedEntity where
  name : String
  type : String
  deriving DecidableEq, Repr

def captured (re : Re) (content : String) : List String :=
  (matchAll re content).filterMap (fun found => (capture 1 found.2).filter (fun s => s ≠ ""))

-- The same name and type is kept once, and at most fifty in all.
def extractEntities (content : String) : List ExtractedEntity :=
  let found := (captured fileExt content).map (⟨·, "file"⟩) ++ (captured package content).map (⟨·, "package"⟩) ++
    (captured func content).map (⟨·, "symbol"⟩) ++
    (matchAll url content).map (fun m => ⟨slice (cutPunctuation (String.ofList m.1)) 0 255, "url"⟩)
  let kept := found.foldl (fun (kept : List ExtractedEntity) e =>
    if e ∈ kept ∨ 50 ≤ kept.length then kept else kept ++ [e]) []
  kept.map (fun e => ⟨slice e.name 0 255, e.type⟩)

def relationFile : Re := .seq .boundary (.seq (.group 1 (chain
  [plus (.set (fun c => isWord c || inSet ".-" c)), char '.',
    words ["ts", "js", "py", "go", "rs", "md", "json", "sh", "toml", "yaml", "yml"]])) .boundary)
def camelCase : Re :=
  wholeWord (.group 1 (.seq (.set Char.isUpper) (atLeast 3 (.set Char.isAlphanum))))
def snakeCase : Re :=
  let part := atLeast 2 (.set Char.isLower)
  wholeWord (.group 1 (.seq part (plus (.seq (char '_') part))))

def pairs : List String → List (String × String)
  | [] => []
  | first :: rest => rest.map (fun second => (first, second)) ++ pairs rest

-- The ids of at most twenty entities, and every pair of them as a co-occurrence.
def extractEntitiesAndRelations (host : Host) (text : String) (tags : List String) :
    List String × List (String × String) :=
  let labels := captured relationFile text ++ captured camelCase text ++ captured snakeCase text ++
    (tags.map trim).filter (fun tag => tag ≠ "")
  let ids := labels.foldl (fun (kept : List String) label =>
    let id := host.toLowerCase label
    if 20 ≤ kept.length ∨ id ∈ kept then kept else kept ++ [id]) []
  (ids, pairs ids)

end Text
end HarnessMem
