import HarnessMem.Envelope

/-! What the consolidation worker mines from an observation: facts by keyword, or the facts and
the differences to the known ones that a language model answers with. -/
namespace HarnessMem.Extractor
open Text Recorder

structure FactCandidate where
  factType : String
  factKey : String
  factValue : String
  confidence : ℚ
  autoTags : List String
  deriving DecidableEq, Repr

structure ExtractFactInput where
  title : String
  content : String
  observationType : String

structure ExistingFact where
  factId : String
  factType : String
  factKey : String
  factValue : String
  deriving DecidableEq, Repr

structure FactDiffResult where
  newFacts : List FactCandidate
  supersedes : List (Option String)
  deletedFactIds : List String

-- /[^a-z0-9\u3040-\u30ff\u3400-\u9fff\s]/
def spoken (c : Char) : Bool :=
  let n := c.toNat
  ('a' ≤ c && c ≤ 'z') || c.isDigit || (0x3040 ≤ n && n ≤ 0x30ff) || (0x3400 ≤ n && n ≤ 0x9fff) || Js.isSpace c
def wordsOf (host : Host) (text : String) : List String :=
  (Regex.split (Regex.plus space) (Regex.replaceAll (.set (fun c => !spoken c)) " " (host.toLowerCase text))).filter
    (fun token => 1 < length token)

def normalizeFactKey (host : Host) (value : String) : String :=
  slice ("_".intercalate ((wordsOf host value).take 12)) 0 120

def splitSentences (text : String) : List String :=
  (((Regex.split (Regex.plus (.set (inSet "\n。.!?"))) text).map Js.trim).filter (fun line => 10 < length line)).take 20

def inferType (host : Host) (sentence fallbackType : String) : String :=
  let normalized := host.toLowerCase sentence
  if hasAny ["decide", "decision", "採用", "方針", "決定", "choose"] normalized then "decision"
  else if hasAny ["prefer", "preference", "好み", "避け", "avoid"] normalized then "preference"
  else if hasAny ["learned", "lesson", "教訓", "学び", "反省", "気づき"] normalized then "lesson"
  else if hasAny ["pattern", "傾向", "パターン", "いつも"] normalized then "pattern"
  else if hasAny ["todo", "next", "次", "action", "対応"] normalized then "action"
  else if fallbackType = "" then "context" else fallbackType

def techKeywords : List String := [
  "typescript", "javascript", "python", "rust", "go", "java", "ruby",
  "react", "nextjs", "vue", "angular", "svelte",
  "node", "bun", "deno",
  "sqlite", "postgres", "mysql", "redis", "mongodb",
  "docker", "kubernetes", "aws", "gcp", "azure",
  "git", "github", "ci", "cd",
  "api", "rest", "graphql", "grpc",
  "auth", "security", "performance", "testing"]

def addOnce (set : List String) (tag : String) : List String := if tag ∈ set then set else set ++ [tag]
def inferAutoTags (host : Host) (factType factKey : String) : List String :=
  let own := if factType ≠ "" ∧ factType ≠ "context" then [factType] else []
  (techKeywords.filter (includes (host.toLowerCase factKey))).foldl addOnce own

def factTypes : List String := ["decision", "preference", "lesson", "pattern", "action"]

def candidate (host : Host) (factType factKey factValue : String) (confidence : ℚ) : FactCandidate :=
  ⟨factType, factKey, factValue, confidence, inferAutoTags host factType factKey⟩

-- One line of the text; a key already found is not taken again.
def readSentence (host : Host) (input : ExtractFactInput) (facts : List FactCandidate) (line : String) :
    List FactCandidate :=
  let factType := inferType host line input.observationType
  let key := factType ++ ":" ++ normalizeFactKey host line
  if factType ∉ factTypes ∨ facts.any (fun fact => fact.factKey = key) then facts
  else facts ++ [candidate host factType key (slice line 0 500) (if factType = input.observationType then 9 / 10 else 7 / 10)]

def heuristicExtract (host : Host) (input : ExtractFactInput) : List FactCandidate :=
  let combined := "\n".intercalate ([input.title, input.content].filter (fun part => part ≠ ""))
  let facts := (splitSentences combined).foldl (readSentence host input) []
  let seed := slice ((truthy (some (Js.trim combined))).getD input.title) 0 500
  let seeded := if facts = [] ∧ input.observationType ≠ "context" ∧ seed ≠ "" then
      [candidate host input.observationType (input.observationType ++ ":" ++ normalizeFactKey host seed) seed (6 / 10)]
    else facts
  seeded.take 8

def realOf (host : Host) : Option Json → ℚ
  | some (.num text) => match host.millis text with
    | .fin value => value
    | _ => 1 / 2
  | _ => 1 / 2

-- A `null` entry throws; any other value that is not an object has none of the fields.
def parseFact (host : Host) : Json → Option FactCandidate
  | .null => none
  | .obj entries =>
    let factKey := (Json.text? (Json.get entries "fact_key")).getD ""
    let factValue := slice ((Json.text? (Json.get entries "fact_value")).getD "") 0 500
    some (candidate host ((Json.text? (Json.get entries "fact_type")).getD "context") factKey factValue
      (realOf host (Json.get entries "confidence")))
  | _ => some (candidate host "context" "" "" (1 / 2))

def parseFactsFromContent (host : Host) (json : Json) : Option (List FactCandidate) :=
  let facts := match json with
    | .obj entries => match Json.get entries "facts" with
      | some (.arr facts) => facts
      | _ => []
    | .arr facts => facts
    | _ => []
  (facts.mapM (parseFact host)).map (fun parsed =>
    (parsed.filter (fun fact => fact.factKey ≠ "" && fact.factValue ≠ "" && factTypes.contains fact.factType)).take 5)

-- A property of the answer's map; an array has its positions for keys.
def property : Option Json → String → Option String
  | some (.obj entries), key => Json.text? (Json.get entries key)
  | some (.arr items), key => (items.zipIdx.find? (fun entry => toString entry.2 = key)).bind (fun entry => Json.text? (some entry.1))
  | _, _ => none

def known (existingFacts : List ExistingFact) (id : String) : Bool := existingFacts.any (fun fact => fact.factId = id)

def parseDiffFromContent (json : Json) (newFacts : List FactCandidate) (existingFacts : List ExistingFact) :
    List (Option String) × List String :=
  let field := fun key => match json with
    | .obj entries => Json.get entries key
    | _ => none
  let superseded := newFacts.map (fun fact =>
    (truthy (property (field "supersedes") fact.factKey)).filter (known existingFacts))
  let deleted := match field "deleted" with
    | some (.arr ids) => (ids.filterMap (fun id => Json.text? (some id))).filter (known existingFacts)
    | _ => []
  (superseded, deleted)

-- The answer is the text the model gave, or none where the call failed or was not configured.
def llmExtractWithDiff (host : Host) (answer : Option String) (existingFacts : List ExistingFact) : FactDiffResult :=
  match ((truthy answer).bind host.parseJson).bind (fun json => (parseFactsFromContent host json).map (json, ·)) with
  | none => ⟨[], [], []⟩
  | some (json, newFacts) =>
    let diff := parseDiffFromContent json newFacts existingFacts
    ⟨newFacts, diff.1, diff.2⟩

end HarnessMem.Extractor
