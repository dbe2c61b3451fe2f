import HarnessMem.Json
import HarnessMem.Lib.Regex

/-! The PII filters of the two MCP servers: which rules the environment and the rules file put
in force, and what they make of a text. A rules file is the JSON value written in it, with
repeated keys kept; the engines that compile a rule's pattern are parameters. -/
namespace HarnessMem.PiiFilters
open Regex

-- How a compiled pattern replaces its matches; `none` for a pattern the engine refuses.
structure Engines where
  js : String → Option (String → String → String)
  go : String → Option (String → String → String)

structure PiiRule where
  name : String
  pattern : String
  replacement : String
  deriving DecidableEq

structure Rule where
  pattern : String
  replacement : String
  deriving DecidableEq

-- `HARNESS_MEM_PII_FILTER` and `HARNESS_MEM_PII_RULES_PATH`, "" where unset, and the files.
structure Environment where
  filter : String
  rulesPath : String
  read : String → Option Json

def Environment.enabled (env : Environment) : String := env.filter.toLower
def Environment.file (env : Environment) : Option Json := if env.rulesPath = "" then none else env.read env.rulesPath

/-! The TypeScript server. -/

-- The last of two entries with one key stays.
def member (entries : List (String × Json)) (key : String) : Option Json := Json.get entries.reverse key

def isNull : Json → Bool
  | .null => true
  | _ => false

def piiRule? : Json → Option PiiRule
  | .obj entries => do
    let name ← Json.text? (member entries "name")
    let pattern ← Json.text? (member entries "pattern")
    let replacement ← Json.text? (member entries "replacement")
    some ⟨name, pattern, replacement⟩
  | _ => none

-- A null among the rules makes the filter throw.
def loadPiiRules : Option Json → List PiiRule
  | some (.obj entries) =>
    match member entries "rules" with
    | some (.arr items) => if items.any isNull then [] else items.filterMap piiRule?
    | _ => []
  | _ => []

def phonePattern : String := "0\\d\x7b1,4\x7d[-‐−]?\\d\x7b1,4\x7d[-‐−]?\\d\x7b3,4\x7d"
def emailPattern : String := "[\\w.+\\-]+@[\\w.\\-]+\\.\\w+"
def lineIdPattern : String := "@[a-zA-Z0-9_.]\x7b3,20\x7d"

def defaultPiiRules : List PiiRule :=
  [⟨"phone", phonePattern, "[PHONE]"⟩, ⟨"email", emailPattern, "[EMAIL]"⟩, ⟨"line_id", lineIdPattern, "[LINE_ID]"⟩]

def getActivePiiRules (env : Environment) : Option (List PiiRule) :=
  if env.enabled ≠ "true" ∧ env.enabled ≠ "1" then none
  else
    let custom := loadPiiRules env.file
    some (if custom.length > 0 then custom else defaultPiiRules)

def applyPiiFilter (engines : Engines) (text : String) (rules : List PiiRule) : String :=
  rules.foldl (fun result rule =>
    match engines.js rule.pattern with
    | some replace => replace rule.replacement result
    | none => result) text

def filtered (engines : Engines) (env : Environment) (text : String) : String :=
  match getActivePiiRules env with
  | some rules => applyPiiFilter engines text rules
  | none => text

/-! The Go server. -/

-- A key names the field whatever its case; null leaves the field, another type is an error.
def decodeField (key : String) (entries : List (String × Json)) : Option String :=
  entries.foldl (fun held entry =>
    if entry.1.toLower = key then
      match entry.2 with
      | .str value => held.map (fun _ => value)
      | .null => held
      | _ => none
    else held) (some "")

def decodeRule : Json → Option Rule
  | .null => some ⟨"", ""⟩
  | .obj entries => do
    let pattern ← decodeField "pattern" entries
    let replacement ← decodeField "replacement" entries
    some ⟨pattern, replacement⟩
  | _ => none

def decodeRules : List Json → Option (List Rule)
  | [] => some []
  | item :: rest => do
    let rule ← decodeRule item
    let rules ← decodeRules rest
    some (rule :: rules)

def unmarshal : Json → Option (List Rule)
  | .null => some []
  | .arr items => decodeRules items
  | _ => none

def loadRules (engines : Engines) (file : Option Json) : Option (List Rule) := do
  let data ← file
  let raw ← unmarshal data
  let rules := raw.filter (fun rule => (engines.go rule.pattern).isSome)
  if rules.length = 0 then none else some rules

def goPhonePattern : String := "\\b\\d\x7b2,4\x7d[-\\s]?\\d\x7b2,4\x7d[-\\s]?\\d\x7b4\x7d\\b"
def goEmailPattern : String := "[a-zA-Z0-9._%+\\-]+@[a-zA-Z0-9.\\-]+\\.[a-zA-Z]\x7b2,\x7d"
def goLineIdPattern : String := "@[a-zA-Z0-9_]\x7b2,30\x7d"

def defaultRules : List Rule :=
  [⟨goPhonePattern, "[PHONE]"⟩, ⟨goEmailPattern, "[EMAIL]"⟩, ⟨goLineIdPattern, "[LINE_ID]"⟩]

def getActiveRules (engines : Engines) (env : Environment) : Option (List Rule) :=
  if env.enabled ≠ "true" then none else some ((loadRules engines env.file).getD defaultRules)

def applyFilter (engines : Engines) (content : String) (rules : List Rule) : String :=
  rules.foldl (fun result rule =>
    match engines.go rule.pattern with
    | some replace => replace rule.replacement result
    | none => result) content

def goFiltered (engines : Engines) (env : Environment) (content : String) : String :=
  match getActiveRules engines env with
  | some rules => applyFilter engines content rules
  | none => content

/-! The built-in patterns. -/

def digit : Re := .set Char.isDigit
def oneIn (marks : String) : Re := .set (fun c => marks.toList.contains c)
def alnumOr (marks : String) (c : Char) : Bool := c.isAlphanum || marks.toList.contains c

def phone : Re :=
  chain [char '0', between 1 4 digit, opt (oneIn "-‐−"), between 1 4 digit, opt (oneIn "-‐−"), between 3 4 digit]
def email : Re :=
  chain [plus (.set (alnumOr "_.+-")), char '@', plus (.set (alnumOr "_.-")), char '.', plus (.set isWord)]
def lineId : Re := chain [char '@', between 3 20 (.set (alnumOr "_."))]

def goPhone : Re :=
  chain [.boundary, between 2 4 digit, opt (oneIn "- \t\n\x0c\r"), between 2 4 digit, opt (oneIn "- \t\n\x0c\r"),
    times 4 digit, .boundary]
def goEmail : Re :=
  chain [plus (.set (alnumOr "._%+-")), char '@', plus (.set (alnumOr ".-")), char '.', atLeast 2 (.set Char.isAlpha)]
def goLineId : Re := chain [char '@', between 2 30 (.set (alnumOr "_"))]

def jsTrees : List (String × Re) := [(phonePattern, phone), (emailPattern, email), (lineIdPattern, lineId)]
def goTrees : List (String × Re) := [(goPhonePattern, goPhone), (goEmailPattern, goEmail), (goLineIdPattern, goLineId)]

-- A replacement without `$` stands for itself in both languages.
def Compiles (compile : String → Option (String → String → String)) (tree : String × Re) : Prop :=
  ∃ replace, compile tree.1 = some replace ∧
    ∀ put text, '$' ∉ put.toList → replace put text = replaceAll tree.2 put text

structure Built (engines : Engines) : Prop where
  js : ∀ tree ∈ jsTrees, Compiles engines.js tree
  go : ∀ tree ∈ goTrees, Compiles engines.go tree

-- Engines that know the built-in patterns only.
def lookup (trees : List (String × Re)) (pattern : String) : Option (String → String → String) :=
  (trees.find? (fun tree => tree.1 = pattern)).map (fun tree => replaceAll tree.2)
def tableEngines : Engines := ⟨lookup jsTrees, lookup goTrees⟩

theorem tableBuilt : Built tableEngines := by
  constructor
  · simp only [jsTrees, List.forall_mem_cons]
    exact ⟨⟨_, rfl, fun _ _ _ => rfl⟩, ⟨_, rfl, fun _ _ _ => rfl⟩, ⟨_, rfl, fun _ _ _ => rfl⟩, fun _ mem => (by cases mem)⟩
  · simp only [goTrees, List.forall_mem_cons]
    exact ⟨⟨_, rfl, fun _ _ _ => rfl⟩, ⟨_, rfl, fun _ _ _ => rfl⟩, ⟨_, rfl, fun _ _ _ => rfl⟩, fun _ mem => (by cases mem)⟩

section
variable {engines : Engines} {env : Environment}

-- What the built-in rules make of a text, in the order they stand in.
def masked (first second third : Re) (text : String) : String :=
  replaceAll third "[LINE_ID]" (replaceAll second "[EMAIL]" (replaceAll first "[PHONE]" text))

theorem defaultsMask (built : Built engines) (text : String) :
    applyPiiFilter engines text defaultPiiRules = masked phone email lineId text := by
  have known := built.js
  simp only [jsTrees, List.forall_mem_cons] at known
  obtain ⟨⟨first, firstIs, firstMakes⟩, ⟨second, secondIs, secondMakes⟩, ⟨third, thirdIs, thirdMakes⟩, -⟩ := known
  simp only [applyPiiFilter, defaultPiiRules, List.foldl_cons, List.foldl_nil, firstIs, secondIs, thirdIs]
  rw [firstMakes _ _ (by decide), secondMakes _ _ (by decide), thirdMakes _ _ (by decide)]
  rfl

theorem goDefaultsMask (built : Built engines) (text : String) :
    applyFilter engines text defaultRules = masked goPhone goEmail goLineId text := by
  have known := built.go
  simp only [goTrees, List.forall_mem_cons] at known
  obtain ⟨⟨first, firstIs, firstMakes⟩, ⟨second, secondIs, secondMakes⟩, ⟨third, thirdIs, thirdMakes⟩, -⟩ := known
  simp only [applyFilter, defaultRules, List.foldl_cons, List.foldl_nil, firstIs, secondIs, thirdIs]
  rw [firstMakes _ _ (by decide), secondMakes _ _ (by decide), thirdMakes _ _ (by decide)]
  rfl

example : masked goPhone goEmail goLineId "call 090-1234-5678 or a.b@c.co.jp, @taro_99" =
    "call [PHONE] or [EMAIL], [LINE_ID]" := by decide

-- A telephone number that does not begin with 0 is one for the Go server only.
theorem defaultsApart (built : Built engines) :
    ¬ ∀ text, applyFilter engines text defaultRules = applyPiiFilter engines text defaultPiiRules := by
  intro same
  have here := same "12-34-5678"
  rw [goDefaultsMask built, defaultsMask built] at here
  exact absurd here (by decide)

theorem defaultsChange (built : Built engines) : ¬ ∀ text, text = applyPiiFilter engines text defaultPiiRules := by
  intro same
  have here := same "0123456789"
  rw [defaultsMask built] at here
  exact absurd here (by decide)

-- A file is written for one of the two servers: an object with rules or an array of them.
theorem oneSchema {file : Option Json} (custom : loadPiiRules file ≠ []) : loadRules engines file = none := by
  cases file with
  | none => rfl
  | some value =>
    cases value with
    | obj entries => rfl
    | _ => exact absurd rfl custom

theorem loadsSome {file : Option Json} {rules : List Rule} (loads : loadRules engines file = some rules) :
    rules ≠ [] := by
  simp only [loadRules, bind, Option.bind_eq_some_iff] at loads
  obtain ⟨data, -, raw, -, last⟩ := loads
  split at last
  · cases last
  · rename_i some
    cases last
    exact fun empty => some (List.length_eq_zero_iff.mpr empty)

def Off (env : Environment) : Prop := env.enabled ≠ "true" ∧ env.enabled ≠ "1"

-- The rules a server takes from the file.
def fromFile (env : Environment) : List Rule :=
  if env.enabled = "true" ∨ env.enabled = "1" then
    (loadPiiRules env.file).map (fun rule => ⟨rule.pattern, rule.replacement⟩)
  else []
def goFromFile (engines : Engines) (env : Environment) : List Rule :=
  if env.enabled = "true" then (loadRules engines env.file).getD [] else []

def SameText (engines : Engines) (env : Environment) : Prop :=
  ∀ text, goFiltered engines env text = filtered engines env text

structure Agree (engines : Engines) (env : Environment) : Prop where
  enabled : getActivePiiRules env = none ↔ getActiveRules engines env = none
  loaded : fromFile env = goFromFile engines env
  text : SameText engines env

-- A rules file in force with one server does what the other server does without it.
def Made (engines : Engines) (env : Environment) : Prop :=
  (env.enabled = "1" ∧ loadPiiRules env.file ≠ [] ∧
    ∀ text, text = applyPiiFilter engines text (loadPiiRules env.file)) ∨
  (env.enabled = "true" ∧ loadPiiRules env.file ≠ [] ∧
    ∀ text, applyFilter engines text defaultRules = applyPiiFilter engines text (loadPiiRules env.file)) ∨
  (env.enabled = "true" ∧ ∃ rules, loadRules engines env.file = some rules ∧
    ∀ text, applyFilter engines text rules = applyPiiFilter engines text defaultPiiRules)

variable (engines) in
theorem activeOff (off : Off env) : getActivePiiRules env = none ∧ getActiveRules engines env = none :=
  ⟨if_pos off, if_pos off.1⟩

variable (engines) in
theorem activeOne (one : env.enabled = "1") :
    getActivePiiRules env = some (if (loadPiiRules env.file).length > 0 then loadPiiRules env.file else defaultPiiRules) ∧
    getActiveRules engines env = none := by
  constructor
  · exact if_neg (fun off => off.2 one)
  · exact if_pos (by rw [one]; decide)

variable (engines) in
theorem activeTrue (on : env.enabled = "true") :
    getActivePiiRules env = some (if (loadPiiRules env.file).length > 0 then loadPiiRules env.file else defaultPiiRules) ∧
    getActiveRules engines env = some ((loadRules engines env.file).getD defaultRules) := by
  constructor
  · exact if_neg (fun off => off.1 on)
  · exact if_neg (fun off => off on)

theorem sameOff (off : Off env) : SameText engines env := by
  intro text
  obtain ⟨active, goActive⟩ := activeOff engines off
  rw [goFiltered, filtered, active, goActive]

theorem sameOne (built : Built engines) (one : env.enabled = "1") : SameText engines env ↔
    loadPiiRules env.file ≠ [] ∧ ∀ text, text = applyPiiFilter engines text (loadPiiRules env.file) := by
  obtain ⟨active, goActive⟩ := activeOne engines one
  simp only [SameText, goFiltered, filtered, active, goActive]
  by_cases custom : loadPiiRules env.file = []
  · simp only [custom, List.length_nil, gt_iff_lt, lt_irrefl, if_false, ne_eq, not_true_eq_false, false_and, iff_false]
    exact defaultsChange built
  · have some : (loadPiiRules env.file).length > 0 := List.length_pos_iff.mpr custom
    simp only [some, if_true, ne_eq, custom, not_false_eq_true, true_and]

theorem sameTrue (built : Built engines) (on : env.enabled = "true") : SameText engines env ↔
    (loadPiiRules env.file ≠ [] ∧
      ∀ text, applyFilter engines text defaultRules = applyPiiFilter engines text (loadPiiRules env.file)) ∨
    ∃ rules, loadRules engines env.file = some rules ∧
      ∀ text, applyFilter engines text rules = applyPiiFilter engines text defaultPiiRules := by
  obtain ⟨active, goActive⟩ := activeTrue engines on
  simp only [SameText, goFiltered, filtered, active, goActive]
  by_cases custom : loadPiiRules env.file = []
  · cases loads : loadRules engines env.file with
    | none => simpa [custom] using not_forall.mp (defaultsApart built)
    | some rules => simp [custom]
  · have some : (loadPiiRules env.file).length > 0 := List.length_pos_iff.mpr custom
    simp [oneSchema custom, some, custom]

theorem sameText (built : Built engines) : SameText engines env ↔ Off env ∨ Made engines env := by
  by_cases off : Off env
  · exact iff_of_true (sameOff off) (.inl off)
  · by_cases on : env.enabled = "true"
    · simp [sameTrue built on, off, Made, on]
    · have one : env.enabled = "1" := by
        by_contra other
        exact off ⟨on, other⟩
      simp [sameOne built one, off, Made, one]

theorem agreeOff (built : Built engines) : Agree engines env ↔ Off env := by
  constructor
  · intro agree
    by_contra off
    by_cases on : env.enabled = "true"
    · have files := agree.loaded
      rcases (sameTrue built on).mp agree.text with ⟨custom, -⟩ | ⟨rules, loads, -⟩
      · rw [fromFile, if_pos (.inl on), goFromFile, if_pos on, oneSchema custom] at files
        exact custom (List.map_eq_nil_iff.mp files)
      · have none : loadPiiRules env.file = [] := by
          by_contra custom
          rw [oneSchema custom] at loads
          cases loads
        rw [fromFile, if_pos (.inl on), goFromFile, if_pos on, none, loads] at files
        obtain rfl : rules = [] := files.symm
        exact loadsSome loads rfl
    · have one : env.enabled = "1" := by
        by_contra other
        exact off ⟨on, other⟩
      obtain ⟨active, goActive⟩ := activeOne engines one
      have none := agree.enabled.mpr goActive
      rw [active] at none
      cases none
  · intro off
    obtain ⟨active, goActive⟩ := activeOff engines off
    refine ⟨iff_of_true active goActive, ?_, sameOff off⟩
    rw [fromFile, if_neg (fun on => on.elim off.1 off.2), goFromFile, if_neg off.1]

end

-- Both servers filter alike where the filter is off. Where it is on they never load the same
-- rules, and return the same texts only if a file in force for one does what the other has built in.
theorem filtersAgree (engines : Engines) (built : Built engines) (env : Environment) :
    (Agree engines env ↔ Off env) ∧ (SameText engines env ↔ Off env ∨ Made engines env) :=
  ⟨agreeOff built, sameText built⟩

def environment (filter : String) : Environment := ⟨filter, "", fun _ => none⟩

theorem unsetOff : Off (environment "") := by
  have empty : (environment "").enabled = "" := by decide +kernel
  rw [Off, empty]
  decide

theorem filtersAgreeUnset : Agree tableEngines (environment "") :=
  (filtersAgree tableEngines tableBuilt (environment "")).1.mpr unsetOff

-- `HARNESS_MEM_PII_FILTER=1` switches the Go filter off, and with `true` the built-in patterns part.
theorem filtersPart :
    goFiltered tableEngines (environment "1") "0123456789" ≠
      filtered tableEngines (environment "1") "0123456789" ∧
    goFiltered tableEngines (environment "true") "12-34-5678" ≠
      filtered tableEngines (environment "true") "12-34-5678" := by
  have isOne : (environment "1").enabled = "1" := by decide +kernel
  have isTrue : (environment "true").enabled = "true" := by decide +kernel
  obtain ⟨one, goOne⟩ := activeOne tableEngines isOne
  obtain ⟨on, goOn⟩ := activeTrue tableEngines isTrue
  constructor
  · rw [goFiltered, filtered, one, goOne]
    change "0123456789" ≠ applyPiiFilter tableEngines "0123456789" defaultPiiRules
    rw [defaultsMask tableBuilt]
    decide
  · rw [goFiltered, filtered, on, goOn]
    change applyFilter tableEngines "12-34-5678" defaultRules ≠ applyPiiFilter tableEngines "12-34-5678" defaultPiiRules
    rw [goDefaultsMask tableBuilt, defaultsMask tableBuilt]
    decide

end HarnessMem.PiiFilters
