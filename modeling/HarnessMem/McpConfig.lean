import HarnessMem.Js
import HarnessMem.Lib.Occurrences
import HarnessMem.Lib.Pieces
import Mathlib.Data.List.Induction
import Mathlib.Data.List.TakeWhile

/-! The block the installer keeps between two markers in a client's TOML file, and what writing it leaves of the
rest of the file. -/
namespace HarnessMem.McpConfig
open Js Occurrences Pieces

abbrev Text := List Char

def beginCodexMcp : Text := "# >>> harness-mem codex mcp".toList
def endCodexMcp : Text := "# <<< harness-mem codex mcp".toList
def unmanaged : Text := "[mcp_servers.harness]".toList

structure ServerEnv where
  harnessMemHost : String
  harnessMemPort : String
  harnessMemDbPath : String
  nodePath : String

structure ServerSpec where
  command : String
  args : List String
  env : ServerEnv

def backslashed (special c : Char) : Text := if c = special then ['\\', c] else [c]
def escapeTomlString (value : String) : Text := (value.toList.flatMap (backslashed '\\')).flatMap (backslashed '"')

def quoted (value : String) : Text := '"' :: escapeTomlString value ++ ['"']
def assign (key : String) (value : Text) : Text := key.toList ++ " = ".toList ++ value
-- `String(undefined)` where there is no argument.
def firstArg (spec : ServerSpec) : String := spec.args.head?.getD "undefined"

def blockLines (spec : ServerSpec) : List Text :=
  [beginCodexMcp,
    "[mcp_servers.harness]".toList,
    assign "command" (quoted spec.command),
    assign "args" ('[' :: quoted (firstArg spec) ++ [']']),
    "enabled = true".toList,
    [],
    "[mcp_servers.harness.env]".toList,
    assign "HARNESS_MEM_HOST" (quoted spec.env.harnessMemHost),
    assign "HARNESS_MEM_PORT" (quoted spec.env.harnessMemPort),
    assign "HARNESS_MEM_DB_PATH" (quoted spec.env.harnessMemDbPath),
    assign "NODE_PATH" (quoted spec.env.nodePath),
    endCodexMcp]
def buildCodexManagedBlock (spec : ServerSpec) : Text := ['\n'].intercalate (blockLines spec ++ [[]])

-- `indexOf` gives where the part before the first occurrence ends.
def upsertManagedBlock (content beginMarker endMarker block : Text) : Option Text :=
  let managed := match content.dropInfix? beginMarker, content.dropInfix? endMarker with
    | some (head, _), some (upTo, rest) => if head.length ≤ upTo.length then some (head, rest) else none
    | _, _ => none
  match managed with
  | some (head, rest) =>
    let tail := if rest.head? = some '\n' then rest.drop 1 else rest
    some (trimEnd (trimEnd head ++ ['\n', '\n'] ++ block ++ tail.dropWhile (fun c => c = '\n')) ++ ['\n'])
  | none =>
    if (content.dropInfix? unmanaged).isSome then none
    else if trimEnd content = [] then some block
    else some (trimEnd content ++ ['\n', '\n'] ++ block)

def upsert (content : Text) (spec : ServerSpec) : Option Text :=
  upsertManagedBlock content beginCodexMcp endCodexMcp (buildCodexManagedBlock spec)

/-! The part of TOML such a block is written in: comments, table headers, bare keys, and values that are strings on one
line, arrays of these, or booleans. -/

inductive Value where
  | str (text : Text)
  | strs (texts : List Text)
  | bool (value : Bool)
  deriving DecidableEq

structure Entry where
  table : List Text
  key : Text
  value : Value
  deriving DecidableEq

structure Document where
  table : List Text
  entries : List Entry
  deriving DecidableEq

def control (c : Char) : Bool := (c.toNat < 32 && c != '\t') || c.toNat = 127

def unescape (c : Char) : Option Char :=
  if c = '"' then some '"' else if c = '\\' then some '\\' else if c = 'n' then some '\n' else if c = 't' then some '\t'
  else if c = 'r' then some '\r' else if c = 'b' then some (Char.ofNat 8) else if c = 'f' then some (Char.ofNat 12) else none

-- After the opening quote: the string and what stands behind the closing one.
def readString : Text → Option (Text × Text)
  | [] => none
  | '"' :: rest => some ([], rest)
  | '\\' :: c :: rest => (unescape c).bind (fun d => (readString rest).map (fun found => (d :: found.1, found.2)))
  | c :: rest => if control c || c = '\\' then none else (readString rest).map (fun found => (c :: found.1, found.2))

def skipSpace (text : Text) : Text := text.dropWhile (fun c => c = ' ' || c = '\t')

def readStrings : Nat → Text → Option (List Text)
  | n + 1, '"' :: text => (readString text).bind (fun found =>
      match skipSpace found.2 with
      | [']'] => some [found.1]
      | ',' :: more => (readStrings n (skipSpace more)).map (found.1 :: ·)
      | _ => none)
  | _, _ => none

def readValue : Text → Option Value
  | '"' :: text => (readString text).bind (fun found => if found.2 = [] then some (.str found.1) else none)
  | '[' :: text => (readStrings text.length text).map .strs
  | text => if text = "true".toList then some (.bool true) else if text = "false".toList then some (.bool false) else none

def bareChar (c : Char) : Bool := c.isAlphanum || c = '_' || c = '-'

def readLine (doc : Document) : Text → Option Document
  | [] => some doc
  | '#' :: text => if text.any control then none else some doc
  | '[' :: text =>
    let parts := text.dropLast.splitOn '.'
    if text.getLast? = some ']' && parts.all (fun part => part != [] && part.all bareChar) then some {doc with table := parts} else none
  | line =>
    match line.takeWhile bareChar, skipSpace (line.dropWhile bareChar) with
    | c :: key, '=' :: value => (readValue (skipSpace value)).map (fun value => {doc with entries := doc.entries ++ [⟨doc.table, c :: key, value⟩]})
    | _, _ => none

def readToml (text : Text) : Option (List Entry) := ((text.splitOn '\n').foldlM readLine ⟨[], []⟩).map Document.entries

def harnessTable : List Text := ["mcp_servers".toList, "harness".toList]
def envTable : List Text := harnessTable ++ ["env".toList]

def entriesOf (spec : ServerSpec) : List Entry :=
  [⟨harnessTable, "command".toList, .str spec.command.toList⟩,
    ⟨harnessTable, "args".toList, .strs (spec.args.map String.toList)⟩,
    ⟨harnessTable, "enabled".toList, .bool true⟩,
    ⟨envTable, "HARNESS_MEM_HOST".toList, .str spec.env.harnessMemHost.toList⟩,
    ⟨envTable, "HARNESS_MEM_PORT".toList, .str spec.env.harnessMemPort.toList⟩,
    ⟨envTable, "HARNESS_MEM_DB_PATH".toList, .str spec.env.harnessMemDbPath.toList⟩,
    ⟨envTable, "NODE_PATH".toList, .str spec.env.nodePath.toList⟩]

/-! The markers in a text. -/

def markers : List Text := [beginCodexMcp, endCodexMcp]
def Unmarked (text : Text) : Prop := ∀ marker ∈ markers, times marker text = 0

def texts (spec : ServerSpec) : List String :=
  [spec.command, firstArg spec, spec.env.harnessMemHost, spec.env.harnessMemPort, spec.env.harnessMemDbPath, spec.env.nodePath]

-- A marker is a line's worth of text without quotes or backslashes, and no white space at either end.
theorem markerShape : ∀ marker ∈ markers, marker ≠ [] ∧ '\n' ∉ marker ∧ '"' ∉ marker ∧ '\\' ∉ marker ∧
    marker.getLast? = some 'p' ∧ marker.head? = some '#' := by decide

def keys : List String := ["command", "HARNESS_MEM_HOST", "HARNESS_MEM_PORT", "HARNESS_MEM_DB_PATH", "NODE_PATH"]
theorem fixedLines : ∀ marker ∈ markers, times marker "[mcp_servers.harness]".toList = 0 ∧ times marker "enabled = true".toList = 0 ∧
    times marker "[mcp_servers.harness.env]".toList = 0 ∧ times marker [] = 0 ∧ times marker ['['] = 0 ∧ times marker [']'] = 0 ∧
    (∀ key ∈ keys, times marker (key.toList ++ " = ".toList) = 0) ∧ times marker ("args = [".toList) = 0 := by decide

def escapeTomlChar (c : Char) : Text := if c = '\\' ∨ c = '"' then ['\\', c] else [c]

theorem escapeOnce (value : String) : escapeTomlString value = value.toList.flatMap escapeTomlChar := by
  rw [escapeTomlString, List.flatMap_assoc]
  refine List.flatMap_congr fun c _ => ?_
  by_cases slash : c = '\\'
  · rw [slash]
    rfl
  · by_cases quote : c = '"'
    · rw [quote]
      rfl
    · simp [backslashed, escapeTomlChar, slash, quote]

section
variable {marker : Text} (one : marker ∈ markers)
include one

theorem timesEscaped (a : Text) (value : String) : times marker (a ++ escapeTomlString value) = times marker (a ++ value.toList) := by
  obtain ⟨filled, -, quote, slash, -⟩ := markerShape marker one
  rw [escapeOnce]
  refine timesPut filled (fun c => ?_) a value.toList
  by_cases special : c = '\\' ∨ c = '"'
  · have free : c ∉ marker := by rcases special with rfl | rfl <;> assumption
    refine .inr ⟨free, '\\', [c], if_pos special, fun e mem => ?_⟩
    rcases List.mem_pair.mp mem with rfl | rfl
    · exact slash
    · exact free
  · exact .inl (if_neg special)

theorem timesQuoted (a b : Text) (value : String) :
    times marker (a ++ quoted value ++ b) = times marker a + times marker value.toList + times marker b := by
  obtain ⟨filled, -, quote, -⟩ := markerShape marker one
  have inner : a ++ quoted value ++ b = a ++ '"' :: (escapeTomlString value ++ '"' :: b) := by simp [quoted]
  have plain := timesEscaped one [] value
  rw [inner, timesBreak quote filled, timesBreak quote filled, Nat.add_assoc]
  rw [List.nil_append, List.nil_append] at plain
  rw [plain]

theorem timesAssign {key : String} (fixed : times marker (key.toList ++ " = ".toList) = 0) (value : String) :
    times marker (assign key (quoted value)) = times marker value.toList := by
  have line := timesQuoted one (key.toList ++ " = ".toList) [] value
  rw [List.append_nil, fixed, Nat.zero_add] at line
  exact line

theorem timesArgs (value : String) : times marker (assign "args" ('[' :: quoted value ++ [']'])) = times marker value.toList := by
  obtain ⟨-, -, -, -, -, close, -, front⟩ := fixedLines marker one
  have line := timesQuoted one ("args = [".toList) [']'] value
  rw [front, close, Nat.zero_add] at line
  rw [← Nat.add_zero (times marker value.toList), ← line]
  rfl

theorem timesBlock (spec : ServerSpec) : times marker (['\n'].intercalate (blockLines spec)) =
    1 + ((texts spec).map (fun text => times marker text.toList)).sum := by
  obtain ⟨filled, line, -⟩ := markerShape marker one
  obtain ⟨header, enabled, env, blank, -, -, named, -⟩ := fixedLines marker one
  have both : times marker beginCodexMcp + times marker endCodexMcp = 1 := by
    rcases List.mem_pair.mp one with rfl | rfl <;> decide
  rw [timesJoined line filled]
  have assigned : ∀ key ∈ keys, ∀ value, times marker (assign key (quoted value)) = times marker value.toList :=
    fun key mem value => timesAssign one (named key mem) value
  simp only [keys, List.forall_mem_cons] at assigned
  simp only [blockLines, texts, List.map_cons, List.map_nil, List.sum_cons, List.sum_nil, header, enabled, env, blank, assigned,
    timesArgs one]
  omega

end

/-! What one call makes of a text. -/

section
variable (spec : ServerSpec)

def core : Text := ['\n'].intercalate (blockLines spec)
def middle : Text := ['\n'].intercalate ((blockLines spec).tail.dropLast)
def framed (before after : Text) : Text := before ++ '\n' :: '\n' :: (core spec ++ '\n' :: after)
-- What trimming leaves of a text that stands last.
def lastly (text : Text) : Text := if trimEnd text = [] then [] else trimEnd text ++ ['\n']
def dropBreaks (text : Text) : Text := text.dropWhile (fun c => c = '\n')

theorem coreParts : core spec = beginCodexMcp ++ '\n' :: (middle spec ++ '\n' :: endCodexMcp) := by
  simp [core, middle, blockLines, List.intercalate]

theorem blockCore : buildCodexManagedBlock spec = core spec ++ ['\n'] := by
  simp [buildCodexManagedBlock, core, blockLines, List.intercalate]

end

section
variable {spec : ServerSpec}

theorem trimEndBreak (text : Text) : trimEnd (text ++ ['\n']) = trimEnd text := trimEndSpace (by decide) text

theorem trimEndTwice (text : Text) : trimEnd (trimEnd text) = trimEnd text := trimEndOf fun _ => trimEndLast

theorem trimEndFramed (before after : Text) : trimEnd (before ++ ['\n', '\n'] ++ buildCodexManagedBlock spec ++ after) ++ ['\n'] =
    framed spec before (lastly after) := by
  have stands : trimEnd endCodexMcp = endCodexMcp := by decide
  have solid : trimEnd (before ++ ['\n', '\n'] ++ core spec) = before ++ ['\n', '\n'] ++ core spec := by
    have ends : before ++ ['\n', '\n'] ++ core spec = before ++ ['\n', '\n'] ++ (beginCodexMcp ++ '\n' :: (middle spec ++ ['\n'])) ++ endCodexMcp := by
      rw [coreParts]
      simp
    rw [ends, trimEndAppend, stands, if_neg (by decide)]
  rw [trimEndAppend, lastly, blockCore]
  by_cases blank : trimEnd after = []
  · rw [if_pos blank, if_pos blank, ← List.append_assoc, trimEndBreak, solid]
    simp [framed]
  · rw [if_neg blank, if_neg blank]
    simp [framed]

-- The text before the block and the text after it, where the code finds one to put the new block for.
def Managed (content head rest : Text) : Prop :=
  ∃ after upTo, content.dropInfix? beginCodexMcp = some (head, after) ∧ content.dropInfix? endCodexMcp = some (upTo, rest) ∧
    head.length ≤ upTo.length
def Refused (content : Text) : Prop := (∀ head rest, ¬ Managed content head rest) ∧ unmanaged <:+: content

theorem upsertManaged {content head rest : Text} (here : Managed content head rest) :
    upsert content spec = some (framed spec (trimEnd head) (lastly (dropBreaks rest))) := by
  obtain ⟨after, upTo, first, last, ordered⟩ := here
  have breaks : (if rest.head? = some '\n' then rest.drop 1 else rest).dropWhile (fun c => c = '\n') = dropBreaks rest := by
    cases rest with
    | nil => rfl
    | cons c rest =>
      by_cases line : c = '\n' <;> simp [dropBreaks, line]
  rw [upsert, upsertManagedBlock, first, last]
  simp only [if_pos ordered, breaks]
  rw [trimEndFramed]

theorem upsertOther {content : Text} (other : ∀ head rest, ¬ Managed content head rest) : upsert content spec =
    if unmanaged <:+: content then none
    else if trimEnd content = [] then some (buildCodexManagedBlock spec) else some (framed spec (trimEnd content) []) := by
  have absent : (match content.dropInfix? beginCodexMcp, content.dropInfix? endCodexMcp with
      | some (head, _), some (upTo, rest) => if head.length ≤ upTo.length then some (head, rest) else none
      | _, _ => none) = (none : Option (Text × Text)) := by
    split
    · rename_i first last
      exact if_neg fun ordered => other _ _ ⟨_, _, first, last, ordered⟩
    · rfl
  have found : (content.dropInfix? unmanaged).isSome = true ↔ unmanaged <:+: content := by
    rw [Option.isSome_iff_ne_none, ne_eq, dropInfixNone (by decide), timesZero (by decide), not_not]
  have shape : trimEnd content ++ ['\n', '\n'] ++ buildCodexManagedBlock spec = framed spec (trimEnd content) [] := by
    rw [blockCore]
    simp [framed]
  rw [upsert, upsertManagedBlock, absent, shape]
  simp only [found]

def Clean (spec : ServerSpec) : Prop := ∀ text ∈ texts spec, Unmarked text.toList

theorem timesMiddle {marker : Text} (one : marker ∈ markers) :
    times marker (middle spec) = ((texts spec).map (fun text => times marker text.toList)).sum := by
  obtain ⟨filled, line, -⟩ := markerShape marker one
  have both : times marker beginCodexMcp + times marker endCodexMcp = 1 := by
    rcases List.mem_pair.mp one with rfl | rfl <;> decide
  have all := timesBlock one spec
  rw [← core, coreParts, timesBreak line filled, timesBreak line filled] at all
  omega

theorem cleanIff : Clean spec ↔ ∀ marker ∈ markers, ((texts spec).map (fun text => times marker text.toList)).sum = 0 := by
  simp only [List.sum_eq_zero_iff_forall_eq_nat, List.forall_mem_map]
  exact ⟨fun clean marker one text mem => clean text mem marker one, fun none text mem marker one => none marker one text mem⟩

theorem timesBlank {marker : Text} (one : marker ∈ markers) (text : Text) : times marker ('\n' :: text) = times marker text := by
  obtain ⟨filled, line, -⟩ := markerShape marker one
  have split := timesBreak line filled [] text
  rwa [times, Nat.zero_add] at split

theorem timesFramed {marker : Text} (one : marker ∈ markers) (before after : Text) : times marker (framed spec before after) =
    times marker before + (1 + times marker (middle spec)) + times marker after := by
  obtain ⟨filled, line, -⟩ := markerShape marker one
  rw [framed, timesBreak line filled, timesBlank one, timesBreak line filled, core, timesBlock one, timesMiddle one]
  omega

def managedBlock (text : Text) : Option (Text × Text × Text) :=
  (text.dropInfix? beginCodexMcp).bind (fun first => (first.2.dropInfix? endCodexMcp).map (fun last =>
    (first.1, beginCodexMcp ++ last.1 ++ endCodexMcp, last.2)))

theorem framedFound (clean : Clean spec) {before : Text} (unmarked : Unmarked before) (after : Text) :
    Managed (framed spec before after) (before ++ ['\n', '\n']) ('\n' :: after) ∧
      managedBlock (framed spec before after) = some (before ++ ['\n', '\n'], core spec, '\n' :: after) := by
  have opens : beginCodexMcp ∈ markers := List.mem_cons_self
  have closes : endCodexMcp ∈ markers := List.mem_cons_of_mem _ List.mem_cons_self
  obtain ⟨filled, line, -⟩ := markerShape _ opens
  obtain ⟨filled', line', -⟩ := markerShape _ closes
  have inside : times endCodexMcp (middle spec) = 0 := (timesMiddle closes).trans (cleanIff.mp clean _ closes)
  have first := dropInfixAfter line filled (a := before ++ ['\n']) (by rw [timesBreak line filled, unmarked _ opens]; rfl)
    ('\n' :: (middle spec ++ '\n' :: (endCodexMcp ++ '\n' :: after)))
  have last := dropInfixAfter line' filled' (a := before ++ '\n' :: '\n' :: (beginCodexMcp ++ '\n' :: middle spec)) (by
    rw [timesBreak line' filled', timesBlank closes, timesBreak line' filled', unmarked _ closes, inside]
    decide) ('\n' :: after)
  have behind := dropInfixAfter line' filled' (a := '\n' :: middle spec) (by rw [timesBlank closes, inside]) ('\n' :: after)
  have shape : framed spec before after =
      before ++ ['\n'] ++ '\n' :: (beginCodexMcp ++ '\n' :: (middle spec ++ '\n' :: (endCodexMcp ++ '\n' :: after))) := by
    rw [framed, coreParts]
    simp
  have shape' : framed spec before after =
      before ++ '\n' :: '\n' :: (beginCodexMcp ++ '\n' :: middle spec) ++ '\n' :: (endCodexMcp ++ '\n' :: after) := by
    rw [framed, coreParts]
    simp
  rw [← shape] at first
  rw [← shape'] at last
  refine ⟨⟨_, _, by simpa using first, last, by simp⟩, ?_⟩
  rw [managedBlock, first]
  have parts : core spec = beginCodexMcp ++ ('\n' :: middle spec ++ ['\n']) ++ endCodexMcp := by
    rw [coreParts]
    simp
  have behind' : ('\n' :: (middle spec ++ '\n' :: (endCodexMcp ++ '\n' :: after))).dropInfix? endCodexMcp =
    some ('\n' :: middle spec ++ ['\n'], '\n' :: after) := behind
  rw [Option.bind_some, behind', parts]
  simp

end

/-! Lines that are not blank. -/

def solid (text : Text) : List Text := (text.splitOn '\n').filter (fun line => trimEnd line ≠ [])
def trimLast (lines : List Text) : List Text := lines.dropLast ++ (lines.getLast?.map trimEnd).toList
-- No white space at the end of the last line that is not blank.
def Tidy (text : Text) : Prop := ∀ line, (solid text).getLast? = some line → trimEnd line = line

theorem solidBreak (a b : Text) : solid (a ++ '\n' :: b) = solid a ++ solid b := by
  rw [solid, List.splitOn_append_cons_self, List.filter_append, ← solid, ← solid]

theorem trimEndSolid {c : Char} (other : isSpace c = false) (text : Text) : trimEnd (text ++ [c]) = text ++ [c] :=
  trimEndOf (by simpa using other)

theorem trimLastSnoc (lines : List Text) (line : Text) : trimLast (lines ++ [line]) = lines ++ [trimEnd line] := by
  simp [trimLast]

theorem solidTrim (text : Text) : solid (trimEnd text) = trimLast (solid text) := by
  induction text using List.reverseRecOn with
  | nil => rfl
  | append_singleton text c ih =>
    by_cases line : c = '\n'
    · rw [line, trimEndBreak, ih, solidBreak]
      exact congrArg trimLast (List.append_nil _).symm
    obtain ⟨before, last, split, grown⟩ := splitSnoc line text
    have was : solid text = before.filter (fun line => trimEnd line ≠ []) ++ [last].filter (fun line => trimEnd line ≠ []) := by
      rw [solid, split, List.filter_append]
    have now : solid (text ++ [c]) = before.filter (fun line => trimEnd line ≠ []) ++ [last ++ [c]].filter (fun line => trimEnd line ≠ []) := by
      rw [solid, grown, List.filter_append]
    cases blank : isSpace c with
    | true =>
      rw [trimEndSpace blank, ih, was, now]
      by_cases none : trimEnd last = []
      · rw [List.filter_cons_of_neg (by simpa using none), List.filter_cons_of_neg (by simpa [trimEndSpace blank] using none)]
      · rw [List.filter_cons_of_pos (by simpa using none), List.filter_cons_of_pos (by simpa [trimEndSpace blank] using none),
          List.filter_nil, trimLastSnoc, trimLastSnoc, trimEndSpace blank]
    | false =>
      rw [trimEndSolid blank, now, List.filter_cons_of_pos (by simp [trimEndSolid blank]), List.filter_nil, trimLastSnoc, trimEndSolid blank]

theorem trimLastLength (lines : List Text) : (trimLast lines).length = lines.length := by
  cases lines using List.reverseRecOn with
  | nil => rfl
  | append_singleton before last => rw [trimLastSnoc, List.length_append, List.length_append]; rfl

theorem trimLastSame (text : Text) : trimLast (solid text) = solid text ↔ Tidy text := by
  unfold Tidy
  generalize solid text = lines
  cases lines using List.reverseRecOn with
  | nil => simp [trimLast]
  | append_singleton before last => simp [trimLastSnoc]

theorem solidKept (a b : Text) : solid (trimEnd a) ++ solid (trimEnd b) = solid a ++ solid b ↔ Tidy a ∧ Tidy b := by
  rw [solidTrim, solidTrim, ← trimLastSame, ← trimLastSame]
  constructor
  · exact fun same => List.append_inj same (trimLastLength _)
  · rintro ⟨first, second⟩
    rw [first, second]

theorem solidDropBreaks (text : Text) : solid (dropBreaks text) = solid text := by
  induction text with
  | nil => rfl
  | cons c text ih =>
    rw [dropBreaks, List.dropWhile_cons]
    split
    · rename_i line
      rw [← dropBreaks, ih, of_decide_eq_true line]
      exact (solidBreak [] text).symm
    · rfl

theorem solidLastly (text : Text) : solid (lastly text) = solid (trimEnd text) := by
  rw [lastly]
  split
  · rename_i blank
    rw [blank]
  · rw [solidBreak]
    exact List.append_nil _

def outside (text : Text) : List Text := match managedBlock text with
  | some (head, _, rest) => [head, rest]
  | none => [text]
def keptLines (text : Text) : List Text := (outside text).flatMap solid

section
variable {spec : ServerSpec}

theorem keptFramed (clean : Clean spec) {before : Text} (unmarked : Unmarked before) (after : Text) :
    keptLines (framed spec before after) = solid before ++ solid after := by
  have head : solid (before ++ ['\n', '\n']) = solid before := by
    rw [solidBreak]
    exact List.append_nil _
  have rest : solid ('\n' :: after) = solid after := solidBreak [] after
  simp [keptLines, outside, (framedFound clean unmarked after).2, head, rest]

theorem lastlyAgain (rest : Text) : lastly (dropBreaks ('\n' :: lastly (dropBreaks rest))) = lastly (dropBreaks rest) := by
  have drop : ∀ text, dropBreaks ('\n' :: text) = dropBreaks text := fun text => List.dropWhile_cons_of_pos (by decide)
  rw [drop]
  by_cases blank : trimEnd (dropBreaks rest) = []
  · have none : lastly (dropBreaks rest) = [] := if_pos blank
    rw [none]
    rfl
  · have some : lastly (dropBreaks rest) = trimEnd (dropBreaks rest) ++ ['\n'] := if_neg blank
    obtain ⟨c, more, starts⟩ := List.exists_cons_of_ne_nil blank
    obtain ⟨cut, whole⟩ := trimEndPrefix (dropBreaks rest)
    have first : (dropBreaks rest).head? = Option.some c := by rw [← whole, starts]; rfl
    have other : ¬ c = '\n' := by
      have stopped := List.head?_dropWhile_not (fun c => c = '\n') rest
      rw [← dropBreaks, first] at stopped
      simpa using stopped
    have stays : dropBreaks (trimEnd (dropBreaks rest) ++ ['\n']) = trimEnd (dropBreaks rest) ++ ['\n'] := by
      rw [starts, List.cons_append, dropBreaks, List.dropWhile_cons_of_neg (by simpa using other)]
    rw [some, stays, lastly, trimEndBreak, trimEndTwice, if_neg blank]

-- What the call writes it finds again, and writes again.
theorem framedAgain (clean : Clean spec) {before : Text} (unmarked : Unmarked before) (trimmed : trimEnd before = before) (rest : Text) :
    upsert (framed spec before (lastly (dropBreaks rest))) spec = some (framed spec before (lastly (dropBreaks rest))) := by
  have head : trimEnd (before ++ ['\n', '\n']) = before := by
    have two : before ++ ['\n', '\n'] = before ++ ['\n'] ++ ['\n'] := by simp
    rw [two, trimEndBreak, trimEndBreak, trimmed]
  rw [upsertManaged (framedFound clean unmarked _).1, head, lastlyAgain]

end

/-! Reading the block as TOML. -/

def escaped (text : Text) : Text := text.flatMap escapeTomlChar
def Plain (text : Text) : Prop := ∀ c ∈ text, control c = false
instance (text : Text) : Decidable (Plain text) := List.decidableBAll (fun c => control c = false) text

theorem readPlain {c : Char} (slash : c ≠ '\\') (quote : c ≠ '"') (rest : Text) : readString (c :: rest) =
    if control c then none else (readString rest).map (fun found => (c :: found.1, found.2)) := by
  conv_lhs => rw [readString.eq_def]
  split <;> simp_all

theorem readSpecial {c : Char} (special : c = '\\' ∨ c = '"') (rest : Text) :
    readString ('\\' :: c :: rest) = (readString rest).map (fun found => (c :: found.1, found.2)) := by
  rcases special with rfl | rfl <;> rfl

-- One character of a value, escaped.
theorem readEscapedChar (c : Char) (rest : Text) : readString (escapeTomlChar c ++ rest) =
    if control c then none else (readString rest).map (fun found => (c :: found.1, found.2)) := by
  by_cases special : c = '\\' ∨ c = '"'
  · have fine : control c = false := by rcases special with rfl | rfl <;> decide
    rw [escapeTomlChar, if_pos special, fine, if_neg (by decide)]
    exact readSpecial special rest
  · rw [escapeTomlChar, if_neg special]
    exact readPlain (fun slash => special (.inl slash)) (fun quote => special (.inr quote)) rest

theorem readOpen (text : Text) : readString (escaped text) = none := by
  induction text with
  | nil => rfl
  | cons c text ih =>
    rw [escaped, List.flatMap_cons, readEscapedChar, ← escaped, ih]
    split <;> rfl

theorem readClosed (text rest : Text) : readString (escaped text ++ '"' :: rest) = if Plain text then some (text, rest) else none := by
  induction text with
  | nil => rfl
  | cons c text ih =>
    rw [escaped, List.flatMap_cons, List.append_assoc, readEscapedChar, ← escaped, ih]
    have both : Plain (c :: text) ↔ control c = false ∧ Plain text := List.forall_mem_cons
    simp only [both]
    cases control c with
    | true => rfl
    | false =>
      by_cases plain : Plain text
      · rw [if_neg Bool.false_ne_true, if_pos plain, if_pos ⟨rfl, plain⟩]
        rfl
      · rw [if_neg Bool.false_ne_true, if_neg plain, if_neg fun all => plain all.2]
        rfl

def runLines (doc : Document) (text : Text) : Option Document := (text.splitOn '\n').foldlM readLine doc

theorem runOne {text : Text} (line : '\n' ∉ text) (doc : Document) : runLines doc text = readLine doc text := by
  rw [runLines, List.splitOn_eq_singleton (by simpa using line)]
  simp

theorem escapedBreak {text : Text} (line : '\n' ∉ text) : '\n' ∉ escaped text := by
  intro mem
  obtain ⟨c, here, put⟩ := List.mem_flatMap.mp mem
  unfold escapeTomlChar at put
  split at put
  · rcases List.mem_pair.mp put with slash | same
    · cases slash
    · exact line (same ▸ here)
  · exact line (List.mem_singleton.mp put ▸ here)

-- A value on a line: with a line break in it, the string ends with the line and is never closed.
theorem runValue {doc done : Document} {front back text : Text} (line : '\n' ∉ front ++ back)
    (opened : ∀ part, readLine doc (front ++ escaped part) = none)
    (closed : readLine doc (front ++ escaped text ++ '"' :: back) = if Plain text then some done else none) :
    runLines doc (front ++ escaped text ++ '"' :: back) = if Plain text then some done else none := by
  rw [List.mem_append, not_or] at line
  by_cases broken : '\n' ∈ text
  · obtain ⟨a, b, rfl, free⟩ := List.eq_append_cons_of_mem broken
    have control : ¬ Plain (a ++ '\n' :: b) := fun plain => absurd (plain '\n' (by simp)) (by decide)
    have shape : front ++ escaped (a ++ '\n' :: b) ++ '"' :: back = (front ++ escaped a) ++ '\n' :: (escaped b ++ '"' :: back) := by
      have one : escapeTomlChar '\n' = ['\n'] := by decide
      simp [escaped, one]
    rw [if_neg control, shape, runLines, List.splitOn_append_cons_self, List.foldlM_append, ← runLines,
      runOne (by simp [line.1, escapedBreak free]), opened]
    rfl
  · rw [runOne, closed]
    simp [line.1, line.2, escapedBreak broken]

def entered (doc : Document) (key : String) (value : Value) : Document :=
  {doc with entries := doc.entries ++ [⟨doc.table, key.toList, value⟩]}

theorem readAssign (doc : Document) {key : String} (named : key ∈ "args" :: keys) {c : Char} (starts : c = '"' ∨ c = '[') (rest : Text) :
    readLine doc (assign key (c :: rest)) = (readValue (c :: rest)).map (entered doc key) := by
  simp only [keys, List.mem_cons, List.not_mem_nil, or_false] at named
  rcases named with rfl | rfl | rfl | rfl | rfl | rfl <;> rcases starts with rfl | rfl <;> rfl

theorem quotedEscaped (value : String) : quoted value = '"' :: (escaped value.toList ++ ['"']) := by
  rw [quoted, escapeOnce]
  rfl

theorem runQuoted (doc : Document) {key : String} (named : key ∈ keys) (value : String) :
    runLines doc (assign key (quoted value)) = if Plain value.toList then some (entered doc key (.str value.toList)) else none := by
  have known : key ∈ "args" :: keys := List.mem_cons_of_mem _ named
  have line : '\n' ∉ assign key ['"'] ++ [] := by
    have all : ∀ key ∈ keys, '\n' ∉ assign key ['"'] ++ [] := by decide
    exact all key named
  have shape : ∀ more, assign key ['"'] ++ more = assign key ('"' :: more) := fun more => by simp [assign]
  have run := @runValue doc (entered doc key (.str value.toList)) (assign key ['"']) [] value.toList line
    (fun part => by
      rw [shape, readAssign doc known (.inl rfl), readValue, readOpen]
      rfl)
    (by
      rw [List.append_assoc, shape, readAssign doc known (.inl rfl), readValue, readClosed]
      by_cases plain : Plain value.toList
      · rw [if_pos plain, if_pos plain]
        rfl
      · rw [if_neg plain, if_neg plain]
        rfl)
  rw [List.append_assoc, shape] at run
  rwa [quotedEscaped]

theorem runArgs (doc : Document) (value : String) : runLines doc (assign "args" ('[' :: quoted value ++ [']'])) =
    if Plain value.toList then some (entered doc "args" (.strs [value.toList])) else none := by
  have known : "args" ∈ "args" :: keys := List.mem_cons_self
  have line : '\n' ∉ assign "args" ['[', '"'] ++ [']'] := by decide
  have shape : ∀ more, assign "args" ['[', '"'] ++ more = assign "args" ('[' :: '"' :: more) := fun more => by simp [assign]
  have run := @runValue doc (entered doc "args" (.strs [value.toList])) (assign "args" ['[', '"']) [']'] value.toList line
    (fun part => by
      rw [shape, readAssign doc known (.inr rfl), readValue, List.length_cons, readStrings, readOpen]
      rfl)
    (by
      rw [List.append_assoc, shape, readAssign doc known (.inr rfl), readValue, List.length_cons, readStrings, readClosed]
      by_cases plain : Plain value.toList
      · rw [if_pos plain, if_pos plain]
        rfl
      · rw [if_neg plain, if_neg plain]
        rfl)
  rw [List.append_assoc, shape] at run
  rw [quotedEscaped]
  simpa using run

theorem foldLines (lines : List Text) (doc : Document) :
    (lines.flatMap (List.splitOn '\n')).foldlM readLine doc = lines.foldlM runLines doc := by
  induction lines generalizing doc with
  | nil => rfl
  | cons line rest ih =>
    rw [List.flatMap_cons, List.foldlM_append, List.foldlM_cons, runLines]
    exact congrArg _ (funext ih)

theorem runFixed (doc : Document) : runLines doc beginCodexMcp = some doc ∧ runLines doc endCodexMcp = some doc ∧
    runLines doc "[mcp_servers.harness]".toList = some {doc with table := harnessTable} ∧
    runLines doc "enabled = true".toList = some (entered doc "enabled" (.bool true)) ∧ runLines doc [] = some doc ∧
    runLines doc "[mcp_servers.harness.env]".toList = some {doc with table := envTable} := ⟨rfl, rfl, rfl, rfl, rfl, rfl⟩

theorem argsIff (spec : ServerSpec) : [(firstArg spec).toList] = spec.args.map String.toList ↔ spec.args.length = 1 := by
  unfold firstArg
  cases spec.args with
  | nil => simp
  | cons arg rest => simp [eq_comm]

theorem readCore (spec : ServerSpec) : readToml (core spec) = some (entriesOf spec) ↔
    (∀ text ∈ texts spec, Plain text.toList) ∧ spec.args.length = 1 := by
  have quotes : ∀ key ∈ keys, ∀ doc value, runLines doc (assign key (quoted value)) =
      if Plain value.toList then some (entered doc key (.str value.toList)) else none := fun key named doc value => runQuoted doc named value
  simp only [keys, List.forall_mem_cons] at quotes
  have lines : readToml (core spec) = ((blockLines spec).foldlM runLines ⟨[], []⟩).map Document.entries := by
    rw [readToml, core, splitJoined (by simp [blockLines]), foldLines]
  have chain : ∀ (p : Prop) [Decidable p] (doc : Document) (next : Document → Option Document),
      ((if p then some doc else none) >>= next) = if p then next doc else none := by
    intro p _ doc next
    split <;> rfl
  rw [lines, ← argsIff]
  simp only [blockLines, List.foldlM_cons, List.foldlM_nil, runFixed, runArgs, quotes, chain, Option.bind_eq_bind, Option.bind_some,
    Option.map_eq_some_iff, Option.ite_none_right_eq_some, texts, List.forall_mem_cons]
  simp [entered, entriesOf, and_assoc]

/-! When the call is a lens. -/

structure Upserted (content : Text) (spec : ServerSpec) (result : Text) : Prop where
  block : ∀ marker ∈ markers, times marker result = 1
  lines : keptLines result = keptLines content
  again : upsert result spec = some result
  strings : ∃ head block rest, managedBlock result = some (head, block, rest) ∧ readToml block = some (entriesOf spec)

def GoodSpec (spec : ServerSpec) : Prop := spec.args.length = 1 ∧ ∀ text ∈ texts spec, Plain text.toList ∧ Unmarked text.toList
-- The markers stand in order, with none behind them, or the text has none and is not blank; and no white space goes from a line.
def GoodText (content : Text) : Prop :=
  (∃ head rest, Managed content head rest ∧ Unmarked rest ∧ Tidy head ∧ Tidy rest) ∨
    Unmarked content ∧ trimEnd content ≠ [] ∧ Tidy content

section
variable {content : Text} {spec : ServerSpec}

theorem unmarkedPrefix {a b : Text} (within : a <+: b) (unmarked : Unmarked b) : Unmarked a := by
  intro marker one
  obtain ⟨rest, rfl⟩ := within
  exact timesPrefix (markerShape marker one).1 (unmarked marker one)

theorem managedHead {head rest : Text} (here : Managed content head rest) : Unmarked head := by
  obtain ⟨after, upTo, first, last, ordered⟩ := here
  obtain ⟨whole, -⟩ := dropInfixSome.mp first
  obtain ⟨whole', -⟩ := dropInfixSome.mp last
  have filled : ∀ marker ∈ markers, marker ≠ [] := fun marker one => (markerShape marker one).1
  have starts : head <+: content := ⟨beginCodexMcp ++ after, by rw [whole, List.append_assoc]⟩
  have starts' : upTo <+: content := ⟨endCodexMcp ++ rest, by rw [whole', List.append_assoc]⟩
  have within : head <+: upTo := List.prefix_of_prefix_length_le starts starts' ordered
  intro marker one
  rcases List.mem_pair.mp one with rfl | rfl
  · exact dropInfixFirst (filled _ one) first
  · obtain ⟨more, rfl⟩ := within
    exact timesPrefix (filled _ one) (dropInfixFirst (filled _ one) last)

theorem timesTrimEnd {marker : Text} (one : marker ∈ markers) (text : Text) : times marker (trimEnd text) = times marker text := by
  obtain ⟨filled, -, -, -, last, -⟩ := markerShape marker one
  have split : text = trimEnd text ++ (text.reverse.takeWhile isSpace).reverse := by
    rw [trimEnd, ← List.reverse_append, List.takeWhile_append_dropWhile, List.reverse_reverse]
  conv_rhs => rw [split]
  refine (timesBack (fun c mem => ?_) filled _).symm
  rw [last]
  rintro ⟨⟩
  have blank := List.mem_takeWhile_imp (List.mem_reverse.mp mem)
  cases blank

theorem timesLastly {marker : Text} (one : marker ∈ markers) (rest : Text) :
    times marker (lastly (dropBreaks rest)) = times marker rest := by
  obtain ⟨filled, line, -, -, -, first⟩ := markerShape marker one
  have front : times marker (dropBreaks rest) = times marker rest := by
    have split : rest = rest.takeWhile (fun c => c = '\n') ++ dropBreaks rest := (List.takeWhile_append_dropWhile).symm
    conv_rhs => rw [split]
    refine (timesFront (fun c mem => ?_) filled _).symm
    have same := List.mem_takeWhile_imp mem
    rw [first, of_decide_eq_true same]
    decide
  have back := timesTrimEnd one (dropBreaks rest)
  rw [← front, ← back, lastly]
  split
  · rename_i blank
    rw [blank]
  · exact timesBreak line filled _ []

-- A text the call puts the block into: one end of it before, trimmed, and one after.
theorem upsertedFramed {before rest : Text} (trimmed : trimEnd before = before) :
    Upserted content spec (framed spec before (lastly (dropBreaks rest))) ↔ GoodSpec spec ∧ Unmarked before ∧ Unmarked rest ∧
      solid before ++ solid (trimEnd (dropBreaks rest)) = keptLines content := by
  have count : ∀ marker ∈ markers, times marker (framed spec before (lastly (dropBreaks rest))) =
      times marker before + (1 + times marker (middle spec)) + times marker rest := fun marker one => by
    rw [timesFramed one, timesLastly one]
  have clean : (∀ marker ∈ markers, times marker (middle spec) = 0) ↔ Clean spec := by
    rw [cleanIff]
    exact forall₂_congr fun marker one => by rw [timesMiddle one]
  constructor
  · rintro ⟨block, lines, -, head, found, tail, here, read⟩
    have each : ∀ marker ∈ markers, times marker before = 0 ∧ times marker (middle spec) = 0 ∧ times marker rest = 0 := fun marker one => by
      have once := (count marker one).symm.trans (block marker one)
      omega
    have cleaned := clean.mp fun marker one => (each marker one).2.1
    have unmarked : Unmarked before := fun marker one => (each marker one).1
    have place := (framedFound cleaned unmarked (lastly (dropBreaks rest))).2
    rw [here] at place
    obtain ⟨-, rfl, -⟩ : head = _ ∧ found = core spec ∧ tail = _ := by simpa using place
    obtain ⟨plain, one⟩ := (readCore spec).mp read
    rw [keptFramed cleaned unmarked, solidLastly] at lines
    exact ⟨⟨one, fun text mem => ⟨plain text mem, cleaned text mem⟩⟩, unmarked, fun marker one => (each marker one).2.2, lines⟩
  · rintro ⟨⟨one, good⟩, unmarked, free, lines⟩
    have cleaned : Clean spec := fun text mem => (good text mem).2
    refine ⟨fun marker mem => ?_, ?_, framedAgain cleaned unmarked trimmed rest, _, _, _,
      (framedFound cleaned unmarked (lastly (dropBreaks rest))).2, (readCore spec).mpr ⟨fun text mem => (good text mem).1, one⟩⟩
    · rw [count marker mem, unmarked marker mem, clean.mpr cleaned marker mem, free marker mem]
    · rw [keptFramed cleaned unmarked, solidLastly, lines]

-- The two markers begin with a sign neither has again, so the second does not begin inside the first.
theorem markersApart {after more rest : Text} (same : beginCodexMcp ++ after = more ++ endCodexMcp ++ rest) :
    beginCodexMcp.length ≤ more.length := by
  by_contra short
  obtain ⟨tail, parts⟩ : more <+: beginCodexMcp := List.prefix_of_prefix_length_le ⟨endCodexMcp ++ rest, by rw [same, List.append_assoc]⟩
    (List.prefix_append _ after) (Nat.le_of_lt (Nat.lt_of_not_le short))
  have starts : tail ++ after = endCodexMcp ++ rest := by
    rw [← parts, List.append_assoc, List.append_assoc, List.append_cancel_left_eq] at same
    exact same
  cases more with
  | nil =>
    rw [List.nil_append] at parts
    have equal := (List.append_inj starts (by rw [parts]; decide)).1
    exact absurd (parts.symm.trans equal) (by decide)
  | cons c more =>
    cases tail with
    | nil => exact absurd (by rw [← parts, List.append_nil]) short
    | cons d tail =>
      have sign : d = '#' := (List.cons.inj starts).1
      have once : '#' ∉ beginCodexMcp.tail := by decide
      refine absurd ?_ once
      rw [← parts, sign]
      simp

theorem keptManaged {head rest : Text} (here : Managed content head rest) : keptLines content = solid head ++ solid rest := by
  obtain ⟨after, upTo, first, last, ordered⟩ := here
  obtain ⟨whole, -⟩ := dropInfixSome.mp first
  rw [whole, List.append_assoc] at last
  obtain ⟨more, -, behind⟩ := dropInfixLater last ordered
  obtain ⟨middle, -, closed⟩ := dropInfixLater behind (markersApart (dropInfixSome.mp behind).1)
  simp [keptLines, outside, managedBlock, first, closed]

theorem keptUnmarked (unmarked : Unmarked content) : keptLines content = solid content := by
  have opens : beginCodexMcp ∈ markers := List.mem_cons_self
  have absent := (dropInfixNone (markerShape _ opens).1).mpr (unmarked _ opens)
  simp [keptLines, outside, managedBlock, absent]

theorem blockLost : upsert (buildCodexManagedBlock spec) spec ≠ some (buildCodexManagedBlock spec) := by
  have longer : ∀ before after, framed spec before after ≠ buildCodexManagedBlock spec := by
    intro before after same
    have size := congrArg List.length same
    rw [blockCore] at size
    simp [framed] at size
    omega
  have second : ∀ (first line next : Text) (more : List Text), line <:+: ['\n'].intercalate (first :: line :: next :: more) :=
    fun first line next more => ⟨first ++ ['\n'], '\n' :: ['\n'].intercalate (next :: more), by simp [List.intercalate]⟩
  have header : unmanaged <:+: buildCodexManagedBlock spec := second _ _ _ _
  by_cases here : ∃ head rest, Managed (buildCodexManagedBlock spec) head rest
  · obtain ⟨head, rest, managed⟩ := here
    rw [upsertManaged managed]
    exact fun same => longer _ _ (Option.some.inj same)
  · rw [upsertOther fun head rest managed => here ⟨head, rest, managed⟩, if_pos header]
    exact (Option.some_ne_none _).symm

theorem managedOnce {head rest head' rest' : Text} (one : Managed content head rest) (other : Managed content head' rest') :
    head = head' ∧ rest = rest' := by
  obtain ⟨after, upTo, first, last, -⟩ := one
  obtain ⟨after', upTo', first', last', -⟩ := other
  rw [first] at first'
  rw [last] at last'
  exact ⟨(Prod.mk.inj (Option.some.inj first')).1, (Prod.mk.inj (Option.some.inj last')).2⟩

theorem lensManaged {head rest : Text} (managed : Managed content head rest) :
    (∀ result, upsert content spec = some result → Upserted content spec result) ↔ GoodSpec spec ∧ GoodText content := by
  have plain : Unmarked (trimEnd head) := unmarkedPrefix (trimEndPrefix head) (managedHead managed)
  have text : GoodText content ↔ Unmarked rest ∧ Tidy head ∧ Tidy rest := by
    constructor
    · rintro (⟨head', rest', managed', good⟩ | ⟨unmarked, -⟩)
      · obtain ⟨rfl, rfl⟩ := managedOnce managed managed'
        exact good
      · obtain ⟨after, -, first, -⟩ := managed
        have opens : beginCodexMcp ∈ markers := List.mem_cons_self
        rw [(dropInfixNone (markerShape _ opens).1).mpr (unmarked _ opens)] at first
        cases first
    · exact fun good => .inl ⟨head, rest, managed, good⟩
  have tidy : solid (trimEnd head) ++ solid (trimEnd (dropBreaks rest)) = keptLines content ↔ Tidy head ∧ Tidy rest := by
    have same : Tidy (dropBreaks rest) ↔ Tidy rest := by rw [Tidy, Tidy, solidDropBreaks]
    rw [keptManaged managed, ← solidDropBreaks rest, solidKept, same]
  rw [upsertManaged managed]
  simp only [Option.some.injEq, forall_eq']
  rw [upsertedFramed (trimEndTwice head), tidy, text, and_iff_right plain]

-- A text that is not blank and has no block gets one after it.
theorem appendedUpserted (filled : trimEnd content ≠ []) : Upserted content spec (framed spec (trimEnd content) []) ↔
    GoodSpec spec ∧ Unmarked content ∧ trimEnd content ≠ [] ∧ Tidy content := by
  have written := @upsertedFramed content spec (trimEnd content) [] (trimEndTwice content)
  have none : lastly (dropBreaks []) = [] := rfl
  have nothing : Unmarked [] := fun marker _ => rfl
  have unmarked : Unmarked (trimEnd content) ↔ Unmarked content := forall₂_congr fun marker one => by rw [timesTrimEnd one]
  have tidy : Unmarked content → (solid (trimEnd content) ++ solid (trimEnd (dropBreaks [])) = keptLines content ↔ Tidy content) := by
    intro free
    have empty : Tidy [] := fun line last => by cases last
    rw [keptUnmarked free, ← List.append_nil (solid content), show dropBreaks [] = [] from rfl]
    exact (solidKept content []).trans (and_iff_left empty)
  rw [none] at written
  rw [written, unmarked]
  constructor
  · rintro ⟨good, free, -, lines⟩
    exact ⟨good, free, filled, (tidy free).mp lines⟩
  · rintro ⟨good, free, -, lines⟩
    exact ⟨good, free, nothing, (tidy free).mpr lines⟩

theorem upsertLens (content : Text) (spec : ServerSpec) : (∀ result, upsert content spec = some result → Upserted content spec result) ↔
    Refused content ∨ GoodSpec spec ∧ GoodText content := by
  by_cases here : ∃ head rest, Managed content head rest
  · obtain ⟨head, rest, managed⟩ := here
    have notRefused : ¬ Refused content := fun refused => refused.1 head rest managed
    rw [or_iff_right notRefused, lensManaged managed]
  · have other : ∀ head rest, ¬ Managed content head rest := fun head rest managed => here ⟨head, rest, managed⟩
    have text : GoodText content ↔ Unmarked content ∧ trimEnd content ≠ [] ∧ Tidy content := by
      refine ⟨fun good => good.resolve_left ?_, .inr⟩
      rintro ⟨head, rest, managed, -⟩
      exact other head rest managed
    rw [upsertOther other]
    by_cases header : unmanaged <:+: content
    · have refused : Refused content := ⟨other, header⟩
      simp [if_pos header, refused]
    have notRefused : ¬ Refused content := fun refused => header refused.2
    rw [or_iff_right notRefused, if_neg header, text]
    by_cases blank : trimEnd content = []
    · rw [if_pos blank]
      constructor
      · exact fun all => absurd (all _ rfl).again blockLost
      · exact fun good => absurd blank good.2.2.1
    · rw [if_neg blank]
      simp only [Option.some.injEq, forall_eq']
      exact appendedUpserted blank

end

def sampleSpec : ServerSpec :=
  ⟨"node", ["/opt/harness-mem/mcp-server/dist/index.js"],
    ⟨"127.0.0.1", "37888", "/home/u/.harness-mem/harness-mem.db", "/opt/harness-mem/mcp-server/node_modules"⟩⟩

-- An empty file: the second call puts two line breaks before what the first one wrote.
theorem emptyFile : upsert [] sampleSpec = some (buildCodexManagedBlock sampleSpec) ∧
    upsert (buildCodexManagedBlock sampleSpec) sampleSpec = some ('\n' :: '\n' :: buildCodexManagedBlock sampleSpec) ∧
    ¬ ∀ result, upsert [] sampleSpec = some result → Upserted [] sampleSpec result := by
  have first : upsert [] sampleSpec = some (buildCodexManagedBlock sampleSpec) := by decide +kernel
  refine ⟨first, by decide +kernel, fun all => ?_⟩
  exact absurd (all _ first).again blockLost

end HarnessMem.McpConfig
