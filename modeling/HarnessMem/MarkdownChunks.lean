import HarnessMem.Lib.Pieces
import HarnessMem.Text
import Mathlib.Data.List.Induction

/-! A markdown document in pieces: the text under each heading, and the body of each code fence that names
a language. -/
namespace HarnessMem.MarkdownChunks
open Js Text Regex Pieces

abbrev Line := List Char

def maxChunkContent : Nat := 5000
def untitled : String := "（無題）"

structure DocumentChunk where
  title : String
  content : String
  deriving DecidableEq, Repr

-- Every pattern is anchored, and so only tried where the line begins; the text of its group.
def matched (re : Re) (line : Line) : Option String :=
  (here re [] line).map (fun found => (capture 1 found.groups).getD "")

def fenceStart (line : Line) : Option String := matched (chain [.start, word "```", .group 1 (star (.set Regex.isWord))]) line
def fenceEnd (line : Line) : Bool := (matched (chain [.start, word "```", star space, .stop]) line).isSome

def lineBreak (c : Char) : Bool := c = '\n' || c = '\r' || c.toNat = 0x2028 || c.toNat = 0x2029
def heading (marks : String) (line : Line) : Option String :=
  matched (chain [.start, word marks, plus space, .group 1 (plus (.set (fun c => !lineBreak c)))]) line

-- The language a line opens a fence for, and the title of a heading of the first two levels.
def opens (line : Line) : Option String := if fenceEnd line then none else fenceStart line
def titles (line : Line) : Option String := (heading "#" line).orElse (fun _ => heading "##" line)

def lines (text : String) : List Line := text.toList.splitOn '\n'
def joinLines (parts : List Line) : String := String.ofList (['\n'].intercalate parts)
def dropReturns (s : String) : String := String.ofList (s.toList.filter (fun c => c ≠ '\r'))

structure Scanner where
  chunks : List DocumentChunk
  currentTitle : String
  currentLines : List Line
  inCodeFence : Bool
  codeFenceLang : String
  codeLines : List Line

def Scanner.start : Scanner := ⟨[], "", [], false, "", []⟩

def flushChunk (s : Scanner) : Scanner :=
  let content := slice (dropReturns (trim (joinLines s.currentLines))) 0 maxChunkContent
  if content = "" then s
  else {s with chunks := s.chunks ++ [⟨if s.currentTitle = "" then untitled else s.currentTitle, content⟩]}

def flushCodeChunk (s : Scanner) : Scanner :=
  let content := slice (trim (joinLines s.codeLines)) 0 maxChunkContent
  let title := if s.codeFenceLang = "" then "コードブロック" else s.codeFenceLang ++ " コードブロック"
  {s with chunks := if content = "" then s.chunks else s.chunks ++ [⟨title, content⟩], codeLines := [], codeFenceLang := ""}

def scanLine (s : Scanner) (line : Line) : Scanner :=
  if s.inCodeFence then
    if fenceEnd line then flushCodeChunk {s with inCodeFence := false}
    else {s with codeLines := s.codeLines ++ [line]}
  else match opens line with
    | some lang => {flushChunk s with currentLines := [], inCodeFence := true, codeFenceLang := lang}
    | none => match titles line with
      | some title => {flushChunk s with currentTitle := trim title, currentLines := []}
      | none => {s with currentLines := s.currentLines ++ [line]}

def finish (s : Scanner) : Scanner :=
  flushChunk (if s.inCodeFence && !s.codeLines.isEmpty then flushCodeChunk s else s)

def parseMarkdownChunks (text : String) : List DocumentChunk :=
  if trim text = "" then []
  else
    let chunks := (finish ((lines text).foldl scanLine Scanner.start)).chunks
    if chunks = [] then [⟨untitled, slice (trim text) 0 maxChunkContent⟩] else chunks

/-! What the chunks are chunks of. -/

-- A run of lines between the headings and the fences around it; code has its language for a title.
structure Section where
  code : Bool
  title : String
  lines : List Line

def Section.uncut (s : Section) : String :=
  if s.code then trim (joinLines s.lines) else dropReturns (trim (joinLines s.lines))

def Section.chunk (s : Section) : Option DocumentChunk :=
  let content := slice s.uncut 0 maxChunkContent
  let title := if s.code then (if s.title = "" then "コードブロック" else s.title ++ " コードブロック")
    else (if s.title = "" then untitled else s.title)
  if content = "" then none else some ⟨title, content⟩

-- The sections from a place on where `lang` says which fence is open, if any, and `held` what was read of the section.
def sectionsFrom (lang : Option String) (title : String) (held : List Line) : List Line → List Section
  | [] => [⟨lang.isSome, lang.getD title, held⟩]
  | line :: rest =>
    match lang with
    | some name =>
      if fenceEnd line then ⟨true, name, held⟩ :: sectionsFrom none title [] rest
      else sectionsFrom lang title (held ++ [line]) rest
    | none => match opens line with
      | some name => ⟨false, title, held⟩ :: sectionsFrom (some name) title [] rest
      | none => match titles line with
        | some next => ⟨false, title, held⟩ :: sectionsFrom none (trim next) [] rest
        | none => sectionsFrom none title (held ++ [line]) rest

def sections (text : String) : List Section := sectionsFrom none "" [] (lines text)

theorem flushText (chunks : List DocumentChunk) (title : String) (held : List Line) (fenced : Bool) (lang : String) (code : List Line) :
    flushChunk ⟨chunks, title, held, fenced, lang, code⟩ =
      ⟨chunks ++ (Section.chunk ⟨false, title, held⟩).toList, title, held, fenced, lang, code⟩ := by
  unfold flushChunk Section.chunk
  simp only [Section.uncut, Bool.false_eq_true, if_false]
  split
  · simp
  · simp

theorem flushCode (chunks : List DocumentChunk) (title : String) (text : List Line) (fenced : Bool) (lang : String) (held : List Line) :
    flushCodeChunk ⟨chunks, title, text, fenced, lang, held⟩ =
      ⟨chunks ++ (Section.chunk ⟨true, lang, held⟩).toList, title, text, fenced, "", []⟩ := by
  unfold flushCodeChunk Section.chunk
  simp only [Section.uncut, if_true]
  split
  · simp
  · simp

theorem emptyChunk (code : Bool) (title : String) : Section.chunk ⟨code, title, []⟩ = none := by
  have nothing : trim (joinLines []) = "" := by decide
  unfold Section.chunk Section.uncut
  rw [nothing]
  cases code with
  | true => rfl
  | false => rfl

theorem finishText (chunks : List DocumentChunk) (title : String) (held : List Line) :
    (finish ⟨chunks, title, held, false, "", []⟩).chunks = chunks ++ [Section.mk false title held].filterMap Section.chunk := by
  rw [finish, if_neg (by simp), flushText, List.filterMap_cons]
  cases Section.chunk ⟨false, title, held⟩ with
  | none => rfl
  | some chunk => rfl

theorem finishCode (chunks : List DocumentChunk) (title lang : String) (held : List Line) :
    (finish ⟨chunks, title, [], true, lang, held⟩).chunks = chunks ++ [Section.mk true lang held].filterMap Section.chunk := by
  rw [finish]
  cases held with
  | nil => simp [flushText, emptyChunk]
  | cons line rest =>
    rw [if_pos (by simp), flushCode, flushText, emptyChunk, List.filterMap_cons]
    cases Section.chunk ⟨true, lang, line :: rest⟩ with
    | none => simp
    | some chunk => simp

-- The scanner's chunks are those of the sections, from any place with or without an open fence.
theorem scanSections (rest : List Line) :
    (∀ chunks title held, (finish (rest.foldl scanLine ⟨chunks, title, held, false, "", []⟩)).chunks =
        chunks ++ (sectionsFrom none title held rest).filterMap Section.chunk) ∧
      ∀ chunks title lang held, (finish (rest.foldl scanLine ⟨chunks, title, [], true, lang, held⟩)).chunks =
        chunks ++ (sectionsFrom (some lang) title held rest).filterMap Section.chunk := by
  induction rest with
  | nil => exact ⟨finishText, finishCode⟩
  | cons line rest ih =>
    obtain ⟨inText, inCode⟩ := ih
    have flushed : ∀ (piece : Section) (chunks : List DocumentChunk) (later : List Section),
        chunks ++ piece.chunk.toList ++ later.filterMap Section.chunk = chunks ++ (piece :: later).filterMap Section.chunk := by
      intro piece chunks later
      rw [List.append_assoc, List.filterMap_cons]
      cases piece.chunk with
      | none => rfl
      | some chunk => rfl
    constructor
    · intro chunks title held
      rw [List.foldl_cons, scanLine, if_neg Bool.false_ne_true, sectionsFrom]
      dsimp only
      cases opens line with
      | some name =>
        dsimp only
        rw [flushText, inCode, flushed]
      | none =>
        cases titles line with
        | some next =>
          dsimp only
          rw [flushText, inText, flushed]
        | none => exact inText chunks title (held ++ [line])
    · intro chunks title lang held
      rw [List.foldl_cons, scanLine, if_pos rfl, sectionsFrom]
      dsimp only
      cases fenceEnd line with
      | true => rw [if_pos rfl, if_pos rfl, flushCode, inText, flushed]
      | false => exact inCode chunks title lang (held ++ [line])

theorem chunksOfSections {text : String} (filled : trim text ≠ "") : parseMarkdownChunks text =
    if (sections text).filterMap Section.chunk = [] then [⟨untitled, slice (trim text) 0 maxChunkContent⟩]
    else (sections text).filterMap Section.chunk := by
  rw [parseMarkdownChunks, if_neg filled]
  dsimp only
  rw [Scanner.start, (scanSections (lines text)).1, List.nil_append, ← sections]

-- A line without carriage returns and outer white space, and what is left of the lines of a text.
def tidy (line : Line) : Line := trimEnd (trimStart (line.filter (fun c => c ≠ '\r')))
def shown (parts : List Line) : List Line := (parts.map tidy).filter (fun line => line ≠ [])
def seen (text : String) : List Line := shown (lines text)

-- The lines that have the form of neither a heading nor a fence marker, and those inside a fence that names a language.
def promisedFrom : Bool → List Line → List Line
  | _, [] => []
  | true, line :: rest => if fenceEnd line then promisedFrom false rest else line :: promisedFrom true rest
  | false, line :: rest =>
    if fenceEnd line then promisedFrom false rest
    else if (opens line).isSome then promisedFrom true rest
    else if (titles line).isSome then promisedFrom false rest
    else line :: promisedFrom false rest

def promised (text : String) : List Line := shown (promisedFrom false (lines text))

-- What the contents are cut from.
def uncut (text : String) : List String :=
  if trim text = "" then []
  else
    let parts := ((sections text).map Section.uncut).filter (fun part => part ≠ "")
    if parts = [] then [trim text] else parts

theorem shownAppend (a b : List Line) : shown (a ++ b) = shown a ++ shown b := by
  rw [shown, List.map_append, List.filter_append]
  rfl

theorem sublistShown {a b : List Line} (sub : a.Sublist b) : (shown a).Sublist (shown b) := (sub.map tidy).filter _

theorem sectionLines (rest : List Line) :
    (∀ title held, ∃ mine, (sectionsFrom none title held rest).flatMap Section.lines = held ++ mine ∧
        (promisedFrom false rest).Sublist mine ∧ mine.Sublist rest) ∧
      ∀ title lang held, ∃ mine, (sectionsFrom (some lang) title held rest).flatMap Section.lines = held ++ mine ∧
        (promisedFrom true rest).Sublist mine ∧ mine.Sublist rest := by
  induction rest with
  | nil => exact ⟨fun _ _ => ⟨[], by simp [sectionsFrom], .slnil, .slnil⟩, fun _ _ _ => ⟨[], by simp [sectionsFrom], .slnil, .slnil⟩⟩
  | cons line rest ih =>
    obtain ⟨inText, inCode⟩ := ih
    constructor
    · intro title held
      rw [sectionsFrom, promisedFrom]
      cases opened : opens line with
      | some name =>
        obtain ⟨mine, same, low, high⟩ := inCode title name []
        refine ⟨mine, by simp [same], ?_, high.cons _⟩
        have notEnd : ¬ fenceEnd line = true := by
          intro ends
          simp [opens, ends] at opened
        rwa [if_neg notEnd, if_pos (by simp)]
      | none =>
        rw [if_neg (by simp : ¬ (none : Option String).isSome = true)]
        cases titles line with
        | some next =>
          obtain ⟨mine, same, low, high⟩ := inText (trim next) []
          refine ⟨mine, by simp [same], ?_, high.cons _⟩
          rwa [if_pos (by simp : (some next).isSome = true), ite_self]
        | none =>
          obtain ⟨mine, same, low, high⟩ := inText title (held ++ [line])
          refine ⟨line :: mine, by simp [same], ?_, high.cons_cons _⟩
          rw [if_neg (by simp : ¬ (none : Option String).isSome = true)]
          split
          · exact low.cons _
          · exact low.cons_cons _
    · intro title lang held
      rw [sectionsFrom, promisedFrom]
      cases fenceEnd line with
      | true =>
        obtain ⟨mine, same, low, high⟩ := inText title []
        exact ⟨mine, by simp [same], by simpa using low, high.cons _⟩
      | false =>
        obtain ⟨mine, same, low, high⟩ := inCode title lang (held ++ [line])
        exact ⟨line :: mine, by simp [same], by simpa using low, high.cons_cons _⟩

theorem tidySpace {c : Char} (blank : isSpace c = true) (line : Line) : tidy (c :: line) = tidy line := by
  unfold tidy
  rw [List.filter_cons]
  split
  · rw [trimStart, List.dropWhile_cons_of_pos blank, ← trimStart]
  · rfl

theorem trimEndsSpace {c : Char} (blank : isSpace c = true) (text : List Char) :
    trimEnd (trimStart (text ++ [c])) = trimEnd (trimStart text) := by
  unfold trimStart
  rw [List.dropWhile_append]
  split
  · rename_i all
    rw [List.isEmpty_iff.mp all, List.dropWhile_cons_of_pos blank]
    rfl
  · exact trimEndSpace blank _

theorem tidySpaceEnd {c : Char} (blank : isSpace c = true) (line : Line) : tidy (line ++ [c]) = tidy line := by
  unfold tidy
  rw [List.filter_append, List.filter_singleton]
  cases decide (c ≠ '\r') with
  | true => exact trimEndsSpace blank _
  | false => rw [cond_false, List.append_nil]

-- White space around a text takes nothing from its lines.
theorem shownSpace {c : Char} (blank : isSpace c = true) (text : List Char) :
    shown ((c :: text).splitOn '\n') = shown (text.splitOn '\n') := by
  by_cases here : c = '\n'
  · rw [here, splitBreak]
    rfl
  · obtain ⟨first, more, split, grown⟩ := splitCons here text
    rw [split, grown, shown, shown, List.map_cons, List.map_cons, tidySpace blank]

theorem shownSpaceEnd {c : Char} (blank : isSpace c = true) (text : List Char) :
    shown ((text ++ [c]).splitOn '\n') = shown (text.splitOn '\n') := by
  by_cases here : c = '\n'
  · rw [here, List.splitOn_append_cons_self, shownAppend]
    exact List.append_nil _
  · obtain ⟨before, last, split, grown⟩ := splitSnoc here text
    have same : shown [last ++ [c]] = shown [last] := by rw [shown, shown, List.map_singleton, List.map_singleton, tidySpaceEnd blank]
    rw [split, grown, shownAppend, shownAppend, same]

theorem shownTrimStart (text : List Char) : shown ((trimStart text).splitOn '\n') = shown (text.splitOn '\n') := by
  induction text with
  | nil => rfl
  | cons c text ih =>
    rw [trimStart, List.dropWhile_cons]
    split
    · rename_i blank
      rw [← trimStart, ih, shownSpace blank]
    · rfl

theorem shownTrimEnd (text : List Char) : shown ((trimEnd text).splitOn '\n') = shown (text.splitOn '\n') := by
  induction text using List.reverseRecOn with
  | nil => rfl
  | append_singleton text c ih =>
    by_cases blank : isSpace c = true
    · rw [trimEndSpace blank, ih, shownSpaceEnd blank]
    · rw [trimEndOf]
      intro d last
      rw [List.getLast?_concat, Option.some.injEq] at last
      rw [← last]
      exact Bool.eq_false_of_not_eq_true blank

theorem seenTrim (text : String) : seen (trim text) = seen text := by
  rw [seen, lines, trim, String.toList_ofList, shownTrimEnd, shownTrimStart, ← lines, ← seen]

theorem splitReturns (text : List Char) : (text.filter (fun c => c ≠ '\r')).splitOn '\n' =
    (text.splitOn '\n').map (List.filter (fun c => c ≠ '\r')) := by
  induction text with
  | nil => rfl
  | cons c text ih =>
    by_cases here : c = '\n'
    · rw [here, List.filter_cons_of_pos (by decide), splitBreak, splitBreak, ih]
      rfl
    · obtain ⟨first, more, split, grown⟩ := splitCons here text
      rw [grown, List.map_cons, List.filter_cons, List.filter_cons]
      rw [split, List.map_cons] at ih
      split
      · obtain ⟨first', more', split', grown'⟩ := splitCons here (text.filter (fun c => c ≠ '\r'))
        rw [grown']
        rw [split'] at ih
        obtain ⟨rfl, rfl⟩ := List.cons.inj ih
        rfl
      · exact ih

theorem seenReturns (text : String) : seen (dropReturns text) = seen text := by
  have twice : ∀ line : Line, tidy (line.filter (fun c => c ≠ '\r')) = tidy line := by
    intro line
    rw [tidy, List.filter_filter]
    simp [tidy]
  rw [seen, lines, dropReturns, String.toList_ofList, splitReturns, shown, List.map_map, seen, shown]
  exact congrArg _ (List.map_congr_left fun line _ => twice line)

theorem seenJoined {parts : List Line} (free : ∀ line ∈ parts, '\n' ∉ line) : seen (joinLines parts) = shown parts := by
  rw [seen, lines, joinLines, String.toList_ofList]
  by_cases none : parts = []
  · rw [none]
    rfl
  · rw [List.splitOn_intercalate '\n' free none]

theorem seenUncut {s : Section} (free : ∀ line ∈ s.lines, '\n' ∉ line) : seen s.uncut = shown s.lines := by
  rw [Section.uncut]
  split
  · rw [seenTrim, seenJoined free]
  · rw [seenReturns, seenTrim, seenJoined free]

def contents (text : String) : List String := (parseMarkdownChunks text).map DocumentChunk.content
def cutOff (part : String) : String := slice part 0 maxChunkContent

-- Every promised line stands in the contents, in order, and they hold nothing the document does not.
def Lossless (text : String) : Prop :=
  (promised text).Sublist ((contents text).flatMap seen) ∧ ((contents text).flatMap seen).Sublist (seen text)

theorem sliceEmpty {s : String} {n : Nat} (some : 0 < n) : slice s 0 n = "" ↔ s = "" := by
  obtain ⟨m, rfl⟩ : ∃ m, n = m + 1 := ⟨n - 1, by omega⟩
  constructor
  · intro none
    rw [slice, dropUnits, Nat.sub_zero, ← String.toList_inj, String.toList_ofList] at none
    rw [← String.toList_inj]
    cases chars : s.toList with
    | nil => rfl
    | cons c rest =>
      rw [chars, takeUnits] at none
      split at none
      · split at none
        · cases none
        · cases none
      · cases none
  · rintro rfl
    rfl

theorem chunkContents (parts : List Section) : (parts.filterMap Section.chunk).map DocumentChunk.content =
    ((parts.map Section.uncut).filter (fun part => part ≠ "")).map cutOff := by
  induction parts with
  | nil => rfl
  | cons s rest ih =>
    rw [List.filterMap_cons, List.map_cons, List.filter_cons]
    have empty : cutOff s.uncut = "" ↔ s.uncut = "" := sliceEmpty (by decide)
    by_cases blank : s.uncut = ""
    · have none : s.chunk = none := if_pos (empty.mpr blank)
      rw [none, if_neg (not_not_intro blank ∘ of_decide_eq_true)]
      exact ih
    · obtain ⟨title, some⟩ : ∃ title, s.chunk = some ⟨title, cutOff s.uncut⟩ := ⟨_, if_neg (fun cut => blank (empty.mp cut))⟩
      rw [some, if_pos (decide_eq_true blank)]
      exact congrArg (cutOff s.uncut :: ·) ih

theorem contentsCut (text : String) : contents text = (uncut text).map cutOff := by
  by_cases blank : trim text = ""
  · simp [contents, uncut, parseMarkdownChunks, blank]
  · have cut := chunkContents (sections text)
    rw [contents, uncut, chunksOfSections blank, if_neg blank]
    dsimp only
    by_cases none : (sections text).filterMap Section.chunk = []
    · rw [none, List.map_nil, eq_comm, List.map_eq_nil_iff] at cut
      rw [if_pos none, if_pos cut]
      rfl
    · rw [if_neg none, if_neg, cut]
      intro nothing
      rw [nothing, List.map_nil, List.map_eq_nil_iff] at cut
      exact none cut

theorem linesFree (text : List Char) : ∀ line ∈ text.splitOn '\n', '\n' ∉ line := by
  induction text with
  | nil => simp
  | cons c text ih =>
    by_cases here : c = '\n'
    · rw [here, splitBreak]
      exact List.forall_mem_cons.mpr ⟨List.not_mem_nil, ih⟩
    · obtain ⟨first, more, split, grown⟩ := splitCons here text
      rw [split, List.forall_mem_cons] at ih
      rw [grown]
      exact List.forall_mem_cons.mpr ⟨by simp [Ne.symm here, ih.1], ih.2⟩

theorem seenEmpty : seen "" = [] := by decide

-- The lines of the sections' texts, the empty ones left out, are the lines of the sections.
theorem seenParts {parts : List Section} (free : ∀ line ∈ parts.flatMap Section.lines, '\n' ∉ line) :
    ((parts.map Section.uncut).filter (fun part => part ≠ "")).flatMap seen = shown (parts.flatMap Section.lines) := by
  induction parts with
  | nil => rfl
  | cons s rest ih =>
    rw [List.flatMap_cons, List.forall_mem_append] at free
    rw [List.map_cons, List.filter_cons, List.flatMap_cons, shownAppend, ← seenUncut free.1, ← ih free.2]
    split
    · rw [List.flatMap_cons]
    · rename_i blank
      have empty : s.uncut = "" := by simpa using blank
      rw [empty, seenEmpty, List.nil_append]

theorem uncutLines (text : String) : (promised text).Sublist ((uncut text).flatMap seen) ∧ ((uncut text).flatMap seen).Sublist (seen text) := by
  obtain ⟨mine, same, low, high⟩ := (sectionLines (lines text)).1 "" []
  rw [← sections, List.nil_append] at same
  have lowest : (promised text).Sublist (shown mine) := sublistShown low
  have parts := @seenParts (sections text) (fun line mem => linesFree _ line (high.subset (same ▸ mem)))
  rw [same] at parts
  have highest : (shown mine).Sublist (seen text) := sublistShown high
  rw [uncut]
  split
  · rename_i blank
    have nothing : seen text = [] := by rw [← seenTrim, blank, seenEmpty]
    rw [nothing] at highest ⊢
    rw [List.sublist_nil.mp highest] at lowest
    exact ⟨lowest, .slnil⟩
  · dsimp only
    split
    · rename_i none
      rw [none, List.flatMap_nil] at parts
      rw [← parts] at lowest
      rw [List.flatMap_singleton, seenTrim]
      exact ⟨lowest.trans (List.nil_sublist _), List.Sublist.refl _⟩
    · rw [parts]
      exact ⟨lowest, highest⟩

theorem losslessShort {text : String} (short : ∀ part ∈ uncut text, length part ≤ maxChunkContent) : Lossless text := by
  have whole : contents text = uncut text := by
    rw [contentsCut]
    exact (List.map_congr_left fun part mem => sliceWhole (short part mem)).trans (List.map_id _)
  rw [Lossless, whole]
  exact uncutLines text

-- The contents are cut to the chunk size, and but for that nothing is lost.
theorem markdownCut (text : String) : contents text = (uncut text).map cutOff ∧
    (promised text).Sublist ((uncut text).flatMap seen) ∧ ((uncut text).flatMap seen).Sublist (seen text) ∧
      ((∀ part ∈ uncut text, length part ≤ maxChunkContent) → Lossless text) :=
  ⟨contentsCut text, (uncutLines text).1, (uncutLines text).2, losslessShort⟩

-- A heading, and a fence that is never closed.
def openFence : String := "# a\nx\n```js\n# y"

theorem openFenceKept : Lossless openFence ∧ promised openFence = ["x".toList, "# y".toList] :=
  ⟨(markdownCut openFence).2.2.2 (by decide), by decide⟩

-- One line of a character more than a chunk holds.
def longLine : String := String.ofList (List.replicate (maxChunkContent + 1) 'a')

theorem unmarked {c : Char} (other : c ≠ 'a') (marks : List Char) (re : Re) (n : Nat) :
    matched (.seq .start (.seq (word (String.ofList (c :: marks))) re)) (List.replicate (n + 1) 'a') = none := by
  simp [matched, here, word, ends, eat, char, List.replicate_succ, Ne.symm other]

-- A line of the letter a alone is neither a heading nor a fence marker.
theorem plainLine (n : Nat) : fenceEnd (List.replicate (n + 1) 'a') = false ∧ opens (List.replicate (n + 1) 'a') = none ∧
    titles (List.replicate (n + 1) 'a') = none := by
  have ends : fenceEnd (List.replicate (n + 1) 'a') = false := by
    have never := unmarked (c := backquote) (by decide) [backquote, backquote] (.seq (star space) (.seq .stop .empty)) n
    exact congrArg Option.isSome never
  have fence : fenceStart (List.replicate (n + 1) 'a') = none := unmarked (c := backquote) (by decide) [backquote, backquote] _ n
  have first : heading "#" (List.replicate (n + 1) 'a') = none := unmarked (c := '#') (by decide) [] _ n
  have second : heading "##" (List.replicate (n + 1) 'a') = none := unmarked (c := '#') (by decide) ['#'] _ n
  exact ⟨ends, by rw [opens, fence, ite_self], by rw [titles, first, second]; rfl⟩

theorem plainTidy (n : Nat) : tidy (List.replicate n 'a') = List.replicate n 'a' ∧
    trim (String.ofList (List.replicate n 'a')) = String.ofList (List.replicate n 'a') ∧
      dropReturns (String.ofList (List.replicate n 'a')) = String.ofList (List.replicate n 'a') := by
  have bare : (List.replicate n 'a').filter (fun c => c ≠ '\r') = List.replicate n 'a' := by
    rw [List.filter_eq_self]
    intro c mem
    rw [List.eq_of_mem_replicate mem]
    decide
  have front : trimStart (List.replicate n 'a') = List.replicate n 'a' :=
    trimStartOf fun c first => by rw [List.eq_of_mem_replicate (List.mem_of_head? first)]; decide
  have back : trimEnd (List.replicate n 'a') = List.replicate n 'a' :=
    trimEndOf fun c last => by rw [List.eq_of_mem_replicate (List.mem_of_getLast? last)]; decide
  exact ⟨by rw [tidy, bare, front, back], by rw [trim, String.toList_ofList, front, back],
    by rw [dropReturns, String.toList_ofList, bare]⟩

theorem plainLines (n : Nat) : lines (String.ofList (List.replicate n 'a')) = [List.replicate n 'a'] := by
  rw [lines, String.toList_ofList, List.splitOn_eq_singleton]
  intro mem
  exact absurd (List.eq_of_mem_replicate mem) (by decide)

theorem longLineWhole : uncut longLine = [longLine] := by
  obtain ⟨-, opened, titled⟩ := plainLine maxChunkContent
  have whole : sections longLine = [⟨false, "", [List.replicate (maxChunkContent + 1) 'a']⟩] := by
    rw [sections, longLine, plainLines, sectionsFrom, opened]
    dsimp only
    rw [titled]
    rfl
  have text : Section.uncut ⟨false, "", [List.replicate (maxChunkContent + 1) 'a']⟩ = longLine := by
    rw [Section.uncut, if_neg Bool.false_ne_true, joinLines, List.intercalate_singleton, (plainTidy _).2.1, (plainTidy _).2.2]
    rfl
  have filled : longLine ≠ "" := by
    rw [longLine, List.replicate_succ]
    exact fun same => absurd (congrArg String.toList same) (by rw [String.toList_ofList]; exact List.cons_ne_nil _ _)
  rw [uncut, whole, List.map_singleton, text, List.filter_singleton, decide_eq_true filled]
  rw [if_neg (by rw [longLine, (plainTidy _).2.1]; exact filled)]
  rfl

theorem longLineContents : contents longLine = [String.ofList (List.replicate maxChunkContent 'a')] := by
  have narrow : ∀ c ∈ List.replicate (maxChunkContent + 1) 'a', wide c = false := by
    intro c mem
    rw [List.eq_of_mem_replicate mem]
    decide
  rw [contentsCut, longLineWhole, List.map_singleton, cutOff, slice, longLine, String.toList_ofList, dropUnits, Nat.sub_zero,
    takeUnitsPlain narrow, List.take_replicate, Nat.min_eq_left (Nat.le_succ _)]

theorem plainShown (n : Nat) : shown [List.replicate (n + 1) 'a'] = [List.replicate (n + 1) 'a'] := by
  rw [shown, List.map_singleton, (plainTidy _).1]
  rfl

theorem longLineCut : ¬ Lossless longLine := by
  obtain ⟨ends, opened, titled⟩ := plainLine maxChunkContent
  have asked : promised longLine = [List.replicate (maxChunkContent + 1) 'a'] := by
    rw [promised, longLine, plainLines, promisedFrom, ends, opened, titled]
    exact plainShown maxChunkContent
  have got : seen (String.ofList (List.replicate maxChunkContent 'a')) = [List.replicate maxChunkContent 'a'] := by
    rw [seen, plainLines]
    exact plainShown 4999
  rintro ⟨kept, -⟩
  rw [asked, longLineContents, List.flatMap_singleton, got, List.singleton_sublist, List.mem_singleton] at kept
  have lengths := congrArg List.length kept
  rw [List.length_replicate, List.length_replicate] at lengths
  exact absurd lengths (by decide)

end HarnessMem.MarkdownChunks
