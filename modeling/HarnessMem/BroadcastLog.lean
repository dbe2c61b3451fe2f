import HarnessMem.Js
import HarnessMem.Lib.Runs
import HarnessMem.Lib.Scanning
import Mathlib.Data.List.TakeWhile

/-! The broadcast file that the TypeScript and the Go server share: what is appended, how each of
them reads it back, and the deferred trims. -/
namespace HarnessMem.BroadcastLog
open Js Regex Runs

abbrev Text := List Char

inductive Server where | ts | go
  deriving DecidableEq, Repr

-- The line breaks of `^` and `$`, and the white space of `trim` and of `strings.TrimSpace`.
def Server.breaks : Server → Char → Bool
  | .ts, c => c = '\n' || c = '\r' || c.toNat = 0x2028 || c.toNat = 0x2029
  | .go, c => c = '\n'
def unicodeSpace (c : Char) : Bool :=
  let n := c.toNat
  (9 ≤ n && n ≤ 13) || n == 0x20 || n == 0x85 || n == 0xA0 || n == 0x1680 || (0x2000 ≤ n && n ≤ 0x200A) ||
    n == 0x2028 || n == 0x2029 || n == 0x202F || n == 0x205F || n == 0x3000
def Server.space : Server → Char → Bool
  | .ts => isSpace
  | .go => unicodeSpace
def Server.trim (server : Server) (text : Text) : Text :=
  ((text.dropWhile server.space).reverse.dropWhile server.space).reverse

def is (c d : Char) : Bool := d = c
-- \d{4}-\d{2}-\d{2}T\d{2}:\d{2}:\d{2}Z
def stampKinds : List (Char → Bool) :=
  List.replicate 4 Char.isDigit ++ is '-' :: List.replicate 2 Char.isDigit ++ is '-' :: List.replicate 2 Char.isDigit ++
    is 'T' :: List.replicate 2 Char.isDigit ++ is ':' :: List.replicate 2 Char.isDigit ++ is ':' :: List.replicate 2 Char.isDigit ++
    [is 'Z']
def idKind (c : Char) : Bool := c.isAlphanum || c = '_' || c = '-'

structure Entry where
  timestamp : Text
  sessionId : Text
  message : Text
  deriving DecidableEq, Repr

-- What both servers make sure of before they write an entry.
structure Formed (e : Entry) : Prop where
  stamped : List.Forall₂ (fun c keep => keep c = true) e.timestamp stampKinds
  safe : e.sessionId.all idKind = true
  sized : 1 ≤ e.sessionId.length ∧ e.sessionId.length ≤ 128

structure Broadcast where
  entry : Entry
  formed : Formed entry
  said : ∀ server : Server, server.trim entry.message ≠ []

def lineStart (server : Server) : Re := .alt .start (.behind server.breaks)
def lineEnd (server : Server) : Re := .alt .stop (.ahead (.set server.breaks))
-- \n## |\n*$
def entryEnd (server : Server) : Re := .alt (word "\n## ") (.seq (star (char '\n')) (lineEnd server))
def closing : Server → Re
  | .ts => .ahead (entryEnd .ts)
  | .go => entryEnd .go
-- /^## (…) \[([^\]]+)\]\n(.+?)(?=\n## |\n*$)/gms, with the last group not looked ahead but read in Go.
def broadcastRegex (server : Server) : Re := chain [lineStart server, word "## ", .group 1 (sets stampKinds), word " [",
  .group 2 (plus (.set (fun c => c ≠ ']'))), word "]\n", .group 3 (.seq any (lazyStar any)), closing server]

def groupText (index : Nat) (groups : List (Nat × Text)) : Text :=
  ((groups.find? (fun entry => entry.1 = index)).map Prod.snd).getD []

def loadBroadcasts (server : Server) (content : Text) : List Entry :=
  (matchesFrom (broadcastRegex server) (content.length + 1) [] content).map (fun found =>
    ⟨groupText 1 found.2.groups, groupText 2 found.2.groups, server.trim (groupText 3 found.2.groups)⟩)

def heading (e : Entry) : Text := "## ".toList ++ (e.timestamp ++ (" [".toList ++ (e.sessionId ++ "]\n".toList)))
def appended (e : Entry) : Text := heading e ++ e.message ++ "\n\n".toList

-- What a trim writes back: the entries joined by a line break, or each with a blank line behind it.
def rewritten : Server → List Entry → Text
  | .ts, trimmed => List.intercalate "\n".toList (trimmed.map (fun e => heading e ++ e.message ++ "\n".toList))
  | .go, trimmed => trimmed.flatMap appended

def maxBroadcastMessages : Nat := 100

-- The file, what was broadcast so far, and the trims that have read the file and have yet to write it.
structure Log where
  file : Text
  sent : List Broadcast
  pending : List Text

inductive Input where
  | append (b : Broadcast)
  | trimRead (server : Server)
  | trimWrite (index : Nat)

def step (s : Log) : Input → Log
  | .append b => {s with file := s.file ++ appended b.entry, sent := s.sent ++ [b]}
  | .trimRead server =>
    let messages := loadBroadcasts server s.file
    if maxBroadcastMessages < messages.length then
      {s with pending := s.pending ++ [rewritten server (messages.drop (messages.length - maxBroadcastMessages))]}
    else s
  | .trimWrite index =>
    match s.pending[index]? with
    | some content => {s with file := content, pending := s.pending.eraseIdx index}
    | none => s

def empty : Log := ⟨[], [], []⟩

-- Either server reads back the last broadcasts, a hundred or all there were, each with its text and session.
def ReadsBack (s : Log) : Prop :=
  ∀ server, ∃ older recent, s.sent = older ++ recent ∧ (maxBroadcastMessages ≤ recent.length ∨ older = []) ∧
    (loadBroadcasts server s.file).map (fun e => (e.sessionId, e.message)) =
      recent.map (fun b => (b.entry.sessionId, server.trim b.entry.message))

-- A text of one line, with white space around it: a line break may stand first or behind the text.
def Plain (message : Text) : Prop :=
  ∃ lead line rest, message = lead ++ line ++ rest ∧ (∀ server : Server, ∀ c ∈ lead ++ rest, server.space c = true) ∧
    (∀ server : Server, (∀ c ∈ line.head?, server.space c = false) ∧ ∀ c ∈ line.getLast?, server.space c = false) ∧
    line ≠ [] ∧ ∀ c ∈ lead.drop 1 ++ line, Server.ts.breaks c = false

-- The steps that keep the file readable: a plain text appended behind a blank line, while no trim is under way.
def Safe (s : Log) : Input → Prop
  | .append b => Plain b.entry.message ∧ (s.file = [] ∨ "\n\n".toList <:+ s.file) ∧ s.pending = []
  | .trimRead _ | .trimWrite _ => True

section
variable {server : Server} {before rest : Text} {groups : List (Nat × Text)}

theorem breakGo {c : Char} (none : Server.ts.breaks c = false) : c ≠ '\n' := by
  rintro rfl
  cases none

theorem lineStartHere (fresh : before = [] ∨ before.head? = some '\n') {after : Text} :
    ends (lineStart server) ⟨before, after, groups⟩ = [⟨before, after, groups⟩] := by
  have newline : server.breaks '\n' = true := by cases server <;> rfl
  unfold lineStart
  rcases fresh with rfl | head
  · rfl
  · cases before with
    | nil => cases head
    | cons c cs =>
      obtain rfl := Option.some.inj head
      simp [ends, newline]

theorem lineStartHeld {p q : Place} (mem : q ∈ ends (lineStart server) p) : q = p := by
  rcases List.mem_append.mp mem with start | behind
  · simp only [ends] at start
    split at start
    · exact List.mem_singleton.mp start
    · cases start
  · simp only [ends] at behind
    split at behind
    · exact List.mem_singleton.mp behind
    · cases behind

-- Only a mark can begin a match.
theorem noMark {after : Text} (other : after.head? ≠ some '#') : here (broadcastRegex server) before after = none := by
  have stop : ∀ p ∈ ends (lineStart server) ⟨before, after, []⟩,
      ends (chain [word "## ", .group 1 (sets stampKinds), word " [", .group 2 (plus (.set (fun c => c ≠ ']'))),
        word "]\n", .group 3 (.seq any (lazyStar any)), closing server]) p = [] := by
    intro p mem
    rw [lineStartHeld mem]
    have marked : word "## " = .seq (char '#') (word "# ") := rfl
    refine seqNone ?_
    rw [marked]
    refine seqNone ?_
    cases after with
    | nil => rfl
    | cons c rest => exact if_neg (by simpa using other)
  unfold here broadcastRegex
  change ((ends (lineStart server) ⟨before, after, []⟩).flatMap (ends (chain _))).head? = none
  rw [List.flatMap_eq_nil_iff.mpr stop]
  rfl

-- What follows the heading of an entry.
def bodyRegex (server : Server) : Re := chain [.group 3 (.seq any (lazyStar any)), closing server]

theorem idKeeps {e : Text} (safe : e.all idKind = true) : ∀ c ∈ e, c ≠ ']' := by
  rintro c mem rfl
  exact absurd (List.all_eq_true.mp safe _ mem) (by decide)

-- The id ends at the bracket behind it.
theorem sessionRead {place id : Text} (some : id ≠ []) (safe : ∀ c ∈ id, c ≠ ']') :
    ends (chain [.group 2 (plus (.set (fun c => c ≠ ']'))), word "]\n", .group 3 (.seq any (lazyStar any)), closing server])
      ⟨place, id ++ ("]\n".toList ++ rest), groups⟩ =
    ends (bodyRegex server) ⟨"]\n".toList.reverse ++ (id.reverse ++ place), rest, (2, id) :: groups⟩ := by
  obtain ⟨c, cs, rfl⟩ := List.exists_cons_of_ne_nil some
  have first : (fun c : Char => decide (c ≠ ']')) c = true := decide_eq_true (safe c List.mem_cons_self)
  have all : (cs ++ ("]\n".toList ++ rest)).takeWhile (fun c => c ≠ ']') = cs := by
    rw [List.takeWhile_append_of_pos (fun d mem => decide_eq_true (safe d (List.mem_cons_of_mem c mem)))]
    exact List.append_nil cs
  have bracket : ∀ p : Place, p.after.head?.any (fun c => c ≠ ']') = true → ends (chain [word "]\n",
      .group 3 (.seq any (lazyStar any)), closing server])
        {p with groups := (2, consumed ⟨place, c :: cs ++ ("]\n".toList ++ rest), groups⟩ p) :: p.groups} = [] := by
    rintro ⟨b, after, g⟩ head
    have marked : word "]\n" = .seq (char ']') (word "\n") := rfl
    refine seqNone ?_
    rw [marked]
    refine seqNone ?_
    cases after with
    | nil => rfl
    | cons d ds => exact if_neg (by simpa using head)
  change ((((eat (fun c => decide (c ≠ ']')) ⟨place, c :: (cs ++ ("]\n".toList ++ rest)), groups⟩).flatMap fun p =>
    loop true (eat (fun c => decide (c ≠ ']'))) p.after.length p).map _).flatMap _) = _
  rw [eatCons, if_pos first, List.flatMap_singleton, List.flatMap_map]
  refine (loopGreedy bracket _ _ le_rfl).trans ?_
  rw [all]
  have skipped : skip cs.length ⟨c :: place, cs ++ ("]\n".toList ++ rest), groups⟩ =
      ⟨(c :: cs).reverse ++ place, "]\n".toList ++ rest, groups⟩ := by
    simp [skip]
  rw [skipped, consumedText]
  exact seqOne (endsLiteral "]\n")

-- The heading of an entry is read as one, whatever follows it.
theorem headingRead {e : Entry} (formed : Formed e) (fresh : before = [] ∨ before.head? = some '\n') :
    here (broadcastRegex server) before (heading e ++ rest) =
      (ends (bodyRegex server) ⟨(heading e).reverse ++ before, rest, [(2, e.sessionId), (1, e.timestamp)]⟩).head? := by
  have some : e.sessionId ≠ [] := List.ne_nil_of_length_pos formed.sized.1
  have text : heading e ++ rest =
      "## ".toList ++ (e.timestamp ++ (" [".toList ++ (e.sessionId ++ ("]\n".toList ++ rest)))) := by
    simp [heading]
  have place : (heading e).reverse ++ before =
      "]\n".toList.reverse ++ (e.sessionId.reverse ++ (" [".toList.reverse ++ (e.timestamp.reverse ++ ("## ".toList.reverse ++ before)))) := by
    simp [heading]
  rw [text, place]
  unfold here broadcastRegex
  refine congrArg List.head? ?_
  refine (seqOne (lineStartHere fresh)).trans ((seqOne (endsLiteral "## ")).trans ?_)
  refine (seqOne (groupOne (endsSets formed.stamped))).trans ((seqOne (endsLiteral " [")).trans ?_)
  exact sessionRead some (idKeeps formed.safe)

theorem lazyRun {next : Place → Option Place} {line : Text} (passes : ∀ c ∈ line, ∀ b r, next ⟨b, c :: r, groups⟩ = none) :
    lazyHead next before (line ++ rest) groups = lazyHead next (line.reverse ++ before) rest groups := by
  induction line generalizing before with
  | nil => rfl
  | cons c cs ih =>
    rw [List.cons_append, lazyHead, passes c List.mem_cons_self, Option.none_or, ih fun d mem => passes d (List.mem_cons_of_mem c mem),
      List.reverse_cons, List.append_assoc]
    rfl

theorem lazyStop {next : Place → Option Place} {q : Place} (found : next ⟨before, rest, groups⟩ = some q) :
    lazyHead next before rest groups = some q := by
  cases rest with
  | nil => exact found
  | cons c cs => rw [lazyHead, found, Option.some_or]

theorem newlineBreaks (server : Server) : server.breaks '\n' = true := by cases server <;> rfl

theorem lineEndHeld {p q : Place} (mem : q ∈ ends (lineEnd server) p) : q = p := by
  rcases List.mem_append.mp mem with stop | ahead
  · simp only [ends] at stop
    split at stop
    · exact List.mem_singleton.mp stop
    · cases stop
  · change q ∈ (if (eat server.breaks p).isEmpty = true then [] else [p]) at ahead
    by_cases none : (eat server.breaks p).isEmpty = true
    · rw [if_pos none] at ahead
      cases ahead
    · rw [if_neg none] at ahead
      exact List.mem_singleton.mp ahead

theorem lineEndHere {after : Text} (ended : after = [] ∨ after.head?.any server.breaks = true) :
    ⟨before, after, groups⟩ ∈ ends (lineEnd server) ⟨before, after, groups⟩ := by
  rcases ended with rfl | broken
  · exact List.mem_append_left _ (List.mem_singleton_self _)
  · cases after with
    | nil => cases broken
    | cons c cs =>
      have kept : server.breaks c = true := by simpa using broken
      refine List.mem_append_right _ ?_
      simp [ends, eatCons, kept]

-- Within a line an entry does not end.
theorem entryGoes {c : Char} (inside : server.breaks c = false) : ends (entryEnd server) ⟨before, c :: rest, groups⟩ = [] := by
  have other : c ≠ '\n' := by
    rintro rfl
    rw [newlineBreaks] at inside
    cases inside
  have marked : word "\n## " = .seq (char '\n') (word "## ") := rfl
  have word : ends (word "\n## ") ⟨before, c :: rest, groups⟩ = [] := by
    rw [marked]
    exact seqNone (if_neg (by simpa using other))
  refine List.append_eq_nil_iff.mpr ⟨word, List.flatMap_eq_nil_iff.mpr fun p mem => ?_⟩
  obtain ⟨k, after, -, -⟩ := loopTakes _ _ p mem
  have none : k = 0 := by
    cases k with
    | zero => rfl
    | succ k => exact absurd (List.cons.inj after).1 other
  subst none
  refine List.eq_nil_iff_forall_not_mem.mpr fun q found => ?_
  obtain rfl := lineEndHeld found
  obtain ⟨b, a, g⟩ := q
  obtain rfl : c :: rest = a := after
  rcases List.mem_append.mp found with stop | ahead
  · cases stop
  · simp [ends, eatCons, inside] at ahead

theorem entryStays {after : Text} (ended : after = [] ∨ after.head?.any server.breaks = true) :
    ⟨before, after, groups⟩ ∈ ends (entryEnd server) ⟨before, after, groups⟩ :=
  List.mem_append_right _ (List.mem_flatMap.mpr ⟨_, loopStay _ _, lineEndHere ended⟩)

-- At the end of a line an entry ends, and no more than line breaks are consumed, unless a mark follows at once.
variable (server before groups) in
theorem closingRead {after : Text} (ended : after = [] ∨ after.head?.any server.breaks = true)
    (apart : ¬ "\n## ".toList <+: after) : ∃ k q, (ends (closing server) ⟨before, after, groups⟩).head? = some q ∧
      after = List.replicate k '\n' ++ q.after ∧ q.before = List.replicate k '\n' ++ before ∧ q.groups = groups := by
  cases server with
  | ts =>
    refine ⟨0, ⟨before, after, groups⟩, ?_, rfl, rfl, rfl⟩
    have some : (ends (entryEnd .ts) ⟨before, after, groups⟩).isEmpty = false := by
      cases found : ends (entryEnd .ts) ⟨before, after, groups⟩ with
      | nil => exact absurd (found ▸ entryStays ended) List.not_mem_nil
      | cons q qs => rfl
    simp [closing, ends, some]
  | go =>
    have word : ends (word "\n## ") ⟨before, after, groups⟩ = [] := by
      exact List.eq_nil_iff_forall_not_mem.mpr fun q mem => apart (literalHeld mem)
    cases found : ends (entryEnd .go) ⟨before, after, groups⟩ with
    | nil => exact absurd (found ▸ entryStays ended) List.not_mem_nil
    | cons q qs =>
      have mem : q ∈ ends (entryEnd .go) ⟨before, after, groups⟩ := found ▸ List.mem_cons_self
      rw [entryEnd, ends, word, List.nil_append] at mem
      obtain ⟨p, run, last⟩ := List.mem_flatMap.mp mem
      obtain rfl := lineEndHeld last
      obtain ⟨k, left, read, kept⟩ := loopTakes _ _ q run
      refine ⟨k, q, ?_, left, read, kept⟩
      change (ends (entryEnd .go) ⟨before, after, groups⟩).head? = some q
      rw [found]
      rfl

theorem closingOnly (p : Place) : ends (chain [closing server]) p = ends (closing server) p := by
  change (ends (closing server) p).flatMap (fun q => [q]) = _
  exact List.flatMap_singleton' _

-- The text of an entry is its first character and what stands before the next line break.
variable (server before groups) in
theorem bodyRead {c : Char} {line after : Text} (inside : ∀ d ∈ line, server.breaks d = false)
    (ended : after = [] ∨ after.head?.any server.breaks = true) (apart : ¬ "\n## ".toList <+: after) :
    ∃ k q, (ends (bodyRegex server) ⟨before, c :: (line ++ after), groups⟩).head? = some q ∧
      after = List.replicate k '\n' ++ q.after ∧ q.before = List.replicate k '\n' ++ ((c :: line).reverse ++ before) ∧
      q.groups = (3, c :: line) :: groups := by
  obtain ⟨k, q, found, left, read, kept⟩ := closingRead server ((c :: line).reverse ++ before) ((3, c :: line) :: groups) ended apart
  refine ⟨k, q, ?_, left, read, kept⟩
  have all : (fun _ : Char => true) c = true := rfl
  change ((((eat (fun _ => true) ⟨before, c :: (line ++ after), groups⟩).flatMap fun p =>
    loop false (eat (fun _ => true)) p.after.length p).map fun p =>
      {p with groups := (3, consumed ⟨before, c :: (line ++ after), groups⟩ p) :: p.groups}).flatMap
        (ends (chain [closing server]))).head? = some q
  rw [eatCons, if_pos all, List.flatMap_singleton, List.flatMap_map, loopLazy _ _ _ le_rfl]
  rw [lazyRun]
  · refine lazyStop ?_
    have same : line.reverse ++ c :: before = (c :: line).reverse ++ before := by simp
    rw [closingOnly, same, consumedText]
    exact found
  · intro d mem b r
    rw [closingOnly]
    cases server with
    | ts => simp [closing, ends, entryGoes (inside d mem)]
    | go => simp [closing, entryGoes (inside d mem)]

def loaded (server : Server) (e : Entry) : Entry := {e with message := server.trim e.message}
def read (server : Server) (found : Place × Place) : Entry :=
  ⟨groupText 1 found.2.groups, groupText 2 found.2.groups, server.trim (groupText 3 found.2.groups)⟩

theorem spaceMark (server : Server) : server.space '#' = false := by cases server <;> rfl
theorem spaceNewline (server : Server) : server.space '\n' = true := by cases server <;> rfl

-- White space on both sides of a text that has none at its ends is what a trim takes.
theorem trimAround {lead line tail : Text} (around : ∀ c ∈ lead ++ tail, server.space c = true)
    (ends : (∀ c ∈ line.head?, server.space c = false) ∧ ∀ c ∈ line.getLast?, server.space c = false) (some : line ≠ []) :
    server.trim (lead ++ line ++ tail) = line := by
  have front : ∀ {a b : Text}, (∀ c ∈ a, server.space c = true) → (∀ c ∈ b.head?, server.space c = false) →
      (a ++ b).dropWhile server.space = b := by
    intro a b blank first
    rw [List.dropWhile_append_of_pos blank]
    cases b with
    | nil => rfl
    | cons c cs => exact List.dropWhile_cons_of_neg (by simp [first c rfl])
  obtain ⟨c, cs, rfl⟩ := List.exists_cons_of_ne_nil some
  unfold Server.trim
  rw [List.append_assoc, front (fun c mem => around c (List.mem_append_left _ mem)) (by simpa using ends.1 c rfl),
    List.reverse_append, front (fun c mem => around c (List.mem_append_right _ (List.mem_reverse.mp mem))), List.reverse_reverse]
  intro d last
  rw [List.head?_reverse] at last
  exact ends.2 d last

-- A plain text is the same after either trim, and that text is plain and stays.
theorem plainTrim {message : Text} (plain : Plain message) : ∃ line, (∀ server : Server, server.trim message = line) ∧
    Plain line ∧ (∀ server : Server, server.trim line = line) ∧ line.getLast? ≠ some '\n' := by
  obtain ⟨lead, line, rest, rfl, around, edges, some, inside⟩ := plain
  have bare : ∀ server : Server, ∀ c ∈ ([] : Text) ++ [], server.space c = true := fun _ c mem => absurd mem List.not_mem_nil
  refine ⟨line, fun server => trimAround (around server) (edges server) some, ⟨[], line, [], by simp, bare, edges, some, ?_⟩, ?_, ?_⟩
  · exact fun c mem => inside c (List.mem_append_right _ mem)
  · intro server
    have whole := trimAround (bare server) (edges server) some
    rwa [List.nil_append, List.append_nil] at whole
  · intro last
    have space := (edges .ts).2 _ last
    rw [spaceNewline] at space
    cases space

-- An entry of a plain text: what is read of it, where the line breaks behind it begin, and what is left of those.
variable (server) in
theorem blockParts {message gap more : Text} (plain : Plain message) (closed : gap = "\n\n".toList ∨ gap = "\n".toList ∧ more = []) :
    ∃ c line blank, message ++ gap = c :: (line ++ blank) ∧ (∀ d ∈ line, server.breaks d = false) ∧
      server.trim (c :: line) = server.trim message ∧ (∀ d ∈ blank, server.space d = true) ∧ blank.getLast? = some '\n' ∧
      blank.head?.any server.breaks = true ∧ ¬ "\n## ".toList <+: blank ++ more := by
  obtain ⟨lead, line, rest, rfl, around, edges, some, inside⟩ := plain
  obtain ⟨c, front, parts⟩ := List.exists_cons_of_ne_nil (List.append_ne_nil_of_right_ne_nil lead some)
  have narrow : ∀ d, Server.ts.breaks d = false → server.breaks d = false := by
    intro d none
    cases server with
    | ts => exact none
    | go => exact decide_eq_false (breakGo none)
  have free : ∀ d ∈ front, server.breaks d = false := by
    intro d mem
    refine narrow d (inside d ?_)
    cases lead with
    | nil =>
      rw [List.nil_append] at parts
      exact parts ▸ List.mem_cons_of_mem c mem
    | cons d ds =>
      obtain ⟨-, rfl⟩ := List.cons.inj parts
      exact mem
  have blanks : ∀ d ∈ rest, server.space d = true := fun d mem => around server d (List.mem_append_right _ mem)
  have newlines : ∀ d ∈ gap, d = '\n' := by
    rcases closed with rfl | ⟨rfl, -⟩ <;> simp
  have kept : rest.takeWhile (fun d => !server.breaks d) ++ rest.dropWhile (fun d => !server.breaks d) = rest :=
    List.takeWhile_append_dropWhile
  have spaces : ∀ d ∈ rest.dropWhile (fun d => !server.breaks d) ++ gap, server.space d = true := by
    intro d mem
    rcases List.mem_append.mp mem with dropped | closing
    · exact blanks d ((List.dropWhile_sublist _).subset dropped)
    · exact newlines d closing ▸ spaceNewline server
  refine ⟨c, front ++ rest.takeWhile (fun d => !server.breaks d), rest.dropWhile (fun d => !server.breaks d) ++ gap,
    ?_, ?_, ?_, spaces, ?_, ?_, ?_⟩
  · rw [parts, List.cons_append, List.cons_append, List.append_assoc, List.append_assoc, ← List.append_assoc (List.takeWhile _ _), kept]
  · intro d mem
    rcases List.mem_append.mp mem with early | late
    · exact free d early
    · simpa using List.mem_takeWhile_imp late
  · have whole : c :: (front ++ rest.takeWhile (fun d => !server.breaks d)) = lead ++ line ++ rest.takeWhile (fun d => !server.breaks d) := by
      rw [parts]
      rfl
    rw [whole, trimAround (fun d mem => ?_) (edges server) some, trimAround (around server) (edges server) some]
    rcases List.mem_append.mp mem with early | late
    · exact around server d (List.mem_append_left _ early)
    · exact blanks d ((List.takeWhile_sublist _).subset late)
  · rcases closed with rfl | ⟨rfl, -⟩
    · exact List.getLast?_append_of_ne_nil _ (by decide)
    · exact List.getLast?_append_of_ne_nil _ (by decide)
  · cases dropped : rest.dropWhile (fun d => !server.breaks d) with
    | nil => rcases closed with rfl | ⟨rfl, -⟩ <;> exact newlineBreaks server
    | cons d ds =>
      have first := List.head?_dropWhile_not (fun d => !server.breaks d) rest
      rw [dropped] at first
      simpa using first
  · rintro ⟨beyond, same⟩
    generalize joined : rest.dropWhile (fun d => !server.breaks d) ++ gap = blank at spaces same
    have unmarked : '#' ∉ blank := fun mem => absurd (spaces _ mem) (by simp [spaceMark])
    match blank, same, unmarked with
    | [], same, _ => rcases closed with rfl | ⟨rfl, -⟩ <;> simp at joined
    | [d], same, _ =>
      rcases closed with rfl | ⟨rfl, rfl⟩
      · exact absurd (congrArg List.length joined) (by simp)
      · exact absurd (congrArg List.length same) (by simp)
    | d :: e :: _, same, unmarked =>
      obtain ⟨-, same⟩ := List.cons.inj same
      have second : '#' = e := (List.cons.inj same).1
      rw [second] at unmarked
      exact unmarked (List.mem_cons_of_mem d List.mem_cons_self)

variable (server) in
theorem blockRead {e : Entry} {gap more : Text} {n : Nat} (formed : Formed e) (plain : Plain e.message)
    (closed : gap = "\n\n".toList ∨ gap = "\n".toList ∧ more = []) (fresh : before = [] ∨ before.head? = some '\n')
    (next : more = [] ∨ more.head? = some '#') (enough : (heading e ++ (e.message ++ gap ++ more)).length < n) :
    ∃ n' before', more.length < n' ∧ before'.head? = some '\n' ∧
      (matchesFrom (broadcastRegex server) n before (heading e ++ (e.message ++ gap ++ more))).map (read server) =
        loaded server e ::
          (matchesFrom (broadcastRegex server) n' before' more).map (read server) := by
  obtain ⟨c, line, blank, parts, inside, trimmed, spaces, last, broken, apart⟩ := blockParts server plain closed
  have marked : ∀ d ∈ blank, d ≠ '#' := by
    rintro d mem rfl
    have space := spaces _ mem
    rw [spaceMark] at space
    cases space
  have broken' : (blank ++ more).head?.any server.breaks = true := by
    cases blank with
    | nil => cases broken
    | cons d ds => exact broken
  obtain ⟨k, q, found, left, reads, kept⟩ := bodyRead server ((heading e).reverse ++ before)
    [(2, e.sessionId), (1, e.timestamp)] (c := c) inside (.inr broken') apart
  obtain ⟨rest, taken, remains⟩ : ∃ rest, blank = List.replicate k '\n' ++ rest ∧ q.after = rest ++ more := by
    rcases List.append_eq_append_iff.mp left with ⟨rest, same, remains⟩ | ⟨rest, same, remains⟩
    · rcases next with rfl | head
      · obtain ⟨rfl, none⟩ := List.append_eq_nil_iff.mp remains.symm
        exact ⟨[], by simpa using same.symm, none⟩
      · cases rest with
        | nil => exact ⟨[], by simpa using same.symm, remains.symm⟩
        | cons d ds =>
          rw [remains] at head
          obtain rfl := Option.some.inj head
          have newline := List.eq_of_mem_replicate (same.symm ▸ List.mem_append_right blank List.mem_cons_self : '#' ∈ List.replicate k '\n')
          cases newline
    · exact ⟨rest, same, remains⟩
  obtain ⟨n, rfl⟩ : ∃ m, n = m + 1 := ⟨n - 1, by omega⟩
  rw [parts, List.cons_append, List.append_assoc] at enough ⊢
  have here := (headingRead formed fresh).trans found
  have shorter : q.after.length < (heading e ++ c :: (line ++ (blank ++ more))).length := by
    rw [remains, taken]
    simp only [List.length_append, List.length_cons]
    omega
  rw [matchesHit here shorter, remains, matchesSkip]
  · refine ⟨n - rest.length, rest.reverse ++ q.before, ?_, ?_, ?_⟩
    · rw [taken] at enough
      simp only [List.length_append, List.length_cons] at enough
      omega
    · rw [reads, ← List.append_assoc, ← List.reverse_replicate, ← List.reverse_append, ← taken]
      rw [← List.head?_reverse] at last
      exact List.head?_append_of_ne_nil _ (fun none => by rw [none] at last; cases last) |>.trans last
    · rw [List.map_cons, read, kept, loaded, ← trimmed]
      rfl
  · exact fun d mem before rest => noMark fun first =>
      marked d (taken ▸ List.mem_append_right _ mem) (Option.some.inj first)
  · rw [taken] at enough
    simp only [List.length_append, List.length_cons] at enough
    omega

def spelled (entries : List Entry) : Text := entries.flatMap appended

theorem spelledMark (entries : List Entry) (more : Text) (next : more = [] ∨ more.head? = some '#') :
    spelled entries ++ more = [] ∨ (spelled entries ++ more).head? = some '#' := by
  cases entries with
  | nil => exact next
  | cons e es => exact .inr rfl

variable (server) in
theorem spelledRead {entries : List Entry} (formed : ∀ e ∈ entries, Formed e) (plain : ∀ e ∈ entries, Plain e.message)
    {more : Text} (next : more = [] ∨ more.head? = some '#') : ∀ {n : Nat} {before : Text},
      (before = [] ∨ before.head? = some '\n') → (spelled entries ++ more).length < n →
      ∃ n' before', more.length < n' ∧ (before' = [] ∨ before'.head? = some '\n') ∧
        (matchesFrom (broadcastRegex server) n before (spelled entries ++ more)).map (read server) =
          entries.map (loaded server) ++ (matchesFrom (broadcastRegex server) n' before' more).map (read server) := by
  induction entries with
  | nil => exact fun {n before} fresh enough => ⟨n, before, enough, fresh, rfl⟩
  | cons e es ih =>
    intro n before fresh enough
    have text : spelled (e :: es) ++ more = heading e ++ (e.message ++ "\n\n".toList ++ (spelled es ++ more)) := by
      simp [spelled, appended]
    rw [text] at enough ⊢
    obtain ⟨m, between, left, line, first⟩ := blockRead server (formed e List.mem_cons_self) (plain e List.mem_cons_self) (.inl rfl) fresh
      (spelledMark es more next) enough
    obtain ⟨n', before', remains, fresh', others⟩ := ih (fun e mem => formed e (List.mem_cons_of_mem _ mem))
      (fun e mem => plain e (List.mem_cons_of_mem _ mem)) (.inr line) left
    exact ⟨n', before', remains, fresh', by rw [first, others, List.map_cons, List.cons_append]⟩

theorem nothingRead {n : Nat} : matchesFrom (broadcastRegex server) n before [] = [] := by
  cases n with
  | zero => rfl
  | succ n =>
    have none : here (broadcastRegex server) before [] = none := noMark (by simp)
    simp only [matchesFrom, none]

-- The file holds entries of plain texts, each with a blank line behind it but for the last one at times.
structure Spells (file : Text) (entries : List Entry) : Prop where
  formed : ∀ e ∈ entries, Formed e
  plain : ∀ e ∈ entries, Plain e.message
  text : file = spelled entries ∨ ∃ init last, entries = init ++ [last] ∧ last.message.getLast? ≠ some '\n' ∧
    file = spelled init ++ (heading last ++ (last.message ++ "\n".toList ++ []))

theorem loadSpelled {file : Text} {entries : List Entry} (spells : Spells file entries) :
    loadBroadcasts server file = entries.map (loaded server) := by
  change (matchesFrom (broadcastRegex server) (file.length + 1) [] file).map (read server) = _
  rcases spells.text with rfl | ⟨init, last, rfl, -, rfl⟩
  · obtain ⟨n', before', -, -, all⟩ := spelledRead server spells.formed spells.plain (.inl rfl) (.inl rfl)
      (by rw [List.append_nil]; exact Nat.lt_succ_self _)
    rw [List.append_nil] at all
    rw [all, nothingRead, List.map_nil, List.append_nil]
  · have mark : (heading last ++ (last.message ++ "\n".toList ++ [])).head? = some '#' := rfl
    obtain ⟨m, between, left, line, all⟩ := spelledRead server
      (fun e mem => spells.formed e (List.mem_append_left _ mem)) (fun e mem => spells.plain e (List.mem_append_left _ mem))
      (.inr mark) (.inl rfl) (Nat.lt_succ_self _)
    have here : last ∈ init ++ [last] := List.mem_append_right _ (List.mem_singleton_self _)
    obtain ⟨n', before', -, -, final⟩ := blockRead server (spells.formed last here) (spells.plain last here) (.inr ⟨rfl, rfl⟩)
      line (.inl rfl) left
    rw [all, final, nothingRead, List.map_append]
    rfl

-- What a trim writes back spells the entries it has read.
theorem rewrittenTs (init : List Entry) (last : Entry) :
    rewritten .ts (init ++ [last]) = spelled init ++ (heading last ++ (last.message ++ "\n".toList ++ [])) := by
  induction init with
  | nil => simp [rewritten, spelled, List.intercalate]
  | cons e es ih =>
    have next : ∃ f fs, es ++ [last] = f :: fs := List.exists_cons_of_ne_nil (by simp)
    obtain ⟨f, fs, same⟩ := next
    have split : rewritten .ts (e :: (es ++ [last])) = appended e ++ rewritten .ts (es ++ [last]) := by
      rw [same]
      simp [rewritten, List.intercalate, appended]
    rw [List.cons_append, split, ih]
    simp [spelled]

theorem rewrittenSpells {trimmer : Server} {entries : List Entry} (formed : ∀ e ∈ entries, Formed e)
    (plain : ∀ e ∈ entries, Plain e.message) (some : entries ≠ []) :
    Spells (rewritten trimmer (entries.map (loaded trimmer))) (entries.map (loaded trimmer)) where
  formed := by
    intro e mem
    obtain ⟨old, held, rfl⟩ := List.mem_map.mp mem
    exact ⟨(formed old held).stamped, (formed old held).safe, (formed old held).sized⟩
  plain := by
    intro e mem
    obtain ⟨old, held, rfl⟩ := List.mem_map.mp mem
    obtain ⟨line, same, plain, -⟩ := plainTrim (plain old held)
    change Plain (trimmer.trim old.message)
    rw [same]
    exact plain
  text := by
    cases trimmer with
    | go => exact .inl rfl
    | ts =>
      right
      refine ⟨entries.dropLast.map (loaded .ts), loaded .ts (entries.getLast some), ?_, ?_, ?_⟩
      · rw [← List.map_singleton, ← List.map_append, List.dropLast_append_getLast]
      · obtain ⟨line, same, -, -, apart⟩ := plainTrim (plain _ (List.getLast_mem some))
        rw [loaded, same]
        exact apart
      · rw [← rewrittenTs, ← List.map_singleton, ← List.map_append, List.dropLast_append_getLast]

-- A file that holds the last broadcasts, and the trims under way would write such files.
def Holds (sent : List Broadcast) (content : Text) : Prop :=
  ∃ entries older recent, Spells content entries ∧ sent = older ++ recent ∧ (maxBroadcastMessages ≤ recent.length ∨ older = []) ∧
    ∀ server : Server, entries.map (fun e => (e.sessionId, server.trim e.message)) =
      recent.map (fun b => (b.entry.sessionId, server.trim b.entry.message))

structure Sound (s : Log) : Prop where
  file : Holds s.sent s.file
  pending : ∀ content ∈ s.pending, Holds s.sent content

theorem soundReads {s : Log} (sound : Sound s) : ReadsBack s := by
  obtain ⟨entries, older, recent, spells, split, enough, same⟩ := sound.file
  refine fun server => ⟨older, recent, split, enough, ?_⟩
  rw [loadSpelled spells, List.map_map, ← same server]
  rfl

-- Behind a blank line the new entry joins those that were there.
theorem holdsAppend {sent : List Broadcast} {content : Text} {b : Broadcast} (holds : Holds sent content) (plain : Plain b.entry.message)
    (blank : content = [] ∨ "\n\n".toList <:+ content) : Holds (sent ++ [b]) (content ++ appended b.entry) := by
  obtain ⟨entries, older, recent, spells, rfl, enough, same⟩ := holds
  refine ⟨entries ++ [b.entry], older, recent ++ [b], ⟨?_, ?_, ?_⟩, List.append_assoc _ _ _, ?_, fun server => ?_⟩
  · exact List.forall_mem_append.mpr ⟨spells.formed, List.forall_mem_singleton.mpr b.formed⟩
  · exact List.forall_mem_append.mpr ⟨spells.plain, List.forall_mem_singleton.mpr plain⟩
  · left
    rcases spells.text with rfl | ⟨init, last, rfl, apart, rfl⟩
    · simp [spelled]
    · exfalso
      have some : last.message ≠ [] := by
        obtain ⟨lead, line, rest, whole, -, -, some, -⟩ := spells.plain last (List.mem_append_right _ (List.mem_singleton_self _))
        rw [whole]
        simp [some]
      rcases blank with none | ⟨before, ended⟩
      · simp [heading] at none
      · have cut : before ++ "\n".toList = spelled init ++ heading last ++ last.message := by
          have whole : before ++ "\n".toList ++ "\n".toList = spelled init ++ heading last ++ last.message ++ "\n".toList := by
            simpa using ended
          exact List.append_cancel_right whole
        have final := congrArg List.getLast? cut
        rw [List.getLast?_append_of_ne_nil _ some, List.getLast?_append_of_ne_nil _ (by decide)] at final
        exact apart final.symm
  · exact enough.imp_left fun long => by rw [List.length_append]; omega
  · rw [List.map_append, List.map_append, same server]
    rfl

-- The last entries, each with its text trimmed, written anew.
theorem holdsTrim {sent : List Broadcast} {content : Text} {trimmer : Server} (holds : Holds sent content)
    (many : maxBroadcastMessages < (loadBroadcasts trimmer content).length) :
    Holds sent (rewritten trimmer ((loadBroadcasts trimmer content).drop
      ((loadBroadcasts trimmer content).length - maxBroadcastMessages))) := by
  obtain ⟨entries, older, recent, spells, rfl, enough, same⟩ := holds
  have sizes : entries.length = recent.length := by
    have lengths := congrArg List.length (same .ts)
    rwa [List.length_map, List.length_map] at lengths
  rw [loadSpelled spells, List.length_map] at many ⊢
  rw [← List.map_drop]
  generalize cut : entries.length - maxBroadcastMessages = k
  have formed : ∀ e ∈ entries.drop k, Formed e := fun e mem => spells.formed e (List.mem_of_mem_drop mem)
  have plain : ∀ e ∈ entries.drop k, Plain e.message := fun e mem => spells.plain e (List.mem_of_mem_drop mem)
  have some : entries.drop k ≠ [] := List.ne_nil_of_length_pos (by rw [List.length_drop]; unfold maxBroadcastMessages at many cut; omega)
  refine ⟨_, older ++ recent.take k, recent.drop k, rewrittenSpells formed plain some, ?_, ?_, fun server => ?_⟩
  · rw [List.append_assoc, List.take_append_drop]
  · left
    rw [List.length_drop]
    omega
  · have last := congrArg (List.drop k) (same server)
    rw [← List.map_drop, ← List.map_drop] at last
    rw [← last, List.map_map]
    refine List.map_congr_left fun e mem => ?_
    obtain ⟨line, all, -, stays, -⟩ := plainTrim (plain e mem)
    rw [Function.comp_apply, loaded, all, all, stays]

theorem keptSound {s : Log} {i : Input} (sound : Sound s) (safe : Safe s i) : Sound (step s i) := by
  cases i with
  | append b =>
    obtain ⟨plain, blank, none⟩ := safe
    refine ⟨holdsAppend sound.file plain blank, fun content mem => ?_⟩
    change content ∈ s.pending at mem
    rw [none] at mem
    cases mem
  | trimRead trimmer =>
    simp only [step]
    split
    · rename_i many
      refine ⟨sound.file, fun content mem => ?_⟩
      rcases List.mem_append.mp mem with old | new
      · exact sound.pending content old
      · obtain rfl := List.mem_singleton.mp new
        exact holdsTrim sound.file many
    · exact sound
  | trimWrite index =>
    simp only [step]
    cases found : s.pending[index]? with
    | none => exact sound
    | some content =>
      exact ⟨sound.pending content (List.mem_of_getElem? found),
        fun other mem => sound.pending other (List.mem_of_mem_eraseIdx mem)⟩

theorem soundEmpty : Sound empty where
  file := ⟨[], [], [], ⟨by simp, by simp, .inl rfl⟩, rfl, .inr rfl, fun _ => rfl⟩
  pending := fun content mem => absurd mem List.not_mem_nil

theorem soundRun {s : Log} {inputs : List Input} (sound : Sound s) (safe : Throughout step Safe s inputs) :
    Sound (run step s inputs) := by
  induction inputs generalizing s with
  | nil => exact sound
  | cons i rest ih => exact ih (keptSound sound safe.1) safe.2

-- In every run of safe steps, after each step, either server reads the last broadcasts back.
theorem logReadsBack {inputs : List Input} (safe : Throughout step Safe empty inputs) :
    ∀ before, before <+: inputs → ReadsBack (run step empty before) := by
  rintro before ⟨rest, rfl⟩
  exact soundReads (soundRun soundEmpty ((throughoutAppend step).mp safe).1)

end

def noted (message : Text) (said : ∀ server : Server, server.trim message ≠ []) : Broadcast where
  entry := ⟨"2026-01-25T06:08:12Z".toList, "session-1".toList, message⟩
  formed := by
    refine ⟨by simp [stampKinds, is], ?_, ?_⟩
    · change "session-1".toList.all idKind = true
      decide
    · change 1 ≤ "session-1".toList.length ∧ "session-1".toList.length ≤ 128
      decide
  said

def greeting : Broadcast := noted "hi".toList (by intro server; cases server <;> decide)
def twoLines : Broadcast := noted "a\nb".toList (by intro server; cases server <;> decide)

theorem greetingPlain : Plain greeting.entry.message :=
  ⟨[], "hi".toList, [], rfl, by simp, by intro server; cases server <;> simp [Server.space] <;> exact ⟨rfl, rfl⟩, by simp,
    by simp; exact ⟨rfl, rfl⟩⟩

theorem greetingReadBack : ReadsBack (run step empty [.append greeting, .trimRead .go]) :=
  have safe : Throughout step Safe empty [.append greeting, .trimRead .go] :=
    ⟨⟨greetingPlain, .inl rfl, rfl⟩, trivial, trivial⟩
  logReadsBack safe _ List.prefix_rfl

-- Of a text of two lines, each server reads back the first.
theorem secondLineLost : ¬ ReadsBack (run step empty [.append twoLines]) := by
  intro back
  obtain ⟨older, recent, split, enough, same⟩ := back .ts
  have short := congrArg List.length split
  rcases enough with long | rfl
  · unfold maxBroadcastMessages at long
    rw [List.length_append] at short
    change 1 = _ at short
    omega
  · rw [List.nil_append] at split
    rw [← split] at same
    exact absurd same (by decide)

end HarnessMem.BroadcastLog
