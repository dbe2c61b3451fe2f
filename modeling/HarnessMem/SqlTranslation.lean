import HarnessMem.Js
import HarnessMem.Lib.Rewriting
import Mathlib

/-! `translateSql` of the PostgreSQL adapter, and what it is for: on a statement read token by
token, the placeholders outside quotes and comments are numbered, and `INSERT OR IGNORE` becomes
`INSERT` with `ON CONFLICT DO NOTHING` behind the complete list of values. -/
namespace HarnessMem.SqlTranslation
open Js Regex

abbrev Text := List Char

def parameter (idx : Nat) : Text := '$' :: (toString idx).toList

def rewriteFrom : Bool → Bool → Nat → Text → Text
  | _, _, _, [] => []
  | inSingleQuote, inDoubleQuote, idx, ch :: rest =>
    if ch = '\'' ∧ inDoubleQuote = false then ch :: rewriteFrom (!inSingleQuote) inDoubleQuote idx rest
    else if ch = '"' ∧ inSingleQuote = false then ch :: rewriteFrom inSingleQuote (!inDoubleQuote) idx rest
    else if ch = '?' ∧ inSingleQuote = false ∧ inDoubleQuote = false then
      parameter (idx + 1) ++ rewriteFrom inSingleQuote inDoubleQuote (idx + 1) rest
    else ch :: rewriteFrom inSingleQuote inDoubleQuote idx rest
def rewriteParams (sql : Text) : Text := rewriteFrom false false 0 sql

def letter (d : Char) : Char → Bool := either (fun c => c = d)
def letters (word : String) : List Part := word.toList.map (fun d => .one (letter d))
def blanks : List Part := [.one isSpace, .run isSpace]

theorem letterAlpha {c d : Char} (alpha : d.isAlpha = true) (same : letter d c = true) : c.isAlpha = true := by
  simp only [letter, either, Bool.or_eq_true, decide_eq_true_eq] at same
  rcases same with (rfl | rfl) | rfl
  · exact alpha
  · rwa [Char.isAlpha_toLower_eq_isAlpha] at alpha
  · rwa [Char.isAlpha_toUpper_eq_isAlpha] at alpha

theorem alphaRange {c : Char} (alpha : c.isAlpha = true) :
    (65 ≤ c.toNat ∧ c.toNat ≤ 90) ∨ 97 ≤ c.toNat ∧ c.toNat ≤ 122 := by
  simp only [Char.isAlpha, Char.isUpper, Char.isLower, Bool.or_eq_true, Bool.and_eq_true, decide_eq_true_eq] at alpha
  exact alpha

theorem spaceAlpha {c : Char} (space : isSpace c = true) : c.isAlpha = false := by
  by_contra alpha
  have letter := alphaRange (by simpa using alpha)
  simp [isSpace] at space
  omega

theorem spaceLetter {d : Char} (alpha : d.isAlpha = true) (c : Char) (space : isSpace c = true) : letter d c = false := by
  cases same : letter d c with
  | false => rfl
  | true =>
    have both := letterAlpha alpha same
    rw [spaceAlpha space] at both
    cases both

-- /INSERT\s+OR\s+IGNORE/i
def insertOrIgnore : Pattern where
  first := letter 'I'
  rest := letters "NSERT" ++ blanks ++ letters "OR" ++ blanks ++ letters "IGNORE"
  definite := ⟨spaceLetter rfl, spaceLetter rfl, trivial⟩

-- /VALUES\s*\([^)]*\)/i
def valuesTuple : Pattern where
  first := letter 'V'
  rest := letters "ALUES" ++ [.run isSpace, .one (fun c => c = '('), .run (fun c => c ≠ ')'), .one (fun c => c = ')')]
  definite := by
    refine ⟨fun c space => ?_, fun c other => ?_, trivial⟩
    · by_contra same
      have opening : c = '(' := by simpa using same
      rw [opening] at space
      cases space
    · simpa using other

def conflict : Text := " ON CONFLICT DO NOTHING".toList

def groupText (index : Nat) (groups : List (Nat × Text)) : Text :=
  ((groups.find? (fun entry => entry.1 = index)).map Prod.snd).getD []

def translateSql (sql : Text) : Text :=
  let pg := rewriteParams sql
  let pg := replaceFrom insertOrIgnore.re "INSERT".toList (pg.length + 1) [] pg
  if (find insertOrIgnore.re [] sql).isSome then
    replaceBy (.group 1 valuesTuple.re) (fun groups => groupText 1 groups ++ conflict) (pg.length + 1) [] pg
  else pg

inductive Mark where
  | single
  | double
  deriving DecidableEq, Repr

def Mark.char : Mark → Char
  | .single => '\''
  | .double => '"'

inductive Token where
  | space (c : Char)
  | word (text : Text)
  | placeholder
  | quoted (mark : Mark) (content : Text)
  | line (content : Text) (ended : Bool)
  | block (content : Text)
  | opening
  | closing
  | sign (c : Char)
  deriving DecidableEq, Repr

def Mark.doubled (mark : Mark) (c : Char) : Text := if c = mark.char then [c, c] else [c]

def Token.spelled : Token → Text
  | .space c | .sign c => [c]
  | .word text => text
  | .placeholder => ['?']
  | .quoted mark content => mark.char :: (content.flatMap mark.doubled ++ [mark.char])
  | .line content ended => "--".toList ++ content ++ (if ended then ['\n'] else [])
  | .block content => "/*".toList ++ content ++ "*/".toList
  | .opening => ['(']
  | .closing => [')']

def identifierChar (c : Char) : Bool := c.isAlphanum || c = '_' || c = '$' || 128 ≤ c.toNat

def Token.Valid : Token → Prop
  | .space c => c ∈ " \t\n\r\x0c".toList
  | .word text => text ≠ [] ∧ text.head? ≠ some '$' ∧ ∀ c ∈ text, identifierChar c = true
  | .line content _ => '\n' ∉ content
  | .block content => ¬ "*/".toList <:+: content ++ "*".toList
  | .sign c => c ∈ ",;.=<>+-*/%|&~!".toList
  | .placeholder | .quoted _ _ | .opening | .closing => True

-- Two tokens that would be read as others, written side by side.
def Separate : Token → Token → Prop
  | .word _, .word _ => False
  | .quoted mark _, .quoted other _ => mark ≠ other
  | .placeholder, .word text => text.head?.any Char.isDigit = false
  | .sign '-', .sign '-' | .sign '-', .line _ _ | .sign '/', .sign '*' => False
  | .line _ false, _ => False
  | _, _ => True

structure Statement where
  tokens : List Token
  valid : ∀ t ∈ tokens, t.Valid
  separate : tokens.IsChain Separate

def spelled (tokens : List Token) : Text := tokens.flatMap Token.spelled

def Token.isSpace : Token → Bool
  | .space _ => true
  | _ => false
def Token.isTrivia : Token → Bool
  | .space _ | .line _ _ | .block _ => true
  | _ => false
def Token.isWord (name : String) : Token → Bool
  | .word text => text.map Char.toUpper = name.toList
  | _ => false

def blanksThen (name : String) : List Token → Option (List Token)
  | .space _ :: rest =>
    match rest.dropWhile Token.isSpace with
    | t :: more => if t.isWord name then some more else none
    | [] => none
  | _ => none

-- What follows `INSERT OR IGNORE` with nothing but white space between the words.
def plainTail : List Token → Option (List Token)
  | t :: rest => if t.isWord "INSERT" then (blanksThen "OR" rest).bind (blanksThen "IGNORE") else none
  | [] => none

def triviaThen (name : String) (tokens : List Token) : Option (List Token) :=
  match tokens.dropWhile Token.isTrivia with
  | t :: more => if t.isWord name then some more else none
  | [] => none

def ignores : List Token → Bool
  | t :: rest => t.isWord "INSERT" && ((triviaThen "OR" rest).bind (triviaThen "IGNORE")).isSome
  | [] => false

-- Where the reader of a statement is: no list of values to expect, one to come, or inside of one.
inductive Stage where
  | idle
  | seeking (depth : Nat)
  | listing (depth : Nat)

def opens (rest : List Token) : Bool := (rest.dropWhile Token.isTrivia).head? = some .opening
def goesOn (rest : List Token) : Bool :=
  match rest.dropWhile Token.isTrivia with
  | .sign ',' :: more => opens more
  | _ => false

-- The stage behind a token, and whether the token ends a complete list of values.
def Stage.next : Stage → Token → List Token → Stage × Bool
  | .idle, _, _ => (.idle, false)
  | .seeking depth, .opening, _ => (.seeking (depth + 1), false)
  | .seeking depth, .closing, _ => (.seeking (depth - 1), false)
  | .seeking 0, .sign ';', _ => (.idle, false)
  | .seeking 0, .word text, rest =>
    if (Token.word text).isWord "VALUES" ∧ opens rest then (.listing 0, false) else (.seeking 0, false)
  | .seeking depth, _, _ => (.seeking depth, false)
  | .listing depth, .opening, _ => (.listing (depth + 1), false)
  | .listing depth, .closing, rest =>
    if 1 < depth then (.listing (depth - 1), false) else if goesOn rest then (.listing 0, false) else (.idle, true)
  | .listing depth, _, _ => (.listing depth, false)

-- The translated tokens, and behind which of them the clause stands. Comments between the words stay, and so do
-- the words then.
def translated : Nat → Stage → List Token → List (Token × Bool)
  | _, _, [] => []
  | skip + 1, stage, _ :: rest => translated skip stage rest
  | 0, stage, t :: rest =>
    match plainTail (t :: rest) with
    | some tail => (.word "INSERT".toList, false) :: translated (rest.length - tail.length) (.seeking 0) rest
    | none =>
      let next := if ignores (t :: rest) then (.seeking 0, false) else stage.next t rest
      (t, next.2) :: translated 0 next.1 rest

def plainHeads : List Token → Nat
  | [] => 0
  | t :: rest => (if (plainTail (t :: rest)).isSome then 1 else 0) + plainHeads rest

def written : Nat → List (Token × Bool) → Text
  | _, [] => []
  | idx, (t, followed) :: rest =>
    (if t = .placeholder then parameter (idx + 1) else t.spelled) ++ (if followed then conflict else []) ++
      written (if t = .placeholder then idx + 1 else idx) rest

def Statement.sql (s : Statement) : Text := spelled s.tokens
def Statement.wanted (s : Statement) : List (Token × Bool) := translated 0 .idle s.tokens

-- How much of the text is left behind each complete list of values.
def listEnds : List (Token × Bool) → List Nat
  | [] => []
  | (_, followed) :: rest =>
    if followed then (spelled (rest.map Prod.fst)).length :: listEnds rest else listEnds rest

-- The quote left open when the quotes of comments count as quotes.
inductive Quote where
  | closed
  | open (mark : Mark)
  deriving DecidableEq, Repr

def Quote.after : Quote → Char → Quote
  | .closed, c => if c = '\'' then .open .single else if c = '"' then .open .double else .closed
  | .open mark, c => if c = mark.char then .closed else .open mark
def Quote.past (q : Quote) (text : Text) : Quote := text.foldl Quote.after q

-- The placeholders that are numbered from this quote on.
def Quote.asked : Quote → Text → Nat
  | _, [] => 0
  | q, c :: rest => (if c = '?' ∧ q = .closed then 1 else 0) + (q.after c).asked rest

-- No `?` changes sides: each placeholder stands outside of all quotes, and no other `?` does.
def sides : Quote → List Token → Bool
  | _, [] => true
  | q, .placeholder :: rest => q = .closed && sides q rest
  | q, t :: rest => q.asked t.spelled = 0 && sides (q.past t.spelled) rest

def Quote.rewrite (q : Quote) (idx : Nat) (text : Text) : Text :=
  rewriteFrom (q = .open .single) (q = .open .double) idx text

section
variable {q : Quote} {idx : Nat} {text rest x left : Text} {put : Text → Text} {p : Pattern}

theorem overAppend (q : Quote) (a b : Text) : q.past (a ++ b) = (q.past a).past b := List.foldl_append

theorem rewriteCons (q : Quote) (idx : Nat) (c : Char) (rest : Text) :
    q.rewrite idx (c :: rest) = if c = '?' ∧ q = .closed then parameter (idx + 1) ++ q.rewrite (idx + 1) rest
      else c :: (q.after c).rewrite idx rest := by
  by_cases single : c = '\''
  · subst single
    rcases q with _ | _ | _ <;> rfl
  · by_cases double : c = '"'
    · subst double
      rcases q with _ | _ | _ <;> rfl
    · by_cases asked : c = '?'
      · subst asked
        rcases q with _ | _ | _ <;> rfl
      · have same : q.after c = q := by
          rcases q with _ | _ | _ <;> simp [Quote.after, Mark.char, single, double]
        simp only [Quote.rewrite, rewriteFrom, single, double, asked, same, false_and, if_false]

theorem rewriteAsked {c : Char} (asked : c = '?' ∧ q = .closed) :
    q.rewrite idx (c :: rest) = parameter (idx + 1) ++ q.rewrite (idx + 1) rest := by rw [rewriteCons, if_pos asked]

theorem rewriteOther {c : Char} (other : ¬ (c = '?' ∧ q = .closed)) :
    q.rewrite idx (c :: rest) = c :: (q.after c).rewrite idx rest := by rw [rewriteCons, if_neg other]

theorem askedAfter {c : Char} (asked : c = '?' ∧ q = .closed) : q.after c = q := by
  obtain ⟨rfl, rfl⟩ := asked
  rfl

theorem askedAppend (q : Quote) (a b : Text) : q.asked (a ++ b) = q.asked a + (q.past a).asked b := by
  induction a generalizing q with
  | nil => exact (Nat.zero_add _).symm
  | cons c a ih =>
    rw [List.cons_append, Quote.asked, Quote.asked, ih, Nat.add_assoc]
    rfl

theorem rewriteSplit (a b : Text) : q.rewrite idx (a ++ b) = q.rewrite idx a ++ (q.past a).rewrite (idx + q.asked a) b := by
  induction a generalizing q idx with
  | nil => rfl
  | cons c a ih =>
    by_cases asked : c = '?' ∧ q = .closed
    · rw [List.cons_append, rewriteAsked asked, rewriteAsked asked, ih, List.append_assoc, Quote.asked, if_pos asked, askedAfter asked,
        Nat.add_assoc]
      rw [show q.past (c :: a) = (q.after c).past a from rfl, askedAfter asked]
    · rw [List.cons_append, rewriteOther asked, rewriteOther asked, ih, List.cons_append, Quote.asked, if_neg asked, Nat.zero_add]
      rfl

def odd (c : Char) : Bool := c = '?' || c = '$' || c.isDigit

theorem parameterOdd (idx : Nat) : ∀ c ∈ parameter idx, odd c = true := by
  refine List.forall_mem_cons.mpr ⟨rfl, fun c mem => ?_⟩
  have digit : c.isDigit = true := Nat.isDigit_of_mem_toDigits (b := 10) (by decide) (by decide) (by simpa using mem)
  rw [odd, digit, Bool.or_true]

-- A part of a pattern for which a placeholder and its number are alike.
def Blind : Part → Prop
  | .one keep => ∀ c, odd c = true → keep c = false
  | .run keep => (∀ c, odd c = true → keep c = false) ∨ ∀ c, odd c = true → keep c = true

theorem runRewritten {keep : Char → Bool} (blind : Blind (.run keep)) :
    (q.rewrite idx text).takeWhile keep = q.rewrite idx (text.takeWhile keep) ∧
      (q.rewrite idx text).dropWhile keep =
        (q.past (text.takeWhile keep)).rewrite (idx + q.asked (text.takeWhile keep)) (text.dropWhile keep) := by
  induction text generalizing q idx with
  | nil => exact ⟨rfl, rfl⟩
  | cons c rest ih =>
    by_cases asked : c = '?' ∧ q = .closed
    · have mark : odd c = true := by rw [asked.1]; rfl
      rw [rewriteAsked asked]
      rcases blind with none | all
      · have stops : ¬ keep c = true := by rw [none c mark]; decide
        have stop : ¬ keep '$' = true := by rw [none '$' rfl]; decide
        rw [List.takeWhile_cons_of_neg stops, List.dropWhile_cons_of_neg stops]
        exact ⟨List.takeWhile_cons_of_neg stop, (List.dropWhile_cons_of_neg stop).trans (rewriteAsked asked).symm⟩
      · have kept : ∀ d ∈ parameter (idx + 1), keep d = true := fun d mem => all d (parameterOdd _ d mem)
        rw [List.takeWhile_append_of_pos kept, List.dropWhile_append_of_pos kept, List.takeWhile_cons_of_pos (all c mark),
          List.dropWhile_cons_of_pos (all c mark), rewriteAsked asked, ih.1, ih.2, Quote.asked, if_pos asked, askedAfter asked,
          Nat.add_assoc]
        exact ⟨rfl, by rw [show q.past (c :: _) = (q.after c).past _ from rfl, askedAfter asked]⟩
    · rw [rewriteOther asked]
      by_cases kept : keep c = true
      · rw [List.takeWhile_cons_of_pos kept, List.dropWhile_cons_of_pos kept, List.takeWhile_cons_of_pos kept,
          List.dropWhile_cons_of_pos kept, rewriteOther asked, ih.1, ih.2, Quote.asked, if_neg asked, Nat.zero_add]
        exact ⟨rfl, rfl⟩
      · rw [List.takeWhile_cons_of_neg kept, List.dropWhile_cons_of_neg kept, List.takeWhile_cons_of_neg kept,
          List.dropWhile_cons_of_neg kept]
        exact ⟨rfl, (rewriteOther asked).symm⟩

-- A pattern takes the same with the placeholders numbered.
variable (q idx text) in
theorem takesRewritten {parts : List Part} (blind : ∀ part ∈ parts, Blind part) : takes parts (q.rewrite idx text) =
    (takes parts text).map (fun found => (q.rewrite idx found.1, (q.past found.1).rewrite (idx + q.asked found.1) found.2)) := by
  induction parts generalizing q idx text with
  | nil => rfl
  | cons part parts ih =>
    obtain ⟨here, others⟩ := List.forall_mem_cons.mp blind
    cases part with
    | one keep =>
      cases text with
      | nil => rfl
      | cons c rest =>
        by_cases asked : c = '?' ∧ q = .closed
        · rw [rewriteAsked asked, takesOneNot (here c (by rw [asked.1]; rfl))]
          exact takesOneNot (here '$' rfl)
        · rw [rewriteOther asked]
          by_cases kept : keep c = true
          · rw [takesOne kept, takesOne kept, ih _ _ _ others, Option.map_map, Option.map_map]
            refine congrArg (fun f => (takes parts rest).map f) (funext fun found => ?_)
            simp only [Function.comp_apply, rewriteOther asked, Quote.asked, if_neg asked, Nat.zero_add]
            rfl
          · have other : keep c = false := by simpa using kept
            rw [takesOneNot other, takesOneNot other]
            rfl
    | run keep =>
      rw [takes, takes, (runRewritten here).1, (runRewritten here).2, ih _ _ _ others, Option.map_map, Option.map_map]
      refine congrArg (fun f => (takes parts (text.dropWhile keep)).map f) (funext fun found => ?_)
      simp only [Function.comp_apply, rewriteSplit, overAppend, askedAppend, Nat.add_assoc]

theorem oddNeither {c : Char} (strange : odd c = true) : c.isAlpha = false ∧ isSpace c = false := by
  simp only [odd, Bool.or_eq_true, decide_eq_true_eq] at strange
  rcases strange with (rfl | rfl) | digit
  · exact ⟨rfl, rfl⟩
  · exact ⟨rfl, rfl⟩
  · have range : 48 ≤ c.toNat ∧ c.toNat ≤ 57 := by
      simp only [Char.isDigit, Bool.and_eq_true, decide_eq_true_eq] at digit
      exact digit
    constructor
    · by_contra alpha
      have letter : (65 ≤ c.toNat ∧ c.toNat ≤ 90) ∨ 97 ≤ c.toNat ∧ c.toNat ≤ 122 := alphaRange (by simpa using alpha)
      omega
    · by_contra space
      simp [isSpace] at space
      omega

theorem letterOdd {c d : Char} (alpha : d.isAlpha = true) (strange : odd c = true) : letter d c = false := by
  cases same : letter d c with
  | false => rfl
  | true =>
    have both := letterAlpha alpha same
    rw [(oddNeither strange).1] at both
    cases both

theorem lettersParts {property : Part → Prop} {word : String} (each : ∀ d ∈ word.toList, property (.one (letter d))) :
    ∀ part ∈ letters word, property part := by
  intro part mem
  obtain ⟨d, held, rfl⟩ := List.mem_map.mp mem
  exact each d held

theorem insertParts {property : Part → Prop} (each : ∀ d, d.isUpper = true → d ≠ 'F' → property (.one (letter d)))
    (one : property (.one isSpace)) (run : property (.run isSpace)) : ∀ part ∈ insertOrIgnore.parts, property part := by
  have blank : ∀ part ∈ blanks, property part := List.forall_mem_cons.mpr ⟨one, List.forall_mem_singleton.mpr run⟩
  have words : ∀ word : String, (∀ d ∈ word.toList, d.isUpper = true ∧ d ≠ 'F') → ∀ part ∈ letters word, property part :=
    fun word capitals => lettersParts fun d mem => each d (capitals d mem).1 (capitals d mem).2
  refine List.forall_mem_cons.mpr ⟨each 'I' rfl (by decide), ?_⟩
  refine List.forall_mem_append.mpr ⟨List.forall_mem_append.mpr ⟨List.forall_mem_append.mpr ⟨List.forall_mem_append.mpr
    ⟨words _ (by simp), blank⟩, words _ (by simp)⟩, blank⟩, words _ (by simp)⟩

theorem insertBlind : ∀ part ∈ insertOrIgnore.parts, Blind part :=
  insertParts (fun _ upper _ _ strange => letterOdd (upperAlpha upper) strange) (fun _ strange => (oddNeither strange).2)
    (.inl fun _ strange => (oddNeither strange).2)

theorem valuesBlind : ∀ part ∈ valuesTuple.parts, Blind part := by
  have each : ∀ d : Char, d.isAlpha = true → Blind (.one (letter d)) := fun _ alpha _ strange => letterOdd alpha strange
  have exactly : ∀ d, odd d = false → Blind (.one (fun c => c = d)) := by
    intro d plain c strange
    rw [decide_eq_false_iff_not]
    rintro rfl
    rw [plain] at strange
    cases strange
  have others : Blind (.run (fun c => c ≠ ')')) := by
    refine .inr fun c strange => decide_eq_true ?_
    rintro rfl
    cases strange
  refine List.forall_mem_cons.mpr ⟨each 'V' rfl, List.forall_mem_append.mpr ⟨lettersParts fun d mem => each d ?_, ?_⟩⟩
  · have alpha : ∀ d ∈ "ALUES".toList, d.isAlpha = true := by simp
    exact alpha d mem
  refine List.forall_mem_cons.mpr ⟨.inl fun _ strange => (oddNeither strange).2, List.forall_mem_cons.mpr ⟨exactly '(' rfl, ?_⟩⟩
  exact List.forall_mem_cons.mpr ⟨others, List.forall_mem_singleton.mpr (exactly ')' rfl)⟩

-- Characters that begin no match are passed over.
theorem rewritePassed {a b : Text} (none : ∀ c ∈ a, p.first c = false) : Regex.rewrite p put (a ++ b) = a ++ Regex.rewrite p put b := by
  induction a with
  | nil => rfl
  | cons c a ih =>
    obtain ⟨here, others⟩ := List.forall_mem_cons.mp none
    rw [List.cons_append, rewriteGap (takesOneNot here), ih others]
    rfl

-- Where no quote and no `?` stands nothing is numbered and no quote opened or closed.
def Still (text : Text) : Prop := ∀ c ∈ text, c ≠ '?' ∧ c ≠ '\'' ∧ c ≠ '"'

theorem stillOver (still : Still text) (q : Quote) : q.past text = q ∧ q.asked text = 0 := by
  induction text generalizing q with
  | nil => exact ⟨rfl, rfl⟩
  | cons c rest ih =>
    obtain ⟨⟨ask, single, double⟩, others⟩ := List.forall_mem_cons.mp still
    have same : q.after c = q := by
      rcases q with _ | mark
      · rw [Quote.after, if_neg single, if_neg double]
      · rw [Quote.after, if_neg]
        cases mark
        · exact single
        · exact double
    rw [show q.past (c :: rest) = (q.after c).past rest from rfl, Quote.asked, same, if_neg (fun both => ask both.1)]
    exact ⟨(ih others q).1, (Nat.zero_add _).trans (ih others q).2⟩

theorem stillRewrite (still : Still text) : q.rewrite idx text = text := by
  induction text generalizing q with
  | nil => rfl
  | cons c rest ih =>
    obtain ⟨⟨ask, -, -⟩, others⟩ := List.forall_mem_cons.mp still
    rw [rewriteOther fun both => ask both.1, ih others]

theorem stillAppend (still : Still x) : q.rewrite idx (x ++ rest) = x ++ q.rewrite idx rest := by
  rw [rewriteSplit, stillRewrite still, (stillOver still q).1, (stillOver still q).2, Nat.add_zero]

theorem insertStill (found : takes insertOrIgnore.parts text = some (x, left)) : Still x := by
  have other : ∀ c : Char, c.isAlpha = false → isSpace c = false → c ∉ x := fun c symbol solid =>
    have parts : ∀ part ∈ insertOrIgnore.parts, part.keep c = false := insertParts (fun d upper _ => ?_) solid solid
    takesAvoids found parts
  · intro c mem
    exact ⟨fun same => other '?' rfl rfl (same ▸ mem), fun same => other '\'' rfl rfl (same ▸ mem),
      fun same => other '"' rfl rfl (same ▸ mem)⟩
  · cases same : letter d c with
    | false => exact same
    | true =>
      have both := letterAlpha (upperAlpha upper) same
      rw [symbol] at both
      cases both

def inserted (_ : Text) : Text := "INSERT".toList
def withoutWords (text : Text) : Text := Regex.rewrite insertOrIgnore inserted text

theorem insertedText : inserted x = ['I', 'N', 'S', 'E', 'R', 'T'] := rfl
theorem insertedStill : Still (inserted x) := by
  rw [insertedText]
  simp [Still]

theorem parameterFirst {d : Char} (alpha : d.isAlpha = true) (idx : Nat) : ∀ c ∈ parameter idx, letter d c = false :=
  fun c mem => letterOdd alpha (parameterOdd idx c mem)

-- Leaving out the words and numbering the placeholders can be done in either order.
theorem wordsRewritten (q : Quote) (idx : Nat) (text : Text) :
    withoutWords (q.rewrite idx text) = q.rewrite idx (withoutWords text) := by
  induction text using cutInduction insertOrIgnore generalizing q idx with
  | nil =>
    have none : withoutWords [] = [] := rewriteNil
    rw [none]
    exact rewriteNil
  | hit text x left found ih =>
    have still := insertStill found
    have again : takes insertOrIgnore.parts (q.rewrite idx text) = some (x, q.rewrite idx left) := by
      rw [takesRewritten _ _ _ insertBlind, found, Option.map_some, stillRewrite still, (stillOver still q).1, (stillOver still q).2,
        Nat.add_zero]
    have here : withoutWords text = inserted x ++ withoutWords left := rewriteHit found
    rw [here, stillAppend insertedStill, ← ih]
    exact rewriteHit again
  | gap c rest none ih =>
    have here : withoutWords (c :: rest) = c :: withoutWords rest := rewriteGap none
    by_cases asked : c = '?' ∧ q = .closed
    · rw [here, rewriteAsked asked, rewriteAsked asked, ← ih]
      exact rewritePassed (parameterFirst (d := 'I') rfl (idx + 1))
    · have again : takes insertOrIgnore.parts (q.rewrite idx (c :: rest)) = Option.none := by
        rw [takesRewritten _ _ _ insertBlind, none, Option.map_none]
      rw [rewriteOther asked] at again ⊢
      rw [here, rewriteOther asked, ← ih]
      exact rewriteGap again

theorem findHits (p : Pattern) (text : Text) : ∀ before, (find p.re before text).isSome = true ↔ 0 < hits p text := by
  induction text with
  | nil =>
    intro before
    rw [find, patternHere, hitsNil]
    simp [takes, Pattern.parts]
  | cons c rest ih =>
    intro before
    rw [find, patternHere]
    cases found : takes p.parts (c :: rest) with
    | none => exact hitsGap found ▸ ih (c :: before)
    | some pair => simp [hitsHit (show takes p.parts (c :: rest) = some (pair.1, pair.2) from found)]

-- A character of the statement as it is shown: numbered or as it is, with or without the clause behind it.
structure Glyph where
  letter : Char
  numbered : Bool
  followed : Bool
  deriving DecidableEq

def shown : Nat → List Glyph → Text
  | _, [] => []
  | idx, g :: rest =>
    (if g.numbered then parameter (idx + 1) else [g.letter]) ++ (if g.followed then conflict else []) ++
      shown (if g.numbered then idx + 1 else idx) rest

def codeGlyphs : Quote → List (Char × Bool) → List Glyph
  | _, [] => []
  | q, (c, followed) :: rest => ⟨c, c = '?' ∧ q = .closed, followed⟩ :: codeGlyphs (q.after c) rest

def Piece.marks : Piece → List (Char × Bool)
  | .gap c => [(c, false)]
  | .hit x => x.dropLast.map (fun c => (c, false)) ++ x.getLast?.toList.map (fun c => (c, true))
def marks (text : Text) : List (Char × Bool) := (cut valuesTuple text).flatMap Piece.marks

theorem shownPlain (text : Text) (q : Quote) (idx : Nat) (more : List (Char × Bool)) :
    shown idx (codeGlyphs q (text.map (fun c => (c, false)) ++ more)) =
      q.rewrite idx text ++ shown (idx + q.asked text) (codeGlyphs (q.past text) more) := by
  induction text generalizing q idx with
  | nil => rfl
  | cons c rest ih =>
    simp only [List.map_cons, List.cons_append, codeGlyphs, shown, ih]
    by_cases asked : c = '?' ∧ q = .closed
    · rw [rewriteAsked asked, Quote.asked, if_pos asked, show q.past (c :: rest) = (q.after c).past rest from rfl, askedAfter asked]
      simp [asked, Nat.add_assoc]
    · rw [rewriteOther asked, Quote.asked, if_neg asked]
      simp [asked]
      rfl

def clausePut (x : Text) : Text := x ++ conflict

theorem valuesParts : valuesTuple.parts = (Part.one (letter 'V') :: (letters "ALUES" ++
    [Part.run isSpace, Part.one (fun c => c = '('), Part.run (fun c => c ≠ ')')])) ++ [Part.one (fun c => c = ')')] := rfl

theorem tupleClosed (found : takes valuesTuple.parts text = some (x, left)) : ∃ init, x = init ++ [')'] := by
  rw [valuesParts] at found
  obtain ⟨init, c, rfl, closing⟩ := takesLast found
  exact ⟨init, by rw [of_decide_eq_true closing]⟩

theorem closingStill : Still [')'] := by simp [Still]

theorem marksHit {init : Text} (found : takes valuesTuple.parts text = some (init ++ [')'], left)) :
    marks text = init.map (fun c => (c, false)) ++ (')', true) :: marks left := by
  rw [marks, cutHit found, List.flatMap_cons]
  simp [Piece.marks, marks]

theorem marksGap {c : Char} (none : takes valuesTuple.parts (c :: rest) = none) : marks (c :: rest) = (c, false) :: marks rest := by
  rw [marks, cutGap none, List.flatMap_cons]
  rfl

theorem clauseShown (q : Quote) (idx : Nat) (text : Text) :
    Regex.rewrite valuesTuple clausePut (q.rewrite idx text) = shown idx (codeGlyphs q (marks text)) := by
  induction text using cutInduction valuesTuple generalizing q idx with
  | nil => rw [marks, cutNil]; exact rewriteNil
  | hit text x left found ih =>
    have again := takesRewritten q idx text valuesBlind
    rw [found, Option.map_some] at again
    obtain ⟨init, rfl⟩ := tupleClosed found
    have here := marksHit found
    have beyond : q.past (init ++ [')']) = q.past init := by rw [overAppend, (stillOver closingStill _).1]
    have asked : q.asked (init ++ [')']) = q.asked init := by rw [askedAppend, (stillOver closingStill _).2, Nat.add_zero]
    have same : (q.past init).after ')' = q.past init := (stillOver closingStill (q.past init)).1
    have last : q.rewrite idx (init ++ [')']) = q.rewrite idx init ++ [')'] := by rw [rewriteSplit, stillRewrite closingStill]
    rw [rewriteHit again, ih, here, shownPlain, beyond, asked, last]
    simp [clausePut, codeGlyphs, shown, same]
  | gap c rest none ih =>
    have here := marksGap none
    by_cases asked : c = '?' ∧ q = .closed
    · rw [rewriteAsked asked, rewritePassed (parameterFirst (d := 'V') rfl (idx + 1)), ih, here, codeGlyphs, askedAfter asked]
      simp [shown, asked]
    · have again : takes valuesTuple.parts (q.rewrite idx (c :: rest)) = Option.none := by
        rw [takesRewritten _ _ _ valuesBlind, none, Option.map_none]
      rw [rewriteOther asked] at again ⊢
      rw [rewriteGap again, ih, here, codeGlyphs]
      simp [shown, asked]

theorem wordsReplaced (pg : Text) :
    replaceFrom insertOrIgnore.re "INSERT".toList (pg.length + 1) [] pg = withoutWords pg := by
  rw [replaceFromBy]
  exact replaceRewrite (fun _ => []) (patternHere insertOrIgnore) (fun _ => rfl) (Nat.lt_succ_self _)

theorem clauseReplaced (pg : Text) :
    replaceBy (.group 1 valuesTuple.re) (fun groups => groupText 1 groups ++ conflict) (pg.length + 1) [] pg =
      Regex.rewrite valuesTuple clausePut pg :=
  replaceRewrite (fun x => [(1, x)]) (groupHere valuesTuple 1) (fun _ => rfl) (Nat.lt_succ_self _)

theorem translateShown (sql : Text) : translateSql sql =
    if 0 < hits insertOrIgnore sql then shown 0 (codeGlyphs .closed (marks (withoutWords sql)))
    else shown 0 (codeGlyphs .closed (sql.map (fun c => (c, false)))) := by
  have params : rewriteParams sql = Quote.closed.rewrite 0 sql := rfl
  have words := wordsRewritten .closed 0 sql
  simp only [translateSql, wordsReplaced, clauseReplaced, findHits, params, words]
  by_cases found : 0 < hits insertOrIgnore sql
  · rw [if_pos found, if_pos found, clauseShown]
  · have plain := shownPlain sql .closed 0 []
    rw [List.append_nil] at plain
    rw [if_neg found, if_neg found, plain, withoutWords, rewriteNone (Nat.eq_zero_of_not_pos found)]
    exact (List.append_nil _).symm

theorem letterUpper {c d : Char} (upper : d.isUpper = true) (same : letter d c = true) : c.toUpper = d := by
  simp only [letter, either, Bool.or_eq_true, decide_eq_true_eq] at same
  rcases same with (rfl | rfl) | same
  · exact Char.toUpper_eq_of_not_isLower (Char.not_isLower_of_isUpper upper)
  · rw [Char.isUpper_toLower_eq_false] at upper
    cases upper
  · exact same

theorem letterBoth {c d e : Char} (upperD : d.isUpper = true) (upperE : e.isUpper = true) (isD : letter d c = true)
    (isE : letter e c = true) : d = e := (letterUpper upperD isD).symm.trans (letterUpper upperE isE)

theorem insertEnds : insertOrIgnore.parts =
    (letters "INSERT" ++ blanks ++ letters "OR" ++ blanks ++ letters "IGNOR") ++ [.one (letter 'E')] := rfl

-- Three letters begin a match, and no later one is like the third of them.
theorem insertShape (found : takes insertOrIgnore.parts text = some (x, left)) :
    ∃ i n s tail init e, x = i :: n :: s :: tail ∧ x = init ++ [e] ∧ letter 'I' i = true ∧ letter 'N' n = true ∧
      letter 'S' s = true ∧ letter 'E' e = true ∧ ∀ c ∈ tail, letter 'S' c = false := by
  obtain ⟨init, e, whole, last⟩ := takesLast (insertEnds ▸ found)
  obtain ⟨i, t, y, -, rfl, first, next⟩ := oneTakes found
  obtain ⟨n, t, y, -, rfl, second, next⟩ := oneTakes next
  obtain ⟨s, t, tail, -, rfl, third, next⟩ := oneTakes next
  refine ⟨i, n, s, tail, init, e, rfl, whole, first, second, third, last, fun c mem => ?_⟩
  by_contra isS
  have other : ∀ d, d.isUpper = true → d ≠ 'S' → letter d c = false := by
    intro d upper different
    by_contra isD
    exact different (letterBoth upper rfl (by simpa using isD) (by simpa using isS))
  have solid : isSpace c = false := by
    by_contra space
    rw [spaceLetter (d := 'S') rfl c (by simpa using space)] at isS
    exact isS rfl
  have words : ∀ word : String, (∀ d ∈ word.toList, d.isUpper = true ∧ d ≠ 'S') → ∀ part ∈ letters word, part.keep c = false :=
    fun word capitals => lettersParts fun d mem => other d (capitals d mem).1 (capitals d mem).2
  have blank : ∀ part ∈ blanks, part.keep c = false := List.forall_mem_cons.mpr ⟨solid, List.forall_mem_singleton.mpr solid⟩
  have rest : ∀ part ∈ letters "ERT" ++ blanks ++ letters "OR" ++ blanks ++ letters "IGNORE", part.keep c = false :=
    List.forall_mem_append.mpr ⟨List.forall_mem_append.mpr ⟨List.forall_mem_append.mpr ⟨List.forall_mem_append.mpr
      ⟨words _ (by simp), blank⟩, words _ (by simp)⟩, blank⟩, words _ (by simp)⟩
  exact takesAvoids next rest mem

theorem insertApart {a b y l : Text} (found : takes insertOrIgnore.parts b = some (y, l)) : Apart insertOrIgnore a b := by
  rintro front back - nonempty x left again
  by_contra long
  obtain ⟨i, n, s, tail, init, e, rfl, last, -, -, -, isE, none⟩ := insertShape again
  obtain ⟨i', n', s', tail', -, -, rfl, -, isI, isN, isS, -, -⟩ := insertShape found
  have whole := takesText again
  rw [takesText found] at whole
  obtain ⟨z, taken, behind⟩ : ∃ z, i :: n :: s :: tail = back ++ z ∧ i' :: n' :: s' :: tail' ++ l = z ++ left := by
    rcases List.append_eq_append_iff.mp whole with ⟨z, same, behind⟩ | ⟨z, same, behind⟩
    · exact ⟨z, same, behind⟩
    · exact absurd (congrArg List.length same) (by rw [List.length_append]; omega)
  have final : ∀ c, c ∈ (back ++ z).getLast? → c = e := by
    intro c held
    rw [← taken, last, List.getLast?_concat] at held
    exact (Option.some.inj held).symm
  match z, behind with
  | [], _ =>
    rw [List.append_nil] at taken
    exact long (le_of_eq (congrArg List.length taken))
  | [_], behind =>
    obtain ⟨rfl, -⟩ := List.cons.inj behind
    have same := final i' (by simp)
    exact absurd (letterBoth rfl rfl isI (same ▸ isE)) (by decide)
  | [_, _], behind =>
    simp only [List.cons_append, List.nil_append, List.cons.injEq] at behind
    obtain ⟨rfl, rfl, -⟩ := behind
    have same := final n' (by simp)
    exact absurd (letterBoth rfl rfl isN (same ▸ isE)) (by decide)
  | _ :: _ :: _ :: z, behind =>
    simp only [List.cons_append, List.cons.injEq] at behind
    obtain ⟨rfl, rfl, rfl, -⟩ := behind
    obtain ⟨c, back, rfl⟩ := List.exists_cons_of_ne_nil nonempty
    have held : s' ∈ tail := by
      have front : c :: back ++ i' :: n' :: s' :: z = (c :: back ++ [i', n']) ++ s' :: z := by simp
      have cut : tail = (c :: back ++ [i', n']).drop 3 ++ s' :: z := by
        rw [← List.drop_append_of_le_length (by simp), ← front, ← taken]
        rfl
      rw [cut]
      exact List.mem_append_right _ List.mem_cons_self
    rw [none s' held] at isS
    cases isS

theorem takesLetters {ds text : Text} (same : text.map Char.toUpper = ds) (parts : List Part) (more : Text) :
    takes (ds.map (fun d => .one (letter d)) ++ parts) (text ++ more) =
      (takes parts more).map (fun found => (text ++ found.1, found.2)) := by
  induction ds generalizing text with
  | nil =>
    obtain rfl := List.map_eq_nil_iff.mp same
    exact Option.map_id'.symm
  | cons d ds ih =>
    obtain ⟨c, text, rfl, upper, same⟩ := List.map_eq_cons_iff.mp same
    have kept : letter d c = true := by simp [letter, either, upper]
    rw [List.map_cons, List.cons_append, List.cons_append, takesOne kept, ih same, Option.map_map]
    rfl

theorem spaceValid {c : Char} (valid : (Token.space c).Valid) : isSpace c = true := by
  have kinds : c ∈ [' ', '\t', '\n', '\r', '\x0c'] := valid
  simp only [List.mem_cons, List.not_mem_nil, or_false] at kinds
  rcases kinds with rfl | rfl | rfl | rfl | rfl <;> rfl

theorem wordText {t : Token} {name : String} (same : t.isWord name = true) :
    ∃ text, t = .word text ∧ text.map Char.toUpper = name.toList := by
  cases t with
  | word text => exact ⟨text, rfl, of_decide_eq_true same⟩
  | _ => cases same

theorem spacesText {tokens : List Token} (valid : ∀ t ∈ tokens, t.Valid) (spaces : ∀ t ∈ tokens, t.isSpace = true) :
    ∀ c ∈ spelled tokens, isSpace c = true := by
  intro c mem
  obtain ⟨t, held, mem⟩ := List.mem_flatMap.mp mem
  cases t with
  | space d =>
    obtain rfl := List.mem_singleton.mp mem
    exact spaceValid (valid _ held)
  | _ => cases spaces _ held

theorem runStops {keep : Char → Bool} {run more : Text} (all : ∀ c ∈ run, keep c = true) (stops : more.head?.any keep = false) :
    (run ++ more).takeWhile keep = run ∧ (run ++ more).dropWhile keep = more := by
  rw [List.takeWhile_append_of_pos all, List.dropWhile_append_of_pos all]
  cases more with
  | nil => exact ⟨List.append_nil run, rfl⟩
  | cons c more =>
    have other : ¬ keep c = true := by simpa using stops
    rw [List.takeWhile_cons_of_neg other, List.dropWhile_cons_of_neg other]
    exact ⟨List.append_nil run, rfl⟩

-- White space and the word behind it.
theorem blanksTaken {name : String} {tokens more : List Token} (valid : ∀ t ∈ tokens, t.Valid)
    (found : blanksThen name tokens = some more) (alpha : name.toList.head?.any Char.isAlpha = true) (parts : List Part) :
    ∃ taken, tokens = taken ++ more ∧ (∀ t ∈ taken, t.isSpace = true ∨ t.isWord name = true) ∧
      takes (blanks ++ letters name ++ parts) (spelled tokens) =
        (takes parts (spelled more)).map (fun found => (spelled taken ++ found.1, found.2)) := by
  match tokens, found with
  | .space c :: rest, found =>
    have spaces : ∀ t ∈ rest.takeWhile Token.isSpace, t.isSpace = true := fun t mem => List.mem_takeWhile_imp mem
    have whole : rest.takeWhile Token.isSpace ++ rest.dropWhile Token.isSpace = rest := List.takeWhile_append_dropWhile
    simp only [blanksThen] at found
    split at found
    · rename_i t after dropped
      split at found
      · rename_i isName
        cases found
        obtain ⟨text, rfl, same⟩ := wordText isName
        rw [dropped] at whole
        refine ⟨.space c :: (rest.takeWhile Token.isSpace ++ [.word text]), ?_, ?_, ?_⟩
        · rw [List.cons_append, List.append_assoc, List.singleton_append, whole]
        · refine List.forall_mem_cons.mpr ⟨.inl rfl, List.forall_mem_append.mpr ⟨fun t mem => .inl (spaces t mem), ?_⟩⟩
          exact List.forall_mem_singleton.mpr (.inr isName)
        · have solid : (text ++ spelled more).head?.any isSpace = false := by
            cases text with
            | nil =>
              rw [← same] at alpha
              cases alpha
            | cons d ds =>
              rw [← same] at alpha
              have letter : d.isAlpha = true := by
                have upper : d.toUpper.isAlpha = true := by simpa using alpha
                rwa [Char.isAlpha_toUpper_eq_isAlpha] at upper
              cases space : isSpace d with
              | false => simpa using space
              | true =>
                rw [spaceAlpha space] at letter
                cases letter
          have blank := spacesText (fun t mem => valid t (List.mem_cons_of_mem _ (whole ▸ List.mem_append_left _ mem))) spaces
          have text' : spelled (.space c :: rest) = c :: (spelled (rest.takeWhile Token.isSpace) ++ (text ++ spelled more)) := by
            have behind : spelled rest = spelled (rest.takeWhile Token.isSpace) ++ (text ++ spelled more) := by
              conv_lhs => rw [← whole]
              simp [spelled, Token.spelled]
            rw [← behind]
            rfl
          have run := runStops blank solid
          have here : blanks ++ letters name ++ parts = .one isSpace :: .run isSpace :: (letters name ++ parts) := rfl
          rw [text', here, takesOne (spaceValid (valid _ List.mem_cons_self)), takes, run.1, run.2, letters, takesLetters same,
            Option.map_map, Option.map_map]
          refine congrArg (fun f => (takes parts (spelled more)).map f) (funext fun found => ?_)
          simp [spelled, Token.spelled]
      · cases found
    · cases found

theorem insertBegins : insertOrIgnore.parts =
    letters "INSERT" ++ (blanks ++ letters "OR" ++ (blanks ++ letters "IGNORE" ++ [])) := rfl

-- `INSERT OR IGNORE` with white space between is what the expression matches.
theorem plainTaken {tokens tail : List Token} (valid : ∀ t ∈ tokens, t.Valid) (found : plainTail tokens = some tail) :
    ∃ t taken, tokens = t :: (taken ++ tail) ∧ (∀ t ∈ taken, t.isSpace = true ∨ t.isWord "OR" = true ∨ t.isWord "IGNORE" = true) ∧
      takes insertOrIgnore.parts (spelled tokens) = some (spelled (t :: taken), spelled tail) := by
  cases tokens with
  | nil => cases found
  | cons t rest =>
    have valid' : ∀ t ∈ rest, t.Valid := fun t mem => valid t (List.mem_cons_of_mem _ mem)
    rw [plainTail] at found
    split at found
    · rename_i isInsert
      obtain ⟨middle, orFound, ignoreFound⟩ := Option.bind_eq_some_iff.mp found
      obtain ⟨text, rfl, same⟩ := wordText isInsert
      obtain ⟨first, rfl, kinds, taken⟩ := blanksTaken valid' orFound (by decide) (blanks ++ letters "IGNORE")
      have valid'' : ∀ t ∈ middle, t.Valid := fun t mem => valid' t (List.mem_append_right _ mem)
      obtain ⟨second, rfl, kinds', taken'⟩ := blanksTaken valid'' ignoreFound (by decide) []
      refine ⟨.word text, first ++ second, by rw [List.append_assoc], ?_, ?_⟩
      · refine List.forall_mem_append.mpr ⟨fun t mem => (kinds t mem).imp_right .inl, fun t mem => (kinds' t mem).imp_right .inr⟩
      · have parts := insertBegins
        have whole : spelled (.word text :: (first ++ (second ++ tail))) = text ++ spelled (first ++ (second ++ tail)) := rfl
        have none : blanks ++ letters "IGNORE" ++ [] = blanks ++ letters "IGNORE" := List.append_nil _
        rw [none] at parts
        rw [parts, whole, letters, takesLetters same, taken, ← none, taken']
        simp [takes, spelled, Token.spelled]
    · cases found

theorem translatedSkip (taken : List Token) {tail : List Token} {stage : Stage} :
    translated taken.length stage (taken ++ tail) = translated 0 stage tail := by
  induction taken with
  | nil => rfl
  | cons t taken ih => exact ih

theorem headsSkip {taken tail : List Token}
    (kinds : ∀ t ∈ taken, t.isSpace = true ∨ t.isWord "OR" = true ∨ t.isWord "IGNORE" = true) :
    plainHeads (taken ++ tail) = plainHeads tail := by
  induction taken with
  | nil => rfl
  | cons t taken ih =>
    obtain ⟨here, others⟩ := List.forall_mem_cons.mp kinds
    have other : t.isWord "INSERT" = false := by
      cases t with
      | word text =>
        rcases here with none | same | same
        · cases none
        · have upper : text.map Char.toUpper = _ := of_decide_eq_true same
          simp [Token.isWord, upper]
        · have upper : text.map Char.toUpper = _ := of_decide_eq_true same
          simp [Token.isWord, upper]
      | _ => rfl
    have none : plainTail (t :: (taken ++ tail)) = none := by rw [plainTail, other]; rfl
    rw [List.cons_append, plainHeads, none, ih others]
    exact Nat.zero_add _

theorem translatedHead {stage : Stage} {tokens tail : List Token} {t : Token} {taken : List Token}
    (found : plainTail tokens = some tail) (whole : tokens = t :: (taken ++ tail)) :
    translated 0 stage tokens = (.word "INSERT".toList, false) :: translated 0 (.seeking 0) tail := by
  subst whole
  have size : (taken ++ tail).length - tail.length = taken.length := by rw [List.length_append]; omega
  rw [translated, found]
  simp only [size, translatedSkip]

theorem translatedOther (stage : Stage) {t : Token} {rest : List Token} (none : plainTail (t :: rest) = none) :
    ∃ stage' followed, translated 0 stage (t :: rest) = (t, followed) :: translated 0 stage' rest := by
  rw [translated, none]
  exact ⟨_, _, rfl⟩

theorem insertLess (found : takes insertOrIgnore.parts text = some (x, left)) :
    (inserted x).countP isSpace < x.countP isSpace := by
  obtain ⟨c, mem, space⟩ := takesHolds found (show .one isSpace ∈ insertOrIgnore.parts by
    simp [Pattern.parts, insertOrIgnore, blanks])
  have none : (inserted x).countP isSpace = 0 := rfl
  rw [none]
  exact List.countP_pos_iff.mpr ⟨c, mem, space⟩

-- The translated tokens are those of the statement, but for the words and the white space of its heads.
theorem translatedInduction {motive : List Token → List Token → Prop} (nil : motive [] [])
    (other : ∀ t rest out, t.Valid → plainTail (t :: rest) = none → motive rest out → motive (t :: rest) (t :: out))
    (head : ∀ t taken tail out, t.Valid → plainTail (t :: (taken ++ tail)) = some tail → t.isWord "INSERT" = true →
      (∀ u ∈ taken, u.Valid ∧ (u.isSpace = true ∨ u.isWord "OR" = true ∨ u.isWord "IGNORE" = true)) →
      takes insertOrIgnore.parts (spelled (t :: (taken ++ tail))) = some (spelled (t :: taken), spelled tail) →
      motive tail out → motive (t :: (taken ++ tail)) (.word "INSERT".toList :: out))
    (stage : Stage) {tokens : List Token} (valid : ∀ t ∈ tokens, t.Valid) :
    motive tokens ((translated 0 stage tokens).map Prod.fst) := by
  induction size : tokens.length using Nat.strong_induction_on generalizing tokens stage with
  | _ n ih =>
    cases tokens with
    | nil => exact nil
    | cons t rest =>
      have valid' : ∀ t ∈ rest, t.Valid := fun t mem => valid t (List.mem_cons_of_mem _ mem)
      cases found : plainTail (t :: rest) with
      | none =>
        obtain ⟨stage', followed, here⟩ := translatedOther stage found
        rw [here]
        exact other t rest _ (valid t List.mem_cons_self) found (ih rest.length (size ▸ Nat.lt_succ_self _) stage' valid' rfl)
      | some tail =>
        obtain ⟨u, taken, whole, kinds, taken'⟩ := plainTaken valid found
        obtain ⟨rfl, rfl⟩ := List.cons.inj whole
        have isInsert : t.isWord "INSERT" = true := by
          by_contra not
          rw [plainTail, if_neg not] at found
          cases found
        have smaller : tail.length < n := by
          rw [← size, List.length_cons, List.length_append]
          omega
        rw [translatedHead found rfl]
        exact head t taken tail _ (valid t List.mem_cons_self) found isInsert (fun u mem => ⟨valid' u (List.mem_append_left _ mem), kinds u mem⟩) taken'
          (ih tail.length smaller (.seeking 0) (fun t mem => valid' t (List.mem_append_right _ mem)) rfl)

-- The words taken out are at least the statement's own, and no others exactly if the texts agree.
theorem wordsLeft (stage : Stage) {tokens : List Token} (valid : ∀ t ∈ tokens, t.Valid) (front : Text) :
    let text := front ++ spelled tokens
    let wanted := front ++ spelled ((translated 0 stage tokens).map Prod.fst)
    plainHeads tokens ≤ hits insertOrIgnore text ∧
      (hits insertOrIgnore text = plainHeads tokens → withoutWords text = wanted) ∧
      (plainHeads tokens < hits insertOrIgnore text → (withoutWords text).countP isSpace < wanted.countP isSpace) := by
  have less : ∀ text : Text, (withoutWords text).countP isSpace + hits insertOrIgnore text ≤ text.countP isSpace :=
    rewriteLess fun x text left found => insertLess found
  refine translatedInduction (motive := fun tokens out => ∀ front : Text,
    plainHeads tokens ≤ hits insertOrIgnore (front ++ spelled tokens) ∧
      (hits insertOrIgnore (front ++ spelled tokens) = plainHeads tokens →
        withoutWords (front ++ spelled tokens) = front ++ spelled out) ∧
      (plainHeads tokens < hits insertOrIgnore (front ++ spelled tokens) →
        (withoutWords (front ++ spelled tokens)).countP isSpace < (front ++ spelled out).countP isSpace)) ?_ ?_ ?_ stage valid front
  · intro front
    have here := less front
    rw [show front ++ spelled [] = front from List.append_nil front]
    exact ⟨Nat.zero_le _, fun none => rewriteNone none, fun some => by change 0 < _ at some; omega⟩
  · intro t rest out _ none ih front
    have heads : plainHeads (t :: rest) = plainHeads rest := by rw [plainHeads, none]; exact Nat.zero_add _
    have text : ∀ tokens, front ++ spelled (t :: tokens) = front ++ t.spelled ++ spelled tokens :=
      fun tokens => (List.append_assoc _ _ _).symm
    rw [heads, text, text]
    exact ih (front ++ t.spelled)
  · intro t taken tail out _ found _ kinds taken' ih front
    have heads : plainHeads (t :: (taken ++ tail)) = 1 + plainHeads tail := by
      rw [plainHeads, found, headsSkip fun u mem => (kinds u mem).2]
      rfl
    have apart := insertApart (a := front) taken'
    have wanted : front ++ spelled (.word "INSERT".toList :: out) = front ++ ("INSERT".toList ++ spelled out) := rfl
    have count : hits insertOrIgnore (front ++ spelled (t :: (taken ++ tail))) =
        hits insertOrIgnore front + (hits insertOrIgnore (spelled tail) + 1) := by
      rw [hitsAppend apart, hitsHit taken']
    have left : withoutWords (front ++ spelled (t :: (taken ++ tail))) =
        withoutWords front ++ ("INSERT".toList ++ withoutWords (spelled tail)) := by
      rw [withoutWords, rewriteAppend apart, rewriteHit taken']
      rfl
    obtain ⟨atLeast, equal, more⟩ := ih []
    simp only [List.nil_append] at atLeast equal more
    have here := less front
    rw [heads, count, left, wanted]
    refine ⟨by omega, fun same => ?_, fun extra => ?_⟩
    · rw [equal (by omega), show withoutWords front = front from rewriteNone (by omega)]
    · simp only [List.countP_append]
      rcases Nat.lt_or_ge (plainHeads tail) (hits insertOrIgnore (spelled tail)) with some | none
      · have later := more some
        omega
      · rw [equal (by omega)]
        omega

def isF (c : Char) : Bool := c = 'F'

theorem insertNoF (found : takes insertOrIgnore.parts text = some (x, left)) : x.countP isF = 0 := by
  have parts : ∀ part ∈ insertOrIgnore.parts, part.keep 'F' = false := insertParts (fun d upper other => ?_) rfl rfl
  · refine List.countP_eq_zero.mpr fun c mem same => ?_
    rw [of_decide_eq_true same] at mem
    exact takesAvoids found parts mem
  · cases same : letter d 'F' with
    | false => exact same
    | true => exact absurd (letterBoth upper rfl same rfl) other

theorem wordsF (text : Text) : (withoutWords text).countP isF = text.countP isF := by
  have same : ∀ x text left, takes insertOrIgnore.parts text = some (x, left) → (inserted x).countP isF = x.countP isF :=
    fun x text left found => (insertNoF found).symm
  exact rewriteCount same text

theorem wantedF (stage : Stage) {tokens : List Token} (valid : ∀ t ∈ tokens, t.Valid) :
    (spelled ((translated 0 stage tokens).map Prod.fst)).countP isF = (spelled tokens).countP isF := by
  refine translatedInduction (motive := fun tokens out => (spelled out).countP isF = (spelled tokens).countP isF) rfl ?_ ?_ stage valid
  · intro t rest out _ _ ih
    change (t.spelled ++ spelled out).countP isF = (t.spelled ++ spelled rest).countP isF
    rw [List.countP_append, List.countP_append, ih]
  · intro t taken tail out _ _ _ _ taken' ih
    rw [takesText taken', List.countP_append, insertNoF taken', ← ih]
    change ("INSERT".toList ++ spelled out).countP isF = _
    rw [List.countP_append]
    rfl

theorem stillAsked {t : Token} (valid : t.Valid) (kind : t.isSpace = true ∨ ∃ name, t.isWord name = true) : Still t.spelled := by
  cases t with
  | space c =>
    have space := spaceValid valid
    refine List.forall_mem_singleton.mpr ⟨?_, ?_, ?_⟩ <;> rintro rfl <;> cases space
  | word text =>
    intro c mem
    have kept := valid.2.2 c mem
    refine ⟨?_, ?_, ?_⟩ <;> rintro rfl <;> cases kept
  | _ =>
    rcases kind with none | ⟨_, none⟩ <;> cases none

theorem sidesOther {t : Token} (other : t ≠ .placeholder) (rest : List Token) :
    sides q (t :: rest) = (decide (q.asked t.spelled = 0) && sides (q.past t.spelled) rest) := by
  cases t with
  | placeholder => exact absurd rfl other
  | _ => rfl

theorem sidesStill {t : Token} {rest : List Token} (other : t ≠ .placeholder) (still : Still t.spelled) :
    sides q (t :: rest) = sides q rest := by
  rw [sidesOther other, (stillOver still q).1, (stillOver still q).2]
  rfl

-- Whether placeholders change sides does not depend on the words taken out.
variable (q) in
theorem sidesTranslated (stage : Stage) {tokens : List Token} (valid : ∀ t ∈ tokens, t.Valid) :
    sides q ((translated 0 stage tokens).map Prod.fst) = sides q tokens := by
  refine translatedInduction (motive := fun tokens out => ∀ q, sides q out = sides q tokens) ?_ ?_ ?_ stage valid q
  · exact fun _ => rfl
  · intro t rest out _ _ ih q
    by_cases asked : t = .placeholder
    · subst asked
      rw [sides, sides, ih q]
    · rw [sidesOther asked, sidesOther asked, ih]
  · intro t taken tail out valid _ isInsert kinds _ ih q
    have skipped : ∀ taken : List Token, (∀ u ∈ taken, u.Valid ∧ (u.isSpace = true ∨ u.isWord "OR" = true ∨ u.isWord "IGNORE" = true)) →
        sides q (taken ++ tail) = sides q tail := by
      intro taken kinds
      induction taken with
      | nil => rfl
      | cons u taken ih =>
        obtain ⟨⟨valid, kind⟩, others⟩ := List.forall_mem_cons.mp kinds
        have kind' : u.isSpace = true ∨ ∃ name, u.isWord name = true := by
          rcases kind with space | word | word
          · exact .inl space
          · exact .inr ⟨_, word⟩
          · exact .inr ⟨_, word⟩
        have other : u ≠ .placeholder := by
          rintro rfl
          rcases kind with none | none | none <;> cases none
        rw [List.cons_append, sidesStill other (stillAsked valid kind'), ih others]
    obtain ⟨text, rfl, -⟩ := wordText isInsert
    have still : Still (Token.word text).spelled := stillAsked valid (.inr ⟨_, isInsert⟩)
    have still' : Still (Token.word "INSERT".toList).spelled := by simp [Still, Token.spelled]
    rw [sidesStill Token.noConfusion still, sidesStill Token.noConfusion still', skipped taken kinds, ih q]

def Token.glyphs (t : Token) (followed : Bool) : List Glyph := t.spelled.map (fun c => ⟨c, t = .placeholder, followed⟩)
def wantedGlyphs (wanted : List (Token × Bool)) : List Glyph := wanted.flatMap (fun pair => pair.1.glyphs pair.2)

def Quote.flags : Quote → Text → List Bool
  | _, [] => []
  | q, c :: rest => decide (c = '?' ∧ q = .closed) :: (q.after c).flags rest

theorem flagsAppend (q : Quote) (a b : Text) : q.flags (a ++ b) = q.flags a ++ (q.past a).flags b := by
  induction a generalizing q with
  | nil => rfl
  | cons c a ih => exact congrArg (List.cons _) (ih (q.after c))

theorem flagsLength (q : Quote) (text : Text) : (q.flags text).length = text.length := by
  induction text generalizing q with
  | nil => rfl
  | cons c rest ih => exact congrArg Nat.succ (ih (q.after c))

theorem flagsNone (q : Quote) (text : Text) : q.flags text = text.map (fun _ => false) ↔ q.asked text = 0 := by
  induction text generalizing q with
  | nil => exact ⟨fun _ => rfl, fun _ => rfl⟩
  | cons c rest ih =>
    rw [Quote.flags, Quote.asked, List.map_cons, List.cons.injEq, ih]
    by_cases asked : c = '?' ∧ q = .closed <;> simp [asked]

theorem codeNumbered (q : Quote) (ms : List (Char × Bool)) : (codeGlyphs q ms).map Glyph.numbered = q.flags (ms.map Prod.fst) := by
  induction ms generalizing q with
  | nil => rfl
  | cons m ms ih => exact congrArg (List.cons _) (ih (q.after m.1))

theorem codeLetters (q : Quote) (ms : List (Char × Bool)) : (codeGlyphs q ms).map Glyph.letter = ms.map Prod.fst := by
  induction ms generalizing q with
  | nil => rfl
  | cons m ms ih => exact congrArg (List.cons _) (ih (q.after m.1))

theorem codeFollowed (q : Quote) (ms : List (Char × Bool)) : (codeGlyphs q ms).map Glyph.followed = ms.map Prod.snd := by
  induction ms generalizing q with
  | nil => rfl
  | cons m ms ih => exact congrArg (List.cons _) (ih (q.after m.1))

theorem wantedLetters (wanted : List (Token × Bool)) :
    (wantedGlyphs wanted).map Glyph.letter = spelled (wanted.map Prod.fst) := by
  induction wanted with
  | nil => rfl
  | cons pair wanted ih =>
    have here : wantedGlyphs (pair :: wanted) = pair.1.glyphs pair.2 ++ wantedGlyphs wanted := rfl
    rw [here, List.map_append, ih, Token.glyphs, List.map_map]
    exact congrArg (· ++ _) (List.map_id' _)

-- The scanner numbers what is to be numbered exactly if no `?` changes sides.
theorem sidesNumbered (q : Quote) (wanted : List (Token × Bool)) :
    q.flags (spelled (wanted.map Prod.fst)) = (wantedGlyphs wanted).map Glyph.numbered ↔ sides q (wanted.map Prod.fst) = true := by
  induction wanted generalizing q with
  | nil => exact ⟨fun _ => rfl, fun _ => rfl⟩
  | cons pair wanted ih =>
    obtain ⟨t, followed⟩ := pair
    have here : wantedGlyphs ((t, followed) :: wanted) = t.glyphs followed ++ wantedGlyphs wanted := rfl
    have text : spelled (((t, followed) :: wanted).map Prod.fst) = t.spelled ++ spelled (wanted.map Prod.fst) := rfl
    rw [here, text, flagsAppend, List.map_append, Token.glyphs, List.map_map]
    by_cases asked : t = .placeholder
    · subst asked
      have same : q.after '?' = q := by cases q with | closed => rfl | «open» mark => cases mark <;> rfl
      change decide ('?' = '?' ∧ q = .closed) :: (q.after '?').flags _ = true :: (wantedGlyphs wanted).map Glyph.numbered ↔
        (decide (q = .closed) && sides q (wanted.map Prod.fst)) = true
      rw [List.cons.injEq, same, ih, Bool.and_eq_true, decide_eq_true_eq, decide_eq_true_eq]
      exact and_congr_left fun _ => ⟨And.right, And.intro rfl⟩
    · have plain : (Glyph.numbered ∘ fun c => ⟨c, decide (t = .placeholder), followed⟩) = fun _ : Char => false := by
        funext c
        exact decide_eq_false asked
      rw [plain, List.map_cons, sidesOther asked, Bool.and_eq_true, decide_eq_true_eq, ← flagsNone, ← ih]
      have lengths : (q.flags t.spelled).length = (t.spelled.map fun _ => false).length := by rw [flagsLength, List.length_map]
      exact ⟨fun same => List.append_inj same lengths, fun both => by rw [both.1, both.2]⟩

-- A placeholder's number stands for a `?`, and the clause behind a closing parenthesis.
def Glyph.Sound (g : Glyph) : Prop := (g.numbered = true → g.letter = '?') ∧ (g.followed = true → g.letter = ')')

theorem marksClosed (text : Text) : ∀ m ∈ marks text, m.2 = true → m.1 = ')' := by
  induction text using cutInduction valuesTuple with
  | nil => rw [marks, cutNil]; simp
  | hit text x left found ih =>
    obtain ⟨init, rfl⟩ := tupleClosed found
    have here : marks text = init.map (fun c => (c, false)) ++ (')', true) :: marks left := marksHit found
    rw [here]
    refine List.forall_mem_append.mpr ⟨fun m mem followed => ?_, List.forall_mem_cons.mpr ⟨fun _ => rfl, ih⟩⟩
    obtain ⟨c, -, rfl⟩ := List.mem_map.mp mem
    cases followed
  | gap c rest none ih =>
    rw [marksGap none]
    exact List.forall_mem_cons.mpr ⟨(by rintro ⟨⟩), ih⟩

theorem marksText (text : Text) : (marks text).map Prod.fst = text := by
  induction text using cutInduction valuesTuple with
  | nil => rw [marks, cutNil]; rfl
  | hit text x left found ih =>
    obtain ⟨init, rfl⟩ := tupleClosed found
    have plain : init.map (Prod.fst ∘ fun c => (c, false)) = init := List.map_id' init
    rw [marksHit found, List.map_append, List.map_map, List.map_cons, ih, plain, takesText found, List.append_assoc]
    rfl
  | gap c rest none ih => rw [marksGap none, List.map_cons, ih]

theorem codeSound (q : Quote) {ms : List (Char × Bool)} (closed : ∀ m ∈ ms, m.2 = true → m.1 = ')') :
    ∀ g ∈ codeGlyphs q ms, g.Sound := by
  induction ms generalizing q with
  | nil => simp [codeGlyphs]
  | cons m ms ih =>
    obtain ⟨here, others⟩ := List.forall_mem_cons.mp closed
    exact List.forall_mem_cons.mpr ⟨⟨fun numbered => (of_decide_eq_true numbered).1, here⟩, ih _ others⟩

theorem nextClosing {stage : Stage} {t : Token} {rest : List Token} (followed : (stage.next t rest).2 = true) : t = .closing := by
  unfold Stage.next at followed
  split at followed
  case h_8 => rfl
  case h_5 => split at followed <;> cases followed
  all_goals cases followed

theorem translatedClosing (skip : Nat) (stage : Stage) (tokens : List Token) :
    ∀ pair ∈ translated skip stage tokens, pair.2 = true → pair.1 = .closing := by
  induction tokens generalizing skip stage with
  | nil => cases skip <;> simp [translated]
  | cons t rest ih =>
    cases skip with
    | succ skip => exact ih skip stage
    | zero =>
      rw [translated]
      split
      · exact List.forall_mem_cons.mpr ⟨(by rintro ⟨⟩), ih _ _⟩
      · refine List.forall_mem_cons.mpr ⟨fun followed => ?_, ih _ _⟩
        split at followed
        · cases followed
        · exact nextClosing followed

theorem wantedSound {wanted : List (Token × Bool)} (closing : ∀ pair ∈ wanted, pair.2 = true → pair.1 = .closing) :
    ∀ g ∈ wantedGlyphs wanted, g.Sound := by
  intro g mem
  obtain ⟨⟨t, followed⟩, held, mem⟩ := List.mem_flatMap.mp mem
  obtain ⟨c, letter, rfl⟩ := List.mem_map.mp mem
  refine ⟨fun numbered => ?_, fun follows => ?_⟩
  · obtain rfl := of_decide_eq_true numbered
    exact List.mem_singleton.mp letter
  · obtain rfl := closing _ held follows
    exact List.mem_singleton.mp letter

theorem shownSpelled (text : Text) (idx : Nat) (more : List Glyph) :
    shown idx (text.map (fun c => ⟨c, false, false⟩) ++ more) = text ++ shown idx more := by
  induction text with
  | nil => rfl
  | cons c text ih => exact congrArg (List.cons c) ih

theorem writtenShown {wanted : List (Token × Bool)} (closing : ∀ pair ∈ wanted, pair.2 = true → pair.1 = .closing) (idx : Nat) :
    written idx wanted = shown idx (wantedGlyphs wanted) := by
  induction wanted generalizing idx with
  | nil => rfl
  | cons pair wanted ih =>
    obtain ⟨t, followed⟩ := pair
    obtain ⟨here, others⟩ := List.forall_mem_cons.mp closing
    have glyphs : wantedGlyphs ((t, followed) :: wanted) = t.glyphs followed ++ wantedGlyphs wanted := rfl
    rw [written, ih others, glyphs]
    cases followed with
    | true =>
      obtain rfl := here rfl
      rfl
    | false =>
      by_cases asked : t = .placeholder
      · subst asked
        rfl
      · rw [if_neg asked, if_neg asked, Token.glyphs, decide_eq_false asked, shownSpelled, if_neg Bool.noConfusion, List.append_nil]

theorem shownCount {keep : Char → Bool} (none : ∀ c, odd c = true → keep c = false) {gs : List Glyph} (sound : ∀ g ∈ gs, g.Sound)
    (idx : Nat) : (shown idx gs).countP keep =
      (gs.map Glyph.letter).countP keep + gs.countP Glyph.followed * conflict.countP keep := by
  induction gs generalizing idx with
  | nil => simp [shown]
  | cons g gs ih =>
    obtain ⟨here, others⟩ := List.forall_mem_cons.mp sound
    have own : (if g.numbered then parameter (idx + 1) else [g.letter]).countP keep = [g.letter].countP keep := by
      by_cases numbered : g.numbered = true
      · have zero : (parameter (idx + 1)).countP keep = 0 :=
          List.countP_eq_zero.mpr fun c mem => by simp [none c (parameterOdd _ c mem)]
        rw [if_pos numbered, zero, here.1 numbered, List.countP_singleton, none '?' rfl]
        rfl
      · rw [if_neg numbered]
    have clause : (if g.followed then conflict else []).countP keep = (if g.followed then 1 else 0) * conflict.countP keep := by
      cases g.followed <;> simp
    simp only [shown, List.countP_append, own, clause, ih others, List.map_cons, List.countP_cons, List.countP_nil, Nat.add_mul]
    omega

-- The letters `F` before the first closing parenthesis.
def lead (text : Text) : Nat := (text.takeWhile (fun c => c ≠ ')')).countP isF

theorem leadCons (c : Char) (rest : Text) : lead (c :: rest) = if c = ')' then 0 else (if isF c then 1 else 0) + lead rest := by
  by_cases closing : c = ')'
  · simp [lead, closing]
  · simp [lead, closing, List.countP_cons, Nat.add_comm]

theorem leadOpen {a : Text} (none : ∀ c ∈ a, c ≠ ')') (b : Text) : lead (a ++ b) = a.countP isF + lead b := by
  have all : ∀ c ∈ a, (fun c : Char => decide (c ≠ ')')) c = true := fun c mem => decide_eq_true (none c mem)
  rw [lead, List.takeWhile_append_of_pos all, List.countP_append, lead]

theorem parameterPlain (idx : Nat) : (parameter idx).countP isF = 0 ∧ ∀ c ∈ parameter idx, c ≠ ')' := by
  refine ⟨List.countP_eq_zero.mpr fun c mem same => ?_, fun c mem same => ?_⟩
  · have strange := parameterOdd idx c mem
    rw [of_decide_eq_true same] at strange
    cases strange
  · have strange := parameterOdd idx c mem
    rw [same] at strange
    cases strange

-- The clause stands behind a closing parenthesis, so it does not count for the first of them.
theorem leadShown {gs : List Glyph} (sound : ∀ g ∈ gs, g.Sound) (idx : Nat) : lead (shown idx gs) = lead (gs.map Glyph.letter) := by
  induction gs generalizing idx with
  | nil => rfl
  | cons g gs ih =>
    obtain ⟨here, others⟩ := List.forall_mem_cons.mp sound
    rw [shown, List.map_cons, leadCons]
    by_cases numbered : g.numbered = true
    · have letter := here.1 numbered
      have alone : g.followed = false := by
        by_contra followed
        have closing := here.2 (by simpa using followed)
        rw [letter] at closing
        cases closing
      rw [if_pos numbered, alone, if_neg Bool.noConfusion, List.append_nil, leadOpen (parameterPlain _).2, (parameterPlain _).1,
        ih others, letter]
      rfl
    · rw [if_neg numbered, List.append_assoc, List.singleton_append, leadCons]
      by_cases closing : g.letter = ')'
      · rw [if_pos closing, if_pos closing]
      · have alone : g.followed = false := by
          by_contra followed
          exact closing (here.2 (by simpa using followed))
        have none : (if g.followed then conflict else []) = [] := by rw [alone]; rfl
        rw [if_neg closing, if_neg closing, none, List.nil_append, ih others]

theorem conflictText : conflict =
    [' ', 'O', 'N', ' ', 'C', 'O', 'N', 'F', 'L', 'I', 'C', 'T', ' ', 'D', 'O', ' ', 'N', 'O', 'T', 'H', 'I', 'N', 'G'] := rfl
theorem conflictOpen : ∀ c ∈ conflict, c ≠ ')' := by
  rw [conflictText]
  simp
theorem conflictF : conflict.countP isF = 1 := by
  rw [conflictText]
  rfl

theorem clauseOnce {xs ys : List Glyph} (letters : xs.map Glyph.letter = ys.map Glyph.letter) (soundX : ∀ g ∈ xs, g.Sound)
    (soundY : ∀ g ∈ ys, g.Sound) {m n : Nat} : conflict ++ shown m xs ≠ shown n ys := by
  intro same
  have leads := congrArg lead same
  rw [leadOpen conflictOpen, conflictF, leadShown soundX, leadShown soundY, letters] at leads
  omega

-- With the same letters, what is shown tells what is numbered and where the clause stands.
theorem shownInjective {xs ys : List Glyph} (letters : xs.map Glyph.letter = ys.map Glyph.letter) (soundX : ∀ g ∈ xs, g.Sound)
    (soundY : ∀ g ∈ ys, g.Sound) {idx : Nat} (same : shown idx xs = shown idx ys) : xs = ys := by
  induction xs generalizing ys idx with
  | nil => exact (List.map_eq_nil_iff.mp letters.symm).symm
  | cons x xs ih =>
    obtain ⟨y, ys, rfl, letter, beyond⟩ := List.map_eq_cons_iff.mp letters.symm
    obtain ⟨hereX, othersX⟩ := List.forall_mem_cons.mp soundX
    obtain ⟨hereY, othersY⟩ := List.forall_mem_cons.mp soundY
    rw [shown, shown, letter, List.append_assoc, List.append_assoc] at same
    have numbered : x.numbered = y.numbered := by
      cases askedX : x.numbered <;> cases askedY : y.numbered
      · rfl
      · rw [askedX, askedY, ← letter, hereY.1 askedY] at same
        exact absurd (List.cons.inj same).1 (by decide)
      · rw [askedX, askedY, hereX.1 askedX] at same
        exact absurd (List.cons.inj same).1 (by decide)
      · rfl
    rw [numbered] at same
    have behind := List.append_cancel_left same
    have followed : x.followed = y.followed := by
      cases behindX : x.followed <;> cases behindY : y.followed
      · rfl
      · rw [behindX, behindY] at behind
        exact absurd behind.symm (clauseOnce beyond othersY othersX)
      · rw [behindX, behindY] at behind
        exact absurd behind (clauseOnce beyond.symm othersX othersY)
      · rfl
    rw [followed] at behind
    have rest := List.append_cancel_left behind
    obtain ⟨c, a, b⟩ := x
    obtain ⟨d, a', b'⟩ := y
    obtain rfl : d = c := letter
    obtain rfl : a = a' := numbered
    obtain rfl : b = b' := followed
    rw [ih beyond.symm othersX othersY rest]

def leftAfter : List Bool → List Nat
  | [] => []
  | followed :: rest => if followed then rest.length :: leftAfter rest else leftAfter rest

theorem leftLess (flags : List Bool) : ∀ k ∈ leftAfter flags, k < flags.length := by
  induction flags with
  | nil => simp [leftAfter]
  | cons followed rest ih =>
    have later : ∀ k ∈ leftAfter rest, k < (followed :: rest).length := fun k mem => (ih k mem).trans (Nat.lt_succ_self _)
    cases followed with
    | true => exact List.forall_mem_cons.mpr ⟨Nat.lt_succ_self _, later⟩
    | false => exact later

theorem leftInjective {a b : List Bool} (lengths : a.length = b.length) (same : leftAfter a = leftAfter b) : a = b := by
  induction a generalizing b with
  | nil => exact (List.length_eq_zero_iff.mp lengths.symm).symm
  | cons x a ih =>
    cases b with
    | nil => cases lengths
    | cons y b =>
      have lengths' : a.length = b.length := Nat.succ.inj lengths
      cases x <;> cases y
      · exact congrArg _ (ih lengths' same)
      · have less := leftLess a b.length (by rw [show leftAfter a = leftAfter (true :: b) from same]; exact List.mem_cons_self)
        omega
      · have less := leftLess b a.length (by rw [show leftAfter b = leftAfter (true :: a) from same.symm]; exact List.mem_cons_self)
        omega
      · exact congrArg _ (ih lengths' (List.cons.inj same).2)

theorem leftPlain (n : Nat) (rest : List Bool) : leftAfter (List.replicate n false ++ rest) = leftAfter rest := by
  induction n with
  | zero => rfl
  | succ n ih => exact ih

theorem marksEnds (text : Text) : leftAfter ((marks text).map Prod.snd) = hitEnds valuesTuple text := by
  induction text using cutInduction valuesTuple with
  | nil => rw [marks, hitEnds, cutNil]; rfl
  | hit text x left found ih =>
    obtain ⟨init, rfl⟩ := tupleClosed found
    have plain : (init.map fun c => (c, false)).map Prod.snd = List.replicate init.length false := by
      rw [List.map_map]
      exact List.map_const'
    have size : ((marks left).map Prod.snd).length = ((cut valuesTuple left).flatMap Piece.text).length := by
      rw [cutText, List.length_map, ← List.length_map Prod.fst, marksText]
    rw [marksHit found, List.map_append, plain, leftPlain, hitEnds, cutHit found, List.map_cons]
    change _ :: _ = _ :: hitEnds valuesTuple left
    rw [← ih, size]
  | gap c rest none ih =>
    rw [marksGap none, hitEnds, cutGap none]
    exact ih

theorem wantedEnds {wanted : List (Token × Bool)} (closing : ∀ pair ∈ wanted, pair.2 = true → pair.1 = .closing) :
    leftAfter ((wantedGlyphs wanted).map Glyph.followed) = listEnds wanted := by
  induction wanted with
  | nil => rfl
  | cons pair wanted ih =>
    obtain ⟨t, followed⟩ := pair
    obtain ⟨here, others⟩ := List.forall_mem_cons.mp closing
    have glyphs : wantedGlyphs ((t, followed) :: wanted) = t.glyphs followed ++ wantedGlyphs wanted := rfl
    have own : (t.glyphs followed).map Glyph.followed = List.replicate t.spelled.length followed := by
      rw [Token.glyphs, List.map_map]
      exact List.map_const'
    have size : ((wantedGlyphs wanted).map Glyph.followed).length = (spelled (wanted.map Prod.fst)).length := by
      rw [← wantedLetters, List.length_map, List.length_map]
    rw [glyphs, List.map_append, own, listEnds]
    cases followed with
    | false => rw [leftPlain, ih others]; rfl
    | true =>
      obtain rfl := here rfl
      have one : List.replicate (Token.spelled .closing).length true = [true] := rfl
      rw [one, List.singleton_append, leftAfter, if_pos rfl, if_pos rfl, ih others, size]

theorem glyphsExt {xs ys : List Glyph} (letters : xs.map Glyph.letter = ys.map Glyph.letter)
    (numbered : xs.map Glyph.numbered = ys.map Glyph.numbered) (followed : xs.map Glyph.followed = ys.map Glyph.followed) :
    xs = ys := by
  induction xs generalizing ys with
  | nil => exact (List.map_eq_nil_iff.mp letters.symm).symm
  | cons x xs ih =>
    obtain ⟨y, ys, rfl, letter, letters⟩ := List.map_eq_cons_iff.mp letters.symm
    obtain ⟨asked, numbered⟩ := List.cons.inj numbered
    obtain ⟨behind, followed⟩ := List.cons.inj followed
    have same : x = y := by
      obtain ⟨c, a, b⟩ := x
      obtain ⟨d, a', b'⟩ := y
      obtain rfl : d = c := letter
      obtain rfl : a = a' := asked
      obtain rfl : b = b' := behind
      rfl
    rw [same, ih letters.symm numbered followed]

-- What the code shows for marks is what is wanted, if and only if no `?` changes sides and the clauses stand alike.
theorem glyphsAgree {ms : List (Char × Bool)} {wanted : List (Token × Bool)} (letters : ms.map Prod.fst = spelled (wanted.map Prod.fst))
    (closed : ∀ m ∈ ms, m.2 = true → m.1 = ')') (closing : ∀ pair ∈ wanted, pair.2 = true → pair.1 = .closing) :
    shown 0 (codeGlyphs .closed ms) = written 0 wanted ↔
      sides .closed (wanted.map Prod.fst) = true ∧ leftAfter (ms.map Prod.snd) = listEnds wanted := by
  have same : (codeGlyphs .closed ms).map Glyph.letter = (wantedGlyphs wanted).map Glyph.letter := by
    rw [codeLetters, wantedLetters, letters]
  rw [writtenShown closing, ← wantedEnds closing, ← sidesNumbered, ← letters, ← codeNumbered, ← codeFollowed .closed ms]
  constructor
  · intro shows
    rw [shownInjective same (codeSound .closed closed) (wantedSound closing) shows]
    exact ⟨rfl, rfl⟩
  · rintro ⟨numbered, ends⟩
    have lengths := congrArg List.length same
    rw [List.length_map, List.length_map] at lengths
    rw [glyphsExt same numbered (leftInjective (by rw [List.length_map, List.length_map, lengths]) ends)]

theorem oddF (c : Char) (strange : odd c = true) : isF c = false := by
  cases same : isF c with
  | false => rfl
  | true =>
    rw [of_decide_eq_true same] at strange
    cases strange

-- As many letters of the clause, and as much white space, is shown only where the same words are left out.
theorem wordsCounted {u v : Text} {xs ys : List Glyph} (lettersX : xs.map Glyph.letter = u) (lettersY : ys.map Glyph.letter = v)
    (soundX : ∀ g ∈ xs, g.Sound) (soundY : ∀ g ∈ ys, g.Sound) (alike : u.countP isF = v.countP isF) (shows : shown 0 xs = shown 0 ys) :
    u.countP isSpace = v.countP isSpace := by
  have countF := congrArg (List.countP isF) shows
  have countSpace := congrArg (List.countP isSpace) shows
  have spaces : ∀ c, odd c = true → isSpace c = false := fun c strange => (oddNeither strange).2
  rw [shownCount oddF soundX, shownCount oddF soundY, conflictF, lettersX, lettersY, alike] at countF
  rw [shownCount spaces soundX, shownCount spaces soundY, lettersX, lettersY] at countSpace
  have clauses : xs.countP Glyph.followed = ys.countP Glyph.followed := by omega
  rw [clauses] at countSpace
  exact Nat.add_right_cancel countSpace

end

-- No `?` changes sides, INSERT OR IGNORE stands nowhere but as the statement's own words, and what VALUES and the next
-- closing parenthesis enclose are the complete lists of values behind them.
structure Readable (s : Statement) : Prop where
  sides : sides .closed s.tokens = true
  words : hits insertOrIgnore s.sql = plainHeads s.tokens
  lists : listEnds s.wanted = if 0 < plainHeads s.tokens then hitEnds valuesTuple (spelled (s.wanted.map Prod.fst)) else []

theorem leftNone (n : Nat) : leftAfter (List.replicate n false) = [] := by
  induction n with
  | zero => rfl
  | succ n ih => exact ih

def blank : Token := .space ' '
def named (name : String) : Token := .word name.toList
-- INSERT OR IGNORE INTO t VALUES (?), (?)
def twoTuples : Statement where
  tokens := [named "INSERT", blank, named "OR", blank, named "IGNORE", blank, named "INTO", blank, named "t", blank, named "VALUES",
    blank, .opening, .placeholder, .closing, .sign ',', blank, .opening, .placeholder, .closing]
  valid := by simp [named, blank, Token.Valid, identifierChar]
  separate := by simp [named, blank, Separate]

end HarnessMem.SqlTranslation
