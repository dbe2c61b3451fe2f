import Mathlib.Data.List.Count

/-! Backtracking regular expressions in the ECMAScript manner: every way to match is listed
in the order the engine tries it, so the first one is the match. `Avoids c` expressions
never consume the character `c`, and replacing their matches leaves every `c` in place. -/
namespace HarnessMem.Regex

-- A place in the text: what lies before it (nearest first), what is left, the groups so far.
structure Place where
  before : List Char
  after : List Char
  groups : List (Nat × List Char)
  deriving DecidableEq, Repr

inductive Re where
  | empty
  | set (keep : Char → Bool)
  | seq (first second : Re)
  | alt (first second : Re)
  | many (greedy : Bool) (body : Re)
  | group (index : Nat) (body : Re)
  | start
  | stop
  | boundary
  | behind (keep : Char → Bool)
  | ahead (body : Re)

def isWord (c : Char) : Bool := c.isAlphanum || c = '_'

def eat (keep : Char → Bool) : Place → List Place
  | ⟨before, c :: rest, groups⟩ => if keep c then [⟨c :: before, rest, groups⟩] else []
  | _ => []

-- An iteration that consumes nothing is not taken, so the text left bounds their number.
def loop (greedy : Bool) (body : Place → List Place) : Nat → Place → List Place
  | 0, p => [p]
  | n + 1, p =>
    let more := ((body p).filter (fun q => q.after.length < p.after.length)).flatMap
      (loop greedy body n)
    if greedy then more ++ [p] else p :: more

def consumed (p q : Place) : List Char := (q.before.take (q.before.length - p.before.length)).reverse

def ends : Re → Place → List Place
  | .empty, p => [p]
  | .set keep, p => eat keep p
  | .seq first second, p => (ends first p).flatMap (ends second)
  | .alt first second, p => ends first p ++ ends second p
  | .many greedy body, p => loop greedy (ends body) p.after.length p
  | .group index body, p =>
    (ends body p).map (fun q => {q with groups := (index, consumed p q) :: q.groups})
  | .start, p => if p.before.isEmpty then [p] else []
  | .stop, p => if p.after.isEmpty then [p] else []
  | .boundary, p => if p.before.head?.any isWord ≠ p.after.head?.any isWord then [p] else []
  | .behind keep, p => if p.before.head?.any keep then [p] else []
  | .ahead body, p => if (ends body p).isEmpty then [] else [p]

def char (c : Char) : Re := .set (fun d => d = c)
def any : Re := .set (fun _ => true)
def word (s : String) : Re := s.toList.foldr (fun c rest => .seq (char c) rest) .empty
def oneOf : List Re → Re
  | [] => .set (fun _ => false)
  | [re] => re
  | re :: rest => .alt re (oneOf rest)
def chain (parts : List Re) : Re := parts.foldr .seq .empty
def star (body : Re) : Re := .many true body
def lazyStar (body : Re) : Re := .many false body
def plus (body : Re) : Re := .seq body (star body)
def opt (body : Re) : Re := .alt body .empty
def times : Nat → Re → Re
  | 0, _ => .empty
  | n + 1, body => .seq body (times n body)
def atLeast (n : Nat) (body : Re) : Re := .seq (times n body) (star body)
def upTo : Nat → Re → Re
  | 0, _ => .empty
  | n + 1, body => opt (.seq body (upTo n body))
def between (low high : Nat) (body : Re) : Re := .seq (times low body) (upTo (high - low) body)

-- The `i` flag on ASCII patterns.
def either (keep : Char → Bool) (c : Char) : Bool := keep c || keep c.toLower || keep c.toUpper
def wordI (s : String) : Re :=
  s.toList.foldr (fun c rest => .seq (.set (either (fun d => d = c))) rest) .empty

def here (re : Re) (before after : List Char) : Option Place := (ends re ⟨before, after, []⟩).head?

-- The leftmost match at or after a place: where it begins and where it ends.
def find (re : Re) (before : List Char) : List Char → Option (Place × Place)
  | [] => (here re before []).map (fun q => (⟨before, [], []⟩, q))
  | c :: rest =>
    match here re before (c :: rest) with
    | some q => some (⟨before, c :: rest, []⟩, q)
    | none => find re (c :: before) rest

def test (re : Re) (text : String) : Bool := (find re [] text.toList).isSome
def exec (re : Re) (text : String) : Option (List Char × List (Nat × List Char)) :=
  (find re [] text.toList).map (fun found => (consumed found.1 found.2, found.2.groups))
def capture (index : Nat) (groups : List (Nat × List Char)) : Option String :=
  (groups.find? (fun entry => entry.1 = index)).map (fun entry => String.ofList entry.2)

-- `matchAll`: after an empty match the search goes on one character further.
def matchesFrom (re : Re) : Nat → List Char → List Char → List (Place × Place)
  | 0, _, _ => []
  | n + 1, before, after =>
    match here re before after with
    | some q =>
      if q.after.length < after.length then
        (⟨before, after, []⟩, q) :: matchesFrom re n q.before q.after
      else
        (⟨before, after, []⟩, q) ::
          (match after with
          | [] => []
          | c :: rest => matchesFrom re n (c :: before) rest)
    | none =>
      match after with
      | [] => []
      | c :: rest => matchesFrom re n (c :: before) rest

def matchAll (re : Re) (text : String) : List (List Char × List (Nat × List Char)) :=
  (matchesFrom re (text.length + 1) [] text.toList).map
    (fun found => (consumed found.1 found.2, found.2.groups))

def replaceFrom (re : Re) (put : List Char) : Nat → List Char → List Char → List Char
  | 0, _, after => after
  | n + 1, before, after =>
    match here re before after with
    | some q =>
      if q.after.length < after.length then put ++ replaceFrom re put n q.before q.after
      else
        put ++ (match after with
          | [] => []
          | c :: rest => c :: replaceFrom re put n (c :: before) rest)
    | none =>
      match after with
      | [] => []
      | c :: rest => c :: replaceFrom re put n (c :: before) rest

def replaceAll (re : Re) (put : String) (text : String) : String :=
  String.ofList (replaceFrom re put.toList (text.length + 1) [] text.toList)
-- Without the `g` flag only the leftmost match goes.
def replaceFirst (re : Re) (put : String) (text : String) : String :=
  match find re [] text.toList with
  | some (p, q) => String.ofList (p.before.reverse ++ put.toList ++ q.after)
  | none => text

-- `piece` is the text since the last separator, latest first.
def splitFrom (re : Re) : Nat → List Char → List Char → List Char → List (List Char)
  | 0, piece, _, after => [piece.reverse ++ after]
  | _ + 1, piece, _, [] => [piece.reverse]
  | n + 1, piece, before, c :: rest =>
    match here re before (c :: rest) with
    | some q =>
      if piece = [] ∧ q.after.length = (c :: rest).length then
        splitFrom re n [c] (c :: before) rest
      else piece.reverse :: splitFrom re n [] q.before q.after
    | none => splitFrom re n (c :: piece) (c :: before) rest

-- An empty text is one empty piece, unless the separator matches it.
def split (re : Re) (text : String) : List String :=
  if text = "" ∧ (here re [] []).isSome then []
  else (splitFrom re (2 * text.length + 1) [] [] text.toList).map String.ofList

def Avoids (c : Char) : Re → Prop
  | .set keep => keep c = false
  | .seq first second | .alt first second => Avoids c first ∧ Avoids c second
  | .many _ body | .group _ body => Avoids c body
  | .empty | .start | .stop | .boundary | .behind _ | .ahead _ => True

instance decAvoids (c : Char) : (re : Re) → Decidable (Avoids c re)
  | .set keep => inferInstanceAs (Decidable (keep c = false))
  | .seq first second | .alt first second =>
    have := decAvoids c first
    have := decAvoids c second
    inferInstanceAs (Decidable (Avoids c first ∧ Avoids c second))
  | .many _ body | .group _ body => decAvoids c body
  | .empty | .start | .stop | .boundary | .behind _ | .ahead _ => isTrue trivial

-- From the first place to the second the text is read forwards, over no `c`.
def Spans (c : Char) (p q : Place) : Prop :=
  ∃ eaten, p.after = eaten ++ q.after ∧ q.before = eaten.reverse ++ p.before ∧ c ∉ eaten

theorem spansRefl {c p} : Spans c p p := ⟨[], rfl, rfl, List.not_mem_nil⟩

theorem spansTrans {c p q r} (first : Spans c p q) (second : Spans c q r) :
    Spans c p r := by
  obtain ⟨a, afterA, beforeA, freeA⟩ := first
  obtain ⟨b, afterB, beforeB, freeB⟩ := second
  refine ⟨a ++ b, by rw [afterA, afterB, List.append_assoc], ?_, ?_⟩
  · rw [beforeB, beforeA, List.reverse_append, List.append_assoc]
  · simpa using ⟨freeA, freeB⟩

theorem eatSpans {c keep p q} (avoids : keep c = false) (mem : q ∈ eat keep p) :
    Spans c p q := by
  unfold eat at mem
  split at mem
  · rename_i before d rest groups
    by_cases kept : keep d
    · rw [if_pos kept, List.mem_singleton] at mem
      subst mem
      refine ⟨[d], rfl, rfl, ?_⟩
      rw [List.mem_singleton]
      rintro rfl
      rw [kept] at avoids
      exact absurd avoids (by decide)
    · rw [if_neg kept] at mem
      exact absurd mem List.not_mem_nil
  · exact absurd mem List.not_mem_nil

theorem loopSpans {c greedy body} (each : ∀ p, ∀ q ∈ body p, Spans c p q) (n : Nat) :
    ∀ p, ∀ q ∈ loop greedy body n p, Spans c p q := by
  induction n with
  | zero =>
    intro p q mem
    rw [loop, List.mem_singleton] at mem
    exact mem ▸ spansRefl
  | succ n ih =>
    intro p q mem
    have cases : q = p ∨ ∃ r ∈ body p, q ∈ loop greedy body n r := by
      simp only [loop] at mem
      split at mem
      · rcases List.mem_append.mp mem with more | last
        · obtain ⟨r, found, next⟩ := List.mem_flatMap.mp more
          exact .inr ⟨r, (List.mem_filter.mp found).1, next⟩
        · exact .inl (List.mem_singleton.mp last)
      · rcases List.mem_cons.mp mem with same | more
        · exact .inl same
        · obtain ⟨r, found, next⟩ := List.mem_flatMap.mp more
          exact .inr ⟨r, (List.mem_filter.mp found).1, next⟩
    rcases cases with rfl | ⟨r, found, next⟩
    · exact spansRefl
    · exact spansTrans (each p r found) (ih r q next)

theorem endsSpan {c : Char} {re : Re} (avoids : Avoids c re) :
    ∀ p, ∀ q ∈ ends re p, Spans c p q := by
  induction re with
  | empty =>
    intro p q mem
    rw [ends, List.mem_singleton] at mem
    exact mem ▸ spansRefl
  | set keep => exact fun p q mem => eatSpans avoids mem
  | seq first second ihFirst ihSecond =>
    intro p q mem
    obtain ⟨r, found, next⟩ := List.mem_flatMap.mp mem
    exact spansTrans (ihFirst avoids.1 p r found) (ihSecond avoids.2 r q next)
  | alt first second ihFirst ihSecond =>
    intro p q mem
    rcases List.mem_append.mp mem with left | right
    · exact ihFirst avoids.1 p q left
    · exact ihSecond avoids.2 p q right
  | many greedy body ih => exact fun p q mem => loopSpans (ih avoids) p.after.length p q mem
  | group index body ih =>
    intro p q mem
    obtain ⟨r, found, rfl⟩ := List.mem_map.mp mem
    exact ih avoids p r found
  | start | stop | boundary | behind | ahead =>
    intro p q mem
    rw [ends] at mem
    split at mem
    · first
      | exact List.mem_singleton.mp mem ▸ spansRefl
      | exact absurd mem List.not_mem_nil
    · first
      | exact List.mem_singleton.mp mem ▸ spansRefl
      | exact absurd mem List.not_mem_nil

theorem hereSpans {c : Char} {re : Re} (avoids : Avoids c re) {before after : List Char} {q : Place}
    (found : here re before after = some q) :
    ∃ eaten, after = eaten ++ q.after ∧ q.before = eaten.reverse ++ before ∧ c ∉ eaten :=
  endsSpan avoids ⟨before, after, []⟩ q (List.mem_of_head? found)

-- The pieces of a split lie in the text.
theorem splitFromInfix {c : Char} {re : Re} (avoids : Avoids c re) (n : Nat) (piece before after : List Char) :
    ∀ part ∈ splitFrom re n piece before after, part <:+: piece.reverse ++ after := by
  induction n generalizing piece before after with
  | zero =>
    intro part mem
    rw [splitFrom, List.mem_singleton] at mem
    exact mem ▸ List.infix_refl _
  | succ n ih =>
    cases after with
    | nil =>
      intro part mem
      rw [splitFrom, List.mem_singleton] at mem
      exact mem ▸ (List.prefix_append _ _).isInfix
    | cons d rest =>
      intro part mem
      rw [splitFrom] at mem
      split at mem
      · rename_i q found
        obtain ⟨eaten, left, -, -⟩ := hereSpans avoids found
        split at mem
        · rename_i stays
          rw [stays.1]
          exact ih [d] (d :: before) rest part mem
        · rcases List.mem_cons.mp mem with rfl | later
          · exact (List.prefix_append _ _).isInfix
          · have suffix : q.after <:+ piece.reverse ++ d :: rest := by
              rw [left, ← List.append_assoc]
              exact List.suffix_append _ _
            exact (ih [] q.before q.after part later).trans suffix.isInfix
      · have inside := ih (d :: piece) (d :: before) rest part mem
        rwa [List.reverse_cons, List.append_assoc] at inside

theorem splitInfix {c : Char} {re : Re} (avoids : Avoids c re) {text part : String} (mem : part ∈ split re text) :
    part.toList <:+: text.toList := by
  unfold split at mem
  split at mem
  · cases mem
  · obtain ⟨chars, inside, rfl⟩ := List.mem_map.mp mem
    rw [String.toList_ofList]
    exact splitFromInfix avoids _ [] [] text.toList chars inside

theorem replaceFromCount {c : Char} {re : Re} {put : List Char} (avoids : Avoids c re)
    (clean : c ∉ put) (n : Nat) : ∀ before after,
    (replaceFrom re put n before after).count c = after.count c := by
  have putCount : put.count c = 0 := List.count_eq_zero.mpr clean
  induction n with
  | zero => exact fun _ _ => rfl
  | succ n ih =>
    intro before after
    simp only [replaceFrom]
    split
    · rename_i q found
      split
      · obtain ⟨eaten, split, _, free⟩ := hereSpans avoids found
        rw [List.count_append, putCount, ih, split, List.count_append,
          List.count_eq_zero.mpr free]
      · cases after with
        | nil => simp [putCount]
        | cons d rest => simp [putCount, List.count_cons, ih]
    · cases after with
      | nil => rfl
      | cons d rest => simp [List.count_cons, ih]

theorem replaceAllCount {c : Char} {re : Re} {put : String} (avoids : Avoids c re)
    (clean : c ∉ put.toList) (text : String) :
    (replaceAll re put text).toList.count c = text.toList.count c := by
  rw [replaceAll, String.toList_ofList]
  exact replaceFromCount avoids clean _ _ _

theorem lowerAlpha {c : Char} (small : c.isLower = true) : c.isAlpha = true := by
  change (c.isUpper || c.isLower) = true
  rw [small, Bool.or_true]
theorem upperAlpha {c : Char} (cap : c.isUpper = true) : c.isAlpha = true := by
  change (c.isUpper || c.isLower) = true
  rw [cap, Bool.true_or]

theorem lowerSymbol {c d : Char} (symbol : d.isAlpha = false) (same : c.toLower = d) : c = d := by
  unfold Char.toLower at same
  split at same
  · rename_i cap
    have letter : d.isLower = true := by
      rw [← same]
      have low : (65 : UInt32) ≤ c.val := cap.1
      have high : c.val ≤ (90 : UInt32) := cap.2
      change (decide _ && decide _) = true
      simp only [Bool.and_eq_true, decide_eq_true_eq]
      grind
    rw [lowerAlpha letter] at symbol
    cases symbol
  · exact same

theorem upperSymbol {c d : Char} (symbol : d.isAlpha = false) (same : c.toUpper = d) : c = d := by
  unfold Char.toUpper at same
  split at same
  · rename_i small
    have letter : d.isUpper = true := by
      rw [← same]
      have low : (97 : UInt32) ≤ c.val := small.1
      have high : c.val ≤ (122 : UInt32) := small.2
      have gap : 'A'.val - 'a'.val = (4294967264 : UInt32) := by decide
      change decide _ = true
      simp only [gap, decide_eq_true_eq]
      grind
    rw [upperAlpha letter] at symbol
    cases symbol
  · exact same

-- A character that is no letter has no other case.
theorem eitherSymbol {c d : Char} (symbol : d.isAlpha = false)
    (same : either (fun e => e = d) c = true) : c = d := by
  simp only [either, Bool.or_eq_true, decide_eq_true_eq] at same
  rcases same with (same | lower) | upper
  · exact same
  · exact lowerSymbol symbol lower
  · exact upperSymbol symbol upper

-- Expressions that can match in one way only, read off the text.
def skip (n : Nat) (p : Place) : Place := ⟨(p.after.take n).reverse ++ p.before, p.after.drop n, p.groups⟩

def startsI : List Char → List Char → Bool
  | [], _ => true
  | d :: ds, c :: cs => either (fun e => e = d) c && startsI ds cs
  | _ :: _, [] => false

theorem endsSeq (a b : Re) (p : Place) : ends (.seq a b) p = (ends a p).flatMap (ends b) := rfl
theorem eatCons (keep : Char → Bool) (before rest : List Char) (c : Char) (groups : List (Nat × List Char)) :
    eat keep ⟨before, c :: rest, groups⟩ = if keep c then [⟨c :: before, rest, groups⟩] else [] := rfl

theorem endsWordI (s : List Char) (next : Place → List Place) (p : Place) :
    (ends (s.foldr (fun c rest => .seq (.set (either (fun d => d = c))) rest) .empty) p).flatMap next =
      if startsI s p.after then next (skip s.length p) else [] := by
  induction s generalizing p with
  | nil => simp [ends, startsI, skip]
  | cons d ds ih =>
    obtain ⟨before, after, groups⟩ := p
    cases after with
    | nil => simp [endsSeq, ends, eat, startsI]
    | cons c cs =>
      simp only [List.foldr_cons, endsSeq, ends, eatCons, startsI]
      by_cases kept : either (fun e => e = d) c = true
      · simp only [kept, if_true, List.flatMap_cons, List.flatMap_nil, List.append_nil, Bool.true_and]
        rw [ih]
        simp [skip]
      · simp [kept]

theorem endsWord (s : String) (next : Re) (p : Place) :
    ends (.seq (wordI s) next) p = if startsI s.toList p.after then ends next (skip s.toList.length p) else [] :=
  endsWordI s.toList (ends next) p

theorem startsIAppend {s text : List Char} (more : List Char) (starts : startsI s text = true) :
    startsI s (text ++ more) = true := by
  induction s generalizing text with
  | nil => rfl
  | cons d ds ih =>
    cases text with
    | nil => simp [startsI] at starts
    | cons c cs =>
      rw [startsI, Bool.and_eq_true] at starts
      rw [List.cons_append, startsI, starts.1, ih starts.2]
      rfl

theorem startsITake (s text : List Char) {n : Nat} (long : s.length ≤ n) :
    startsI s (text.take n) = startsI s text := by
  induction s generalizing text n with
  | nil => rfl
  | cons d ds ih =>
    cases text with
    | nil => simp
    | cons c cs =>
      obtain ⟨n, rfl⟩ : ∃ k, n = k + 1 := ⟨n - 1, by simp at long; omega⟩
      rw [List.take_succ_cons, startsI, startsI, ih cs (by simpa using long)]

-- A word without `c` that begins in front of a `c` has ended before it.
theorem startsIStops {s text more : List Char} {c : Char} (other : ∀ d ∈ s, either (fun e => e = d) c = false)
    (starts : startsI s (text ++ c :: more) = true) : startsI s text = true := by
  induction s generalizing text with
  | nil => rfl
  | cons d ds ih =>
    cases text with
    | nil => simp [startsI, other d List.mem_cons_self] at starts
    | cons e es =>
      rw [List.cons_append, startsI, Bool.and_eq_true] at starts
      rw [startsI, starts.1, ih (fun x mem => other x (List.mem_cons_of_mem _ mem)) starts.2]
      rfl

-- The last character of a word is the one just read.
theorem startsILast {s : List Char} {d : Char} {text : List Char} (starts : startsI (s ++ [d]) text = true)
    (before : List Char) (groups : List (Nat × List Char)) :
    ∃ c, either (fun e => e = d) c = true ∧ (skip (s.length + 1) ⟨before, text, groups⟩).before.head? = some c := by
  induction s generalizing text before with
  | nil =>
    cases text with
    | nil => simp [startsI] at starts
    | cons c rest => exact ⟨c, by simpa [startsI] using starts, rfl⟩
  | cons e rest ih =>
    cases text with
    | nil => simp [startsI] at starts
    | cons c cs =>
      rw [List.cons_append, startsI, Bool.and_eq_true] at starts
      obtain ⟨last, kept, same⟩ := ih starts.2 (c :: before)
      refine ⟨last, kept, ?_⟩
      rw [← same]
      simp [skip]

-- What follows a greedy run cannot begin with a character of the run: it follows all of it.
theorem loopGreedy {keep : Char → Bool} {next : Place → List Place}
    (stops : ∀ p, p.after.head?.any keep = true → next p = []) (n : Nat) (p : Place)
    (enough : p.after.length ≤ n) :
    (loop true (eat keep) n p).flatMap next = next (skip (p.after.takeWhile keep).length p) := by
  induction n generalizing p with
  | zero =>
    obtain ⟨before, after, groups⟩ := p
    obtain rfl : after = [] := List.eq_nil_of_length_eq_zero (Nat.le_zero.mp enough)
    simp [loop, skip]
  | succ n ih =>
    obtain ⟨before, after, groups⟩ := p
    cases after with
    | nil => simp [loop, eat, skip]
    | cons c cs =>
      by_cases kept : keep c = true
      · have shorter : cs.length ≤ n := by simpa using enough
        simp only [loop, eatCons, kept, if_true, List.flatMap_append, List.flatMap_cons, List.flatMap_nil,
          List.append_nil, stops ⟨before, c :: cs, groups⟩ (by simpa using kept)]
        simp [ih ⟨c :: before, cs, groups⟩ shorter, skip, kept]
      · simp [loop, eatCons, kept, skip]

-- A lazy run stops where what follows first matches.
def lazyHead (next : Place → Option Place) : List Char → List Char → List (Nat × List Char) → Option Place
  | before, [], groups => next ⟨before, [], groups⟩
  | before, c :: cs, groups =>
    (next ⟨before, c :: cs, groups⟩).or (lazyHead next (c :: before) cs groups)

theorem loopLazy (next : Place → List Place) (n : Nat) (p : Place) (enough : p.after.length ≤ n) :
    ((loop false (eat (fun _ => true)) n p).flatMap next).head? =
      lazyHead (fun q => (next q).head?) p.before p.after p.groups := by
  induction n generalizing p with
  | zero =>
    obtain ⟨before, after, groups⟩ := p
    obtain rfl : after = [] := List.eq_nil_of_length_eq_zero (Nat.le_zero.mp enough)
    simp [loop, lazyHead]
  | succ n ih =>
    obtain ⟨before, after, groups⟩ := p
    cases after with
    | nil => simp [loop, eat, lazyHead]
    | cons c cs =>
      have shorter : cs.length ≤ n := by simpa using enough
      have rest := ih ⟨c :: before, cs, groups⟩ shorter
      simp only [loop, eatCons, if_true, Bool.false_eq_true, if_false, List.flatMap_cons, lazyHead]
      rw [List.head?_append]
      simp [rest]

example : replaceAll (plus (.set Char.isDigit)) "#" "a12b3" = "a#b#" := by decide
example : split (.seq (.behind (fun c => c = '.')) (star (char ' '))) "a. b.c" = ["a.", "b.", "c"] := by
  decide

end HarnessMem.Regex
