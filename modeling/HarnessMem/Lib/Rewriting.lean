import HarnessMem.Lib.Scanning
import Mathlib.Data.List.TakeWhile

/-! Patterns of single characters and runs, where no run could take what begins the part behind
it: such an expression matches in one way only, and a text is cut into what it matches and the
characters between. -/
namespace HarnessMem.Regex

-- One character of a class, or as many of a class as there are.
inductive Part where
  | one (keep : Char → Bool)
  | run (keep : Char → Bool)

def Part.keep : Part → Char → Bool
  | .one keep | .run keep => keep

def Part.re : Part → Re
  | .one keep => .set keep
  | .run keep => star (.set keep)

def takes : List Part → List Char → Option (List Char × List Char)
  | [], text => some ([], text)
  | .one _ :: _, [] => none
  | .one keep :: parts, c :: text =>
    if keep c then (takes parts text).map (fun found => (c :: found.1, found.2)) else none
  | .run keep :: parts, text =>
    (takes parts (text.dropWhile keep)).map (fun found => (text.takeWhile keep ++ found.1, found.2))

def Definite : List Part → Prop
  | [] => True
  | .one _ :: parts => Definite parts
  | .run keep :: .one next :: parts => (∀ c, keep c = true → next c = false) ∧ Definite parts
  | .run _ :: _ => False

structure Pattern where
  first : Char → Bool
  rest : List Part
  definite : Definite rest

def Pattern.parts (p : Pattern) : List Part := .one p.first :: p.rest
theorem Pattern.once (p : Pattern) : Definite p.parts := p.definite
def Pattern.re (p : Pattern) : Re := chain (p.parts.map Part.re)

section
variable {parts : List Part} {keep : Char → Bool} {text rest x left : List Char}

theorem takesOne {c : Char} (kept : keep c = true) :
    takes (.one keep :: parts) (c :: text) = (takes parts text).map (fun found => (c :: found.1, found.2)) := by
  rw [takes, if_pos kept]

theorem takesOneNot {c : Char} (other : keep c = false) : takes (.one keep :: parts) (c :: text) = none := by
  rw [takes, other]
  rfl

theorem oneTakes (found : takes (.one keep :: parts) text = some (x, left)) :
    ∃ c t y, text = c :: t ∧ x = c :: y ∧ keep c = true ∧ takes parts t = some (y, left) := by
  cases text with
  | nil => cases found
  | cons c t =>
    by_cases kept : keep c = true
    · rw [takesOne kept] at found
      obtain ⟨⟨y, l⟩, next, same⟩ := Option.map_eq_some_iff.mp found
      cases same
      exact ⟨c, t, y, rfl, rfl, kept, next⟩
    · rw [takesOneNot (by simpa using kept)] at found
      cases found

theorem runTakes (found : takes (.run keep :: parts) text = some (x, left)) :
    ∃ y, x = text.takeWhile keep ++ y ∧ takes parts (text.dropWhile keep) = some (y, left) := by
  rw [takes] at found
  obtain ⟨⟨y, l⟩, next, same⟩ := Option.map_eq_some_iff.mp found
  cases same
  exact ⟨y, rfl, next⟩

theorem takesText (found : takes parts text = some (x, left)) : text = x ++ left := by
  induction parts generalizing text x left with
  | nil => cases found; rfl
  | cons part parts ih =>
    cases part with
    | one keep =>
      obtain ⟨c, t, y, rfl, rfl, -, next⟩ := oneTakes found
      exact congrArg (List.cons c) (ih next)
    | run keep =>
      obtain ⟨y, rfl, next⟩ := runTakes found
      rw [List.append_assoc, ← ih next, List.takeWhile_append_dropWhile]

-- What is taken can be told from itself, whatever follows.
theorem takesSelf (definite : Definite parts) (found : takes parts text = some (x, left)) (more : List Char) :
    takes parts (x ++ more) = some (x, more) := by
  induction parts generalizing text x left with
  | nil => cases found; rfl
  | cons part parts ih =>
    cases part with
    | one keep =>
      obtain ⟨c, t, y, -, rfl, kept, next⟩ := oneTakes found
      rw [List.cons_append, takesOne kept, ih definite next]
      rfl
    | run keep =>
      obtain ⟨y, rfl, behind⟩ := runTakes found
      match parts, definite with
      | .one next :: parts, definite =>
        obtain ⟨d, t, ds, -, rfl, begins, -⟩ := oneTakes behind
        have stops : ¬ keep d = true := fun kept => by
          rw [definite.1 d kept] at begins
          cases begins
        have all : ∀ c ∈ text.takeWhile keep, keep c = true := fun c mem => List.mem_takeWhile_imp mem
        rw [List.append_assoc, takes, List.dropWhile_append_of_pos all, List.takeWhile_append_of_pos all, List.cons_append,
          List.dropWhile_cons_of_neg stops, List.takeWhile_cons_of_neg stops, List.append_nil, ← List.cons_append,
          ih definite.2 behind]
        rfl

theorem takesKept (found : takes parts text = some (x, left)) : ∀ c ∈ x, ∃ part ∈ parts, part.keep c = true := by
  induction parts generalizing text x left with
  | nil => cases found; simp
  | cons part parts ih =>
    cases part with
    | one keep =>
      obtain ⟨d, t, y, -, rfl, kept, next⟩ := oneTakes found
      refine List.forall_mem_cons.mpr ⟨⟨_, List.mem_cons_self, kept⟩, fun c mem => ?_⟩
      obtain ⟨part, held, kept⟩ := ih next c mem
      exact ⟨part, List.mem_cons_of_mem _ held, kept⟩
    | run keep =>
      obtain ⟨y, rfl, next⟩ := runTakes found
      refine List.forall_mem_append.mpr ⟨fun c mem => ⟨_, List.mem_cons_self, List.mem_takeWhile_imp mem⟩, fun c mem => ?_⟩
      obtain ⟨part, held, kept⟩ := ih next c mem
      exact ⟨part, List.mem_cons_of_mem _ held, kept⟩

theorem takesAvoids {c : Char} (found : takes parts text = some (x, left)) (none : ∀ part ∈ parts, part.keep c = false) :
    c ∉ x := by
  intro mem
  obtain ⟨part, held, kept⟩ := takesKept found c mem
  rw [none part held] at kept
  cases kept

-- Each single character of the pattern is in what is taken.
theorem takesHolds (found : takes parts text = some (x, left)) (mem : .one keep ∈ parts) : ∃ c ∈ x, keep c = true := by
  induction parts generalizing text x left with
  | nil => cases mem
  | cons part parts ih =>
    cases part with
    | one other =>
      obtain ⟨d, t, y, -, rfl, kept, next⟩ := oneTakes found
      rcases List.mem_cons.mp mem with same | mem
      · cases same
        exact ⟨d, List.mem_cons_self, kept⟩
      · obtain ⟨c, held, kept⟩ := ih next mem
        exact ⟨c, List.mem_cons_of_mem _ held, kept⟩
    | run other =>
      obtain ⟨y, rfl, next⟩ := runTakes found
      rcases List.mem_cons.mp mem with same | mem
      · cases same
      · obtain ⟨c, held, kept⟩ := ih next mem
        exact ⟨c, List.mem_append_right _ held, kept⟩

theorem takesLast (found : takes (parts ++ [.one keep]) text = some (x, left)) : ∃ init c, x = init ++ [c] ∧ keep c = true := by
  induction parts generalizing text x left with
  | nil =>
    obtain ⟨c, t, y, -, rfl, kept, next⟩ := oneTakes found
    cases next
    exact ⟨[], c, rfl, kept⟩
  | cons part parts ih =>
    cases part with
    | one other =>
      obtain ⟨d, t, y, -, rfl, -, next⟩ := oneTakes found
      obtain ⟨init, c, rfl, kept⟩ := ih next
      exact ⟨d :: init, c, rfl, kept⟩
    | run other =>
      obtain ⟨y, rfl, next⟩ := runTakes found
      obtain ⟨init, c, rfl, kept⟩ := ih next
      exact ⟨text.takeWhile other ++ init, c, (List.append_assoc _ _ _).symm, kept⟩

-- All other ways to end a run leave a character that the part behind it does not take.
theorem runEnds {keep : Char → Bool} {groups : List (Nat × List Char)} {next : Place → List Place}
    (none : ∀ before c rest, keep c = true → next ⟨before, c :: rest, groups⟩ = []) {n : Nat} (before after : List Char)
    (enough : after.length ≤ n) :
    (loop true (eat keep) n ⟨before, after, groups⟩).flatMap next =
      next ⟨(after.takeWhile keep).reverse ++ before, after.dropWhile keep, groups⟩ := by
  induction n generalizing before after with
  | zero =>
    obtain rfl := List.length_eq_zero_iff.mp (Nat.le_zero.mp enough)
    exact List.flatMap_singleton _ _
  | succ n ih =>
    cases after with
    | nil => simp [loop, eat]
    | cons c rest =>
      by_cases kept : keep c = true
      · have later := ih (c :: before) rest (by simpa using enough)
        have shorter : rest.length < (c :: rest).length := Nat.lt_succ_self _
        simp only [loop, eatCons, if_pos kept, List.filter_cons, List.filter_nil, decide_eq_true shorter, if_true,
          List.flatMap_append, List.flatMap_singleton, none before c rest kept, List.append_nil, later,
          List.takeWhile_cons_of_pos kept, List.dropWhile_cons_of_pos kept, List.reverse_cons, List.append_assoc,
          List.singleton_append]
      · simp only [loop, eatCons, if_neg kept, List.filter_nil, List.flatMap_nil, if_true, List.nil_append,
          List.flatMap_singleton, List.takeWhile_cons_of_neg kept, List.dropWhile_cons_of_neg kept, List.reverse_nil]

theorem endsParts (definite : Definite parts) {before after : List Char} {groups : List (Nat × List Char)} :
    ends (chain (parts.map Part.re)) ⟨before, after, groups⟩ =
      ((takes parts after).map (fun found => ⟨found.1.reverse ++ before, found.2, groups⟩)).toList := by
  induction parts generalizing before after with
  | nil => rfl
  | cons part parts ih =>
    cases part with
    | one keep =>
      change (eat keep ⟨before, after, groups⟩).flatMap (ends (chain (parts.map Part.re))) = _
      cases after with
      | nil => rfl
      | cons c rest =>
        by_cases kept : keep c = true
        · rw [eatCons, if_pos kept, List.flatMap_singleton, ih definite, takesOne kept, Option.map_map]
          cases takes parts rest with
          | none => rfl
          | some found => simp
        · rw [eatCons, if_neg kept, takesOneNot (by simpa using kept)]
          rfl
    | run keep =>
      match parts, definite, ih with
      | .one next :: parts, definite, ih =>
        change (loop true (eat keep) after.length ⟨before, after, groups⟩).flatMap (ends (chain ((Part.one next :: parts).map Part.re))) = _
        rw [runEnds (fun b c rest kept => ?_) before after le_rfl, ih definite.2, takes, Option.map_map]
        · cases takes (.one next :: parts) (after.dropWhile keep) with
          | none => rfl
          | some found => simp
        · change (eat next ⟨b, c :: rest, groups⟩).flatMap (ends (chain (parts.map Part.re))) = []
          rw [eatCons, definite.1 c kept]
          rfl

theorem patternHere (p : Pattern) (before after : List Char) :
    here p.re before after =
      (takes p.parts after).map (fun found => ⟨found.1.reverse ++ before, found.2, []⟩) := by
  rw [here, Pattern.re, endsParts p.once, Option.head?_toList]

theorem takesShorter {p : Pattern} (found : takes p.parts text = some (x, left)) : left.length < text.length := by
  obtain ⟨c, t, y, rfl, rfl, -, next⟩ := oneTakes found
  rw [takesText next, List.length_cons, List.length_append]
  omega

end

inductive Piece where
  | gap (c : Char)
  | hit (whole : List Char)

def Piece.text : Piece → List Char
  | .gap c => [c]
  | .hit whole => whole

def Piece.put (put : List Char → List Char) : Piece → List Char
  | .gap c => [c]
  | .hit whole => put whole

def Piece.isHit : Piece → Bool
  | .gap _ => false
  | .hit _ => true

def cut (p : Pattern) : List Char → List Piece
  | [] => []
  | c :: rest =>
    match _found : takes p.parts (c :: rest) with
    | some (x, left) => .hit x :: cut p left
    | none => .gap c :: cut p rest
  termination_by text => text.length
  decreasing_by
    · exact takesShorter _found
    · exact Nat.lt_succ_self _

def rewrite (p : Pattern) (put : List Char → List Char) (text : List Char) : List Char := (cut p text).flatMap (Piece.put put)
def hits (p : Pattern) (text : List Char) : Nat := (cut p text).countP Piece.isHit

-- How much of the text is left behind each match.
def leftBehind : List Piece → List Nat
  | [] => []
  | .gap _ :: pieces => leftBehind pieces
  | .hit _ :: pieces => (pieces.flatMap Piece.text).length :: leftBehind pieces
def hitEnds (p : Pattern) (text : List Char) : List Nat := leftBehind (cut p text)

section
variable {p : Pattern} {text rest x left : List Char}

theorem cutNil : cut p [] = [] := by rw [cut]

theorem cutHit (found : takes p.parts text = some (x, left)) : cut p text = .hit x :: cut p left := by
  cases text with
  | nil => cases found
  | cons c rest =>
    rw [cut]
    split
    · rename_i y l same
      rw [found] at same
      cases same
      rfl
    · rename_i none
      rw [found] at none
      cases none

theorem cutGap {c : Char} (none : takes p.parts (c :: rest) = none) : cut p (c :: rest) = .gap c :: cut p rest := by
  rw [cut]
  split
  · rename_i found
    rw [none] at found
    cases found
  · rfl

theorem cutInduction (p : Pattern) {motive : List Char → Prop} (nil : motive [])
    (hit : ∀ text x left, takes p.parts text = some (x, left) → motive left → motive text)
    (gap : ∀ c rest, takes p.parts (c :: rest) = none → motive rest → motive (c :: rest)) (text : List Char) : motive text := by
  induction size : text.length using Nat.strong_induction_on generalizing text with
  | _ n ih =>
    cases text with
    | nil => exact nil
    | cons c rest =>
      cases found : takes p.parts (c :: rest) with
      | none => exact gap c rest found (ih rest.length (size ▸ Nat.lt_succ_self _) rest rfl)
      | some pair => exact hit _ pair.1 pair.2 found (ih _ (size ▸ takesShorter found) _ rfl)

theorem cutText (text : List Char) : (cut p text).flatMap Piece.text = text := by
  induction text using cutInduction p with
  | nil => rw [cutNil]; rfl
  | hit text x left found ih =>
    rw [cutHit found, List.flatMap_cons, ih]
    exact (takesText found).symm
  | gap c rest none ih =>
    rw [cutGap none, List.flatMap_cons, ih]
    rfl

-- Matches that begin in the first text end in it.
def Apart (p : Pattern) (a b : List Char) : Prop :=
  ∀ front back, a = front ++ back → back ≠ [] → ∀ x left, takes p.parts (back ++ b) = some (x, left) → x.length ≤ back.length

theorem cutAppend {a b : List Char} (apart : Apart p a b) : cut p (a ++ b) = cut p a ++ cut p b := by
  induction a using cutInduction p with
  | nil => rw [cutNil]; rfl
  | hit a x left found ih =>
    obtain rfl := takesText found
    have apart' : Apart p left b := by
      rintro front back rfl some
      exact apart (x ++ front) back (List.append_assoc _ _ _).symm some
    rw [List.append_assoc, cutHit (takesSelf p.once found (left ++ b)), cutHit found, List.cons_append, ih apart']
  | gap c rest none ih =>
    have apart' : Apart p rest b := by
      rintro front back rfl some
      exact apart (c :: front) back rfl some
    have none' : takes p.parts (c :: (rest ++ b)) = Option.none := by
      cases found : takes p.parts (c :: (rest ++ b)) with
      | none => rfl
      | some pair =>
        have short := apart [] (c :: rest) rfl (List.cons_ne_nil c rest) pair.1 pair.2 found
        have whole : (c :: rest) ++ b = pair.1 ++ pair.2 := takesText found
        obtain ⟨more, same⟩ := List.prefix_of_prefix_length_le ⟨pair.2, whole.symm⟩ (List.prefix_append (c :: rest) b) short
        have again := takesSelf p.once found more
        rw [same, none] at again
        cases again
    rw [List.cons_append, cutGap none', cutGap none, List.cons_append, ih apart']

theorem rewriteHit {put : List Char → List Char} (found : takes p.parts text = some (x, left)) :
    rewrite p put text = put x ++ rewrite p put left := by
  rw [rewrite, cutHit found, List.flatMap_cons]
  rfl

theorem rewriteGap {put : List Char → List Char} {c : Char} (none : takes p.parts (c :: rest) = none) :
    rewrite p put (c :: rest) = c :: rewrite p put rest := by
  rw [rewrite, cutGap none, List.flatMap_cons]
  rfl

theorem rewriteNil {put : List Char → List Char} : rewrite p put [] = [] := by rw [rewrite, cutNil]; rfl

theorem rewriteAppend {put : List Char → List Char} {a b : List Char} (apart : Apart p a b) :
    rewrite p put (a ++ b) = rewrite p put a ++ rewrite p put b := by
  rw [rewrite, cutAppend apart, List.flatMap_append]
  rfl

theorem hitsHit (found : takes p.parts text = some (x, left)) : hits p text = hits p left + 1 := by
  rw [hits, cutHit found, List.countP_cons]
  rfl

theorem hitsGap {c : Char} (none : takes p.parts (c :: rest) = none) : hits p (c :: rest) = hits p rest := by
  rw [hits, cutGap none, List.countP_cons]
  rfl

theorem hitsNil : hits p [] = 0 := by rw [hits, cutNil]; rfl

theorem hitsAppend {a b : List Char} (apart : Apart p a b) : hits p (a ++ b) = hits p a + hits p b := by
  rw [hits, cutAppend apart, List.countP_append]
  rfl

-- Without a match nothing is put elsewhere.
theorem rewriteNone {put : List Char → List Char} (none : hits p text = 0) : rewrite p put text = text := by
  induction text using cutInduction p with
  | nil => exact rewriteNil
  | hit text x left found ih =>
    rw [hitsHit found] at none
    cases none
  | gap c rest other ih =>
    rw [hitsGap other] at none
    rw [rewriteGap other, ih none]

-- A class of characters that matches and what is put for them hold equally often.
theorem rewriteCount {put : List Char → List Char} {keep : Char → Bool}
    (same : ∀ x text left, takes p.parts text = some (x, left) → (put x).countP keep = x.countP keep) (text : List Char) :
    (rewrite p put text).countP keep = text.countP keep := by
  induction text using cutInduction p with
  | nil => rw [rewriteNil]
  | hit text x left found ih => rw [rewriteHit found, List.countP_append, ih, same x text left found, takesText found, List.countP_append]
  | gap c rest none ih => rw [rewriteGap none, List.countP_cons, List.countP_cons, ih]

theorem rewriteLess {put : List Char → List Char} {keep : Char → Bool}
    (less : ∀ x text left, takes p.parts text = some (x, left) → (put x).countP keep < x.countP keep) (text : List Char) :
    (rewrite p put text).countP keep + hits p text ≤ text.countP keep := by
  induction text using cutInduction p with
  | nil => rw [rewriteNil, hitsNil, Nat.add_zero]
  | hit text x left found ih =>
    have here := less x text left found
    rw [rewriteHit found, hitsHit found, takesText found, List.countP_append, List.countP_append]
    omega
  | gap c rest none ih =>
    rw [rewriteGap none, hitsGap none, List.countP_cons, List.countP_cons]
    omega

-- `replace` with a function of the groups.
def replaceBy (re : Re) (put : List (Nat × List Char) → List Char) : Nat → List Char → List Char → List Char
  | 0, _, after => after
  | n + 1, before, after =>
    match here re before after with
    | some q =>
      if q.after.length < after.length then put q.groups ++ replaceBy re put n q.before q.after
      else
        put q.groups ++ (match after with
          | [] => []
          | c :: rest => c :: replaceBy re put n (c :: before) rest)
    | none =>
      match after with
      | [] => []
      | c :: rest => c :: replaceBy re put n (c :: before) rest

theorem replaceFromBy (re : Re) (put : List Char) (n : Nat) (before after : List Char) :
    replaceFrom re put n before after = replaceBy re (fun _ => put) n before after := by
  induction n generalizing before after with
  | zero => rfl
  | succ n ih =>
    cases found : here re before after with
    | none => cases after <;> simp only [replaceFrom, replaceBy, found, ih]
    | some q => cases after <;> simp only [replaceFrom, replaceBy, found, ih]

theorem replaceRewrite {re : Re} {put : List (Nat × List Char) → List Char} {out : List Char → List Char}
    (groups : List Char → List (Nat × List Char)) (only : ∀ before after, here re before after =
      (takes p.parts after).map (fun found => ⟨found.1.reverse ++ before, found.2, groups found.1⟩))
    (puts : ∀ x, put (groups x) = out x) {n : Nat} {before after : List Char} (enough : after.length < n) :
    replaceBy re put n before after = rewrite p out after := by
  induction n generalizing before after with
  | zero => exact absurd enough (Nat.not_lt_zero _)
  | succ n ih =>
    cases after with
    | nil =>
      have none : takes p.parts [] = none := rfl
      simp only [replaceBy, only, none, Option.map_none, rewriteNil]
    | cons c rest =>
      cases found : takes p.parts (c :: rest) with
      | none =>
        simp only [replaceBy, only, found, Option.map_none, rewriteGap found]
        rw [ih (by simpa using enough)]
      | some pair =>
        have shorter := takesShorter found
        simp only [replaceBy, only, found, Option.map_some, if_pos shorter, puts, rewriteHit found]
        rw [ih (by omega)]

theorem groupHere (p : Pattern) (index : Nat) (before after : List Char) : here (.group index p.re) before after =
    (takes p.parts after).map (fun found => ⟨found.1.reverse ++ before, found.2, [(index, found.1)]⟩) := by
  have whole : ends p.re ⟨before, after, []⟩ = _ := endsParts p.once
  rw [here, ends, whole]
  cases takes p.parts after with
  | none => rfl
  | some found =>
    simp only [Option.map_some, Option.toList_some, List.map_singleton, List.head?_cons, consumedText]

end
end HarnessMem.Regex
