import HarnessMem.Lib.Regex
import Mathlib.Data.List.TakeWhile

/-! The words of a text, and the slug two replacements make of it: each run of other characters
becomes one separator, and the separators at both ends go. -/
namespace HarnessMem.Words
open Regex

-- The runs of characters of a kind.
def filled (pieces : List (List Char)) : List (List Char) := pieces.filter (fun piece => piece ≠ [])
def words (keep : Char → Bool) (text : List Char) : List (List Char) := filled (text.splitOnP (fun c => !keep c))
def joined (keep : Char → Bool) (sep : Char) (text : List Char) : List Char := [sep].intercalate (words keep text)

-- `inside` a run that has its separator already.
def squash (keep : Char → Bool) (sep : Char) : Bool → List Char → List Char
  | _, [] => []
  | inside, c :: rest =>
    if keep c then c :: squash keep sep false rest
    else if inside then squash keep sep true rest else sep :: squash keep sep true rest

def trimRight (sep : Char) (text : List Char) : List Char := (text.reverse.dropWhile (fun c => c = sep)).reverse

-- /^s+|s+$/
def atEnds (sep : Char) : Re := .alt (.seq .start (plus (char sep))) (.seq (plus (char sep)) .stop)

section
variable {keep : Char → Bool} {sep : Char}

theorem loopHead (keep : Char → Bool) (n : Nat) (p : Place) (enough : p.after.length ≤ n) :
    (loop true (eat keep) n p).head? = some (skip (p.after.takeWhile keep).length p) := by
  induction n generalizing p with
  | zero =>
    obtain ⟨before, after, groups⟩ := p
    obtain rfl : after = [] := List.eq_nil_of_length_eq_zero (Nat.le_zero.mp enough)
    simp [loop, skip]
  | succ n ih =>
    obtain ⟨before, after, groups⟩ := p
    cases after with
    | nil => simp [loop, eat, skip]
    | cons c cs =>
      by_cases kept : keep c = true
      · have rest := ih ⟨c :: before, cs, groups⟩ (by simpa using enough)
        simp only [loop, eatCons, kept, if_true]
        simp [rest, skip, kept]
      · simp [loop, eatCons, kept, skip]

theorem endsPlus (before rest : List Char) (c : Char) : ends (plus (.set keep)) ⟨before, c :: rest, []⟩ =
    if keep c then loop true (eat keep) rest.length ⟨c :: before, rest, []⟩ else [] := by
  rw [plus, endsSeq, ends, eatCons]
  by_cases kept : keep c = true
  · simp only [kept, if_true, List.flatMap_cons, List.flatMap_nil, List.append_nil]
    rfl
  · simp [kept]

theorem hereRun (before rest : List Char) (c : Char) : here (plus (.set keep)) before (c :: rest) =
    if keep c then some (skip (rest.takeWhile keep).length ⟨c :: before, rest, []⟩) else none := by
  rw [here, endsPlus]
  by_cases kept : keep c = true
  · rw [if_pos kept, if_pos kept]
    exact loopHead _ _ _ (Nat.le_refl _)
  · rw [if_neg kept, if_neg kept]
    rfl

theorem squashKept {text : List Char} (all : ∀ c ∈ text, keep c = true) : squash keep sep false text = text := by
  induction text with
  | nil => rfl
  | cons c rest ih =>
    obtain ⟨head, tail⟩ := List.forall_mem_cons.mp all
    rw [squash, if_pos head, ih tail]

theorem squashInside (text : List Char) :
    squash keep sep true text = squash keep sep false (text.dropWhile (fun c => !keep c)) := by
  induction text with
  | nil => rfl
  | cons c rest ih =>
    by_cases kept : keep c = true
    · simp [squash, kept]
    · simp [squash, kept, ih]

theorem dropTake (p : Char → Bool) (text : List Char) : text.drop (text.takeWhile p).length = text.dropWhile p := by
  induction text with
  | nil => rfl
  | cons c rest ih =>
    by_cases kept : p c = true
    · simp [kept, ih]
    · simp [kept]

-- A greedy run of other characters goes for one separator.
theorem replaceRuns (n : Nat) (before text : List Char) (enough : text.length < n) :
    replaceFrom (plus (.set (fun c => !keep c))) [sep] n before text = squash keep sep false text := by
  induction n generalizing before text with
  | zero => omega
  | succ n ih =>
    cases text with
    | nil => rfl
    | cons c rest =>
      have short : rest.length < n := by simpa using enough
      simp only [replaceFrom, hereRun]
      by_cases kept : keep c = true
      · simp [kept, squash, ih _ _ short]
      · have left : (rest.dropWhile (fun c => !keep c)).length ≤ rest.length := (List.dropWhile_suffix _).length_le
        simp [kept, squash, squashInside, skip, dropTake, Nat.lt_succ_of_le left, ih _ _ (Nat.lt_of_le_of_lt left short)]
theorem trimRightCons (c : Char) (rest : List Char) : trimRight sep (c :: rest) =
    if trimRight sep rest = [] ∧ c = sep then [] else c :: trimRight sep rest := by
  unfold trimRight
  rw [List.reverse_cons, List.dropWhile_append]
  by_cases gone : rest.reverse.dropWhile (fun c => c = sep) = []
  · by_cases is : c = sep <;> simp [gone, is]
  · simp [gone]

theorem trimRightAll {text : List Char} (all : ∀ c ∈ text, c = sep) : trimRight sep text = [] := by
  have none : text.reverse.dropWhile (fun c => c = sep) = [] :=
    List.dropWhile_eq_nil_iff.mpr (fun c mem => by simpa using all c (List.mem_reverse.mp mem))
  rw [trimRight, none]
  rfl

theorem trimRightNil {text : List Char} : trimRight sep text = [] ↔ ∀ c ∈ text, c = sep := by
  refine ⟨fun none c mem => ?_, trimRightAll⟩
  rw [trimRight, List.reverse_eq_nil_iff, List.dropWhile_eq_nil_iff] at none
  simpa using none c (List.mem_reverse.mpr mem)

-- At the front a run goes; further on only one that reaches the end.
theorem hereFront (rest : List Char) (c : Char) : here (atEnds sep) [] (c :: rest) =
    if c = sep then some (skip (rest.takeWhile (fun c => c = sep)).length ⟨[c], rest, []⟩) else none := by
  have ways : ends (atEnds sep) ⟨[], c :: rest, []⟩ = ends (plus (char sep)) ⟨[], c :: rest, []⟩ ++
      (ends (plus (char sep)) ⟨[], c :: rest, []⟩).flatMap (ends .stop) := by
    simp [atEnds, ends]
  have run := loopHead (fun d => decide (d = sep)) rest.length ⟨[c], rest, []⟩ (Nat.le_refl _)
  rw [here, ways, char, endsPlus]
  by_cases is : c = sep
  · simp only [is, decide_true, if_true, List.head?_append] at run ⊢
    rw [run]
    rfl
  · simp [is]

theorem hereLater {before : List Char} (later : before ≠ []) (rest : List Char) (c : Char) :
    here (atEnds sep) before (c :: rest) =
      if (c :: rest).all (fun d => d = sep) = true then some (skip (rest.takeWhile (fun c => c = sep)).length ⟨c :: before, rest, []⟩)
      else none := by
  have ways : ends (atEnds sep) ⟨before, c :: rest, []⟩ =
      (ends (plus (char sep)) ⟨before, c :: rest, []⟩).flatMap (ends .stop) := by
    simp [atEnds, ends, later]
  have stops : ∀ p : Place, p.after.head?.any (fun c => decide (c = sep)) = true → ends .stop p = [] := by
    intro p first
    cases text : p.after with
    | nil => simp [text] at first
    | cons d more => simp [ends, text]
  have run := loopGreedy stops rest.length ⟨c :: before, rest, []⟩ (Nat.le_refl _)
  rw [here, ways, char, endsPlus]
  by_cases is : c = sep
  · simp only [is, decide_true, if_true] at run ⊢
    rw [run]
    have reaches : (rest.dropWhile (fun c => decide (c = sep))).isEmpty = true ↔
        (sep :: rest).all (fun d => decide (d = sep)) = true := by
      rw [List.isEmpty_iff, List.dropWhile_eq_nil_iff]
      simp
    simp only [ends, skip, dropTake, reaches]
    split <;> rfl
  · simp [is]

theorem replaceNothing (n : Nat) (before : List Char) : replaceFrom (atEnds sep) [] n before [] = [] := by
  cases n with
  | zero => rfl
  | succ n => cases before <;> simp [replaceFrom, here, atEnds, ends, plus, char, eat]

theorem trimLater (n : Nat) {before : List Char} (later : before ≠ []) (text : List Char) (enough : text.length < n) :
    replaceFrom (atEnds sep) [] n before text = trimRight sep text := by
  induction n generalizing before text with
  | zero => omega
  | succ n ih =>
    cases text with
    | nil => exact replaceNothing _ _
    | cons c rest =>
      have short : rest.length < n := by simpa using enough
      simp only [replaceFrom, hereLater later]
      by_cases all : ∀ d ∈ c :: rest, d = sep
      · have every : (c :: rest).all (fun d => decide (d = sep)) = true := by simpa using all
        have none : rest.dropWhile (fun c => decide (c = sep)) = [] :=
          List.dropWhile_eq_nil_iff.mpr (fun d mem => by simpa using all d (List.mem_cons_of_mem _ mem))
        rw [if_pos every, trimRightAll all]
        simp [skip, dropTake, none, replaceNothing]
      · have some' : ¬ (c :: rest).all (fun d => decide (d = sep)) = true := fun every => all (by simpa using every)
        rw [if_neg some']
        simp only
        rw [ih (List.cons_ne_nil c before) _ short, trimRightCons, if_neg]
        rintro ⟨rest', is⟩
        exact all (List.forall_mem_cons.mpr ⟨is, trimRightNil.mp rest'⟩)

theorem trimEnds (text : String) :
    replaceAll (atEnds sep) "" text = String.ofList (trimRight sep (text.toList.dropWhile (fun c => c = sep))) := by
  have blank : "".toList = [] := by simp
  rw [replaceAll, blank]
  refine congrArg String.ofList ?_
  have enough : text.toList.length < text.length + 1 := Nat.lt_succ_of_le (Nat.le_of_eq String.length_toList)
  generalize text.toList = chars at enough
  cases chars with
  | nil => exact replaceNothing _ _
  | cons c rest =>
    have short : rest.length < text.length := by simpa using enough
    simp only [replaceFrom, hereFront]
    by_cases is : c = sep
    · have left : (rest.dropWhile (fun c => decide (c = sep))).length ≤ rest.length := (List.dropWhile_suffix _).length_le
      have later : (List.take (rest.takeWhile (fun c => decide (c = sep))).length rest).reverse ++ [sep] ≠ [] := by simp
      simp [is, skip, dropTake, Nat.lt_succ_of_le left, trimLater _ later _ (Nat.lt_of_le_of_lt left short)]
    · rw [if_neg is]
      simp only
      rw [trimLater _ (List.cons_ne_nil c []) _ short, List.dropWhile_cons_of_neg (by simpa using is), trimRightCons,
        if_neg (fun both => is both.2)]

@[simp] theorem filledNone (pieces : List (List Char)) : filled ([] :: pieces) = filled pieces := rfl
@[simp] theorem filledCons (c : Char) (piece : List Char) (pieces : List (List Char)) :
    filled ((c :: piece) :: pieces) = (c :: piece) :: filled pieces := rfl

-- What follows a word.
def further (sep : Char) (pieces : List (List Char)) : List Char :=
  if filled pieces = [] then [] else sep :: [sep].intercalate (filled pieces)

theorem joinedCons (piece : List Char) (pieces : List (List Char)) :
    [sep].intercalate (piece :: filled pieces) = piece ++ further sep pieces := by
  unfold further
  by_cases last : filled pieces = []
  · simp [last]
  · rw [if_neg last, List.intercalate_cons_of_ne_nil last]
    simp

theorem joinedNil {text : List Char} : joined keep sep text = [] ↔ words keep text = [] := by
  refine ⟨fun none => ?_, fun none => by rw [joined, none]; rfl⟩
  cases pieces : words keep text with
  | nil => rfl
  | cons piece more =>
    have filledPiece : piece ≠ [] := by
      have mem : piece ∈ words keep text := pieces ▸ List.mem_cons_self
      simpa using (List.mem_filter.mp mem).2
    rw [joined, pieces] at none
    cases more with
    | nil => exact absurd (by simpa using none) filledPiece
    | cons next more =>
      rw [List.intercalate_cons_cons] at none
      simp at none

-- The slug so far ends in a run of other characters, or in the midst of a word.
theorem squashWords (apart : keep sep = false) (text : List Char) :
    trimRight sep (squash keep sep true text) = joined keep sep text ∧
      ∀ piece pieces, text.splitOnP (fun c => !keep c) = piece :: pieces →
        trimRight sep (squash keep sep false text) = piece ++ further sep pieces := by
  induction text with
  | nil =>
    refine ⟨rfl, fun piece pieces split => ?_⟩
    obtain ⟨rfl, rfl⟩ := List.cons.inj split
    rfl
  | cons c rest ih =>
    obtain ⟨between, within⟩ := ih
    by_cases kept : keep c = true
    · have other : c ≠ sep := by
        rintro rfl
        rw [apart] at kept
        cases kept
      have both : ∀ inside, trimRight sep (squash keep sep inside (c :: rest)) = c :: trimRight sep (squash keep sep false rest) := by
        intro inside
        rw [squash, if_pos kept, trimRightCons, if_neg (fun both => other both.2)]
      cases pieces' : rest.splitOnP (fun c => !keep c) with
      | nil => exact absurd pieces' (List.splitOnP_ne_nil _ _)
      | cons first more =>
        have split : (c :: rest).splitOnP (fun c => !keep c) = (c :: first) :: more := by
          rw [List.splitOnP_cons_eq_if_modifyHead, pieces']
          simp [kept]
        constructor
        · rw [both, within first more pieces', joined, words, split, filledCons, joinedCons]
          rfl
        · intro piece pieces is
          rw [split] at is
          obtain ⟨rfl, rfl⟩ := List.cons.inj is
          rw [both, within first _ pieces']
          rfl
    · have split : (c :: rest).splitOnP (fun c => !keep c) = [] :: rest.splitOnP (fun c => !keep c) := by
        rw [List.splitOnP_cons_eq_if_modifyHead]
        simp [kept]
      constructor
      · rw [squash, if_neg kept, if_pos rfl, between, joined, words, joined, words, split, filledNone]
      · intro piece pieces is
        rw [split] at is
        obtain ⟨rfl, rfl⟩ := List.cons.inj is
        rw [squash, if_neg kept, if_neg (by simp), trimRightCons, between, further, List.nil_append]
        simp only [and_true, joinedNil]
        rfl

-- The slug: the words with one separator between them.
theorem squashJoined (apart : keep sep = false) (text : List Char) :
    trimRight sep ((squash keep sep false text).dropWhile (fun c => c = sep)) = joined keep sep text := by
  have leads : ∀ rest, (squash keep sep true rest).dropWhile (fun c => decide (c = sep)) = squash keep sep true rest := by
    intro rest
    induction rest with
    | nil => rfl
    | cons c rest ih =>
      by_cases kept : keep c = true
      · have other : c ≠ sep := by
          rintro rfl
          rw [apart] at kept
          cases kept
        rw [squash, if_pos kept, List.dropWhile_cons_of_neg (by simpa using other)]
      · rw [squash, if_neg kept, if_pos rfl, ih]
  rw [← (squashWords apart text).1, ← leads text]
  cases text with
  | nil => rfl
  | cons c rest =>
    by_cases kept : keep c = true
    · rw [squash, squash, if_pos kept, if_pos kept]
    · rw [squash, squash, if_neg kept, if_neg kept, if_neg (by simp), if_pos rfl, List.dropWhile_cons_of_pos (by simp)]

theorem joinedHead (sep : Char) {c : Char} (kept : keep c = true) (rest : List Char) : ∃ tail, joined keep sep (c :: rest) = c :: tail := by
  rw [joined, words, List.splitOnP_cons_eq_if_modifyHead]
  cases pieces : rest.splitOnP (fun c => !keep c) with
  | nil => exact absurd pieces (List.splitOnP_ne_nil _ _)
  | cons first more =>
    simp only [kept, Bool.not_true, Bool.false_eq_true, if_false, List.modifyHead_cons, filledCons]
    exact ⟨first ++ further sep more, joinedCons (c :: first) more⟩

theorem joinedChars (apart : keep sep = false) (text : List Char) : ∀ c ∈ joined keep sep text, keep c = true ∨ c = sep := by
  have squashed : ∀ inside, ∀ c ∈ squash keep sep inside text, keep c = true ∨ c = sep := by
    induction text with
    | nil => simp [squash]
    | cons c rest ih =>
      intro inside d mem
      rw [squash] at mem
      split at mem
      · rename_i kept
        rcases List.mem_cons.mp mem with rfl | later
        · exact .inl kept
        · exact ih false d later
      · split at mem
        · exact ih true d mem
        · rcases List.mem_cons.mp mem with rfl | later
          · exact .inr rfl
          · exact ih true d later
  intro c mem
  rw [← squashJoined apart, trimRight, List.mem_reverse] at mem
  have inside := (List.dropWhile_suffix _).subset mem
  exact squashed false c ((List.dropWhile_suffix _).subset (List.mem_reverse.mp inside))

-- `text.replace(/[^..]+/g, sep).replace(/^sep+|sep+$/g, "")`
theorem slugJoined (apart : keep sep = false) (text : String) :
    replaceAll (atEnds sep) "" (replaceAll (plus (.set (fun c => !keep c))) (String.singleton sep) text) =
      String.ofList (joined keep sep text.toList) := by
  have runs : (replaceAll (plus (.set (fun c => !keep c))) (String.singleton sep) text).toList =
      squash keep sep false text.toList := by
    rw [replaceAll, String.toList_ofList, String.toList_singleton]
    exact replaceRuns _ _ _ (Nat.lt_succ_of_le (Nat.le_of_eq String.length_toList))
  rw [trimEnds, runs, squashJoined apart]
end

end HarnessMem.Words
