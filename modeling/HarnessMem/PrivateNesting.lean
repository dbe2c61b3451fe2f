import HarnessMem.PrivateBlocks

/-! Private blocks that hold blocks: the stretches the expression removes, against the balanced blocks of a text. -/
namespace HarnessMem.PrivateNesting
open Regex Text PrivateBlocks

-- What follows once the `n` open blocks are closed, if the text closes them.
def closing : Nat → Nat → List Char → Option (List Char)
  | _, 0, text => some text
  | 0, _ + 1, _ => none
  | _ + 1, _ + 1, [] => none
  | fuel + 1, n + 1, c :: rest =>
    if opens (c :: rest) then (afterOpen ((c :: rest).drop openName.length)).bind (closing fuel (n + 2))
    else if closes (c :: rest) then closing fuel n ((c :: rest).drop closeTag.length)
    else closing fuel (n + 1) rest

-- What follows the balanced block at the head of the text.
def afterBalanced (text : List Char) : Option (List Char) :=
  if opens text then (afterOpen (text.drop openName.length)).bind (fun inner => closing inner.length 1 inner) else none

-- Going through a text from left to right, the characters inside the stretches that `after` skips.
def marks (after : List Char → Option (List Char)) : Nat → List Char → List Bool
  | 0, _ => []
  | n + 1, text =>
    match after text with
    | some rest => List.replicate (text.length - rest.length) true ++ marks after n rest
    | none =>
      match text with
      | [] => []
      | _ :: rest => false :: marks after n rest

def kept (text : List Char) (inside : List Bool) : List Char := ((text.zip inside).filter (fun pair => !pair.2)).map Prod.fst

def removed (text : List Char) : List Bool := marks afterBlock (text.length + 1) text
def inBlock (text : List Char) : List Bool := marks afterBalanced (text.length + 1) text
def outside (text : List Char) : List Char := kept text (inBlock text)

-- No block stands anywhere in the text.
def Clean (text : List Char) : Prop := ∀ tail, tail <:+ text → afterBlock tail = none

-- Between an opening tag and the first closing tag behind it there is no other opening tag.
def Unnested (text : List Char) : Prop := ∀ start inner rest, start <:+ text → opens start = true →
  afterOpen (start.drop openName.length) = some inner → afterClose inner = some rest →
  ∀ tail, tail <:+ inner → rest.length < tail.length → opens tail = false

theorem afterOpenShape {text inner : List Char} (found : afterOpen text = some inner) : ∃ tag, text = tag ++ '>' :: inner ∧ '>' ∉ tag := by
  have split := List.takeWhile_append_dropWhile (p := notIn ">") (l := text)
  have stop := List.head?_dropWhile_not (notIn ">") text
  unfold afterOpen at found
  cases shape : text.dropWhile (notIn ">") with
  | nil => simp [shape] at found
  | cons c rest =>
    rw [shape] at found stop split
    obtain rfl : rest = inner := by simpa using found
    obtain rfl := notInClose.mp (by simpa using stop)
    refine ⟨_, split.symm, fun mem => ?_⟩
    have kept := List.all_eq_true.mp (List.all_takeWhile (p := notIn ">") (l := text)) '>' mem
    rw [notInClose.mpr rfl] at kept
    cases kept

theorem afterOpenFound {tag inner : List Char} (free : '>' ∉ tag) : afterOpen (tag ++ '>' :: inner) = some inner := by
  have all : ∀ c ∈ tag, notIn ">" c = true := fun c mem => by
    by_contra other
    exact free (notInClose.mp (by simpa using other) ▸ mem)
  rw [afterOpen, List.dropWhile_append_of_pos all, List.dropWhile_cons_of_neg (by simp [notInClose.mpr rfl])]
  rfl

theorem afterCloseSuffix {text rest : List Char} (found : afterClose text = some rest) : rest <:+ text := by
  induction text with
  | nil => cases found
  | cons c cs ih =>
    rw [afterClose] at found
    split at found
    · exact Option.some.inj found ▸ List.drop_suffix _ _
    · exact (ih found).trans (List.suffix_cons c cs)

theorem afterOpenSuffix {text inner : List Char} (found : afterOpen text = some inner) : inner <:+ text := by
  obtain ⟨tag, rfl, _⟩ := afterOpenShape found
  exact (List.suffix_cons '>' inner).trans (List.suffix_append tag _)

theorem startsILong {word text : List Char} (starts : startsI word text = true) : word.length ≤ text.length := by
  induction word generalizing text with
  | nil => exact Nat.zero_le _
  | cons d ds ih =>
    cases text with
    | nil => simp [startsI] at starts
    | cons c cs =>
      rw [startsI, Bool.and_eq_true] at starts
      exact Nat.succ_le_succ (ih starts.2)

theorem wordFree {word text : List Char} {c : Char} (others : ∀ d ∈ word, either (fun e => e = d) c = false)
    (starts : startsI word text = true) : c ∉ text.take word.length := by
  induction word generalizing text with
  | nil => simp
  | cons d ds ih =>
    cases text with
    | nil => simp
    | cons e es =>
      rw [startsI, Bool.and_eq_true] at starts
      rw [List.length_cons, List.take_succ_cons, List.mem_cons, not_or]
      refine ⟨?_, ih (fun x mem => others x (List.mem_cons_of_mem d mem)) starts.2⟩
      rintro rfl
      rw [others d List.mem_cons_self] at starts
      cases starts.1

-- No tag name holds a `>`.
theorem nameFree : ∀ d ∈ openName, either (fun e => e = d) '>' = false := by
  have others : (openName.all (fun e => !either (fun f => f = e) '>')) = true := by decide
  exact fun d mem => by simpa using List.all_eq_true.mp others d mem

theorem openShape {text inner : List Char} (opened : opens text = true) (found : afterOpen (text.drop openName.length) = some inner) :
    ∃ tag, text = tag ++ '>' :: inner ∧ '>' ∉ tag := by
  obtain ⟨attrs, split, free⟩ := afterOpenShape found
  rw [opens, Bool.and_eq_true] at opened
  refine ⟨text.take openName.length ++ attrs, ?_, fun mem => ?_⟩
  · rw [List.append_assoc, ← split, List.take_append_drop]
  · rcases List.mem_append.mp mem with inName | inAttrs
    · exact wordFree nameFree opened.1 inName
    · exact free inAttrs

theorem openBeforeEnd {tag inner : List Char} (opened : opens (tag ++ '>' :: inner) = true) : openName.length ≤ tag.length := by
  rw [opens, Bool.and_eq_true] at opened
  exact startsILong (startsIStops nameFree opened.1)

theorem wordEnds {word tag inner : List Char} (others : ∀ d ∈ word, either (fun e => e = d) '>' = false) (free : '>' ∉ tag)
    (starts : startsI (word ++ ['>']) (tag ++ '>' :: inner) = true) : (tag ++ '>' :: inner).drop (word.length + 1) = inner := by
  induction word generalizing tag with
  | nil =>
    cases tag with
    | nil => rfl
    | cons c cs =>
      rw [List.nil_append, List.cons_append, startsI, Bool.and_eq_true] at starts
      exact absurd (eitherSymbol (by decide) starts.1 ▸ List.mem_cons_self) free
  | cons d ds ih =>
    cases tag with
    | nil =>
      rw [List.cons_append, List.nil_append, startsI, Bool.and_eq_true, others d List.mem_cons_self] at starts
      cases starts.1
    | cons c cs =>
      rw [List.cons_append, List.cons_append, startsI, Bool.and_eq_true] at starts
      exact ih (fun e mem => others e (List.mem_cons_of_mem d mem)) (fun mem => free (List.mem_cons_of_mem c mem)) starts.2

-- A closing tag in front of a `>` ends with it.
theorem closeEnds {tag inner : List Char} (free : '>' ∉ tag) (closed : closes (tag ++ '>' :: inner) = true) :
    (tag ++ '>' :: inner).drop closeTag.length = inner := by
  have split : closeTag = ['<', '/', 'p', 'r', 'i', 'v', 'a', 't', 'e'] ++ ['>'] := closeSplit
  have others : (['<', '/', 'p', 'r', 'i', 'v', 'a', 't', 'e'].all (fun e => !either (fun f => f = e) '>')) = true := by decide
  rw [closes, split] at closed
  rw [split]
  exact @wordEnds ['<', '/', 'p', 'r', 'i', 'v', 'a', 't', 'e'] tag inner (fun d mem => by simpa using List.all_eq_true.mp others d mem) free closed

theorem closePast {tag : List Char} (inner : List Char) (free : '>' ∉ tag) :
    afterClose (tag ++ '>' :: inner) = some inner ∨ afterClose (tag ++ '>' :: inner) = afterClose inner := by
  induction tag with
  | nil =>
    have shut : closes ('>' :: inner) = false := by
      rw [closes, closeSplit, startsI, show either (fun e => e = '<') '>' = false by decide]
      rfl
    exact .inr (by rw [List.nil_append, afterClose, shut]; rfl)
  | cons c cs ih =>
    rw [List.cons_append, afterClose]
    by_cases closed : closes (c :: (cs ++ '>' :: inner)) = true
    · rw [if_pos closed]
      exact .inl (congrArg some (closeEnds free closed))
    · rw [if_neg closed]
      exact ih fun mem => free (List.mem_cons_of_mem c mem)

theorem wordShut {word text tail : List Char} (others : ∀ d ∈ word, either (fun e => e = d) '<' = false)
    (starts : startsI word text = true) (suffix : tail <:+ text) (within : text.length < tail.length + word.length) : opens tail = false := by
  induction word generalizing text with
  | nil => exact absurd suffix.length_le (by simpa using within)
  | cons d ds ih =>
    cases text with
    | nil => simp [startsI] at starts
    | cons c cs =>
      rw [startsI, Bool.and_eq_true] at starts
      rcases List.suffix_cons_iff.mp suffix with rfl | later
      · by_contra opened
        rw [Bool.not_eq_false, opens, Bool.and_eq_true, openSplit] at opened
        have angle := opened.1
        rw [List.cons_append, startsI, Bool.and_eq_true] at angle
        rw [eitherSymbol (by decide) angle.1, others d List.mem_cons_self] at starts
        cases starts.1
      · refine ih (fun e mem => others e (List.mem_cons_of_mem d mem)) starts.2 later ?_
        simp only [List.length_cons] at within
        omega

-- No opening tag begins in a closing one.
theorem closeShut {text tail : List Char} (closed : closes text = true) (suffix : tail <:+ text)
    (within : text.length < tail.length + closeTag.length) : opens tail = false := by
  rw [closes, closeSplit] at closed
  cases text with
  | nil => simp [startsI] at closed
  | cons c cs =>
    rw [startsI, Bool.and_eq_true] at closed
    rcases List.suffix_cons_iff.mp suffix with rfl | later
    · cases cs with
      | nil => simp [startsI] at closed
      | cons d ds =>
        rw [startsI, Bool.and_eq_true] at closed
        rw [opens, openSplit, eitherSymbol (by decide) closed.2.1, List.cons_append, startsI, List.cons_append, startsI,
          show either (fun e => e = 'p') '/' = false by decide]
        simp
    · have others : (['/', 'p', 'r', 'i', 'v', 'a', 't', 'e', '>'].all (fun e => !either (fun f => f = e) '<')) = true := by decide
      refine wordShut (fun d mem => by simpa using List.all_eq_true.mp others d mem) closed.2 later ?_
      rw [closeSplit] at within
      simp only [List.length_cons] at within ⊢
      omega

theorem closesApart {text : List Char} (closed : closes text = true) : opens text = false := by
  refine closeShut closed List.suffix_rfl ?_
  rw [closeSplit]
  simp

-- The text closes `n` open blocks and goes on with `rest`.
inductive Closes : Nat → List Char → List Char → Prop where
  | done {text : List Char} : Closes 0 text text
  | plain {n : Nat} {c : Char} {text rest : List Char} (name : opens (c :: text) = false) (tag : closes (c :: text) = false)
      (later : Closes (n + 1) text rest) : Closes (n + 1) (c :: text) rest
  | deeper {n : Nat} {text inner rest : List Char} (opened : opens text = true) (tag : afterOpen (text.drop openName.length) = some inner)
      (later : Closes (n + 2) inner rest) : Closes (n + 1) text rest
  | closer {n : Nat} {text rest : List Char} (closed : closes text = true) (later : Closes n (text.drop closeTag.length) rest) :
      Closes (n + 1) text rest

theorem innerShorter {text inner : List Char} (tag : afterOpen (text.drop openName.length) = some inner) : inner.length + 8 < text.length := by
  obtain ⟨name, split, _⟩ := afterOpenShape tag
  have long := congrArg List.length split
  have eight : openName.length = 8 := by decide
  rw [List.length_drop, eight, List.length_append, List.length_cons] at long
  omega

theorem openAtEmpty : ¬ ∃ n rest, Closes (n + 1) [] rest := by
  rintro ⟨n, rest, closes⟩
  cases closes with
  | deeper opened tag later => exact absurd opened (by decide)
  | closer closed later => exact absurd closed (by decide)

theorem closingIff {fuel n : Nat} {text rest : List Char} (enough : text.length ≤ fuel) :
    closing fuel n text = some rest ↔ Closes n text rest := by
  induction fuel generalizing n text with
  | zero =>
    obtain rfl := List.eq_nil_of_length_eq_zero (Nat.le_zero.mp enough)
    cases n with
    | zero => exact ⟨fun same => Option.some.inj same ▸ .done, fun closes => by cases closes; rfl⟩
    | succ n => exact iff_of_false (fun same => by cases same) (fun closes => openAtEmpty ⟨n, rest, closes⟩)
  | succ fuel ih =>
    cases n with
    | zero => exact ⟨fun same => Option.some.inj same ▸ .done, fun closes => by cases closes; rfl⟩
    | succ n =>
      cases text with
      | nil => exact iff_of_false (fun same => by cases same) (fun closes => openAtEmpty ⟨n, rest, closes⟩)
      | cons c cs =>
        rw [closing]
        by_cases opened : opens (c :: cs) = true
        · rw [if_pos opened]
          constructor
          · intro same
            obtain ⟨inner, tag, later⟩ := Option.bind_eq_some_iff.mp same
            have shorter := innerShorter tag
            exact .deeper opened tag ((ih (by omega)).mp later)
          · intro closes
            cases closes with
            | plain name _ _ => exact absurd opened (Bool.eq_false_iff.mp name)
            | closer closed _ => exact absurd opened (Bool.eq_false_iff.mp (closesApart closed))
            | deeper _ tag later =>
              have shorter := innerShorter tag
              rw [tag, Option.bind_some]
              exact (ih (by omega)).mpr later
        · rw [if_neg opened]
          by_cases closed : closes (c :: cs) = true
          · rw [if_pos closed]
            have shorter : ((c :: cs).drop closeTag.length).length ≤ fuel := by
              rw [List.length_drop, closeSplit]
              simp only [List.length_cons] at enough ⊢
              omega
            constructor
            · exact fun same => .closer closed ((ih shorter).mp same)
            · intro closes
              cases closes with
              | plain _ tag _ => exact absurd closed (Bool.eq_false_iff.mp tag)
              | deeper opened' _ _ => exact absurd opened' opened
              | closer _ later => exact (ih shorter).mpr later
          · rw [if_neg closed]
            constructor
            · exact fun same => .plain (Bool.eq_false_iff.mpr opened) (Bool.eq_false_iff.mpr closed) ((ih (Nat.le_of_succ_le_succ enough)).mp same)
            · intro closes
              cases closes with
              | plain _ _ later => exact (ih (Nat.le_of_succ_le_succ enough)).mpr later
              | deeper opened' _ _ => exact absurd opened' opened
              | closer closed' _ => exact absurd closed' closed

theorem closesSuffix {n : Nat} {text rest : List Char} (closes : Closes n text rest) : rest <:+ text := by
  induction closes with
  | done => exact List.suffix_rfl
  | plain _ _ _ ih => exact ih.trans (List.suffix_cons _ _)
  | deeper _ tag _ ih => exact (ih.trans (afterOpenSuffix tag)).trans (List.drop_suffix _ _)
  | closer _ _ ih => exact ih.trans (List.drop_suffix _ _)

-- Up to the first closing tag: it closes the innermost block, and this is the outermost one only when no other
-- opening tag stands before it.
theorem firstClose {n : Nat} {text rest : List Char} (closed : Closes (n + 1) text rest) :
    ∃ behind m, afterClose text = some behind ∧ Closes m behind rest ∧ n ≤ m ∧
      (m = n → ∀ tail, tail <:+ text → behind.length < tail.length → opens tail = false) := by
  generalize depth : n + 1 = k at closed
  induction closed generalizing n with
  | done => cases depth
  | @plain n' c text rest name tag later ih =>
    obtain rfl : n = n' := Nat.succ.inj depth
    obtain ⟨behind, m, found, closes, le, flat⟩ := ih rfl
    refine ⟨behind, m, by rw [afterClose, tag]; exact found, closes, le, fun same tail suffix within => ?_⟩
    rcases List.suffix_cons_iff.mp suffix with rfl | later'
    · exact name
    · exact flat same tail later' within
  | @deeper n' text inner rest opened tag later ih =>
    obtain rfl : n = n' := Nat.succ.inj depth
    obtain ⟨behind, m, found, closes, le, _⟩ := ih (n := n + 1) rfl
    obtain ⟨name, rfl, free⟩ := openShape opened tag
    rcases closePast inner free with swallowed | past
    · exact ⟨inner, n + 2, swallowed, later, by omega, by omega⟩
    · exact ⟨behind, m, past.trans found, closes, by omega, by omega⟩
  | @closer n' text rest closed later ih =>
    obtain rfl : n = n' := Nat.succ.inj depth
    refine ⟨_, n, ?_, later, le_refl n, fun _ tail suffix within => closeShut closed suffix ?_⟩
    · cases text with
      | nil => exact absurd closed (by decide)
      | cons c cs => rw [afterClose, if_pos closed]
    · rw [List.length_drop] at within
      have long := startsILong closed
      omega

theorem blockOpen {text rest : List Char} (found : afterBlock text = some rest) : opens text = true ∧
    ∃ inner, afterOpen (text.drop openName.length) = some inner ∧ afterClose inner = some rest := by
  unfold afterBlock at found
  split at found
  · rename_i opened
    exact ⟨opened, Option.bind_eq_some_iff.mp found⟩
  · cases found

theorem balancedOpen {text rest : List Char} (found : afterBalanced text = some rest) : opens text = true ∧
    ∃ inner, afterOpen (text.drop openName.length) = some inner ∧ Closes 1 inner rest := by
  unfold afterBalanced at found
  split at found
  · rename_i opened
    obtain ⟨inner, tag, closed⟩ := Option.bind_eq_some_iff.mp found
    exact ⟨opened, inner, tag, (closingIff (le_refl _)).mp closed⟩
  · cases found

theorem blockFound {text inner rest : List Char} (opened : opens text = true) (tag : afterOpen (text.drop openName.length) = some inner)
    (closed : afterClose inner = some rest) : afterBlock text = some rest := by
  rw [afterBlock, if_pos opened, tag, Option.bind_some, closed]

theorem balancedFound {text inner rest : List Char} (opened : opens text = true) (tag : afterOpen (text.drop openName.length) = some inner)
    (closed : Closes 1 inner rest) : afterBalanced text = some rest := by
  rw [afterBalanced, if_pos opened, tag, Option.bind_some]
  exact (closingIff (le_refl _)).mpr closed

-- A text with no opening tag before the first closing one closes one block there.
theorem flatCloses {text rest : List Char} (found : afterClose text = some rest)
    (flat : ∀ tail, tail <:+ text → rest.length < tail.length → opens tail = false) : Closes 1 text rest := by
  induction text with
  | nil => cases found
  | cons c cs ih =>
    have shorter := afterCloseShorter found
    rw [afterClose] at found
    split at found
    · rename_i closed
      exact .closer closed (Option.some.inj found ▸ .done)
    · rename_i shut
      exact .plain (flat _ List.suffix_rfl shorter) (Bool.eq_false_iff.mpr shut)
        (ih found fun tail suffix within => flat tail (suffix.trans (List.suffix_cons c cs)) within)

theorem unnestedSame {text : List Char} (unnested : Unnested text) {tail : List Char} (suffix : tail <:+ text) :
    afterBlock tail = afterBalanced tail := by
  cases block : afterBlock tail with
  | some rest =>
    obtain ⟨opened, inner, tag, closed⟩ := blockOpen block
    exact (balancedFound opened tag (flatCloses closed (unnested tail inner rest suffix opened tag closed))).symm
  | none =>
    cases balanced : afterBalanced tail with
    | none => rfl
    | some rest =>
      obtain ⟨opened, inner, tag, closed⟩ := balancedOpen balanced
      obtain ⟨behind, _, found, _⟩ := firstClose closed
      rw [blockFound opened tag found] at block
      cases block

theorem blockSuffix {text rest : List Char} (found : afterBlock text = some rest) : rest <:+ text := by
  obtain ⟨_, inner, tag, closed⟩ := blockOpen found
  exact ((afterCloseSuffix closed).trans (afterOpenSuffix tag)).trans (List.drop_suffix _ _)

section
variable {after other : List Char → Option (List Char)} {n : Nat} {text rest : List Char}

theorem marksBlock (found : after text = some rest) :
    marks after (n + 1) text = List.replicate (text.length - rest.length) true ++ marks after n rest := by
  simp only [marks, found]

theorem marksChar {c : Char} (none : after (c :: rest) = none) : marks after (n + 1) (c :: rest) = false :: marks after n rest := by
  simp only [marks, none]

theorem marksSame (suffixes : ∀ {tail rest}, after tail = some rest → rest <:+ tail)
    (same : ∀ tail, tail <:+ text → after tail = other tail) : marks after n text = marks other n text := by
  induction n generalizing text with
  | zero => rfl
  | succ n ih =>
    have head := same text List.suffix_rfl
    cases found : after text with
    | some rest =>
      have part := suffixes found
      rw [marksBlock found, marksBlock (head.symm.trans found), ih fun tail suffix => same tail (suffix.trans part)]
    | none =>
      cases text with
      | nil => simp only [marks, found, head.symm.trans found]
      | cons c cs =>
        rw [marksChar found, marksChar (head.symm.trans found), ih fun tail suffix => same tail (suffix.trans (List.suffix_cons c cs))]

theorem keptSkip (skipped : List Char) (inside : List Bool) :
    kept (skipped ++ rest) (List.replicate skipped.length true ++ inside) = kept rest inside := by
  induction skipped with
  | nil => rfl
  | cons c cs ih => exact ih

end

theorem keptScan {n : Nat} {text : List Char} (enough : text.length < n) : kept text (marks afterBlock n text) = scan n text := by
  induction n generalizing text with
  | zero => omega
  | succ n ih =>
    cases found : afterBlock text with
    | some rest =>
      have shorter := afterBlockShorter found
      obtain ⟨skipped, rfl⟩ := blockSuffix found
      have size : (skipped ++ rest).length - rest.length = skipped.length := by rw [List.length_append]; omega
      rw [marksBlock found, size, keptSkip, scanBlock found, ih (by omega)]
    | none =>
      cases text with
      | nil => simp only [scan, found, marks, kept, List.zip_nil_left, List.filter_nil, List.map_nil]
      | cons c cs =>
        rw [marksChar found, scanChar found, ← ih (Nat.lt_of_succ_lt_succ enough)]
        rfl

theorem keptStrip (text : List Char) : kept text (removed text) = strip text := keptScan (Nat.lt_succ_self _)

-- With a block still open behind it, some character up to the close of that block is kept.
theorem tailKept {n m : Nat} {text rest : List Char} (enough : text.length < n) (closes : Closes (m + 1) text rest) :
    ∃ i, i + rest.length < text.length ∧ (marks afterBlock n text)[i]? = some false := by
  induction n generalizing m text with
  | zero => omega
  | succ n ih =>
    cases closes with
    | @plain _ c cs _ name tag later =>
      have part := (closesSuffix later).length_le
      refine ⟨0, by simp only [List.length_cons]; omega, ?_⟩
      rw [marksChar (afterBlockNone name), List.getElem?_cons_zero]
    | closer closed later =>
      have part := (closesSuffix later).length_le
      have long := startsILong closed
      have ten : closeTag.length = 10 := by decide
      rw [List.length_drop] at part
      cases text with
      | nil => exact absurd closed (by decide)
      | cons c cs =>
        refine ⟨0, by omega, ?_⟩
        rw [marksChar (afterBlockNone (closesApart closed)), List.getElem?_cons_zero]
    | deeper opened tag later =>
      obtain ⟨behind, k, found, closes, le, _⟩ := firstClose later
      have block := blockFound opened tag found
      have shorter := afterBlockShorter block
      obtain ⟨k, rfl⟩ : ∃ j, k = j + 1 := ⟨k - 1, by omega⟩
      obtain ⟨i, within, mark⟩ := ih (by omega) closes
      refine ⟨text.length - behind.length + i, by omega, ?_⟩
      rw [marksBlock block, List.getElem?_append_right (by rw [List.length_replicate]; omega), List.length_replicate,
        Nat.add_sub_cancel_left, mark]

theorem suffixSplit {front back tail : List Char} (suffix : tail <:+ front ++ back) :
    tail <:+ back ∨ ∃ part, part <:+ front ∧ tail = part ++ back := by
  rcases List.suffix_or_suffix_of_suffix suffix (List.suffix_append front back) with within | ⟨part, rfl⟩
  · exact .inl within
  · obtain ⟨before, split⟩ := suffix
    rw [← List.append_assoc] at split
    exact .inr ⟨part, ⟨before, List.append_cancel_right split⟩, rfl⟩

-- Past a block without other tags in it.
theorem unnestedPast {text inner rest : List Char} (opened : opens text = true) (tag : afterOpen (text.drop openName.length) = some inner)
    (closed : afterClose inner = some rest) (flat : ∀ tail, tail <:+ inner → rest.length < tail.length → opens tail = false)
    (later : Unnested rest) : Unnested text := by
  obtain ⟨name, rfl, free⟩ := openShape opened tag
  intro start inner' rest' suffix opened' tag' closed'
  rcases suffixSplit suffix with within | ⟨part, sub, rfl⟩
  · rcases List.suffix_cons_iff.mp within with rfl | within
    · exact absurd opened' (by rw [opens, openSplit, List.cons_append, startsI, show either (fun e => e = '<') '>' = false by decide]; simp)
    · by_cases before : rest.length < start.length
      · exact absurd opened' (Bool.eq_false_iff.mp (flat start within before))
      · have behind : start <:+ rest := by
          rcases List.suffix_or_suffix_of_suffix within (afterCloseSuffix closed) with inside | around
          · exact inside
          · exact around.eq_of_length_le (Nat.le_of_not_lt before) ▸ List.suffix_rfl
        exact later start inner' rest' behind opened' tag' closed'
  · have partFree : '>' ∉ part := fun mem => free (sub.subset mem)
    have long := openBeforeEnd opened'
    rw [List.drop_append_of_le_length long, afterOpenFound fun mem => partFree (List.mem_of_mem_drop mem)] at tag'
    obtain rfl := Option.some.inj tag'
    obtain rfl := Option.some.inj (closed.symm.trans closed')
    exact flat

theorem marksUnnested {n : Nat} {text : List Char} (enough : text.length < n)
    (same : marks afterBlock n text = marks afterBalanced n text) : Unnested text := by
  induction n generalizing text with
  | zero => omega
  | succ n ih =>
    cases block : afterBlock text with
    | none =>
      have balanced : afterBalanced text = none := by
        by_contra other
        obtain ⟨rest, found⟩ := Option.ne_none_iff_exists'.mp other
        obtain ⟨opened, inner, tag, closed⟩ := balancedOpen found
        obtain ⟨behind, _, first, _⟩ := firstClose closed
        rw [blockFound opened tag first] at block
        cases block
      intro start inner rest suffix opened tag closed
      cases text with
      | nil =>
        rw [List.suffix_nil.mp suffix] at opened
        exact absurd opened (by decide)
      | cons c cs =>
        rw [marksChar block, marksChar balanced] at same
        rcases List.suffix_cons_iff.mp suffix with rfl | later
        · rw [blockFound opened tag closed] at block
          cases block
        · exact ih (Nat.lt_of_succ_lt_succ enough) (List.cons.inj same).2 start inner rest later opened tag closed
    | some behind =>
      obtain ⟨opened, inner, tag, closed⟩ := blockOpen block
      have shorter := afterBlockShorter block
      cases balanced : afterBalanced text with
      | none =>
        cases text with
        | nil => exact absurd opened (by decide)
        | cons c cs =>
          obtain ⟨k, size⟩ : ∃ k, (c :: cs).length - behind.length = k + 1 := ⟨(c :: cs).length - behind.length - 1, by omega⟩
          rw [marksBlock block, marksChar balanced, size, List.replicate_succ, List.cons_append] at same
          cases (List.cons.inj same).1
      | some rest =>
        obtain ⟨_, inner', tag', closes⟩ := balancedOpen balanced
        obtain rfl := Option.some.inj (tag.symm.trans tag')
        obtain ⟨behind', m, first, open', le, flat⟩ := firstClose closes
        obtain rfl := Option.some.inj (closed.symm.trans first)
        rw [marksBlock block, marksBlock balanced] at same
        cases m with
        | zero =>
          obtain rfl : behind = rest := by cases open'; rfl
          exact unnestedPast opened tag closed (flat rfl) (ih (by omega) (List.append_cancel_left same))
        | succ m =>
          obtain ⟨i, within, mark⟩ := tailKept (n := n) (by omega) open'
          have part := (closesSuffix open').length_le
          have at' : (List.replicate (text.length - rest.length) true ++ marks afterBalanced n rest)[text.length - behind.length + i]? =
              some false := by
            rw [← same, List.getElem?_append_right (by rw [List.length_replicate]; omega), List.length_replicate, Nat.add_sub_cancel_left, mark]
          rw [List.getElem?_append_left (by rw [List.length_replicate]; omega), List.getElem?_replicate] at at'
          split at at'
          · cases at'
          · cases at'

theorem scanShorter (n : Nat) (text : List Char) : (scan n text).length ≤ text.length := by
  induction n generalizing text with
  | zero => exact le_refl _
  | succ n ih =>
    cases found : afterBlock text with
    | some rest =>
      have shorter := afterBlockShorter found
      rw [scanBlock found]
      exact (ih rest).trans shorter.le
    | none =>
      cases text with
      | nil => simp only [scan, found, le_refl]
      | cons c cs =>
        rw [scanChar found]
        exact Nat.succ_le_succ (ih cs)

theorem stripSame (text : List Char) : strip text = text ↔ Clean text := by
  induction text with
  | nil =>
    refine iff_of_true (by decide) fun tail suffix => ?_
    rw [List.suffix_nil.mp suffix]
    decide
  | cons c cs ih =>
    cases found : afterBlock (c :: cs) with
    | some rest =>
      refine iff_of_false (fun same => ?_) fun clean => ?_
      · have shorter := afterBlockShorter found
        have le : (strip rest).length ≤ rest.length := scanShorter _ rest
        rw [← stripBlock found, same] at le
        omega
      · rw [clean _ List.suffix_rfl] at found
        cases found
    | none =>
      rw [stripChar found, List.cons_inj_right, ih]
      refine ⟨fun clean tail suffix => ?_, fun clean tail suffix => clean tail (suffix.trans (List.suffix_cons c cs))⟩
      rcases List.suffix_cons_iff.mp suffix with rfl | later
      · exact found
      · exact clean tail later

theorem marksExact (text : List Char) : removed text = inBlock text ↔ Unnested text :=
  ⟨marksUnnested (Nat.lt_succ_self _), fun unnested => marksSame blockSuffix fun _ => unnestedSame unnested⟩

-- What is left holds no block, stripping it again changes nothing, and the characters that went are those inside
-- balanced blocks: exactly for texts where no opening tag stands before another block's closing one, and whose
-- characters outside of all blocks do not form a block themselves.
theorem stripExact (text : String) :
    (stripPrivateBlocks text).toList = kept text.toList (removed text.toList) ∧
    (Clean (stripPrivateBlocks text).toList ∧ stripPrivateBlocks (stripPrivateBlocks text) = stripPrivateBlocks text ∧
      removed text.toList = inBlock text.toList ↔ Unnested text.toList ∧ Clean (outside text.toList)) := by
  have left : (stripPrivateBlocks text).toList = strip text.toList := by rw [stripPrivateBlocksScan, String.toList_ofList]
  have again : stripPrivateBlocks (stripPrivateBlocks text) = stripPrivateBlocks text ↔ Clean (strip text.toList) := by
    rw [← stripSame, ← String.toList_inj, stripPrivateBlocksScan (stripPrivateBlocks text), String.toList_ofList, left]
  refine ⟨left.trans (keptStrip _).symm, ?_⟩
  rw [again, left, marksExact]
  constructor
  · rintro ⟨clean, _, unnested⟩
    refine ⟨unnested, ?_⟩
    rw [outside, ← (marksExact _).mpr unnested, keptStrip]
    exact clean
  · rintro ⟨unnested, clean⟩
    rw [outside, ← (marksExact _).mpr unnested, keptStrip] at clean
    exact ⟨clean, clean, unnested⟩

-- The rest of a block around a block, and a block formed by what stood around one.
theorem nestedLeft :
    stripPrivateBlocks "<private>a<private>b</private>c</private>" = "c</private>" ∧
      outside "<private>a<private>b</private>c</private>".toList = [] ∧
    stripPrivateBlocks "<pri<private></private>vate>a</private>" = "<private>a</private>" ∧
      stripPrivateBlocks "<private>a</private>" = "" := by
  simp only [stripPrivateBlocksScan]
  decide

end HarnessMem.PrivateNesting
