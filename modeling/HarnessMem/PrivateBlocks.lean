import HarnessMem.Text

/-! What the private-block expression matches: an opening tag up to its first `>`, and then
everything up to the first closing tag. Stripping a text removes exactly these stretches. -/
namespace HarnessMem.PrivateBlocks
open Regex Text

def openName : List Char := "<private".toList
def closeTag : List Char := "</private>".toList

-- The text begins with an opening tag's name, whatever the letters' case.
def opens (text : List Char) : Bool :=
  startsI openName text && !(text.drop openName.length).head?.any isWord
def closes (text : List Char) : Bool := startsI closeTag text

def afterOpen (text : List Char) : Option (List Char) := (text.dropWhile (notIn ">")).tail?

def afterClose : List Char → Option (List Char)
  | [] => none
  | c :: rest => if closes (c :: rest) then some ((c :: rest).drop closeTag.length) else afterClose rest

-- What follows the block at the head of the text, if a whole block stands there.
def afterBlock (text : List Char) : Option (List Char) :=
  if opens text then (afterOpen (text.drop openName.length)).bind afterClose else none

theorem openSplit : openName = ['<', 'p', 'r', 'i', 'v', 'a', 't'] ++ ['e'] := by decide
theorem closeSplit : closeTag = ['<', '/', 'p', 'r', 'i', 'v', 'a', 't', 'e', '>'] := by decide

theorem isWordOfE {c : Char} (e : either (fun d => d = 'e') c = true) : isWord c = true := by
  simp only [either, Bool.or_eq_true, decide_eq_true_eq] at e
  rcases e with (rfl | lower) | upper
  · decide
  · unfold Char.toLower at lower
    split at lower
    · rename_i cap
      have isCap : c.isUpper = true := decide_eq_true cap
      simp [isWord, Char.isAlphanum, upperAlpha isCap]
    · exact lower ▸ by decide
  · unfold Char.toUpper at upper
    split at upper
    · rename_i small
      have isSmall : c.isLower = true := by
        change (decide _ && decide _) = true
        simpa only [Bool.and_eq_true, decide_eq_true_eq] using small
      simp [isWord, Char.isAlphanum, lowerAlpha isSmall]
    · exact upper ▸ by decide

theorem openLast {text : List Char} (opened : startsI openName text = true) (before : List Char)
    (groups : List (Nat × List Char)) :
    (skip openName.length ⟨before, text, groups⟩).before.head?.any isWord = true := by
  rw [openSplit] at opened ⊢
  obtain ⟨c, kept, last⟩ := startsILast opened before groups
  rw [List.length_append, List.length_singleton, last]
  exact isWordOfE kept

theorem endsClose (p : Place) :
    ends (.seq (wordI "</private>") .empty) p = if closes p.after then [skip closeTag.length p] else [] :=
  endsWord "</private>" .empty p

theorem lazyClose (before text : List Char) (groups : List (Nat × List Char)) :
    (lazyHead (fun q => (ends (.seq (wordI "</private>") .empty) q).head?) before text groups).map Place.after =
      afterClose text := by
  simp only [endsClose]
  induction text generalizing before with
  | nil => simp [lazyHead, closes, closeSplit, startsI, afterClose]
  | cons c rest ih =>
    simp only [lazyHead, afterClose]
    by_cases closed : closes (c :: rest) = true
    · simp [closed, skip]
    · simpa [closed] using ih (c :: before)

theorem notInClose {c : Char} : notIn ">" c = false ↔ c = '>' := by
  have only : ">".toList = ['>'] := by decide
  simp [notIn, inSet, only]

theorem closing (p : Place) :
    (ends (.seq (lazyStar any) (.seq (wordI "</private>") .empty)) p).head?.map Place.after =
      afterClose p.after := by
  have read := loopLazy (ends (.seq (wordI "</private>") .empty)) p.after.length p le_rfl
  rw [endsSeq]
  refine (congrArg (Option.map Place.after) read).trans ?_
  exact lazyClose p.before p.after p.groups

theorem opening (p : Place) :
    (ends (.seq (star (.set (notIn ">"))) (.seq (char '>') (.seq (lazyStar any)
      (.seq (wordI "</private>") .empty)))) p).head?.map Place.after =
      (afterOpen p.after).bind afterClose := by
  have stops : ∀ q : Place, q.after.head?.any (notIn ">") = true → ends (.seq (char '>') (.seq (lazyStar any)
      (.seq (wordI "</private>") .empty))) q = [] := by
    rintro ⟨before, after, groups⟩ inside
    cases after with
    | nil => simp at inside
    | cons c rest =>
      have other : c ≠ '>' := fun same => by simp [notInClose.mpr same] at inside
      simp [char, ends, eat, other]
  have greedy := loopGreedy stops p.after.length p le_rfl
  refine (congrArg (fun found => found.head?.map Place.after) greedy).trans ?_
  have rest : (skip (p.after.takeWhile (notIn ">")).length p).after = p.after.dropWhile (notIn ">") := by
    simp [skip, List.dropWhile_eq_drop_findIdx_not, List.takeWhile_eq_take_findIdx_not]
  generalize skip (p.after.takeWhile (notIn ">")).length p = q at rest
  obtain ⟨before, after, groups⟩ := q
  simp only at rest
  subst rest
  cases shape : p.after.dropWhile (notIn ">") with
  | nil => simp [char, ends, eat, afterOpen, shape]
  | cons c cs =>
    have stop := List.head?_dropWhile_not (notIn ">") p.after
    simp only [shape, List.head?_cons] at stop
    obtain rfl := notInClose.mp stop
    simp only [char, ends, eatCons, decide_true, if_true, List.flatMap_cons, List.flatMap_nil,
      List.append_nil, afterOpen, shape, List.tail?_cons, Option.bind_some]
    exact closing ⟨'>' :: before, cs, groups⟩

theorem herePrivate (before text : List Char) : (here privateTag before text).map Place.after = afterBlock text := by
  have tag : privateTag = .seq (wordI "<private") (.seq .boundary (.seq (star (.set (notIn ">"))) (.seq (char '>')
      (.seq (lazyStar any) (.seq (wordI "</private>") .empty))))) := rfl
  rw [here, tag, endsWord]
  by_cases named : startsI openName text = true
  · have named' : startsI "<private".toList text = true := named
    have length : "<private".toList.length = openName.length := rfl
    have word := openLast named before []
    have rest : (skip openName.length ⟨before, text, []⟩).after = text.drop openName.length := rfl
    rw [if_pos named', endsSeq, ends, length, word, rest]
    cases wordy : (text.drop openName.length).head?.any isWord with
    | true =>
      have shut : opens text = false := by rw [opens, wordy, named]; rfl
      rw [afterBlock, shut]
      rfl
    | false =>
      have opened : opens text = true := by rw [opens, wordy, named]; rfl
      rw [afterBlock, opened, if_pos (by decide), List.flatMap_singleton]
      exact opening (skip openName.length ⟨before, text, []⟩)
  · have named' : ¬ startsI "<private".toList text = true := named
    have shut : opens text = false := by simp [opens, named]
    rw [if_neg named', afterBlock, shut]
    rfl

theorem afterCloseShorter {text rest : List Char} (found : afterClose text = some rest) :
    rest.length < text.length := by
  induction text with
  | nil => cases found
  | cons c cs ih =>
    simp only [afterClose] at found
    split at found
    · obtain rfl := Option.some.inj found
      rw [List.length_drop, closeSplit]
      simp only [List.length_cons]
      omega
    · exact (ih found).trans (by simp)

theorem afterBlockShorter {text rest : List Char} (found : afterBlock text = some rest) :
    rest.length < text.length := by
  unfold afterBlock at found
  split at found
  · obtain ⟨inner, opened, closed⟩ := Option.bind_eq_some_iff.mp found
    have inside := afterCloseShorter closed
    have within : inner.length ≤ (text.drop openName.length).length := by
      have part := (List.dropWhile_suffix (notIn ">") (l := text.drop openName.length)).length_le
      unfold afterOpen at opened
      cases shape : (text.drop openName.length).dropWhile (notIn ">") with
      | nil => simp [shape] at opened
      | cons c cs =>
        rw [shape] at opened part
        obtain rfl : cs = inner := by simpa using opened
        exact (Nat.le_succ _).trans part
    rw [List.length_drop] at within
    omega
  · cases found

def scan : Nat → List Char → List Char
  | 0, text => text
  | n + 1, text =>
    match afterBlock text with
    | some rest => scan n rest
    | none =>
      match text with
      | [] => []
      | c :: rest => c :: scan n rest

theorem replaceScan (n : Nat) (before text : List Char) :
    replaceFrom privateTag [] n before text = scan n text := by
  induction n generalizing before text with
  | zero => rfl
  | succ n ih =>
    have read := herePrivate before text
    simp only [replaceFrom, scan]
    cases found : here privateTag before text with
    | none =>
      rw [found] at read
      rw [← read]
      cases text with
      | nil => rfl
      | cons c rest => simp [ih]
    | some q =>
      rw [found] at read
      rw [← read]
      have shorter := afterBlockShorter read.symm
      simp [shorter, ih]

theorem scanFuel (n m : Nat) (text : List Char) (left : text.length < n) (right : text.length < m) :
    scan n text = scan m text := by
  induction n generalizing m text with
  | zero => omega
  | succ n ih =>
    obtain ⟨m, rfl⟩ : ∃ k, m = k + 1 := ⟨m - 1, by omega⟩
    simp only [scan]
    cases found : afterBlock text with
    | some rest =>
      have shorter := afterBlockShorter found
      exact ih m rest (by omega) (by omega)
    | none =>
      cases text with
      | nil => rfl
      | cons c rest =>
        simp only [List.length_cons] at left right
        have same := ih m rest (by omega) (by omega)
        simp only [same]

def strip (text : List Char) : List Char := scan (text.length + 1) text

theorem scanBlock {n : Nat} {text rest : List Char} (found : afterBlock text = some rest) :
    scan (n + 1) text = scan n rest := by simp only [scan, found]
theorem scanChar {n : Nat} {c : Char} {rest : List Char} (outside : afterBlock (c :: rest) = none) :
    scan (n + 1) (c :: rest) = c :: scan n rest := by simp only [scan, outside]

theorem stripBlock {text rest : List Char} (found : afterBlock text = some rest) : strip text = strip rest := by
  have shorter := afterBlockShorter found
  rw [strip, scanBlock found]
  exact scanFuel _ _ rest shorter (Nat.lt_succ_self _)

theorem stripChar {c : Char} {rest : List Char} (outside : afterBlock (c :: rest) = none) :
    strip (c :: rest) = c :: strip rest := by
  rw [strip, scanChar outside]
  rfl

theorem stripPrivateBlocksScan (s : String) : stripPrivateBlocks s = String.ofList (strip s.toList) := by
  unfold stripPrivateBlocks
  split
  · rename_i empty
    subst empty
    decide
  · have none : "".toList = [] := by decide
    rw [replaceAll, none, replaceScan, strip, String.length_toList]

-- A well-formed, non-nested block: an opening tag, a text without tags, a closing tag.
structure OpenTag (tag : List Char) : Prop where
  shape : ∃ name attrs, tag = name ++ (attrs ++ ['>']) ∧ startsI openName name = true ∧
    name.length = openName.length ∧ attrs.head?.any isWord = false ∧ '>' ∉ attrs

structure CloseTag (tag : List Char) : Prop where
  starts : closes tag = true
  length : tag.length = closeTag.length

def TagFree (text : List Char) : Prop := ∀ tail, tail <:+ text → opens tail = false ∧ closes tail = false

-- Equal texts but for the characters inside such blocks; no opening tag stands outside a block.
inductive Masked : List Char → List Char → Prop where
  | done : Masked [] []
  | outside {s t} (c : Char) (plain : opens (c :: s) = false) (rest : Masked s t) :
      Masked (c :: s) (c :: t)
  | block {o k s t} (x y : List Char) (opening : OpenTag o) (left : TagFree x) (right : TagFree y)
      (closing : CloseTag k) (rest : Masked s t) : Masked (o ++ (x ++ (k ++ s))) (o ++ (y ++ (k ++ t)))

theorem opensTake {s t : List Char} (same : s.take 9 = t.take 9) : opens s = opens t := by
  have prefixOnly : ∀ text : List Char, opens text = opens (text.take 9) := by
    intro text
    rw [opens, opens, startsITake openName text (by decide), List.drop_take, List.head?_take]
    rfl
  rw [prefixOnly s, prefixOnly t, same]

theorem openTagLong {o : List Char} (tag : OpenTag o) : 9 ≤ o.length := by
  obtain ⟨name, attrs, rfl, _, length, _⟩ := tag.shape
  have eight : openName.length = 8 := by decide
  simp only [List.length_append, List.length_singleton]
  omega

theorem maskedTake {s t : List Char} (masked : Masked s t) : s.take 9 = t.take 9 := by
  induction masked with
  | done => rfl
  | outside c _ _ ih =>
    have shorter := congrArg (List.take 8) ih
    simpa [List.take_take] using shorter
  | block x y opening =>
    have long := openTagLong opening
    rw [List.take_append_of_le_length long, List.take_append_of_le_length long]

theorem maskedOpens {s t : List Char} (c : Char) (masked : Masked s t) : opens (c :: s) = opens (c :: t) := by
  have same := congrArg (List.take 8) (maskedTake masked)
  rw [List.take_take, List.take_take] at same
  exact opensTake (congrArg (c :: ·) same)

theorem angleHead {tail k : List Char} (starts : startsI ('<' :: tail) k = true) : ∃ rest, k = '<' :: rest := by
  cases k with
  | nil => simp [startsI] at starts
  | cons c rest =>
    rw [startsI, Bool.and_eq_true] at starts
    exact ⟨rest, by rw [eitherSymbol (by decide) starts.1]⟩

-- A closing tag cannot begin inside the text of a block and end behind it.
theorem closesStops {c : Char} {cs more : List Char} (closed : closes (c :: cs ++ '<' :: more) = true) :
    closes (c :: cs) = true := by
  rw [closes, closeSplit] at closed ⊢
  rw [List.cons_append, startsI, Bool.and_eq_true] at closed
  rw [startsI, closed.1, startsIStops (fun d mem => ?_) closed.2]
  · rfl
  · have others : (['/', 'p', 'r', 'i', 'v', 'a', 't', 'e', '>'].all
        (fun e => !either (fun f => f = e) '<')) = true := by decide
    simpa using List.all_eq_true.mp others d mem

theorem afterCloseFound {x k s : List Char} (free : TagFree x) (closing : CloseTag k) :
    afterClose (x ++ (k ++ s)) = some s := by
  have starts := closing.starts
  rw [closes, closeSplit] at starts
  obtain ⟨tail, rfl⟩ := angleHead starts
  induction x with
  | nil =>
    have whole : closes ('<' :: tail ++ s) = true := startsIAppend s closing.starts
    rw [List.cons_append] at whole
    rw [List.nil_append, List.cons_append, afterClose, if_pos whole, ← closing.length]
    simp
  | cons c cs ih =>
    have shut : closes (c :: cs ++ ('<' :: tail ++ s)) = false := by
      by_contra closed
      rw [Bool.not_eq_false] at closed
      have inside := (free (c :: cs) List.suffix_rfl).2
      rw [closesStops closed] at inside
      cases inside
    rw [List.cons_append] at shut ⊢
    rw [afterClose, shut]
    exact ih (fun t suffix => free t (suffix.trans (List.suffix_cons c cs)))

theorem afterBlockFound {o x k s : List Char} (opening : OpenTag o) (free : TagFree x) (closing : CloseTag k) :
    afterBlock (o ++ (x ++ (k ++ s))) = some s := by
  obtain ⟨name, attrs, rfl, starts, length, blank, inside⟩ := opening.shape
  generalize follows : x ++ (k ++ s) = rest
  have behindName : (name ++ (attrs ++ ['>']) ++ rest).drop openName.length = attrs ++ '>' :: rest := by
    rw [← length, List.append_assoc, List.drop_left]
    simp
  have opened : opens (name ++ (attrs ++ ['>']) ++ rest) = true := by
    rw [opens, behindName, List.append_assoc, startsIAppend _ starts, List.head?_append]
    cases attrs with
    | nil =>
      have angle : isWord '>' = false := by decide
      simp [angle]
    | cons c cs => simpa using blank
  have inner : afterOpen (attrs ++ '>' :: rest) = some rest := by
    have all : ∀ c ∈ attrs, notIn ">" c = true := by
      intro c mem
      by_contra other
      exact inside (notInClose.mp (by simpa using other) ▸ mem)
    rw [afterOpen, List.dropWhile_append_of_pos all, List.dropWhile_cons_of_neg (by simp [notInClose.mpr rfl])]
    rfl
  rw [afterBlock, opened, behindName, inner, if_pos rfl, Option.bind_some, ← follows]
  exact afterCloseFound free closing

theorem afterBlockNone {text : List Char} (outside : opens text = false) : afterBlock text = none := by
  simp [afterBlock, outside]

-- Stripping does not see what the blocks hold.
theorem stripMasked {s t : List Char} (masked : Masked s t) : strip s = strip t := by
  induction masked with
  | done => rfl
  | outside c plain rest ih =>
    have shut := (maskedOpens c rest).symm.trans plain
    rw [stripChar (afterBlockNone plain), stripChar (afterBlockNone shut), ih]
  | block x y opening left right closing _ ih =>
    rw [stripBlock (afterBlockFound opening left closing), stripBlock (afterBlockFound opening right closing), ih]

theorem maskedRefl {s t : List Char} (masked : Masked s t) : Masked s s := by
  induction masked with
  | done => exact .done
  | outside c plain _ ih => exact .outside c plain ih
  | block x y opening left _ closing _ ih => exact .block x x opening left left closing ih

-- The text inside one of the blocks of a well-formed text.
inductive Secret (x : List Char) : List Char → Prop where
  | here {o k s} (opening : OpenTag o) (free : TagFree x) (closing : CloseTag k) (rest : Masked s s) :
      Secret x (o ++ (x ++ (k ++ s)))
  | outside {s} (c : Char) (plain : opens (c :: s) = false) (rest : Secret x s) :
      Secret x (c :: s)
  | behind {o y k s} (opening : OpenTag o) (free : TagFree y) (closing : CloseTag k) (rest : Secret x s) :
      Secret x (o ++ (y ++ (k ++ s)))

theorem maskedSame {s t : List Char} (masked : Masked s t) (none : ∀ x, ¬ Secret x s) : t = s := by
  induction masked with
  | done => rfl
  | outside c plain rest ih => rw [ih (fun x found => none x (.outside c plain found))]
  | block x y opening left right closing rest =>
    exact absurd (.here opening left closing (maskedRefl rest)) (none x)

theorem commasFree (n : Nat) : TagFree (List.replicate n ',') := by
  intro tail suffix
  cases tail with
  | nil => decide
  | cons c cs =>
    obtain rfl : c = ',' := List.eq_of_mem_replicate (suffix.subset List.mem_cons_self)
    have other : either (fun e => e = '<') ',' = false := by decide
    rw [opens, closes, openSplit, closeSplit]
    simp [startsI, other]

-- A block may hold any number of commas instead.
theorem secretGrows {x s : List Char} (secret : Secret x s) (n : Nat) :
    ∃ t, Masked s t ∧ n ≤ t.count ',' := by
  induction secret with
  | here opening free closing rest =>
    refine ⟨_, .block x (List.replicate n ',') opening free (commasFree n) closing rest, ?_⟩
    simp only [List.count_append, List.count_replicate_self]
    omega
  | outside c plain _ ih =>
    obtain ⟨t, masked, many⟩ := ih
    refine ⟨c :: t, .outside c plain masked, many.trans ?_⟩
    exact List.count_le_count_cons
  | behind opening free closing _ ih =>
    obtain ⟨t, masked, many⟩ := ih
    refine ⟨_, .block _ _ opening free free closing masked, ?_⟩
    simp only [List.count_append]
    omega

theorem stripPrivateBlocksMasked {s t : String} (masked : Masked s.toList t.toList) :
    stripPrivateBlocks s = stripPrivateBlocks t := by
  rw [stripPrivateBlocksScan, stripPrivateBlocksScan, stripMasked masked]

example : stripPrivateBlocks "a <PRIVATE x>b</Private> c" = "a  c" := by decide

end HarnessMem.PrivateBlocks
