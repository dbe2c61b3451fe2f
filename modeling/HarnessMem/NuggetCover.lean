import HarnessMem.Nuggets
import Mathlib.Algebra.Order.BigOperators.Group.List

/-! What the nuggets of a text hold: how long they are, which sentences they are made of, and that no sentence
long enough is missing. -/
namespace HarnessMem.Nuggets
open Js Regex Text

/-! Lengths, and pieces of texts. -/

theorem unitsInfix {a b : List Char} (inside : a <:+: b) : units a ≤ units b := by
  obtain ⟨before, after, rfl⟩ := inside
  rw [unitsAppend, unitsAppend]
  omega

theorem takeUnitsBound (text : List Char) (n : Nat) : units (takeUnits text n) ≤ n := by
  induction text generalizing n with
  | nil => cases n <;> exact Nat.zero_le _
  | cons c rest ih =>
    cases n with
    | zero => exact Nat.le_refl _
    | succ n =>
      have step : ∀ d more, units (d :: more) = (if wide d then 2 else 1) + units more := fun _ _ => rfl
      rw [takeUnits]
      split
      · split
        · rw [step, if_neg (by decide)]
          exact Nat.le_add_left 1 n
        · have := ih (n - 1)
          rw [step]
          split <;> omega
      · rename_i one
        have := ih n
        rw [step, if_neg one]
        omega

theorem dropUnitsUnits (text : List Char) (n : Nat) : units (dropUnits text n) = units text - n := by
  induction text generalizing n with
  | nil => cases n <;> simp [dropUnits, units]
  | cons c rest ih =>
    cases n with
    | zero => rfl
    | succ n =>
      have step : ∀ d more, units (d :: more) = (if wide d then 2 else 1) + units more := fun _ _ => rfl
      rw [dropUnits, step]
      split
      · split
        · rw [step, if_neg (by decide)]
          omega
        · rw [ih]
          omega
      · rw [ih]
        omega

theorem dropUnitsAdd (text : List Char) (a b : Nat) : dropUnits (dropUnits text a) b = dropUnits text (a + b) := by
  induction text generalizing a b with
  | nil => cases a <;> cases b <;> simp [dropUnits]
  | cons c rest ih =>
    cases a with
    | zero => rw [dropUnits, Nat.zero_add]
    | succ a =>
      rw [dropUnits, Nat.succ_add, dropUnits]
      split
      · by_cases half : a = 0
        · -- The second half of the pair is the first unit of what is left.
          rw [if_pos half, half, Nat.zero_add]
          cases b with
          | zero => rfl
          | succ b => rw [dropUnits, if_neg (by decide), if_neg (Nat.succ_ne_zero b), Nat.add_sub_cancel]
        · rw [if_neg half, if_neg (by omega), ih]
          exact congrArg (dropUnits rest) (by omega)
      · exact ih a b

-- Text that begins and ends with something other than white space, if with anything.
def Bare (text : List Char) : Prop := (∀ c, text.head? = some c → isSpace c = false) ∧ ∀ c, text.getLast? = some c → isSpace c = false

theorem bareReverse {text : List Char} (bare : Bare text) : Bare text.reverse :=
  ⟨fun c first => bare.2 c (by rwa [List.head?_reverse] at first), fun c last => bare.1 c (by rwa [List.getLast?_reverse] at last)⟩

theorem bareTrim (s : String) : Bare (trim s).toList := by
  rw [trim, String.toList_ofList]
  refine ⟨fun c first => ?_, fun c last => trimEndLast last⟩
  obtain ⟨rest, split⟩ := trimEndPrefix (trimStart s.toList)
  have front : (trimStart s.toList).head? = some c := by
    rw [← split, List.head?_append, first]
    rfl
  exact trimStartHead front

theorem trimBare {s : String} (bare : Bare s.toList) : trim s = s := by
  rw [trim, trimStartOf bare.1, trimEndOf bare.2, String.ofList_toList]

theorem insideTrimStart {part text : List Char} (bare : Bare part) (inside : part <:+: text) : part <:+: trimStart text := by
  obtain ⟨before, after, rfl⟩ := inside
  induction before with
  | nil =>
    cases part with
    | nil => exact List.nil_infix
    | cons c part =>
      rw [trimStartOf]
      · exact (List.prefix_append _ _).isInfix
      · exact fun d first => bare.1 d first
  | cons d before ih =>
    rw [List.cons_append, List.cons_append, trimStart, List.dropWhile_cons]
    split
    · exact ih
    · exact ⟨d :: before, after, rfl⟩

-- What neither begins nor ends with white space survives the trimming of the text around it.
theorem insideTrim {part : List Char} {text : String} (bare : Bare part) (inside : part <:+: text.toList) : part <:+: (trim text).toList := by
  have front := insideTrimStart bare inside
  have back := insideTrimStart (bareReverse bare) (List.reverse_infix.mpr front)
  rw [trim, String.toList_ofList, trimEnd, ← List.reverse_infix, List.reverse_reverse]
  exact back

/-! Sentences. -/

def Sentence (s : String) : Prop := Bare s.toList ∧ s ≠ ""

theorem sentencesInside {text s : String} (mem : s ∈ splitIntoSentences text) : Sentence s ∧ s.toList <:+: text.toList := by
  obtain ⟨paragraph, split, held⟩ := List.mem_flatMap.mp mem
  split at held
  · cases held
  · obtain ⟨trimmed, filled⟩ := List.mem_filter.mp held
    obtain ⟨piece, cut, rfl⟩ := List.mem_map.mp trimmed
    have outer : paragraph.toList <:+: text.toList := splitInfix (c := 'x') (by decide) split
    have inner : piece.toList <:+: (trim paragraph).toList := splitInfix (c := 'x') (by decide) cut
    exact ⟨⟨bareTrim piece, by simpa using filled⟩, (trimInside piece).trans (inner.trans ((trimInside paragraph).trans outer))⟩

theorem sentenceLength {text s : String} (mem : s ∈ splitIntoSentences text) : length s ≤ length (trim text) :=
  unitsInfix (insideTrim (sentencesInside mem).1.1 (sentencesInside mem).2)

-- A sentence up to the size limit.
def cut (s : String) : String := trim (slice s 0 maxNuggetChars)
def Occurs (part content : String) : Prop := part.toList <:+: content.toList

theorem cutShort {s : String} (sentence : Sentence s) (short : length s ≤ maxNuggetChars) : cut s = s := by
  rw [cut, sliceWhole short, trimBare sentence.1]

theorem cutLength (s : String) : length (cut s) ≤ length s := by
  refine (unitsInfix (trimInside _)).trans ?_
  by_cases short : length s ≤ maxNuggetChars
  · rw [sliceWhole short]
    exact Nat.le_refl _
  · rw [slice, String.toList_ofList]
    exact (takeUnitsBound _ _).trans (by rw [Nat.sub_zero]; omega)

-- At most three sentences in a row, or a slice of one that is too long by itself.
def MadeOf (sentences : List String) (content : String) : Prop :=
  ∃ part, part <:+: sentences ∧ part ≠ [] ∧ part.length ≤ sentencesPerNugget ∧
    (content = " ".intercalate part ∨
      ∃ s n, part = [s] ∧ content = trim (slice s (maxNuggetChars * n) (maxNuggetChars * n + maxNuggetChars)))

def Sized (content : String) : Prop := minNuggetChars ≤ length content ∧ length content ≤ maxNuggetChars

theorem madeMore {sentences more : List String} {content : String} (made : MadeOf sentences content) : MadeOf (sentences ++ more) content := by
  obtain ⟨part, inside, rest⟩ := made
  exact ⟨part, inside.trans (List.prefix_append _ _).isInfix, rest⟩

theorem joinedInside {s : String} {part : List String} (mem : s ∈ part) : Occurs s (" ".intercalate part) := by
  induction part with
  | nil => cases mem
  | cons first rest ih =>
    cases rest with
    | nil =>
      rw [List.mem_singleton.mp mem, String.intercalate_singleton]
      exact List.infix_refl _
    | cons next rest =>
      rw [Occurs, String.intercalate_cons_of_ne_nil (List.cons_ne_nil _ _), String.toList_append, String.toList_append]
      rcases List.mem_cons.mp mem with rfl | later
      · exact ⟨[], " ".toList ++ (" ".intercalate (next :: rest)).toList, by simp⟩
      · exact (ih later).trans (List.suffix_append _ _).isInfix

theorem joinedLength {part : List String} (some : part ≠ []) :
    length (" ".intercalate part) + 1 = (part.map (fun s => length s + 1)).sum := by
  induction part with
  | nil => exact absurd rfl some
  | cons first rest ih =>
    rw [List.map_cons, List.sum_cons]
    cases rest with
    | nil => simp
    | cons next rest =>
      rw [← ih (List.cons_ne_nil _ _), String.intercalate_cons_of_ne_nil (List.cons_ne_nil _ _), length, String.toList_append, String.toList_append,
        unitsAppend, unitsAppend]
      have one : units " ".toList = 1 := by decide
      rw [one, length, length]
      omega

theorem bareAround {a b : List Char} (mid : List Char) (bareA : Bare a) (bareB : Bare b) (filledA : a ≠ []) (filledB : b ≠ []) :
    Bare (a ++ mid ++ b) := by
  constructor
  · intro c first
    rw [List.append_assoc, List.head?_append_of_ne_nil _ filledA] at first
    exact bareA.1 c first
  · intro c last
    rw [List.getLast?_append_of_ne_nil _ filledB] at last
    exact bareB.2 c last

theorem joinedBare {part : List String} (sentences : ∀ s ∈ part, Sentence s) : Bare (" ".intercalate part).toList := by
  induction part with
  | nil => exact ⟨by simp, by simp⟩
  | cons first rest ih =>
    obtain ⟨here, later⟩ := List.forall_mem_cons.mp sentences
    cases rest with
    | nil => simpa using here.1
    | cons next rest =>
      have filled : ∀ s : String, s ≠ "" → s.toList ≠ [] := fun s some none => some (String.toList_inj.mp none)
      have more : (" ".intercalate (next :: rest)).toList ≠ [] := by
        intro none
        have inside : Occurs next (" ".intercalate (next :: rest)) := joinedInside List.mem_cons_self
        rw [Occurs, none, List.infix_nil] at inside
        exact filled next (later next List.mem_cons_self).2 inside
      rw [String.intercalate_cons_of_ne_nil (List.cons_ne_nil _ _), String.toList_append, String.toList_append]
      exact bareAround _ here.1 (ih later) (filled first here.2) more

/-! Grouping. -/

-- What the loop has made of the sentences `done`: those before the buffer are covered, and the buffer fits a nugget.
structure Grouped (done : List String) (b : Buffer) : Prop where
  covered : ∃ earlier, done = earlier ++ b.buffer ∧
    ∀ s ∈ earlier, minNuggetChars ≤ length (cut s) → ∃ content ∈ b.nuggets, Occurs (cut s) content
  counted : b.bufferLength = (b.buffer.map (fun s => length s + 1)).sum
  fits : b.bufferLength ≤ maxNuggetChars + 1
  made : ∀ content ∈ b.nuggets, MadeOf done content ∧ Sized content

theorem memberLength {s : String} {part : List String} (mem : s ∈ part) : length s + 1 ≤ (part.map (fun s => length s + 1)).sum :=
  List.single_le_sum (by simp) _ (List.mem_map_of_mem mem)

-- A sentence of the buffer is short enough to be its own cut, and part of the joined text.
theorem bufferInside {part : List String} (held : ∀ s ∈ part, Sentence s)
    (fits : (part.map (fun s => length s + 1)).sum ≤ maxNuggetChars + 1) {s : String} (mem : s ∈ part) :
    Occurs (cut s) (" ".intercalate part) := by
  have short := memberLength mem
  rw [cutShort (held s mem) (by omega)]
  exact joinedInside mem

theorem flushGrouped {done : List String} {b : Buffer} (grouped : Grouped done b) (sentences : ∀ s ∈ done, Sentence s)
    (few : b.buffer.length ≤ sentencesPerNugget) : Grouped done (flush b) ∧ (flush b).buffer = [] := by
  obtain ⟨⟨earlier, parts, covered⟩, counted, fits, made⟩ := grouped
  by_cases empty : b.buffer = []
  · rw [flush, if_pos empty]
    exact ⟨⟨⟨earlier, parts, covered⟩, counted, fits, made⟩, empty⟩
  have held : ∀ s ∈ b.buffer, Sentence s := fun s mem => sentences s (parts ▸ List.mem_append_right _ mem)
  have joined : trim (" ".intercalate b.buffer) = " ".intercalate b.buffer := trimBare (joinedBare held)
  have size : length (" ".intercalate b.buffer) + 1 = b.bufferLength := (joinedLength empty).trans counted.symm
  have inside : ∀ s ∈ b.buffer, Occurs (cut s) (" ".intercalate b.buffer) := fun s => bufferInside held (counted ▸ fits)
  rw [flush, if_neg empty]
  dsimp only
  rw [joined]
  refine ⟨⟨⟨done, by simp, fun s mem long => ?_⟩, by simp, Nat.zero_le _, ?_⟩, rfl⟩
  · rw [parts, List.mem_append] at mem
    rcases mem with before | here
    · obtain ⟨content, old, occurs⟩ := covered s before long
      refine ⟨content, ?_, occurs⟩
      dsimp only
      split
      · exact List.mem_append_left _ old
      · exact old
    · have enough : minNuggetChars ≤ length (" ".intercalate b.buffer) := long.trans (unitsInfix (inside s here))
      refine ⟨" ".intercalate b.buffer, ?_, inside s here⟩
      dsimp only
      rw [if_pos enough]
      exact List.mem_append_right _ (List.mem_singleton_self _)
  · dsimp only
    split
    · rename_i enough
      intro content mem
      rcases List.mem_append.mp mem with old | new
      · exact made content old
      · rw [List.mem_singleton.mp new]
        exact ⟨⟨b.buffer, parts ▸ (List.suffix_append _ _).isInfix, empty, few, .inl rfl⟩, enough, by omega⟩
    · exact made

theorem chunksMade (n : Nat) (s : String) : ∀ content ∈ chunks n s, minNuggetChars ≤ length content ∧
    ∃ k, content = trim (slice s (maxNuggetChars * k) (maxNuggetChars * k + maxNuggetChars)) := by
  induction n generalizing s with
  | zero => simp [chunks]
  | succ n ih =>
    intro content mem
    rw [chunks] at mem
    split at mem
    · cases mem
    · dsimp only at mem
      rcases List.mem_append.mp mem with first | later
      · split at first
        · rename_i enough
          rw [List.mem_singleton.mp first]
          exact ⟨enough, 0, rfl⟩
        · cases first
      · obtain ⟨enough, k, rfl⟩ := ih _ content later
        refine ⟨enough, k + 1, ?_⟩
        have rest : slice s maxNuggetChars (length s) = String.ofList (dropUnits s.toList maxNuggetChars) := by
          rw [slice, takeUnitsWhole]
          rw [dropUnitsUnits]
          exact Nat.le_refl _
        rw [rest, slice, slice, String.toList_ofList, dropUnitsAdd, Nat.add_sub_cancel_left, Nat.add_sub_cancel_left,
          Nat.mul_succ, Nat.add_comm maxNuggetChars]

theorem sliceSized (s : String) (first : Nat) : length (trim (slice s first (first + maxNuggetChars))) ≤ maxNuggetChars := by
  refine (unitsInfix (trimInside _)).trans ?_
  rw [slice, String.toList_ofList, Nat.add_sub_cancel_left]
  exact takeUnitsBound _ _

theorem cutChunk {s : String} (filled : s ≠ "") (long : minNuggetChars ≤ length (cut s)) (n : Nat) : cut s ∈ chunks (n + 1) s := by
  rw [chunks, if_neg filled]
  exact List.mem_append_left _ (by rw [← cut, if_pos long]; exact List.mem_singleton_self _)

theorem longGrouped {done : List String} {b : Buffer} {s : String} (grouped : Grouped done b) (sentence : Sentence s)
    (empty : b.buffer = []) (long : maxNuggetChars < length s) :
    Grouped (done ++ [s]) {b with nuggets := b.nuggets ++ chunks (length s) s} := by
  obtain ⟨⟨earlier, parts, covered⟩, counted, fits, made⟩ := grouped
  rw [empty, List.append_nil] at parts
  subst parts
  refine ⟨⟨done ++ [s], by rw [empty, List.append_nil], fun t mem enough => ?_⟩, counted, fits, fun content mem => ?_⟩
  · rcases List.mem_append.mp mem with before | here
    · obtain ⟨content, old, occurs⟩ := covered t before enough
      exact ⟨content, List.mem_append_left _ old, occurs⟩
    · rw [List.mem_singleton.mp here] at enough ⊢
      obtain ⟨m, size⟩ : ∃ m, length s = m + 1 := ⟨length s - 1, by omega⟩
      exact ⟨cut s, List.mem_append_right _ (size ▸ cutChunk sentence.2 enough m), List.infix_refl _⟩
  · rcases List.mem_append.mp mem with old | new
    · exact ⟨madeMore (made content old).1, (made content old).2⟩
    · obtain ⟨enough, k, rfl⟩ := chunksMade _ _ content new
      exact ⟨⟨[s], (List.suffix_append _ _).isInfix, by simp, by simp [sentencesPerNugget], .inr ⟨s, k, rfl, rfl⟩⟩,
        enough, sliceSized s _⟩

theorem shortGrouped {done : List String} {b : Buffer} {s : String} (grouped : Grouped done b)
    (room : b.bufferLength + length s + 1 ≤ maxNuggetChars + 1) :
    Grouped (done ++ [s]) ⟨b.nuggets, b.buffer ++ [s], b.bufferLength + length s + 1⟩ := by
  obtain ⟨⟨earlier, parts, covered⟩, counted, -, made⟩ := grouped
  refine ⟨⟨earlier, by rw [parts, List.append_assoc], covered⟩, ?_, room, fun content mem => ?_⟩
  · simp [counted]
    omega
  · exact ⟨madeMore (made content mem).1, (made content mem).2⟩

theorem emptyCounts {done : List String} {b : Buffer} (grouped : Grouped done b) (empty : b.buffer = []) : b.bufferLength = 0 := by
  rw [grouped.counted, empty]
  rfl

-- Before a sentence goes into the buffer there is room for it.
theorem roomGrouped {done : List String} {b : Buffer} {s : String} (grouped : Grouped done b) (few : b.buffer.length < sentencesPerNugget)
    (sentences : ∀ t ∈ done, Sentence t) (short : length s ≤ maxNuggetChars) :
    ∃ room, (if maxNuggetChars < b.bufferLength + length s + 1 ∧ b.buffer ≠ [] then flush b else b) = room ∧ Grouped done room ∧
      room.bufferLength + length s + 1 ≤ maxNuggetChars + 1 ∧ room.buffer.length < sentencesPerNugget := by
  refine ⟨_, rfl, ?_⟩
  split
  · obtain ⟨flushed, empty⟩ := flushGrouped grouped sentences few.le
    refine ⟨flushed, ?_, ?_⟩
    · rw [emptyCounts flushed empty]
      omega
    · rw [empty]
      decide
  · rename_i stays
    refine ⟨grouped, ?_, few⟩
    by_cases empty : b.buffer = []
    · rw [emptyCounts grouped empty]
      omega
    · have fits : ¬ maxNuggetChars < b.bufferLength + length s + 1 := fun past => stays ⟨past, empty⟩
      omega

-- What one sentence does to the buffer.
theorem addGrouped {done : List String} {b : Buffer} {s : String} (grouped : Grouped done b) (few : b.buffer.length < sentencesPerNugget)
    (sentences : ∀ t ∈ done ++ [s], Sentence t) :
    Grouped (done ++ [s]) (addSentence b s) ∧ (addSentence b s).buffer.length < sentencesPerNugget := by
  have before : ∀ t ∈ done, Sentence t := fun t mem => sentences t (List.mem_append_left _ mem)
  unfold addSentence
  split
  · rename_i long
    obtain ⟨flushed, empty⟩ := flushGrouped grouped before few.le
    dsimp only
    refine ⟨longGrouped flushed (sentences s (by simp)) empty long, ?_⟩
    rw [empty]
    decide
  · rename_i short
    obtain ⟨room, same, ready, fits, roomy⟩ := roomGrouped grouped few before (Nat.le_of_not_lt short)
    dsimp only
    rw [same]
    have grown := shortGrouped ready fits
    split
    · obtain ⟨flushed, empty⟩ := flushGrouped grown sentences (by rw [List.length_append]; exact roomy)
      refine ⟨flushed, ?_⟩
      rw [empty]
      decide
    · rename_i more
      exact ⟨grown, Nat.lt_of_not_le more⟩

theorem foldGrouped {done : List String} {b : Buffer} (grouped : Grouped done b) (few : b.buffer.length < sentencesPerNugget)
    (rest : List String) (sentences : ∀ t ∈ done ++ rest, Sentence t) :
    Grouped (done ++ rest) (rest.foldl addSentence b) ∧ (rest.foldl addSentence b).buffer.length < sentencesPerNugget := by
  induction rest generalizing done b with
  | nil => exact ⟨by rwa [List.append_nil], few⟩
  | cons s rest ih =>
    have next : done ++ s :: rest = done ++ [s] ++ rest := by simp
    rw [next] at sentences ⊢
    obtain ⟨grown, fewer⟩ := addGrouped grouped few (fun t mem => sentences t (List.mem_append_left _ mem))
    exact ih grown fewer sentences

-- The nuggets of a list of sentences: sized, made of them, and covering them.
theorem groupsCover {sentences : List String} (all : ∀ s ∈ sentences, Sentence s) :
    (∀ content ∈ groupSentencesIntoNuggets sentences, MadeOf sentences content ∧ Sized content) ∧
      ∀ s ∈ sentences, minNuggetChars ≤ length (cut s) → ∃ content ∈ groupSentencesIntoNuggets sentences, Occurs (cut s) content := by
  have start : Grouped [] ⟨[], [], 0⟩ := ⟨⟨[], rfl, by simp⟩, rfl, Nat.zero_le _, by simp⟩
  obtain ⟨grouped, few⟩ := foldGrouped start (by decide) sentences all
  obtain ⟨⟨⟨earlier, parts, covered⟩, -, -, made⟩, empty⟩ := flushGrouped grouped all few.le
  rw [empty, List.append_nil] at parts
  exact ⟨made, fun s mem => covered s (parts ▸ mem)⟩

/-! Numbering. -/

def addNugget (host : Host) (result : List Nugget) (text : String) : List Nugget :=
  if result.any (fun nugget => nugget.contentHash = host.sha256 text) then result
  else result ++ [⟨result.length, text, host.sha256 text⟩]

section
variable {host : Host}

-- Numbered in order, no hash twice, each nugget one of the texts with its hash, and each text's hash there.
structure Numbered (host : Host) (texts : List String) (result : List Nugget) : Prop where
  seqs : result.map Nugget.seq = List.range result.length
  hashes : (result.map Nugget.contentHash).Nodup
  taken : ∀ nugget ∈ result, nugget.content ∈ texts ∧ nugget.contentHash = host.sha256 nugget.content
  all : ∀ text ∈ texts, ∃ nugget ∈ result, nugget.contentHash = host.sha256 text

theorem addNumbered {texts : List String} {result : List Nugget} (numbered : Numbered host texts result) (text : String) :
    Numbered host (texts ++ [text]) (addNugget host result text) := by
  obtain ⟨seqs, hashes, taken, all⟩ := numbered
  have older : ∀ nugget ∈ result, nugget.content ∈ texts ++ [text] ∧ nugget.contentHash = host.sha256 nugget.content :=
    fun nugget mem => ⟨List.mem_append_left _ (taken nugget mem).1, (taken nugget mem).2⟩
  unfold addNugget
  split
  · rename_i seen
    obtain ⟨twin, mem, same⟩ := List.any_eq_true.mp seen
    refine ⟨seqs, hashes, older, fun other held => ?_⟩
    rcases List.mem_append.mp held with old | new
    · exact all other old
    · exact ⟨twin, mem, List.mem_singleton.mp new ▸ of_decide_eq_true same⟩
  · rename_i unseen
    refine ⟨?_, ?_, ?_, fun other held => ?_⟩
    · rw [List.map_append, seqs, List.length_append, List.length_singleton, List.range_succ]
      rfl
    · rw [List.map_append, List.nodup_append]
      refine ⟨hashes, by simp, ?_⟩
      intro hash old new fresh same
      obtain ⟨nugget, mem, rfl⟩ := List.mem_map.mp old
      rw [List.map_singleton, List.mem_singleton] at fresh
      exact unseen (List.any_eq_true.mpr ⟨nugget, mem, decide_eq_true (same.trans fresh)⟩)
    · intro nugget mem
      rcases List.mem_append.mp mem with old | new
      · exact older nugget old
      · rw [List.mem_singleton.mp new]
        exact ⟨List.mem_append_right _ (List.mem_singleton_self _), rfl⟩
    · rcases List.mem_append.mp held with old | new
      · obtain ⟨nugget, mem, same⟩ := all other old
        exact ⟨nugget, List.mem_append_left _ mem, same⟩
      · exact ⟨_, List.mem_append_right _ (List.mem_singleton_self _), by rw [List.mem_singleton.mp new]⟩

theorem foldNumbered {texts : List String} {result : List Nugget} (numbered : Numbered host texts result) (rest : List String) :
    Numbered host (texts ++ rest) (rest.foldl (addNugget host) result) := by
  induction rest generalizing texts result with
  | nil => rwa [List.append_nil]
  | cons text rest ih =>
    have next : texts ++ text :: rest = texts ++ [text] ++ rest := by simp
    rw [next]
    exact ih (addNumbered numbered text)

theorem nuggetsNumbered (host : Host) (content : String) : ∃ texts, Numbered host texts (splitIntoNuggets host content) ∧
    (texts = [] ∧ length (trim content) < minNuggetChars ∨ texts = groupSentencesIntoNuggets (splitIntoSentences content)) := by
  have start : Numbered host [] [] := ⟨rfl, List.nodup_nil, by simp, by simp⟩
  unfold splitIntoNuggets
  split
  · rename_i blank
    refine ⟨[], start, .inl ⟨rfl, ?_⟩⟩
    rcases blank with rfl | short
    · decide
    · exact short
  · exact ⟨_, foldNumbered start _, .inr rfl⟩

end

theorem nuggetsCover (host : Host) (content : String) :
    (∀ nugget ∈ splitIntoNuggets host content, Sized nugget.content ∧ MadeOf (splitIntoSentences content) nugget.content) ∧
      (splitIntoNuggets host content).map Nugget.seq = List.range (splitIntoNuggets host content).length ∧
      ((splitIntoNuggets host content).map Nugget.contentHash).Nodup ∧
      ((∀ a ∈ groupSentencesIntoNuggets (splitIntoSentences content), ∀ b ∈ groupSentencesIntoNuggets (splitIntoSentences content),
          host.sha256 a = host.sha256 b → a = b) →
        ∀ s ∈ splitIntoSentences content, minNuggetChars ≤ length (cut s) →
          ∃ nugget ∈ splitIntoNuggets host content, Occurs (cut s) nugget.content) := by
  obtain ⟨made, covered⟩ := groupsCover (fun s mem => (@sentencesInside content s mem).1)
  obtain ⟨texts, ⟨seqs, hashes, taken, all⟩, few | same⟩ := nuggetsNumbered host content
  · obtain ⟨rfl, short⟩ := few
    refine ⟨fun nugget mem => absurd (taken nugget mem).1 List.not_mem_nil, seqs, hashes, fun _ s mem long => ?_⟩
    have := (cutLength s).trans (sentenceLength mem)
    omega
  · subst same
    refine ⟨fun nugget mem => (made _ (taken nugget mem).1).symm, seqs, hashes, fun apart s mem long => ?_⟩
    obtain ⟨text, held, occurs⟩ := covered s mem long
    obtain ⟨nugget, there, hash⟩ := all text held
    obtain ⟨inside, own⟩ := taken nugget there
    refine ⟨nugget, there, ?_⟩
    rw [apart _ inside _ held (own.symm.trans hash)]
    exact occurs

def plainHost : Host := ⟨id, id, fun _ => none, fun _ => none, fun _ => .nan, fun _ => [], fun _ _ => false⟩
def twoSentences : String := "The first sentence is here. The second comes after it."

theorem nuggetsCoverTwo : (∀ nugget ∈ splitIntoNuggets plainHost twoSentences, Sized nugget.content) ∧
    ∃ nugget ∈ splitIntoNuggets plainHost twoSentences, Occurs (cut "The second comes after it.") nugget.content := by
  obtain ⟨made, -, -, covers⟩ := nuggetsCover plainHost twoSentences
  exact ⟨fun nugget mem => (made nugget mem).1,
    covers (fun _ _ _ _ same => same) "The second comes after it." (by decide +kernel) (by decide +kernel)⟩

end HarnessMem.Nuggets
