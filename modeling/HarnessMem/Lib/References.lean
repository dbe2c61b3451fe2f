import Mathlib.Data.List.Infix
import Mathlib.Data.List.TakeWhile
import Mathlib.Tactic.Common

/-! References in a text: a mark, a name and a stop, which together stand for one item. A pass puts that item for every
reference whose name it knows, from left to right; later passes read what earlier ones have put. -/
namespace HarnessMem.References

section
variable {α : Type*}

-- `read` tells what is put for the front of a text, and what is left behind it.
def replaceFrom (read : List α → Option (List α × List α)) : Nat → List α → List α
  | 0, text => text
  | _ + 1, [] => []
  | n + 1, c :: rest =>
    match read (c :: rest) with
    | some (put, left) => put ++ replaceFrom read n left
    | none => c :: replaceFrom read n rest

def replaceAll (read : List α → Option (List α × List α)) (text : List α) : List α := replaceFrom read text.length text

section
variable {read : List α → Option (List α × List α)} {text left rest put : List α} {c : α}

theorem replaceEnough (shorter : ∀ text put left, read text = some (put, left) → left.length < text.length) {n m : Nat}
    (one : text.length ≤ n) (two : text.length ≤ m) : replaceFrom read n text = replaceFrom read m text := by
  induction n generalizing m text with
  | zero =>
    obtain rfl := List.eq_nil_of_length_eq_zero (Nat.le_zero.mp one)
    cases m <;> rfl
  | succ n ih =>
    cases text with
    | nil => cases m <;> rfl
    | cons c rest =>
      obtain ⟨m, rfl⟩ : ∃ k, m = k + 1 := ⟨m - 1, by simp at two; omega⟩
      rw [replaceFrom, replaceFrom]
      cases found : read (c :: rest) with
      | none => exact congrArg (List.cons c) (ih (by simpa using one) (by simpa using two))
      | some pair =>
        have less := shorter _ pair.1 pair.2 found
        exact congrArg (pair.1 ++ ·) (ih (by omega) (by omega))

theorem replaceHit (shorter : ∀ text put left, read text = some (put, left) → left.length < text.length)
    (found : read text = some (put, left)) : replaceAll read text = put ++ replaceAll read left := by
  have less := shorter _ _ _ found
  cases text with
  | nil => cases less
  | cons c rest =>
    rw [replaceAll, List.length_cons, replaceFrom, found]
    exact congrArg (put ++ ·) (replaceEnough shorter (Nat.le_of_lt_succ less) le_rfl)

theorem replaceGap (none : read (c :: rest) = none) : replaceAll read (c :: rest) = c :: replaceAll read rest := by
  rw [replaceAll, List.length_cons, replaceFrom, none]
  rfl

end

structure Frame (α : Type*) where
  mark : α
  stop : α
  letter : α → Bool
  markApart : letter mark = false
  stopApart : letter stop = false
  apart : stop ≠ mark

variable [DecidableEq α] (f : Frame α)

def Frame.reference (name : List α) : List α := f.mark :: (name ++ [f.stop])

def Frame.read : List α → Option (List α × List α)
  | [] => none
  | c :: rest =>
    match rest.dropWhile f.letter with
    | [] => none
    | d :: left => if c = f.mark ∧ d = f.stop then some (rest.takeWhile f.letter, left) else none

-- What the names a pass knows stand for.
abbrev Known (α : Type*) := List α → Option α

def Frame.decoded (known : Known α) (text : List α) : Option (List α × List α) :=
  (f.read text).bind (fun found => (known found.1).map (fun c => ([c], found.2)))
def Frame.pass (known : Known α) (text : List α) : List α := replaceAll (f.decoded known) text
def Frame.passes (knowns : List (Known α)) (text : List α) : List α := knowns.foldl (fun text known => f.pass known text) text

-- No reference in the text is one the pass knows.
def Frame.Clear (known : Known α) (text : List α) : Prop :=
  ∀ name, (∀ c ∈ name, f.letter c = true) → known name ≠ none → ¬ f.reference name <:+: text

variable {f} {known : Known α} {text left rest name : List α} {c : α}

theorem readIff : f.read text = some (name, left) ↔ text = f.reference name ++ left ∧ ∀ c ∈ name, f.letter c = true := by
  constructor
  · intro found
    cases text with
    | nil => cases found
    | cons c rest =>
      rw [Frame.read] at found
      cases behind : rest.dropWhile f.letter with
      | nil => rw [behind] at found; cases found
      | cons d more =>
        simp only [behind] at found
        split at found
        · rename_i ends
          obtain ⟨rfl, rfl⟩ := ends
          cases found
          refine ⟨?_, fun c mem => List.mem_takeWhile_imp mem⟩
          rw [Frame.reference, List.cons_append, List.append_assoc, List.singleton_append, ← behind, List.takeWhile_append_dropWhile]
        · cases found
  · rintro ⟨rfl, letters⟩
    have stops : ¬ f.letter f.stop = true := by simp [f.stopApart]
    have behind : (name ++ f.stop :: left).dropWhile f.letter = f.stop :: left := by
      rw [List.dropWhile_append_of_pos letters, List.dropWhile_cons_of_neg stops]
    have before : (name ++ f.stop :: left).takeWhile f.letter = name := by
      rw [List.takeWhile_append_of_pos letters, List.takeWhile_cons_of_neg stops, List.append_nil]
    have shape : f.reference name ++ left = f.mark :: (name ++ f.stop :: left) := by simp [Frame.reference]
    rw [shape, Frame.read, behind, before]
    exact if_pos ⟨rfl, rfl⟩

theorem readOther (other : c ≠ f.mark) : f.read (c :: rest) = none := by
  rw [Frame.read]
  split
  · rfl
  · exact if_neg fun both => other both.1

theorem decodedIff {put : List α} : f.decoded known text = some (put, left) ↔
    ∃ name c, f.read text = some (name, left) ∧ known name = some c ∧ put = [c] := by
  unfold Frame.decoded
  constructor
  · intro found
    obtain ⟨⟨name, left'⟩, here, known⟩ := Option.bind_eq_some_iff.mp found
    obtain ⟨c, one, same⟩ := Option.map_eq_some_iff.mp known
    cases same
    exact ⟨name, c, here, one, rfl⟩
  · rintro ⟨name, c, here, one, rfl⟩
    rw [here, Option.bind_some, one]
    rfl

theorem decodedShorter (known : Known α) (text put left : List α) (found : f.decoded known text = some (put, left)) :
    left.length + 1 < text.length := by
  obtain ⟨name, c, here, -, -⟩ := decodedIff.mp found
  rw [(readIff.mp here).1, Frame.reference]
  simp only [List.cons_append, List.length_cons, List.length_append, List.length_nil]
  omega

theorem passNil : f.pass known [] = [] := rfl

theorem passHit (found : f.read text = some (name, left)) (one : known name = some c) : f.pass known text = c :: f.pass known left :=
  replaceHit (fun text put left found => Nat.lt_of_succ_lt (decodedShorter known text put left found))
    (decodedIff.mpr ⟨name, c, found, one, rfl⟩)

theorem passGap (none : f.decoded known (c :: rest) = none) : f.pass known (c :: rest) = c :: f.pass known rest := replaceGap none

theorem decodedNone (unknown : ∀ name left, f.read text = some (name, left) → known name = none) : f.decoded known text = none := by
  cases found : f.decoded known text with
  | none => rfl
  | some pair =>
    obtain ⟨name, c, here, one, -⟩ := decodedIff.mp found
    rw [unknown name pair.2 here] at one
    cases one

theorem passInduction (f : Frame α) (known : Known α) {motive : List α → Prop} (nil : motive [])
    (hit : ∀ text name left c, f.read text = some (name, left) → known name = some c → motive left → motive text)
    (gap : ∀ c rest, f.decoded known (c :: rest) = none → motive rest → motive (c :: rest)) (text : List α) : motive text := by
  induction size : text.length using Nat.strong_induction_on generalizing text with
  | _ n ih =>
    cases text with
    | nil => exact nil
    | cons c rest =>
      cases found : f.decoded known (c :: rest) with
      | none => exact gap c rest found (ih rest.length (size ▸ Nat.lt_succ_self _) rest rfl)
      | some pair =>
        obtain ⟨name, d, here, one, -⟩ := decodedIff.mp found
        have less := decodedShorter known _ _ _ found
        exact hit _ name pair.2 d here one (ih pair.2.length (by omega) pair.2 rfl)

/-! What a pass leaves alone. -/

theorem passLength (known : Known α) (text : List α) : (f.pass known text).length ≤ text.length := by
  induction text using passInduction f known with
  | nil => exact le_rfl
  | hit text name left c found one ih =>
    have less := decodedShorter known _ _ _ (decodedIff.mpr ⟨name, c, found, one, rfl⟩)
    rw [passHit found one, List.length_cons]
    omega
  | gap c rest none ih =>
    rw [passGap none]
    exact Nat.succ_le_succ ih

theorem passClear (clear : f.Clear known text) : f.pass known text = text := by
  induction text using passInduction f known with
  | nil => exact passNil
  | hit text name left c found one ih =>
    obtain ⟨rfl, letters⟩ := readIff.mp found
    exact absurd (List.prefix_append _ _).isInfix (clear name letters (by simp [one]))
  | gap c rest none ih =>
    have later : f.Clear known rest := fun name letters some inside => clear name letters some (inside.trans (List.suffix_cons c rest).isInfix)
    rw [passGap none, ih later]

theorem passShorter (held : ¬ f.Clear known text) : (f.pass known text).length < text.length := by
  induction text using passInduction f known with
  | nil =>
    refine absurd (fun name _ _ inside => ?_) held
    cases List.eq_nil_of_infix_nil inside
  | hit text name left c found one ih =>
    have less := decodedShorter known _ _ _ (decodedIff.mpr ⟨name, c, found, one, rfl⟩)
    have most := passLength (f := f) known left
    rw [passHit found one, List.length_cons]
    omega
  | gap c rest none ih =>
    rw [passGap none, List.length_cons, List.length_cons]
    refine Nat.succ_lt_succ (ih fun clear => held fun name letters some inside => ?_)
    rcases List.infix_cons_iff.mp inside with ⟨left, here⟩ | later
    · obtain ⟨d, one⟩ := Option.ne_none_iff_exists'.mp some
      have found := decodedIff.mpr ⟨name, d, readIff.mpr ⟨here.symm, letters⟩, one, rfl⟩
      rw [none] at found
      cases found
    · exact clear name letters some later

theorem passesLength (knowns : List (Known α)) (text : List α) : (f.passes knowns text).length ≤ text.length := by
  induction knowns generalizing text with
  | nil => exact le_rfl
  | cons known knowns ih => exact (ih (f.pass known text)).trans (passLength known text)

-- No pass can put back what an earlier one has made shorter.
theorem passesClear {knowns : List (Known α)} : f.passes knowns text = text ↔ ∀ known ∈ knowns, f.Clear known text := by
  induction knowns with
  | nil => simp [Frame.passes]
  | cons known knowns ih =>
    have step : f.passes (known :: knowns) text = f.passes knowns (f.pass known text) := rfl
    rw [step, List.forall_mem_cons]
    constructor
    · intro same
      have clear : f.Clear known text := by
        by_contra held
        have most := passesLength (f := f) knowns (f.pass known text)
        have less := passShorter held
        rw [same] at most
        omega
      rw [passClear clear] at same
      exact ⟨clear, ih.mp same⟩
    · rintro ⟨clear, later⟩
      rw [passClear clear]
      exact ih.mpr later

/-! Escaped texts. -/

-- The items that are escaped, each with the name that stands for it.
abbrev Entries (α : Type*) := List (α × List α)

def Frame.code (f : Frame α) (entries : Entries α) (c : α) : List α :=
  match entries.lookup c with
  | some name => f.reference name
  | none => [c]
def Frame.escape (f : Frame α) (entries : Entries α) (text : List α) : List α := text.flatMap (f.code entries)

structure Sound (f : Frame α) (entries : Entries α) : Prop where
  names : ∀ entry ∈ entries, ∀ c ∈ entry.2, f.letter c = true
  keys : ∀ entry ∈ entries, f.letter entry.1 = false ∧ entry.1 ≠ f.stop
  distinct : (entries.map Prod.fst).Nodup

variable {entries : Entries α}

omit [DecidableEq α] in
theorem Sound.tail {entry : α × List α} (sound : Sound f (entry :: entries)) : Sound f entries where
  names := (List.forall_mem_cons.mp sound.names).2
  keys := (List.forall_mem_cons.mp sound.keys).2
  distinct := (List.nodup_cons.mp sound.distinct).2

theorem codeFree (free : ∀ entry ∈ entries, c ≠ entry.1) : f.code entries c = [c] := by
  have none : entries.lookup c = none := List.lookup_eq_none_iff.mpr fun entry mem => by simpa using free entry mem
  rw [Frame.code, none]

theorem codeHeld {entry : α × List α} (sound : Sound f entries) (mem : entry ∈ entries) :
    f.code entries entry.1 = f.reference entry.2 := by
  have found : entries.lookup entry.1 = some entry.2 := by
    obtain ⟨before, after, rfl⟩ := List.append_of_mem mem
    have apart := (List.nodup_append.mp (List.map_append ▸ sound.distinct)).2.2
    exact List.lookup_eq_some_iff.mpr ⟨before, after, rfl, fun other here => by
      simpa using (apart _ (List.mem_map_of_mem here) _ List.mem_cons_self).symm⟩
  rw [Frame.code, found]

theorem codeLetter (sound : Sound f entries) (letter : f.letter c = true) : f.code entries c = [c] := by
  refine codeFree fun entry mem same => ?_
  rw [same, (sound.keys entry mem).1] at letter
  cases letter

theorem codeStop (sound : Sound f entries) : f.code entries f.stop = [f.stop] :=
  codeFree fun entry mem same => (sound.keys entry mem).2 same.symm

-- An item's code is the item, or begins with a mark.
theorem codeHead (sound : Sound f entries) (c : α) : f.code entries c = [c] ∨ ∃ more, f.code entries c = f.mark :: more ∧ c ≠ f.stop := by
  by_cases held : ∃ entry ∈ entries, entry.1 = c
  · obtain ⟨entry, mem, rfl⟩ := held
    exact .inr ⟨_, codeHeld sound mem, (sound.keys entry mem).2⟩
  · exact .inl (codeFree fun entry mem same => held ⟨entry, mem, same.symm⟩)

theorem escapeCons (entries : Entries α) (c : α) (rest : List α) : f.escape entries (c :: rest) = f.code entries c ++ f.escape entries rest := rfl

theorem escapeRun (sound : Sound f entries) (text : List α) :
    (f.escape entries text).takeWhile f.letter = text.takeWhile f.letter ∧
      (f.escape entries text).dropWhile f.letter = f.escape entries (text.dropWhile f.letter) := by
  induction text with
  | nil => exact ⟨rfl, rfl⟩
  | cons c rest ih =>
    rw [escapeCons]
    by_cases letter : f.letter c = true
    · rw [codeLetter sound letter, List.singleton_append, List.takeWhile_cons_of_pos letter, List.dropWhile_cons_of_pos letter,
        List.takeWhile_cons_of_pos letter, List.dropWhile_cons_of_pos letter, ih.1]
      exact ⟨rfl, ih.2⟩
    · rw [List.takeWhile_cons_of_neg letter, List.dropWhile_cons_of_neg letter, escapeCons]
      rcases codeHead sound c with one | ⟨more, code, -⟩
      · rw [one, List.singleton_append, List.takeWhile_cons_of_neg letter, List.dropWhile_cons_of_neg letter]
        exact ⟨rfl, rfl⟩
      · have marked : ¬ f.letter f.mark = true := by simp [f.markApart]
        rw [code, List.cons_append, List.takeWhile_cons_of_neg marked, List.dropWhile_cons_of_neg marked]
        exact ⟨rfl, rfl⟩

theorem readEscaped (sound : Sound f entries) (c : α) (rest : List α) :
    f.read (c :: f.escape entries rest) = (f.read (c :: rest)).map (fun found => (found.1, f.escape entries found.2)) := by
  obtain ⟨before, behind⟩ := escapeRun sound rest
  rw [Frame.read, Frame.read, before, behind]
  cases rest.dropWhile f.letter with
  | nil => rfl
  | cons d left =>
    rw [escapeCons]
    rcases codeHead sound d with one | ⟨more, code, other⟩
    · rw [one, List.singleton_append]
      dsimp only
      split <;> rfl
    · rw [code, List.cons_append]
      dsimp only
      rw [if_neg fun both => f.apart both.2.symm, if_neg fun both => other both.2]
      rfl

theorem decodedEscaped (sound : Sound f entries) (known : Known α) (c : α) (rest : List α) :
    f.decoded known (c :: f.escape entries rest) =
      (f.decoded known (c :: rest)).map (fun found => (found.1, f.escape entries found.2)) := by
  unfold Frame.decoded
  rw [readEscaped sound]
  cases f.read (c :: rest) with
  | none => rfl
  | some found =>
    rw [Option.map_some, Option.bind_some, Option.bind_some]
    cases known found.1 <;> rfl

theorem passPast {front : List α} (free : f.mark ∉ front) (rest : List α) : f.pass known (front ++ rest) = front ++ f.pass known rest := by
  induction front with
  | nil => rfl
  | cons c front ih =>
    rw [List.mem_cons, not_or] at free
    have none : f.decoded known (c :: (front ++ rest)) = none := by rw [Frame.decoded, readOther (Ne.symm free.1)]; rfl
    rw [List.cons_append, passGap none, ih free.2]
    rfl

theorem passReference (letters : ∀ c ∈ name, f.letter c = true) (one : known name = some c) (rest : List α) :
    f.pass known (f.reference name ++ rest) = c :: f.pass known rest := passHit (readIff.mpr ⟨rfl, letters⟩) one

theorem passUnknown (letters : ∀ c ∈ name, f.letter c = true) (unknown : known name = none) (rest : List α) :
    f.pass known (f.reference name ++ rest) = f.reference name ++ f.pass known rest := by
  have here : f.read (f.reference name ++ rest) = some (name, rest) := readIff.mpr ⟨rfl, letters⟩
  have none : f.decoded known (f.mark :: ((name ++ [f.stop]) ++ rest)) = none := decodedNone fun other left found => by
    obtain ⟨rfl, -⟩ := Prod.mk.inj (Option.some.inj (here.symm.trans found))
    exact unknown
  have free : f.mark ∉ name ++ [f.stop] := by
    intro mem
    rcases List.mem_append.mp mem with inside | last
    · have letter := letters _ inside
      rw [f.markApart] at letter
      cases letter
    · exact f.apart (List.mem_singleton.mp last).symm
  exact (passGap none).trans (congrArg (List.cons f.mark) (passPast free rest))

section
variable {a : α}

theorem codeOwn (sound : Sound f ((a, name) :: entries)) : f.code entries a = [a] :=
  codeFree fun entry mem same => (List.nodup_cons.mp sound.distinct).1 (List.mem_map.mpr ⟨entry, mem, same.symm⟩)

-- The pass that knows the first name, at the front of an escaped item.
theorem passCode (sound : Sound f ((a, name) :: entries)) (one : known name = some a) (later : ∀ entry ∈ entries, known entry.2 = none)
    {entry : α × List α} (mem : entry ∈ (a, name) :: entries) (rest : List α) :
    f.pass known (f.code ((a, name) :: entries) entry.1 ++ rest) = f.code entries entry.1 ++ f.pass known rest := by
  rw [codeHeld sound mem]
  rcases List.mem_cons.mp mem with rfl | mem
  · rw [passReference (sound.names _ List.mem_cons_self) one, codeOwn sound]
    rfl
  · rw [passUnknown (sound.names _ (List.mem_cons_of_mem _ mem)) (later entry mem), codeHeld sound.tail mem]

-- A pass over the escaped text undoes the escape it knows, and does to the rest what it does to the plain text.
theorem passEscaped (sound : Sound f ((a, name) :: entries)) (marked : ∀ entry ∈ (a, name) :: entries, entry.1 ≠ f.mark)
    (one : known name = some a) (only : ∀ other c, known other = some c → c = a)
    (later : ∀ entry ∈ entries, known entry.2 = none) (text : List α) :
    f.pass known (f.escape ((a, name) :: entries) text) = f.escape entries (f.pass known text) := by
  have front : ∀ rest, f.escape ((a, name) :: entries) (f.mark :: rest) = f.mark :: f.escape ((a, name) :: entries) rest := fun rest => by
    rw [escapeCons, codeFree fun entry mem same => marked entry mem same.symm]
    rfl
  induction text using passInduction f known with
  | nil => rfl
  | hit text other left c found known ih =>
    obtain rfl := only other c known
    obtain ⟨rest, rfl⟩ : ∃ rest, text = f.mark :: rest := ⟨_, (readIff.mp found).1⟩
    have again := readEscaped sound f.mark rest
    rw [found] at again
    rw [front, passHit again known, passHit found known, ih, escapeCons, codeOwn sound]
    rfl
  | gap c rest none ih =>
    rw [passGap none, escapeCons, escapeCons]
    by_cases held : ∃ entry ∈ (a, name) :: entries, entry.1 = c
    · obtain ⟨entry, mem, rfl⟩ := held
      rw [passCode sound one later mem, ih]
    · have free : ∀ entry ∈ (a, name) :: entries, c ≠ entry.1 := fun entry mem same => held ⟨entry, mem, same.symm⟩
      have again := decodedEscaped sound known c rest
      rw [none] at again
      rw [codeFree free, List.singleton_append, passGap again, ih, codeFree (List.forall_mem_cons.mp free).2]
      rfl

end

-- Passes that undo the escapes of `entries` one by one, none of them what a later one undoes.
inductive Undo (f : Frame α) : Entries α → List (Known α) → Prop where
  | nil : Undo f [] []
  | cons {a name entries known knowns} (one : known name = some a) (only : ∀ other c, known other = some c → c = a)
      (later : ∀ entry ∈ entries, known entry.2 = none) (rest : Undo f entries knowns) : Undo f ((a, name) :: entries) (known :: knowns)

theorem passesEscaped {knowns : List (Known α)} (undo : Undo f entries knowns) (sound : Sound f entries)
    (marked : ∀ entry ∈ entries, entry.1 ≠ f.mark) (text : List α) :
    f.passes knowns (f.escape entries text) = f.passes knowns text := by
  induction undo generalizing text with
  | nil =>
    have plain : f.escape [] text = text := List.flatMap_singleton' text
    rw [plain]
  | @cons a name entries known knowns one only later rest ih =>
    have step : ∀ text, f.passes (known :: knowns) text = f.passes knowns (f.pass known text) := fun _ => rfl
    rw [step, step, passEscaped sound marked one only later]
    exact ih sound.tail (List.forall_mem_cons.mp marked).2 (f.pass known text)

-- The mark's own escape, undone first: no mark of the text is left for that pass to read.
theorem passMarks (sound : Sound f ((f.mark, name) :: entries)) (one : known name = some f.mark)
    (later : ∀ entry ∈ entries, known entry.2 = none) (text : List α) :
    f.pass known (f.escape ((f.mark, name) :: entries) text) = f.escape entries text := by
  induction text with
  | nil => rfl
  | cons c rest ih =>
    rw [escapeCons, escapeCons]
    by_cases held : ∃ entry ∈ (f.mark, name) :: entries, entry.1 = c
    · obtain ⟨entry, mem, rfl⟩ := held
      rw [passCode sound one later mem, ih]
    · have free : ∀ entry ∈ (f.mark, name) :: entries, c ≠ entry.1 := fun entry mem same => held ⟨entry, mem, same.symm⟩
      have other : f.mark ∉ [c] := fun mem => free _ List.mem_cons_self (List.mem_singleton.mp mem).symm
      rw [codeFree free, passPast other, ih, codeFree (List.forall_mem_cons.mp free).2]

-- Decoding in that order gives a text back exactly when the later passes know no reference in it.
theorem decodedBack {first : Known α} {knowns more : List (Known α)} (sound : Sound f ((f.mark, name) :: entries))
    (one : first name = some f.mark) (later : ∀ entry ∈ entries, first entry.2 = none) (undo : Undo f entries knowns) :
    f.passes (first :: (knowns ++ more)) (f.escape ((f.mark, name) :: entries) text) = text ↔
      ∀ known ∈ knowns ++ more, f.Clear known text := by
  have marked : ∀ entry ∈ entries, entry.1 ≠ f.mark := fun entry mem same =>
    (List.nodup_cons.mp sound.distinct).1 (List.mem_map.mpr ⟨entry, mem, same⟩)
  have behind : f.passes (first :: (knowns ++ more)) (f.escape ((f.mark, name) :: entries) text) = f.passes (knowns ++ more) text := by
    have step : f.passes (first :: (knowns ++ more)) (f.escape ((f.mark, name) :: entries) text) =
        f.passes (knowns ++ more) (f.pass first (f.escape ((f.mark, name) :: entries) text)) := rfl
    have two : ∀ text, f.passes (knowns ++ more) text = f.passes more (f.passes knowns text) := fun _ => List.foldl_append
    rw [step, passMarks sound one later, two, two, passesEscaped undo sound.tail marked]
  rw [behind, passesClear]

end
end HarnessMem.References
