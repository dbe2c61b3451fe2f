import HarnessMem.Js
import HarnessMem.Lib.References

/-! HTML entities, decoded by one replacement after the other, and what comes back of a text whose own special characters
were escaped before. Texts are UTF-16 units here: a numeric entity may put half of a pair. -/
namespace HarnessMem.HtmlEntities
open Js References

abbrev Units := List UInt16
def unit (c : Char) : UInt16 := UInt16.ofNat c.toNat
def units (s : String) : Units := (codes s).map UInt16.ofNat

def apostrophe : Char := Char.ofNat 39

-- The `i` flag of a pattern in ASCII: no other unit folds into its letters.
def lower (u : UInt16) : UInt16 := if 0x41 ≤ u ∧ u ≤ 0x5A then u + 0x20 else u

-- What is left of a text that begins with the word, in any case.
def wordI : Units → Units → Option Units
  | [], text => some text
  | _ :: _, [] => none
  | w :: word, u :: text => if lower u = lower w then wordI word text else none

def isDigit (u : UInt16) : Bool := 0x30 ≤ u && u ≤ 0x39
def isHex (u : UInt16) : Bool := isDigit u || (0x61 ≤ lower u && lower u ≤ 0x66)

-- `(\d+);`: a `;` follows the longest run or none.
def run (keep : UInt16 → Bool) (text : Units) : Option (Units × Units) :=
  match text.dropWhile keep with
  | [] => none
  | u :: left => if u = unit ';' ∧ text.takeWhile keep ≠ [] then some (text.takeWhile keep, left) else none

def digitValue (u : UInt16) : Nat := if isDigit u then u.toNat - 0x30 else (lower u).toNat - 0x61 + 10
def valueOf (base : Nat) (code : Units) : Nat := code.foldl (fun n u => n * base + digitValue u) 0

-- The double nearest to a whole number, the even one of two, and Infinity past the largest.
def double (n : Nat) : Number :=
  if n < 2 ^ 53 then .fin n
  else
    let step := 2 ^ (n.log2 - 52)
    let up : Bool := step < 2 * (n % step) || (2 * (n % step) == step && n / step % 2 == 1)
    let near := (n / step + if up then 1 else 0) * step
    if near < 2 ^ 1024 then .fin near else .posInf

-- `Number(code)` and `parseInt(hex, 16)` of digits alone.
def number (code : Units) : Number := double (valueOf 10 code)
def parseHex (hex : Units) : Number := double (valueOf 16 hex)

def fromCharCode : Number → UInt16
  | .fin q => UInt16.ofNat (truncate q % 0x10000).toNat
  | _ => 0

-- `replace` of the entities by a character, and of the numeric ones by what their digits say.
def entity (words : List String) (put : Char) (text : Units) : Option (Units × Units) :=
  (words.findSome? (fun word => wordI (units word) text)).map (fun left => ([unit put], left))
def numeral (lead : String) (keep : UInt16 → Bool) (value : Units → Number) (text : Units) : Option (Units × Units) :=
  (wordI (units lead) text).bind (fun rest => (run keep rest).map (fun found => ([fromCharCode (value found.1)], found.2)))

def decodeHtmlEntities (text : Units) : Units :=
  [entity ["&amp;"] '&', entity ["&lt;"] '<', entity ["&gt;"] '>', entity ["&quot;"] '"', entity ["&#39;", "&apos;"] apostrophe,
    entity ["&nbsp;"] ' ', numeral "&#" isDigit number, numeral "&#x" isHex parseHex].foldl
    (fun text read => replaceAll read text) text

-- The two ways to write an apostrophe as an entity.
inductive Apostrophe where
  | decimal
  | named
  deriving DecidableEq, Repr

def Apostrophe.entity : Apostrophe → String
  | .decimal => "&#39;"
  | .named => "&apos;"

def escapeUnit (spelling : Apostrophe) (u : UInt16) : Units :=
  if u = unit '&' then units "&amp;"
  else if u = unit '<' then units "&lt;"
  else if u = unit '>' then units "&gt;"
  else if u = unit '"' then units "&quot;"
  else if u = unit apostrophe then units spelling.entity
  else [u]
def escape (spelling : Apostrophe) (text : Units) : Units := text.flatMap (escapeUnit spelling)

/-! Letters and their cases. -/

theorem lowerCases (u : UInt16) : (0x41 ≤ u.toNat ∧ u.toNat ≤ 0x5A ∧ (lower u).toNat = u.toNat + 0x20) ∨
    (¬ (0x41 ≤ u.toNat ∧ u.toNat ≤ 0x5A) ∧ lower u = u) := by
  unfold lower
  split
  · rename_i cap
    have low : 0x41 ≤ u.toNat := cap.1
    have high : u.toNat ≤ 0x5A := cap.2
    refine .inl ⟨low, high, ?_⟩
    rw [UInt16.toNat_add]
    exact Nat.mod_eq_of_lt (by change u.toNat + 0x20 < 65536; omega)
  · rename_i other
    exact .inr ⟨other, rfl⟩

theorem lowerLower (u : UInt16) : lower (lower u) = lower u := by
  rcases lowerCases u with ⟨low, high, value⟩ | ⟨-, same⟩
  · rcases lowerCases (lower u) with ⟨-, high', -⟩ | ⟨-, same⟩
    · omega
    · exact same
  · rw [same, same]

-- A unit that is no letter has no other case.
theorem lowerSymbol {u v : UInt16} (symbol : ¬ (0x61 ≤ v.toNat ∧ v.toNat ≤ 0x7A)) (same : lower u = v) : u = v := by
  rcases lowerCases u with ⟨low, high, value⟩ | ⟨-, other⟩
  · rw [same] at value
    omega
  · rw [← other, same]

-- The units of which the names of entities are made.
def isLetter (u : UInt16) : Bool := u = unit '#' || isDigit u || (0x61 ≤ lower u && lower u ≤ 0x7A)

theorem letterLower (u : UInt16) : isLetter (lower u) = isLetter u := by
  rcases lowerCases u with ⟨low, high, value⟩ | ⟨-, same⟩
  · have small : 0x61 ≤ lower u ∧ lower u ≤ 0x7A := by
      refine ⟨?_, ?_⟩
      · change 0x61 ≤ (lower u).toNat
        omega
      · change (lower u).toNat ≤ 0x7A
        omega
    simp [isLetter, lowerLower, small]
  · rw [same]

/-! The patterns, read as references. -/

def frame : Frame UInt16 where
  mark := unit '&'
  stop := unit ';'
  letter := isLetter
  markApart := by decide
  stopApart := by decide
  apart := by decide

theorem wordIff {word text left : Units} : wordI word text = some left ↔
    ∃ taken, text = taken ++ left ∧ taken.map lower = word.map lower := by
  induction word generalizing text with
  | nil =>
    rw [wordI]
    constructor
    · rintro same
      exact ⟨[], Option.some.inj same, rfl⟩
    · rintro ⟨taken, rfl, none⟩
      obtain rfl := List.map_eq_nil_iff.mp none
      rfl
  | cons w word ih =>
    cases text with
    | nil =>
      refine ⟨fun found => (by cases found), ?_⟩
      rintro ⟨taken, none, same⟩
      obtain ⟨rfl, -⟩ := List.append_eq_nil_iff.mp none.symm
      cases same
    | cons u text =>
      rw [wordI]
      constructor
      · intro found
        split at found
        · rename_i first
          obtain ⟨taken, rfl, rest⟩ := ih.mp found
          exact ⟨u :: taken, rfl, by rw [List.map_cons, List.map_cons, first, rest]⟩
        · cases found
      · rintro ⟨taken, same, folded⟩
        cases taken with
        | nil => cases folded
        | cons v taken =>
          obtain ⟨rfl, rfl⟩ := List.cons.inj same
          obtain ⟨first, rest⟩ := List.cons.inj folded
          rw [if_pos first]
          exact ih.mpr ⟨taken, rfl, rest⟩

-- A name in the case a pattern is written in.
def PlainName (name : Units) : Prop := name.map lower = name ∧ name.all isLetter = true

instance (name : Units) : Decidable (PlainName name) := inferInstanceAs (Decidable (_ ∧ _))

theorem plainLetters {name found : Units} (plain : PlainName name) (same : found.map lower = name) : ∀ u ∈ found, isLetter u = true := by
  intro u mem
  have small := List.all_eq_true.mp plain.2 (lower u) (same ▸ List.mem_map_of_mem mem)
  rwa [letterLower] at small

-- A word that is a reference, read as one.
theorem wordReference {name : Units} (plain : PlainName name) (text : Units) : wordI (frame.reference name) text =
    (frame.read text).bind (fun found => if found.1.map lower = name then some found.2 else none) := by
  refine Option.ext fun left => ?_
  rw [wordIff, Option.bind_eq_some_iff]
  constructor
  · rintro ⟨taken, rfl, folded⟩
    obtain ⟨u, taken, rfl, first, rest⟩ := List.map_eq_cons_iff.mp folded
    rw [List.map_append] at rest
    obtain ⟨found, last, rfl, middle, ends⟩ := List.map_eq_append_iff.mp rest
    obtain ⟨v, none, rfl, final, nothing⟩ := List.map_eq_cons_iff.mp ends
    obtain rfl := List.map_eq_nil_iff.mp nothing
    have mark : u = frame.mark := lowerSymbol (by decide) (first.trans (by decide))
    have stop : v = frame.stop := lowerSymbol (by decide) (final.trans (by decide))
    rw [plain.1] at middle
    refine ⟨(found, left), readIff.mpr ⟨?_, plainLetters plain middle⟩, if_pos middle⟩
    rw [mark, stop]
    rfl
  · rintro ⟨⟨found, more⟩, here, same⟩
    obtain ⟨rfl, -⟩ := readIff.mp here
    dsimp only at same
    split at same
    · rename_i folded
      cases same
      refine ⟨frame.reference found, rfl, ?_⟩
      simp only [Frame.reference, List.map_cons, List.map_append, folded, plain.1]
    · cases same

def named (names : List String) (put : Char) : Known UInt16 :=
  fun name => if name.map lower ∈ names.map units then some (unit put) else none

-- Words that are references to the names.
def Spells (words names : List String) : Prop :=
  words.map units = names.map (fun name => frame.reference (units name)) ∧ ∀ name ∈ names, PlainName (units name)

instance (words names : List String) : Decidable (Spells words names) := inferInstanceAs (Decidable (_ ∧ _))

theorem entityDecoded {words names : List String} (spells : Spells words names) (put : Char) :
    entity words put = frame.decoded (named names put) := by
  obtain ⟨shapes, plain⟩ := spells
  funext text
  have found : words.findSome? (fun word => wordI (units word) text) =
      (frame.read text).bind (fun found => if found.1.map lower ∈ names.map units then some found.2 else none) := by
    induction names generalizing words with
    | nil =>
      obtain rfl := List.map_eq_nil_iff.mp shapes
      cases frame.read text <;> rfl
    | cons name names ih =>
      obtain ⟨word, words, rfl, first, rest⟩ := List.map_eq_cons_iff.mp shapes
      obtain ⟨own, others⟩ := List.forall_mem_cons.mp plain
      rw [List.findSome?_cons, ih rest others, first, wordReference own]
      cases frame.read text with
      | none => rfl
      | some found =>
        simp only [Option.bind_some, List.map_cons, List.mem_cons]
        by_cases here : found.1.map lower = units name
        · simp [here]
        · simp [here]
  rw [entity, found, Frame.decoded]
  cases frame.read text with
  | none => rfl
  | some found =>
    simp only [Option.bind_some, named]
    split <;> rfl

theorem runIff {keep : UInt16 → Bool} (other : keep (unit ';') = false) {text code left : Units} :
    run keep text = some (code, left) ↔ text = code ++ unit ';' :: left ∧ code ≠ [] ∧ ∀ u ∈ code, keep u = true := by
  constructor
  · intro found
    rw [run] at found
    split at found
    · cases found
    · rename_i u rest behind
      split at found
      · rename_i ends
        cases found
        refine ⟨?_, ends.2, fun u mem => List.mem_takeWhile_imp mem⟩
        rw [← ends.1, ← behind, List.takeWhile_append_dropWhile]
      · cases found
  · rintro ⟨rfl, some, all⟩
    have stops : ¬ keep (unit ';') = true := by simp [other]
    have behind : (code ++ unit ';' :: left).dropWhile keep = unit ';' :: left := by
      rw [List.dropWhile_append_of_pos all, List.dropWhile_cons_of_neg stops]
    have before : (code ++ unit ';' :: left).takeWhile keep = code := by
      rw [List.takeWhile_append_of_pos all, List.takeWhile_cons_of_neg stops, List.append_nil]
    rw [run, behind, before]
    exact if_pos ⟨rfl, some⟩

def numbered (lead : Units) (keep : UInt16 → Bool) (value : Units → Number) : Known UInt16 := fun name =>
  let code := name.drop lead.length
  if (name.take lead.length).map lower = lead ∧ code ≠ [] ∧ code.all keep = true then some (fromCharCode (value code)) else none

theorem numberedIff {lead : Units} {keep : UInt16 → Bool} {value : Units → Number} {name : Units} {c : UInt16} :
    numbered lead keep value name = some c ↔
      ∃ front code, name = front ++ code ∧ front.map lower = lead ∧ code ≠ [] ∧ (∀ u ∈ code, keep u = true) ∧
        fromCharCode (value code) = c := by
  simp only [numbered, Option.ite_none_right_eq_some, Option.some.injEq, List.all_eq_true]
  constructor
  · rintro ⟨⟨lead, some, all⟩, same⟩
    exact ⟨_, _, (List.take_append_drop _ _).symm, lead, some, all, same⟩
  · rintro ⟨front, code, rfl, rfl, some, all, same⟩
    rw [List.length_map, List.take_left, List.drop_left]
    exact ⟨⟨rfl, some, all⟩, same⟩

theorem numeralDecoded {word : String} {lead : Units} (shape : units word = unit '&' :: lead) (plain : PlainName lead)
    {keep : UInt16 → Bool} (letters : ∀ u, keep u = true → isLetter u = true) (value : Units → Number) :
    numeral word keep value = frame.decoded (numbered lead keep value) := by
  have other : keep (unit ';') = false := by
    cases kept : keep (unit ';') with
    | false => rfl
    | true => exact absurd (letters _ kept) (by decide)
  funext text
  refine Option.ext fun result => ?_
  obtain ⟨put, left⟩ := result
  rw [numeral, shape, Option.bind_eq_some_iff, decodedIff]
  constructor
  · rintro ⟨rest, begins, taken⟩
    obtain ⟨⟨code, more⟩, digits, same⟩ := Option.map_eq_some_iff.mp taken
    cases same
    obtain ⟨read, rfl, folded⟩ := wordIff.mp begins
    obtain ⟨rfl, some, all⟩ := (runIff other).mp digits
    obtain ⟨u, front, rfl, first, same⟩ := List.map_eq_cons_iff.mp folded
    rw [plain.1] at same
    have mark : u = frame.mark := lowerSymbol (by decide) (first.trans (by decide))
    refine ⟨front ++ code, _, readIff.mpr ⟨?_, fun v mem => ?_⟩, numberedIff.mpr ⟨front, code, rfl, same, some, all, rfl⟩, rfl⟩
    · rw [mark]
      simp [Frame.reference, frame]
    · rcases List.mem_append.mp mem with early | late
      · exact plainLetters plain same v early
      · exact letters v (all v late)
  · rintro ⟨name, c, here, known, rfl⟩
    obtain ⟨rfl, -⟩ := readIff.mp here
    obtain ⟨front, code, rfl, same, some, all, rfl⟩ := numberedIff.mp known
    refine ⟨code ++ unit ';' :: left, wordIff.mpr ⟨unit '&' :: front, ?_, ?_⟩, ?_⟩
    · simp [Frame.reference, frame]
    · rw [List.map_cons, List.map_cons, same, plain.1]
    · rw [(runIff other).mpr ⟨rfl, some, all⟩]
      rfl

/-! The passes of a decoding, and the escapes they undo. -/

def lead : Known UInt16 := named ["amp"] '&'
def undoing : List (Known UInt16) := [named ["lt"] '<', named ["gt"] '>', named ["quot"] '"', named ["#39", "apos"] apostrophe]
def behind : List (Known UInt16) := [named ["nbsp"] ' ', numbered (units "#") isDigit number, numbered (units "#x") isHex parseHex]

theorem digitLetter (u : UInt16) (kept : isDigit u = true) : isLetter u = true := by simp [isLetter, kept]

theorem hexLetter (u : UInt16) (kept : isHex u = true) : isLetter u = true := by
  simp only [isHex, Bool.or_eq_true, Bool.and_eq_true, decide_eq_true_eq] at kept
  rcases kept with digit | ⟨low, high⟩
  · exact digitLetter u digit
  · simp only [isLetter, Bool.or_eq_true, Bool.and_eq_true, decide_eq_true_eq]
    exact .inr ⟨low, UInt16.le_trans high (by decide)⟩

theorem decodePasses (text : Units) : decodeHtmlEntities text = frame.passes (lead :: (undoing ++ behind)) text := by
  have words : ∀ entry ∈ [(["&amp;"], ["amp"]), (["&lt;"], ["lt"]), (["&gt;"], ["gt"]), (["&quot;"], ["quot"]),
      (["&#39;", "&apos;"], ["#39", "apos"]), (["&nbsp;"], ["nbsp"])], Spells entry.1 entry.2 := by decide
  have leads : ∀ entry ∈ [("&#", "#"), ("&#x", "#x")], units entry.1 = unit '&' :: units entry.2 ∧ PlainName (units entry.2) := by
    decide
  simp only [List.forall_mem_cons] at words leads
  obtain ⟨amp, lt, gt, quot, apos, nbsp, -⟩ := words
  obtain ⟨⟨decimal, plain⟩, ⟨hex, plain'⟩, -⟩ := leads
  rw [decodeHtmlEntities, entityDecoded amp, entityDecoded lt, entityDecoded gt, entityDecoded quot, entityDecoded apos, entityDecoded nbsp,
    numeralDecoded decimal plain digitLetter, numeralDecoded hex plain' hexLetter]
  rfl

def Apostrophe.name : Apostrophe → String
  | .decimal => "#39"
  | .named => "apos"

def entries (spelling : Apostrophe) : Entries UInt16 :=
  [(unit '<', units "lt"), (unit '>', units "gt"), (unit '"', units "quot"), (unit apostrophe, units spelling.name)]

theorem entriesSound (spelling : Apostrophe) : Sound frame ((unit '&', units "amp") :: entries spelling) := by
  have letters : ∀ entry ∈ (unit '&', units "amp") :: entries spelling, entry.2.all isLetter = true := by cases spelling <;> decide
  refine ⟨fun entry mem => List.all_eq_true.mp (letters entry mem), ?_, ?_⟩ <;> cases spelling <;> decide

theorem namedPut {names : List String} {put : Char} (name : Units) (c : UInt16) (known : named names put name = some c) : c = unit put := by
  unfold named at known
  split at known
  · exact (Option.some.inj known).symm
  · cases known

theorem entriesUndone (spelling : Apostrophe) : Undo frame (entries spelling) undoing := by
  refine .cons ?_ namedPut ?_ (.cons ?_ namedPut ?_ (.cons ?_ namedPut ?_ (.cons ?_ namedPut ?_ .nil))) <;>
    cases spelling <;> decide

theorem escapeEntries (spelling : Apostrophe) (text : Units) :
    escape spelling text = frame.escape ((unit '&', units "amp") :: entries spelling) text := by
  refine congrArg (List.flatMap · text) (funext fun u => ?_)
  have words : ∀ entry ∈ [("&amp;", "amp"), ("&lt;", "lt"), ("&gt;", "gt"), ("&quot;", "quot"), (spelling.entity, spelling.name)],
      units entry.1 = frame.reference (units entry.2) := by cases spelling <;> decide
  have codes : ∀ entry ∈ (unit '&', units "amp") :: entries spelling,
      frame.code ((unit '&', units "amp") :: entries spelling) entry.1 = frame.reference entry.2 :=
    fun entry mem => codeHeld (entriesSound spelling) mem
  have free : (∀ entry ∈ (unit '&', units "amp") :: entries spelling, u ≠ entry.1) →
      frame.code ((unit '&', units "amp") :: entries spelling) u = [u] := codeFree
  simp only [entries, List.forall_mem_cons] at words codes free ⊢
  obtain ⟨amp, lt, gt, quot, apos, -⟩ := words
  obtain ⟨amp', lt', gt', quot', apos', -⟩ := codes
  unfold escapeUnit
  split
  · rename_i same
    rw [same, amp', amp]
  split
  · rename_i same
    rw [same, lt', lt]
  split
  · rename_i same
    rw [same, gt', gt]
  split
  · rename_i same
    rw [same, quot', quot]
  split
  · rename_i same
    rw [same, apos', apos]
  · exact (free ⟨‹_›, ‹_›, ‹_›, ‹_›, ‹_›, by simp⟩).symm

/-! What each replacement finds. -/

-- The names that a replacement behind the first one knows.
def Later (name : Units) : Prop :=
  name.map lower ∈ ["lt", "gt", "quot", "#39", "apos", "nbsp"].map units ∨
    (∃ code, name = unit '#' :: code ∧ code ≠ [] ∧ ∀ u ∈ code, isDigit u = true) ∨
      ∃ x code, name = unit '#' :: x :: code ∧ lower x = unit 'x' ∧ code ≠ [] ∧ ∀ u ∈ code, isHex u = true

theorem namedKnown {names : List String} {put : Char} {name : Units} : named names put name ≠ none ↔ name.map lower ∈ names.map units := by
  unfold named
  split <;> simp [*]

theorem numberedKnown {lead : Units} {keep : UInt16 → Bool} {value : Units → Number} {name : Units} :
    numbered lead keep value name ≠ none ↔ ∃ front code, name = front ++ code ∧ front.map lower = lead ∧ code ≠ [] ∧ ∀ u ∈ code, keep u = true := by
  rw [Option.ne_none_iff_exists']
  constructor
  · rintro ⟨c, known⟩
    obtain ⟨front, code, same, folded, some, all, -⟩ := numberedIff.mp known
    exact ⟨front, code, same, folded, some, all⟩
  · rintro ⟨front, code, same, folded, some, all⟩
    exact ⟨_, numberedIff.mpr ⟨front, code, same, folded, some, all, rfl⟩⟩

-- The digits of a numeric entity follow what leads to them, in any case.
theorem decimalKnown {name : Units} : numbered (units "#") isDigit number name ≠ none ↔
    ∃ code, name = unit '#' :: code ∧ code ≠ [] ∧ ∀ u ∈ code, isDigit u = true := by
  have lead : units "#" = [unit '#'] := rfl
  rw [numberedKnown, lead]
  constructor
  · rintro ⟨front, code, rfl, folded, digits⟩
    obtain ⟨u, rfl, same⟩ := List.map_eq_singleton_iff.mp folded
    exact ⟨code, by rw [lowerSymbol (by decide) same]; rfl, digits⟩
  · rintro ⟨code, rfl, digits⟩
    exact ⟨[unit '#'], code, rfl, rfl, digits⟩

theorem hexKnown {name : Units} : numbered (units "#x") isHex parseHex name ≠ none ↔
    ∃ x code, name = unit '#' :: x :: code ∧ lower x = unit 'x' ∧ code ≠ [] ∧ ∀ u ∈ code, isHex u = true := by
  have lead : units "#x" = [unit '#', unit 'x'] := rfl
  rw [numberedKnown, lead]
  constructor
  · rintro ⟨front, code, rfl, folded, digits⟩
    obtain ⟨u, more, rfl, same, rest⟩ := List.map_eq_cons_iff.mp folded
    obtain ⟨x, rfl, letter⟩ := List.map_eq_singleton_iff.mp rest
    exact ⟨x, code, by rw [lowerSymbol (by decide) same]; rfl, letter, digits⟩
  · rintro ⟨x, code, rfl, letter, digits⟩
    exact ⟨[unit '#', x], code, rfl, by rw [List.map_cons, List.map_singleton, letter]; rfl, digits⟩

theorem laterIff {name : Units} : Later name ↔ ∃ known ∈ undoing ++ behind, known name ≠ none := by
  simp only [Later, undoing, behind, List.cons_append, List.nil_append, List.map_cons, List.map_nil, List.mem_cons, List.not_mem_nil,
    or_false, or_and_right, exists_or, exists_eq_left, namedKnown, decimalKnown, hexKnown, or_assoc]

theorem laterLetters {name : Units} (later : Later name) : ∀ u ∈ name, frame.letter u = true := by
  rcases later with listed | ⟨code, rfl, -, digits⟩ | ⟨x, code, rfl, letter, -, digits⟩
  · have plain : ∀ word ∈ ["lt", "gt", "quot", "#39", "apos", "nbsp"].map units, PlainName word := by decide
    exact plainLetters (plain _ listed) rfl
  · exact List.forall_mem_cons.mpr ⟨by decide, fun u mem => digitLetter u (digits u mem)⟩
  · refine List.forall_mem_cons.mpr ⟨by decide, List.forall_mem_cons.mpr ⟨?_, fun u mem => hexLetter u (digits u mem)⟩⟩
    have small : isLetter (lower x) = true := letter ▸ (by decide)
    rwa [letterLower] at small

-- An escaped text comes back where no replacement behind the first one finds an entity in the text itself.
theorem escapedBack (spelling : Apostrophe) (text : Units) :
    decodeHtmlEntities (escape spelling text) = text ↔ ∀ name, Later name → ¬ units "&" ++ name ++ units ";" <:+: text := by
  have sound : Sound frame ((frame.mark, units "amp") :: entries spelling) := entriesSound spelling
  have one : lead (units "amp") = some frame.mark := rfl
  have later : ∀ entry ∈ entries spelling, lead entry.2 = none := by cases spelling <;> decide
  have shape : ∀ name, units "&" ++ name ++ units ";" = frame.reference name := fun name => by
    have mark : units "&" = [frame.mark] := rfl
    have stop : units ";" = [frame.stop] := rfl
    rw [mark, stop]
    rfl
  rw [decodePasses, escapeEntries]
  refine (decodedBack sound one later (entriesUndone spelling)).trans ⟨fun clear name known => ?_, fun none known mem name letters some => ?_⟩
  · obtain ⟨pass, mem, held⟩ := laterIff.mp known
    exact shape name ▸ clear pass mem name (laterLetters known) held
  · exact shape name ▸ none name (laterIff.mpr ⟨known, mem, some⟩)

-- An entity in the text itself is decoded too, once the first replacement has freed it.
theorem lessDecoded : decodeHtmlEntities (escape .decimal (units "&lt;")) = units "<" ∧
    decodeHtmlEntities (escape .decimal (units "&lt;")) ≠ units "&lt;" := by decide

example : decodeHtmlEntities (escape .named (units "it's &amp; <b>")) = units "it's &amp; <b>" := rfl

end HarnessMem.HtmlEntities
