import Mathlib.Algebra.Group.Nat.Defs
import Mathlib.Data.List.Basic

/-! UTF-8 as byte lists. Encoding is exact; decoding never fails, and puts U+FFFD for every
maximal part that is not the encoding of a character. -/
namespace HarnessMem.Utf8

def encode (text : List Char) : List UInt8 := text.flatMap String.utf8EncodeChar

def replacement : Char := Char.ofNat 0xFFFD

-- A character of which some bytes are still to come, and the range the next one must be in.
structure Pending where
  needed : Nat
  lower : Nat
  upper : Nat
  point : Nat
  deriving DecidableEq, Repr

def start (b : UInt8) : List Char × Option Pending :=
  let n := b.toNat
  if n < 0x80 then ([Char.ofNat n], none)
  else if 0xC2 ≤ n ∧ n ≤ 0xDF then ([], some ⟨1, 0x80, 0xBF, n % 32⟩)
  else if 0xE0 ≤ n ∧ n ≤ 0xEF then
    ([], some ⟨2, if n = 0xE0 then 0xA0 else 0x80, if n = 0xED then 0x9F else 0xBF, n % 16⟩)
  else if 0xF0 ≤ n ∧ n ≤ 0xF4 then
    ([], some ⟨3, if n = 0xF0 then 0x90 else 0x80, if n = 0xF4 then 0x8F else 0xBF, n % 8⟩)
  else ([replacement], none)

-- A byte out of range ends the character begun before it, and is read afresh.
def feed : Option Pending → UInt8 → List Char × Option Pending
  | none, b => start b
  | some p, b =>
    let n := b.toNat
    if p.lower ≤ n ∧ n ≤ p.upper then
      let point := p.point * 64 + n % 64
      if p.needed = 1 then ([Char.ofNat point], none) else ([], some ⟨p.needed - 1, 0x80, 0xBF, point⟩)
    else (replacement :: (start b).1, (start b).2)

def decodeFrom : Option Pending → List UInt8 → List Char
  | none, [] => []
  | some _, [] => [replacement]
  | state, b :: rest => (feed state b).1 ++ decodeFrom (feed state b).2 rest

def decode (bytes : List UInt8) : List Char := decodeFrom none bytes

theorem decodeStep {state next : Option Pending} {b : UInt8} {out : List Char} (rest : List UInt8)
    (fed : feed state b = (out, next)) : decodeFrom state (b :: rest) = out ++ decodeFrom next rest := by
  cases state with
  | none => rw [decodeFrom, fed]
  | some p => rw [decodeFrom, fed]

theorem feedLast {lower upper point n : Nat} (small : n < 256) (low : lower ≤ n) (high : n ≤ upper) :
    feed (some ⟨1, lower, upper, point⟩) (UInt8.ofNat n) = ([Char.ofNat (point * 64 + n % 64)], none) := by
  have value : (UInt8.ofNat n).toNat = n := by simp [Nat.mod_eq_of_lt small]
  simp only [feed, value]
  rw [if_pos ⟨low, high⟩, if_pos trivial]

theorem feedMore {needed lower upper point n : Nat} (small : n < 256) (low : lower ≤ n) (high : n ≤ upper) :
    feed (some ⟨needed + 2, lower, upper, point⟩) (UInt8.ofNat n) =
      ([], some ⟨needed + 1, 0x80, 0xBF, point * 64 + n % 64⟩) := by
  have value : (UInt8.ofNat n).toNat = n := by simp [Nat.mod_eq_of_lt small]
  simp only [feed, value]
  rw [if_pos ⟨low, high⟩, if_neg (by omega)]
  rfl

theorem startTwo {n : Nat} (low : 0xC2 ≤ n) (high : n ≤ 0xDF) :
    feed none (UInt8.ofNat n) = ([], some ⟨1, 0x80, 0xBF, n % 32⟩) := by
  have value : (UInt8.ofNat n).toNat = n := by simp [Nat.mod_eq_of_lt (by omega : n < 256)]
  simp only [feed, start, value]
  rw [if_neg (by omega), if_pos ⟨low, high⟩]

theorem startThree {n : Nat} (low : 0xE0 ≤ n) (high : n ≤ 0xEF) : feed none (UInt8.ofNat n) =
    ([], some ⟨2, if n = 0xE0 then 0xA0 else 0x80, if n = 0xED then 0x9F else 0xBF, n % 16⟩) := by
  have value : (UInt8.ofNat n).toNat = n := by simp [Nat.mod_eq_of_lt (by omega : n < 256)]
  simp only [feed, start, value]
  rw [if_neg (by omega), if_neg (by omega), if_pos ⟨low, high⟩]

theorem startFour {n : Nat} (low : 0xF0 ≤ n) (high : n ≤ 0xF4) : feed none (UInt8.ofNat n) =
    ([], some ⟨3, if n = 0xF0 then 0x90 else 0x80, if n = 0xF4 then 0x8F else 0xBF, n % 8⟩) := by
  have value : (UInt8.ofNat n).toNat = n := by simp [Nat.mod_eq_of_lt (by omega : n < 256)]
  simp only [feed, start, value]
  rw [if_neg (by omega), if_neg (by omega), if_neg (by omega), if_pos ⟨low, high⟩]

theorem decodeChar (c : Char) (rest : List UInt8) :
    decodeFrom none (String.utf8EncodeChar c ++ rest) = c :: decodeFrom none rest := by
  have valid : c.toNat < 0xD800 ∨ 0xDFFF < c.toNat ∧ c.toNat < 0x110000 := c.valid
  have same : Char.ofNat c.toNat = c := Char.ofNat_toNat c
  have value : c.val.toNat = c.toNat := rfl
  unfold String.utf8EncodeChar
  simp only [value]
  generalize c.toNat = v at valid same
  split
  · have fed : feed none (UInt8.ofNat v) = ([Char.ofNat v], none) := by
      have value : (UInt8.ofNat v).toNat = v := by simp [Nat.mod_eq_of_lt (by omega : v < 256)]
      simp only [feed, start, value]
      rw [if_pos (by omega)]
    rw [List.cons_append, List.nil_append, decodeStep rest fed, same]
    rfl
  split
  · have first := @startTwo (v / 64 % 32 + 192) (by omega) (by omega)
    have second := @feedLast 0x80 0xBF ((v / 64 % 32 + 192) % 32) (v % 64 + 128) (by omega) (by omega) (by omega)
    rw [List.cons_append, List.cons_append, List.nil_append, decodeStep _ first, decodeStep _ second]
    have point : (v / 64 % 32 + 192) % 32 * 64 + (v % 64 + 128) % 64 = v := by omega
    rw [point, same]
    rfl
  split
  · have first := @startThree (v / 4096 % 16 + 224) (by omega) (by omega)
    have second := @feedMore 0 _ _ ((v / 4096 % 16 + 224) % 16) (v / 64 % 64 + 128) (by omega)
      (show (if v / 4096 % 16 + 224 = 0xE0 then 0xA0 else 0x80) ≤ _ by split <;> omega)
      (show _ ≤ (if v / 4096 % 16 + 224 = 0xED then 0x9F else 0xBF) by split <;> omega)
    have third := @feedLast 0x80 0xBF ((v / 4096 % 16 + 224) % 16 * 64 + (v / 64 % 64 + 128) % 64) (v % 64 + 128)
      (by omega) (by omega) (by omega)
    rw [List.cons_append, List.cons_append, List.cons_append, List.nil_append, decodeStep _ first,
      decodeStep _ second, decodeStep _ third]
    have point : ((v / 4096 % 16 + 224) % 16 * 64 + (v / 64 % 64 + 128) % 64) * 64 + (v % 64 + 128) % 64 = v := by
      omega
    rw [point, same]
    rfl
  · have first := @startFour (v / 262144 % 8 + 240) (by omega) (by omega)
    have second := @feedMore 1 _ _ ((v / 262144 % 8 + 240) % 8) (v / 4096 % 64 + 128) (by omega)
      (show (if v / 262144 % 8 + 240 = 0xF0 then 0x90 else 0x80) ≤ _ by split <;> omega)
      (show _ ≤ (if v / 262144 % 8 + 240 = 0xF4 then 0x8F else 0xBF) by split <;> omega)
    have third := @feedMore 0 0x80 0xBF ((v / 262144 % 8 + 240) % 8 * 64 + (v / 4096 % 64 + 128) % 64)
      (v / 64 % 64 + 128) (by omega) (by omega) (by omega)
    have fourth := @feedLast 0x80 0xBF
      (((v / 262144 % 8 + 240) % 8 * 64 + (v / 4096 % 64 + 128) % 64) * 64 + (v / 64 % 64 + 128) % 64)
      (v % 64 + 128) (by omega) (by omega) (by omega)
    rw [List.cons_append, List.cons_append, List.cons_append, List.cons_append, List.nil_append,
      decodeStep _ first, decodeStep _ second, decodeStep _ third, decodeStep _ fourth]
    have point : (((v / 262144 % 8 + 240) % 8 * 64 + (v / 4096 % 64 + 128) % 64) * 64 + (v / 64 % 64 + 128) % 64) *
        64 + (v % 64 + 128) % 64 = v := by
      omega
    rw [point, same]
    rfl

theorem encodeAppend (a b : List Char) : encode (a ++ b) = encode a ++ encode b := List.flatMap_append

theorem decodeAppend (text : List Char) (rest : List UInt8) : decode (encode text ++ rest) = text ++ decode rest := by
  induction text with
  | nil => rfl
  | cons c text ih =>
    have step := decodeChar c (encode text ++ rest)
    rw [decode] at ih
    rw [encode, List.flatMap_cons, List.append_assoc, decode, List.cons_append, ← ih]
    exact step

theorem decodeEncode (text : List Char) : decode (encode text) = text := by
  have all := decodeAppend text []
  rw [List.append_nil] at all
  exact all.trans (List.append_nil text)

-- Below 0x80 a byte stands for itself and for nothing else.
theorem asciiEncoded {b : UInt8} (ascii : b.toNat < 0x80) {c : Char} : b ∈ String.utf8EncodeChar c ↔ c.toNat = b.toNat := by
  have value : c.val.toNat = c.toNat := rfl
  have valid : c.toNat < 0xD800 ∨ 0xDFFF < c.toNat ∧ c.toNat < 0x110000 := c.valid
  have byte : ∀ n, n < 256 → (b = UInt8.ofNat n ↔ b.toNat = n) := by
    intro n small
    rw [← UInt8.toNat_inj]
    simp [Nat.mod_eq_of_lt small]
  unfold String.utf8EncodeChar
  simp only [value]
  split
  · rw [List.mem_singleton, byte _ (by omega)]
    exact eq_comm
  split
  · simp only [List.mem_cons, List.not_mem_nil, or_false]
    rw [byte _ (by omega), byte _ (by omega)]
    omega
  split
  · simp only [List.mem_cons, List.not_mem_nil, or_false]
    rw [byte _ (by omega), byte _ (by omega), byte _ (by omega)]
    omega
  · simp only [List.mem_cons, List.not_mem_nil, or_false]
    rw [byte _ (by omega), byte _ (by omega), byte _ (by omega), byte _ (by omega)]
    omega

theorem asciiInside {b : UInt8} (ascii : b.toNat < 0x80) {text : List Char} :
    b ∈ encode text ↔ ∃ c ∈ text, c.toNat = b.toNat := by
  rw [encode, List.mem_flatMap]
  exact exists_congr fun c => and_congr_right fun _ => asciiEncoded ascii

-- What a pending character can still become is not ASCII.
structure Wide (p : Pending) : Prop where
  needed : 1 ≤ p.needed
  lower : 0x80 ≤ p.lower
  upper : p.upper ≤ 0xBF
  point : 0x80 ≤ (p.point * 64 + p.lower % 64) * 64 ^ (p.needed - 1)

def Ascii (c : Char) : Prop := 0 < c.toNat ∧ c.toNat < 0x80

theorem ofNatValid {n : Nat} (valid : n.isValidChar) : (Char.ofNat n).toNat = n := by
  have same : Char.ofNat n = Char.ofNatAux n valid := dif_pos valid
  exact congrArg Char.toNat same

theorem ofNatWide {n : Nat} (wide : 0x80 ≤ n) : ¬ Ascii (Char.ofNat n) := by
  rintro ⟨positive, ascii⟩
  by_cases valid : n.isValidChar
  · rw [ofNatValid valid] at ascii
    omega
  · have none : Char.ofNat n = '\x00' := dif_neg valid
    rw [none] at positive
    exact absurd positive (by decide)

theorem startAscii {b : UInt8} {c : Char} (ascii : Ascii c) :
    (c ∈ (start b).1 → b.toNat = c.toNat) ∧ ∀ p ∈ (start b).2, Wide p := by
  have small : b.toNat < 256 := b.toNat_lt
  unfold start
  simp only
  split
  · refine ⟨fun mem => ?_, fun p none => by cases none⟩
    rw [List.mem_singleton.mp mem]
    rw [ofNatValid (Or.inl (by omega))]
  split
  · refine ⟨fun mem => absurd mem List.not_mem_nil, ?_⟩
    rintro _ ⟨⟩
    exact ⟨Nat.le_refl _, Nat.le_refl _, Nat.le_refl _, by simp only [Nat.sub_self, Nat.pow_zero]; omega⟩
  split
  · refine ⟨fun mem => absurd mem List.not_mem_nil, ?_⟩
    rintro _ ⟨⟩
    refine ⟨by simp only; omega, by simp only; split <;> omega, by simp only; split <;> omega, ?_⟩
    simp only
    split <;> omega
  split
  · refine ⟨fun mem => absurd mem List.not_mem_nil, ?_⟩
    rintro _ ⟨⟩
    refine ⟨by simp only; omega, by simp only; split <;> omega, by simp only; split <;> omega, ?_⟩
    simp only
    split <;> omega
  · refine ⟨fun mem => ?_, fun p none => by cases none⟩
    rw [List.mem_singleton.mp mem] at ascii
    exact absurd ascii (by rw [replacement]; exact ofNatWide (by decide))

theorem feedAscii {state : Option Pending} {b : UInt8} {c : Char} (wide : ∀ p ∈ state, Wide p) (ascii : Ascii c) :
    (c ∈ (feed state b).1 → b.toNat = c.toNat) ∧ ∀ p ∈ (feed state b).2, Wide p := by
  cases state with
  | none => exact startAscii ascii
  | some p =>
    obtain ⟨needed, lower, upper, point⟩ := wide p rfl
    simp only [feed]
    split
    · rename_i inRange
      have grown : p.point * 64 + p.lower % 64 ≤ p.point * 64 + b.toNat % 64 := by omega
      split
      · rename_i last
        refine ⟨fun mem => ?_, fun p none => by cases none⟩
        rw [last, Nat.sub_self, Nat.pow_zero, Nat.mul_one] at point
        rw [List.mem_singleton.mp mem] at ascii
        exact absurd ascii (ofNatWide (Nat.le_trans point grown))
      · rename_i more
        refine ⟨fun mem => absurd mem List.not_mem_nil, ?_⟩
        rintro _ ⟨⟩
        refine ⟨by simp only; omega, Nat.le_refl _, Nat.le_refl _, ?_⟩
        simp only
        obtain ⟨k, rest⟩ : ∃ k, p.needed = k + 2 := ⟨p.needed - 2, by omega⟩
        rw [rest, show k + 2 - 1 = k + 1 from rfl, Nat.pow_succ, ← Nat.mul_assoc] at point
        rw [rest, show k + 2 - 1 - 1 = k from rfl, Nat.add_zero, Nat.mul_right_comm]
        exact Nat.le_trans point (Nat.mul_le_mul_right 64 (Nat.mul_le_mul_right _ grown))
    · obtain ⟨emitted, next⟩ := @startAscii b c ascii
      refine ⟨fun mem => ?_, next⟩
      rcases List.mem_cons.mp mem with same | mem
      · rw [same] at ascii
        exact absurd ascii (by rw [replacement]; exact ofNatWide (by decide))
      · exact emitted mem

theorem decodedAscii {state : Option Pending} {bytes : List UInt8} {c : Char} (wide : ∀ p ∈ state, Wide p)
    (ascii : Ascii c) (mem : c ∈ decodeFrom state bytes) : ∃ b ∈ bytes, b.toNat = c.toNat := by
  induction bytes generalizing state with
  | nil =>
    cases state with
    | none => exact absurd mem List.not_mem_nil
    | some p =>
      rw [List.mem_singleton.mp mem] at ascii
      exact absurd ascii (by rw [replacement]; exact ofNatWide (by decide))
  | cons b rest ih =>
    rw [decodeStep rest rfl] at mem
    obtain ⟨emitted, next⟩ := @feedAscii state b c wide ascii
    rcases List.mem_append.mp mem with here | later
    · exact ⟨b, List.mem_cons_self, emitted here⟩
    · obtain ⟨other, held, same⟩ := ih next later
      exact ⟨other, List.mem_cons_of_mem _ held, same⟩

-- A byte below 0x80 ends whatever came before it.
theorem decodeAscii {b : UInt8} (ascii : b.toNat < 0x80) {state : Option Pending} (wide : ∀ p ∈ state, Wide p) (before after : List UInt8) :
    decodeFrom state (before ++ b :: after) = decodeFrom state before ++ Char.ofNat b.toNat :: decodeFrom none after := by
  induction before generalizing state with
  | nil =>
    rw [List.nil_append, decodeStep after rfl]
    cases state with
    | none => simp [feed, start, ascii, decodeFrom]
    | some p =>
      have low := (wide p rfl).lower
      have short : ¬ (p.lower ≤ b.toNat ∧ b.toNat ≤ p.upper) := by omega
      simp [feed, start, ascii, short, decodeFrom]
  | cons first rest ih =>
    have next := (@feedAscii state first 'a' wide ⟨by decide, by decide⟩).2
    have fed : feed state first = ((feed state first).1, (feed state first).2) := rfl
    rw [List.cons_append, decodeStep _ fed, decodeStep _ fed, ih next, List.append_assoc]

end HarnessMem.Utf8
