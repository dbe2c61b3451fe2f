import Mathlib.Data.List.Basic

/-! The URL alphabet of base64: bytes in groups of three as four digits, without padding. The
reader takes either alphabet, skips what is no digit and stops at the first `=`. -/
namespace HarnessMem.Base64

def digit (n : Nat) : Char :=
  if n < 26 then Char.ofNat (65 + n)
  else if n < 52 then Char.ofNat (71 + n)
  else if n < 62 then Char.ofNat (n - 4)
  else if n = 62 then '-' else '_'

def value (c : Char) : Option Nat :=
  let n := c.toNat
  if 65 ≤ n ∧ n ≤ 90 then some (n - 65)
  else if 97 ≤ n ∧ n ≤ 122 then some (n - 71)
  else if 48 ≤ n ∧ n ≤ 57 then some (n + 4)
  else if c = '-' ∨ c = '+' then some 62
  else if c = '_' ∨ c = '/' then some 63
  else none

-- The digits' values, six bits each, most significant first.
def split : List UInt8 → List Nat
  | a :: b :: c :: rest =>
    a.toNat / 4 :: (a.toNat % 4 * 16 + b.toNat / 16) :: (b.toNat % 16 * 4 + c.toNat / 64) :: c.toNat % 64 :: split rest
  | [a, b] => [a.toNat / 4, a.toNat % 4 * 16 + b.toNat / 16, b.toNat % 16 * 4]
  | [a] => [a.toNat / 4, a.toNat % 4 * 16]
  | [] => []

def join : List Nat → List UInt8
  | a :: b :: c :: d :: rest =>
    UInt8.ofNat (a * 4 + b / 16) :: UInt8.ofNat (b % 16 * 16 + c / 4) :: UInt8.ofNat (c % 4 * 64 + d) :: join rest
  | [a, b, c] => [UInt8.ofNat (a * 4 + b / 16), UInt8.ofNat (b % 16 * 16 + c / 4)]
  | [a, b] => [UInt8.ofNat (a * 4 + b / 16)]
  | _ => []

def encode (bytes : List UInt8) : List Char := (split bytes).map digit
def decode (text : List Char) : List UInt8 := join ((text.takeWhile (fun c => c ≠ '=')).filterMap value)

theorem valueDigit {n : Nat} (small : n < 64) : value (digit n) = some n ∧ digit n ≠ '=' := by
  have all : (List.range 64).all (fun n => decide (value (digit n) = some n) && decide (digit n ≠ '=')) = true := by decide
  have here := List.all_eq_true.mp all n (List.mem_range.mpr small)
  rw [Bool.and_eq_true, decide_eq_true_eq, decide_eq_true_eq] at here
  exact here

theorem splitSmall (bytes : List UInt8) : ∀ n ∈ split bytes, n < 64 := by
  have byte : ∀ b : UInt8, b.toNat < 256 := fun b => b.toNat_lt
  induction bytes using split.induct with
  | case1 a b c rest ih =>
    have := byte a
    have := byte b
    have := byte c
    simp only [split, List.mem_cons]
    rintro n (rfl | rfl | rfl | rfl | later)
    · omega
    · omega
    · omega
    · omega
    · exact ih n later
  | case2 a b =>
    have := byte a
    have := byte b
    simp only [split, List.mem_cons, List.not_mem_nil, or_false]
    rintro n (rfl | rfl | rfl) <;> omega
  | case3 a =>
    have := byte a
    simp only [split, List.mem_cons, List.not_mem_nil, or_false]
    rintro n (rfl | rfl) <;> omega
  | case4 => exact fun n mem => by cases mem

theorem byteOf {n : Nat} {b : UInt8} (same : n = b.toNat) : UInt8.ofNat n = b := by
  rw [same, UInt8.ofNat_toNat]

theorem joinSplit (bytes : List UInt8) : join (split bytes) = bytes := by
  have byte : ∀ b : UInt8, b.toNat < 256 := fun b => b.toNat_lt
  induction bytes using split.induct with
  | case1 a b c rest ih =>
    have := byte a
    have := byte b
    have := byte c
    rw [split, join, ih, byteOf (b := a) (by omega), byteOf (b := b) (by omega), byteOf (b := c) (by omega)]
  | case2 a b =>
    have := byte a
    have := byte b
    rw [split, join, byteOf (b := a) (by omega), byteOf (b := b) (by omega)]
  | case3 a =>
    have := byte a
    rw [split, join, byteOf (b := a) (by omega)]
  | case4 => rfl

theorem digitsRead {values : List Nat} (small : ∀ n ∈ values, n < 64) :
    ((values.map digit).takeWhile (fun c => c ≠ '=')).filterMap value = values := by
  induction values with
  | nil => rfl
  | cons n rest ih =>
    obtain ⟨read, plain⟩ := valueDigit (small n List.mem_cons_self)
    have later := ih (fun m mem => small m (List.mem_cons_of_mem _ mem))
    rw [List.map_cons, List.takeWhile_cons_of_pos (by simpa using plain), List.filterMap_cons_some read, later]

theorem decodeEncode (bytes : List UInt8) : decode (encode bytes) = bytes := by
  rw [decode, encode, digitsRead (splitSmall bytes), joinSplit]

example : String.ofList (encode [0x68, 0x69, 0x3f, 0xff]) = "aGk__w" := by decide

end HarnessMem.Base64
