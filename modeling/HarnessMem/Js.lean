import Mathlib.Data.List.Lex
import Mathlib.Data.Rat.Floor

/-! The parts of JavaScript the memory server leans on: white space and trimming, numbers
as `typeof` sees them, and the text `Date.prototype.toISOString` gives for a time value. -/
namespace HarnessMem.Js

def isSpace (c : Char) : Bool :=
  let n := c.toNat
  (9 ≤ n && n ≤ 13) || n == 0x20 || n == 0xA0 || n == 0x1680 || (0x2000 ≤ n && n ≤ 0x200A) ||
    n == 0x2028 || n == 0x2029 || n == 0x202F || n == 0x205F || n == 0x3000 || n == 0xFEFF

def trimStart (text : List Char) : List Char := text.dropWhile isSpace
def trimEnd (text : List Char) : List Char := (text.reverse.dropWhile isSpace).reverse
def trim (s : String) : String := String.ofList (trimEnd (trimStart s.toList))

theorem trimStartHead {text : List Char} {c : Char} (h : (trimStart text).head? = some c) :
    isSpace c = false := by
  have := List.head?_dropWhile_not isSpace text
  rw [trimStart] at h
  rw [h] at this
  simpa using this

theorem trimStartOf {text : List Char} (h : ∀ c, text.head? = some c → isSpace c = false) :
    trimStart text = text := by
  cases text with
  | nil => rfl
  | cons c rest => simp [trimStart, h c rfl]

theorem trimEndOf {text : List Char} (h : ∀ c, text.getLast? = some c → isSpace c = false) :
    trimEnd text = text := by
  have front : trimStart text.reverse = text.reverse :=
    trimStartOf (fun c hc => h c (by simpa using hc))
  rw [trimEnd]
  change (trimStart text.reverse).reverse = text
  rw [front, List.reverse_reverse]

theorem trimEndLast {text : List Char} {c : Char} (h : (trimEnd text).getLast? = some c) :
    isSpace c = false := by
  have first : (trimStart text.reverse).head? = some c := by simpa [trimEnd, trimStart] using h
  exact trimStartHead first

theorem trimEndPrefix (text : List Char) : trimEnd text <+: text := by
  have suffix : text.reverse.dropWhile isSpace <:+ text.reverse := List.dropWhile_suffix isSpace
  simpa [trimEnd] using List.reverse_prefix.mpr suffix

theorem trimEndAppend (a b : List Char) : trimEnd (a ++ b) = if trimEnd b = [] then trimEnd a else a ++ trimEnd b := by
  unfold trimEnd
  rw [List.reverse_append, List.dropWhile_append]
  by_cases none : b.reverse.dropWhile isSpace = []
  · simp [none]
  · rw [if_neg (by simpa using none), if_neg (by simpa using none), List.reverse_append, List.reverse_reverse]

theorem trimEndSpace {c : Char} (blank : isSpace c = true) (text : List Char) : trimEnd (text ++ [c]) = trimEnd text := by
  rw [trimEndAppend, if_pos (by simp [trimEnd, blank])]

theorem trimInside (s : String) : (trim s).toList <:+: s.toList := by
  rw [trim, String.toList_ofList]
  exact (trimEndPrefix _).isInfix.trans (List.dropWhile_suffix isSpace).isInfix

theorem trimIdem (s : String) : trim (trim s) = trim s := by
  have keep : ∀ c, (trimEnd (trimStart s.toList)).head? = some c → isSpace c = false := by
    intro c hc
    obtain ⟨rest, split⟩ := trimEndPrefix (trimStart s.toList)
    have first : (trimStart s.toList).head? = some c := by
      rw [← split, List.head?_append, hc]
      rfl
    exact trimStartHead first
  unfold trim
  simp only [String.toList_ofList]
  rw [trimStartOf keep, trimEndOf (fun _ => trimEndLast)]

-- `<` on strings goes by UTF-16 units.
def utf16 (c : Char) : List Nat :=
  if c.toNat < 0x10000 then [c.toNat]
  else [0xD800 + (c.toNat - 0x10000) / 0x400, 0xDC00 + (c.toNat - 0x10000) % 0x400]
def codes (s : String) : List Nat := s.toList.flatMap utf16
def less (a b : String) : Bool := codes a < codes b

theorem charValid (c : Char) : c.toNat < 0xD800 ∨ 0xDFFF < c.toNat ∧ c.toNat < 0x110000 := c.valid

theorem utf16Injective {a b : List Char} (same : a.flatMap utf16 = b.flatMap utf16) : a = b := by
  induction a generalizing b with
  | nil =>
    cases b with
    | nil => rfl
    | cons d b =>
      simp only [List.flatMap_nil, List.flatMap_cons, utf16] at same
      split at same <;> cases same
  | cons c a ih =>
    cases b with
    | nil =>
      simp only [List.flatMap_nil, List.flatMap_cons, utf16] at same
      split at same <;> cases same
    | cons d b =>
      have first := charValid c
      have second := charValid d
      -- A unit below 0x10000 is never one of a pair: those lie between 0xD800 and 0xDFFF.
      have both : c.toNat = d.toNat ∧ a.flatMap utf16 = b.flatMap utf16 := by
        simp only [List.flatMap_cons, utf16] at same
        split at same <;> split at same <;>
          simp only [List.cons_append, List.nil_append, List.cons.injEq] at same
        · exact same
        · omega
        · omega
        · exact ⟨by omega, same.2.2⟩
      rw [Char.toNat_inj.mp both.1, ih both.2]

theorem lessTotal {a b : String} (apart : a ≠ b) : less a b = true ∨ less b a = true := by
  have codesApart : codes a ≠ codes b := fun same => apart (String.toList_inj.mp (utf16Injective same))
  exact (lt_or_gt_of_ne codesApart).imp decide_eq_true decide_eq_true
theorem lessAsymm {a b : String} (lt : less a b = true) : less b a = false :=
  decide_eq_false (lt_asymm (of_decide_eq_true lt))
theorem lessTrans {a b c : String} (first : less a b = true) (second : less b c = true) : less a c = true :=
  decide_eq_true (lt_trans (of_decide_eq_true first) (of_decide_eq_true second))

-- A number value; the finite ones are rationals, with exact arithmetic between them.
inductive Number where
  | nan | negInf | posInf | fin (value : ℚ)
  deriving DecidableEq, Repr

def Number.positive : Number → Bool
  | .posInf => true
  | .fin value => 0 < value
  | _ => false
def Number.exceeds (bound : ℚ) : Number → Bool
  | .posInf => true
  | .fin value => bound < value
  | _ => false
def Number.add : Number → Number → Number
  | .fin a, .fin b => .fin (a + b)
  | .nan, _ | _, .nan => .nan
  | .posInf, .negInf | .negInf, .posInf => .nan
  | .posInf, _ | _, .posInf => .posInf
  | .negInf, _ | _, .negInf => .negInf

def truncate (q : ℚ) : Int := if 0 ≤ q then ⌊q⌋ else ⌈q⌉
-- `new Date(n)`: not a number, or past 8.64e15 ms either way, is an invalid date.
def timeClip : Number → Option Int
  | .fin q => if q.num.natAbs ≤ 8640000000000000 * q.den then some (truncate q) else none
  | _ => none

def digits (width n : Nat) : String :=
  let shown := (Nat.toDigits 10 n)
  String.ofList (List.replicate (width - shown.length) '0' ++ shown)

-- Year, month and day of a day number counted from 1970-01-01 (proleptic Gregorian).
def civil (day : Int) : Int × Nat × Nat :=
  let z := day + 719468
  let era := z / 146097
  let doe := (z - era * 146097).toNat
  let yoe := (doe - doe / 1460 + doe / 36524 - doe / 146096) / 365
  let doy := doe - (365 * yoe + yoe / 4 - yoe / 100)
  let mp := (5 * doy + 2) / 153
  let month := if mp < 10 then mp + 3 else mp - 9
  (yoe + era * 400 + (if month ≤ 2 then 1 else 0), month, doy - (153 * mp + 2) / 5 + 1)

def isoYear (year : Int) : String :=
  if 0 ≤ year ∧ year ≤ 9999 then digits 4 year.toNat
  else (if year < 0 then "-" else "+") ++ digits 6 year.natAbs

def isoText (ms : Int) : String :=
  let (year, month, day) := civil (ms / 86400000)
  let rest := (ms % 86400000).toNat
  isoYear year ++ "-" ++ digits 2 month ++ "-" ++ digits 2 day ++ "T" ++
    digits 2 (rest / 3600000) ++ ":" ++ digits 2 (rest / 60000 % 60) ++ ":" ++
    digits 2 (rest / 1000 % 60) ++ "." ++ digits 3 (rest % 1000) ++ "Z"

-- `new Date(n).toISOString()`; `none` is the RangeError of an invalid date.
def toIso (n : Number) : Option String := (timeClip n).map isoText

-- A computation that may throw, taken apart where it did not.
theorem bindOk {ε α β : Type} {first : Except ε α} {next : α → Except ε β} {result : β}
    (ok : (first >>= next) = .ok result) : ∃ value, first = .ok value ∧ next value = .ok result := by
  cases first with
  | error thrown => cases ok
  | ok value => exact ⟨value, rfl, ok⟩
theorem mapOk {ε α β : Type} {first : Except ε α} {next : α → β} {result : β}
    (ok : first.map next = .ok result) : ∃ value, first = .ok value ∧ next value = result := by
  cases first with
  | error thrown => cases ok
  | ok value => exact ⟨value, rfl, Except.ok.inj ok⟩

example : toIso (.fin 1767225599999) = some "2025-12-31T23:59:59.999Z" := by decide
example : toIso (.fin (-1/2)) = some "1970-01-01T00:00:00.000Z" := by decide +kernel

end HarnessMem.Js
