import HarnessMem.Js
import HarnessMem.Lib.FixedFields
import Mathlib.Data.String.Basic
import Mathlib.Tactic.IntervalCases

/-! The order of ISO timestamps as texts against the order of the instants they show. -/
namespace HarnessMem.IsoTexts
open FixedFields Js

theorem digitsOne {n : Nat} (fits : n < 10) : (digits 1 n).toList = [n.digitChar] := by
  simp [digits, Nat.toDigits_of_lt_base fits]

theorem digitsSnoc (width n : Nat) :
    (digits (width + 2) n).toList = (digits (width + 1) (n / 10)).toList ++ [(n % 10).digitChar] := by
  by_cases small : n < 10
  · simp [digits, Nat.toDigits_of_lt_base small, Nat.div_eq_of_lt small, Nat.mod_eq_of_lt small, List.replicate_succ']
  · simp [digits, Nat.toDigits_of_base_le (b := 10) (n := n) (by decide) (by omega)]

def shown (width n : Nat) : List Char := (digits width n).toList
def Fits (width n : Nat) : Prop := 0 < width ∧ n < 10 ^ width

theorem digitsLength {width n : Nat} (fits : n < 10 ^ (width + 1)) : (digits (width + 1) n).toList.length = width + 1 := by
  induction width generalizing n with
  | zero => rw [digitsOne fits]; rfl
  | succ width ih =>
    have tens : n / 10 < 10 ^ (width + 1) := by omega
    rw [digitsSnoc, List.length_append, ih tens]
    rfl

theorem digitCharLess : ∀ b < 10, ∀ a < b, a.digitChar < b.digitChar := by decide

theorem digitsLess {width a b : Nat} (less : a < b) (fits : b < 10 ^ (width + 1)) :
    (digits (width + 1) a).toList < (digits (width + 1) b).toList := by
  induction width generalizing a b with
  | zero =>
    rw [digitsOne fits, digitsOne (less.trans fits)]
    exact lessHead _ _ (digitCharLess b fits a less)
  | succ width ih =>
    have tens : b / 10 < 10 ^ (width + 1) := by omega
    rw [digitsSnoc, digitsSnoc]
    rcases Nat.lt_or_ge (a / 10) (b / 10) with apart | close
    · have same : (digits (width + 1) (a / 10)).toList.length = (digits (width + 1) (b / 10)).toList.length := by
        rw [digitsLength (apart.trans tens), digitsLength tens]
      exact lessBefore _ _ same (ih apart tens)
    · have equal : a / 10 = b / 10 := by omega
      rw [equal]
      exact lessAfter _ (lessHead _ _ (digitCharLess _ (Nat.mod_lt _ (by decide)) _ (by omega)))

theorem shownOrdered : Ordered shown Fits where
  length := by
    rintro (_ | width) n ⟨wide, fits⟩
    · cases wide
    · exact digitsLength fits
  less := by
    rintro (_ | width) a b less ⟨wide, fits⟩
    · cases wide
    · exact digitsLess less fits

-- Days before year `y` of an era of 400 years that begin in March, and the year of a day of the era.
def yearStart (y : Nat) : Nat := 365 * y + y / 4 - y / 100
def yearOf (doe : Nat) : Nat := (doe - doe / 1460 + doe / 36524 - doe / 146096) / 365

theorem centuryYear {c r : Nat} (four : c < 4) (short : r < 36524) :
    yearOf (36524 * c + r) = 100 * c + (r - (r + 24 * c) / 1460) / 365 := by
  have century : (36524 * c + r) / 36524 = c := by omega
  have leaps : (36524 * c + r) / 1460 = 25 * c + (r + 24 * c) / 1460 := by omega
  have last : (36524 * c + r) / 146096 = 0 := by omega
  rw [yearOf, century, leaps, last]
  omega

theorem yearBounds {doe : Nat} (era : doe < 146097) :
    yearOf doe < 400 ∧ yearStart (yearOf doe) ≤ doe ∧ doe ≤ yearStart (yearOf doe) + 365 := by
  by_cases last : doe = 146096
  · subst last
    decide
  · obtain ⟨c, r, four, short, rfl⟩ : ∃ c r, c < 4 ∧ r < 36524 ∧ doe = 36524 * c + r :=
      ⟨doe / 36524, doe % 36524, by omega, Nat.mod_lt _ (by decide), (Nat.div_add_mod _ _).symm⟩
    rw [centuryYear four short]
    generalize leap : (r + 24 * c) / 1460 = s
    have few : s ≤ 25 := by omega
    generalize quotient : (r - s) / 365 = z
    have years : z ≤ 99 := by omega
    have hundreds : (100 * c + z) / 100 = c := by omega
    have fours : (100 * c + z) / 4 = 25 * c + z / 4 := by omega
    rw [yearStart, hundreds, fours]
    have below : s ≤ z / 4 + 1 := by omega
    have above : z / 4 ≤ s := by omega
    refine ⟨by omega, by omega, by omega⟩

theorem yearMono {a b : Nat} (le : a ≤ b) : yearOf a ≤ yearOf b := by
  unfold yearOf
  refine Nat.div_le_div_right ?_
  omega

-- A day number as its era, the year of the era, the month from March on and the day of the month.
def eraOf (day : Int) : Int := (day + 719468) / 146097
def doeOf (day : Int) : Nat := (day + 719468 - eraOf day * 146097).toNat
def doyOf (day : Int) : Nat := doeOf day - yearStart (yearOf (doeOf day))
def monthOf (doy : Nat) : Nat := (5 * doy + 2) / 153
def monthStart (mp : Nat) : Nat := (153 * mp + 2) / 5
def calendarMonth (mp : Nat) : Nat := if mp < 10 then mp + 3 else mp - 9

theorem civilParts (day : Int) :
    civil day = (yearOf (doeOf day) + eraOf day * 400 + (if calendarMonth (monthOf (doyOf day)) ≤ 2 then 1 else 0),
      calendarMonth (monthOf (doyOf day)), doyOf day - monthStart (monthOf (doyOf day)) + 1) := rfl

theorem doeLess (day : Int) : doeOf day < 146097 := by unfold doeOf eraOf; omega

theorem doyLess (day : Int) : doyOf day ≤ 365 := by
  have bounds := yearBounds (doeLess day)
  unfold doyOf
  omega

theorem monthBounds {doy : Nat} (year : doy ≤ 365) :
    monthOf doy ≤ 11 ∧ monthStart (monthOf doy) ≤ doy ∧ doy ≤ monthStart (monthOf doy) + 30 := by
  unfold monthStart monthOf
  omega

theorem civilBounds (day : Int) :
    (1 ≤ (civil day).2.1 ∧ (civil day).2.1 ≤ 12) ∧ 1 ≤ (civil day).2.2 ∧ (civil day).2.2 ≤ 31 := by
  have bounds := monthBounds (doyLess day)
  rw [civilParts]
  simp only [calendarMonth]
  refine ⟨?_, by omega, by omega⟩
  split <;> omega

-- Months counted on across the years.
theorem civilCount (day : Int) :
    12 * (civil day).1 + (civil day).2.1 = 12 * (400 * eraOf day + yearOf (doeOf day)) + monthOf (doyOf day) + 3 := by
  have bounds := monthBounds (doyLess day)
  rw [civilParts]
  simp only [calendarMonth]
  split <;> split <;> push_cast <;> omega

theorem doeOrder {a b : Int} (less : a < b) : eraOf a < eraOf b ∨ eraOf a = eraOf b ∧ doeOf a < doeOf b := by
  unfold doeOf eraOf
  omega

theorem doyOrder {a b : Nat} (less : a < b) (era : b < 146097) :
    yearOf a < yearOf b ∨ yearOf a = yearOf b ∧ a - yearStart (yearOf a) < b - yearStart (yearOf b) := by
  rcases Nat.lt_or_eq_of_le (yearMono less.le) with sooner | same
  · exact .inl sooner
  · have bounds := yearBounds (less.trans era)
    rw [← same]
    exact .inr ⟨rfl, by omega⟩

theorem monthOrder {a b : Nat} (less : a < b) (year : b ≤ 365) :
    monthOf a < monthOf b ∨ monthOf a = monthOf b ∧ a - monthStart (monthOf a) < b - monthStart (monthOf b) := by
  have bounds := monthBounds (less.le.trans year)
  rcases Nat.lt_or_eq_of_le (show monthOf a ≤ monthOf b by unfold monthOf; omega) with sooner | same
  · exact .inl sooner
  · rw [← same]
    exact .inr ⟨rfl, by omega⟩

-- Year, month and day in that order follow the day number.
theorem civilOrder {a b : Int} (less : a < b) : (civil a).1 < (civil b).1 ∨ (civil a).1 = (civil b).1 ∧
    ((civil a).2.1 < (civil b).2.1 ∨ (civil a).2.1 = (civil b).2.1 ∧ (civil a).2.2 < (civil b).2.2) := by
  have first := civilBounds a
  have second := civilBounds b
  have countA := civilCount a
  have countB := civilCount b
  have mA := monthBounds (doyLess a)
  have mB := monthBounds (doyLess b)
  have yA := yearBounds (doeLess a)
  have yB := yearBounds (doeLess b)
  rcases doeOrder less with sooner | ⟨era, sooner⟩
  · omega
  · rcases doyOrder sooner (doeLess b) with earlier | ⟨year, earlier⟩
    · omega
    · rcases monthOrder earlier (doyLess b) with before | ⟨month, before⟩
      · rw [show doeOf a - yearStart (yearOf (doeOf a)) = doyOf a from rfl,
          show doeOf b - yearStart (yearOf (doeOf b)) = doyOf b from rfl] at before
        omega
      · have dates : (civil a).2.2 < (civil b).2.2 := by
          rw [civilParts, civilParts]
          exact Nat.succ_lt_succ before
        have months : monthOf (doyOf a) = monthOf (doyOf b) := month
        omega

theorem civilYears {a b : Int} (le : a ≤ b) : (civil a).1 ≤ (civil b).1 := by
  rcases Int.le_iff_lt_or_eq.mp le with less | rfl
  · rcases civilOrder less with sooner | same
    · exact sooner.le
    · exact same.1.le
  · exact le_refl _

def dateFields : List (Char × Nat) := [('-', 2), ('-', 2)]
def clockFields : List (Char × Nat) := [('T', 2), (':', 2), (':', 2), ('.', 3)]
def dateNumbers (day : Int) : List Nat := [(civil day).2.1, (civil day).2.2]
def clockNumbers (rest : Nat) : List Nat := [rest / 3600000, rest / 60000 % 60, rest / 1000 % 60, rest % 1000]

def dayOf (ms : Int) : Int := ms / 86400000
def restOf (ms : Int) : Nat := (ms % 86400000).toNat
def yearAt (ms : Int) : Int := (civil (dayOf ms)).1
def dateTail (day : Int) : List Char := fields shown dateFields (dateNumbers day)
def clockText (rest : Nat) : List Char := fields shown clockFields (clockNumbers rest) ++ ['Z']

theorem isoTextParts (ms : Int) :
    (isoText ms).toList = (isoYear (yearAt ms)).toList ++ (dateTail (dayOf ms) ++ clockText (restOf ms)) := by
  simp [isoText, dateTail, clockText, fields, shown, dateFields, dateNumbers, clockFields, clockNumbers, yearAt, dayOf, restOf]

theorem dateFit (day : Int) : Fit Fits dateFields (dateNumbers day) := by
  have bounds := civilBounds day
  exact .cons ⟨by decide, by show (civil day).2.1 < 100; omega⟩ (.cons ⟨by decide, by show (civil day).2.2 < 100; omega⟩ .nil)

theorem clockFit {rest : Nat} (day : rest < 86400000) : Fit Fits clockFields (clockNumbers rest) :=
  .cons ⟨by decide, by show rest / 3600000 < 100; omega⟩ (.cons ⟨by decide, by show rest / 60000 % 60 < 100; omega⟩
    (.cons ⟨by decide, by show rest / 1000 % 60 < 100; omega⟩ (.cons ⟨by decide, by show rest % 1000 < 1000; omega⟩ .nil)))

theorem dateTailLength (a b : Int) : (dateTail a).length = (dateTail b).length :=
  fieldsLength shownOrdered (dateFit a) (dateFit b)

-- Within one year the date decides.
theorem dateTailLess {a b : Int} (less : a < b) (year : (civil a).1 = (civil b).1) : dateTail a < dateTail b := by
  refine fieldsLess shownOrdered (dateFit a) (dateFit b) ?_
  rcases civilOrder less with sooner | ⟨_, month | ⟨month, date⟩⟩
  · omega
  · exact List.cons_lt_cons_iff.mpr (.inl month)
  · exact List.cons_lt_cons_iff.mpr (.inr ⟨month, List.cons_lt_cons_iff.mpr (.inl date)⟩)

theorem clockTextLess {a b : Nat} (less : a < b) (day : b < 86400000) : clockText a < clockText b := by
  refine lessBefore _ _ (fieldsLength shownOrdered (clockFit (less.trans day)) (clockFit day))
    (fieldsLess shownOrdered (clockFit (less.trans day)) (clockFit day) ?_)
  simp only [clockNumbers, List.cons_lt_cons_iff]
  omega

theorem restLess (ms : Int) : restOf ms < 86400000 := by unfold restOf; omega

theorem msOrder {a b : Int} (less : a < b) : dayOf a < dayOf b ∨ dayOf a = dayOf b ∧ restOf a < restOf b := by
  unfold dayOf restOf
  omega

theorem isoLessSameYear {a b : Int} (less : a < b) (year : yearAt a = yearAt b) : isoText a < isoText b := by
  rw [String.lt_iff_toList_lt, isoTextParts, isoTextParts, year]
  refine lessAfter _ ?_
  rcases msOrder less with sooner | ⟨day, sooner⟩
  · exact lessBefore _ _ (dateTailLength _ _) (dateTailLess sooner year)
  · rw [day]
    exact lessAfter _ (clockTextLess sooner (restLess b))

-- The text of a year: plain for four digits, else with a sign and six.
inductive YearText : Int → List Char → Prop where
  | plain (y : Nat) (four : y ≤ 9999) : YearText y (shown 4 y)
  | late (y : Nat) (five : 9999 < y) (six : y < 1000000) : YearText y ('+' :: shown 6 y)
  | before (y : Nat) (some : 0 < y) (six : y < 1000000) : YearText (-y) ('-' :: shown 6 y)

theorem yearText {year : Int} (six : year.natAbs < 1000000) : YearText year (isoYear year).toList := by
  unfold isoYear
  by_cases plain : 0 ≤ year ∧ year ≤ 9999
  · obtain ⟨y, rfl⟩ := Int.eq_ofNat_of_zero_le plain.1
    rw [if_pos plain]
    exact .plain y (by omega)
  · rw [if_neg plain, String.toList_append]
    by_cases negative : year < 0
    · rw [if_pos negative]
      obtain ⟨y, rfl⟩ : ∃ y : Nat, year = -y := ⟨year.natAbs, by omega⟩
      have size : (-(y : Int)).natAbs = y := by omega
      rw [size] at six ⊢
      exact .before y (by omega) six
    · rw [if_neg negative]
      obtain ⟨y, rfl⟩ := Int.eq_ofNat_of_zero_le (by omega : 0 ≤ year)
      exact .late y (by omega) six

theorem signBelow {c : Char} (low : c < '0') {width n : Nat} (fits : Fits width n) (x y : List Char) :
    c :: x < shown width n ++ y := by
  have long := shownOrdered.length fits
  cases text : shown width n with
  | nil => rw [text] at long; exact absurd long fits.1.ne
  | cons d rest =>
    have digit : '0' ≤ d := by
      have mem : d ∈ shown width n := by rw [text]; exact List.mem_cons_self
      rcases List.mem_append.mp (show d ∈ List.replicate _ '0' ++ Nat.toDigits 10 n by simpa [shown, digits] using mem) with pad | part
      · exact (List.eq_of_mem_replicate pad).ge
      · have isDigit := Nat.isDigit_of_mem_toDigits (by decide) (by decide) part
        simp only [Char.isDigit, ge_iff_le, Bool.and_eq_true, decide_eq_true_eq] at isDigit
        exact isDigit.1
    exact lessHead _ _ (low.trans_le digit)

-- Two years in the order of their texts: `+` comes before `-`, and both before the digits.
theorem yearTextOrder {a b : Int} {s t : List Char} (first : YearText a s) (second : YearText b t) (x y : List Char) (less : a < b) :
    ¬ (a ≤ 9999 ∧ 9999 < b ∨ b < 0) ∧ s ++ x < t ++ y ∨ (a ≤ 9999 ∧ 9999 < b ∨ b < 0) ∧ t ++ y < s ++ x := by
  cases first with
  | plain m four =>
    cases second with
    | plain n four' =>
      have wide : Fits 4 m ∧ Fits 4 n := ⟨⟨by decide, by omega⟩, by decide, by omega⟩
      have same : (shown 4 m).length = (shown 4 n).length := by rw [shownOrdered.length wide.1, shownOrdered.length wide.2]
      exact .inl ⟨by omega, lessBefore _ _ same (shownOrdered.less (by omega) wide.2)⟩
    | late n five six => exact .inr ⟨by omega, signBelow (by decide) (by constructor <;> omega) _ _⟩
    | before n some six => omega
  | late m five six =>
    cases second with
    | plain n four' => omega
    | late n five' six' =>
      have wide : Fits 6 m ∧ Fits 6 n := ⟨⟨by decide, by omega⟩, by decide, by omega⟩
      have same : (shown 6 m).length = (shown 6 n).length := by rw [shownOrdered.length wide.1, shownOrdered.length wide.2]
      have later : shown 6 m ++ x < shown 6 n ++ y := lessBefore _ _ same (shownOrdered.less (by omega) wide.2)
      exact .inl ⟨by omega, List.cons_lt_cons_iff.mpr (.inr ⟨rfl, later⟩)⟩
    | before n some six => omega
  | before m some six =>
    cases second with
    | plain n four => exact .inl ⟨by omega, signBelow (by decide) (by constructor <;> omega) _ _⟩
    | late n five six' => exact .inr ⟨by omega, lessHead _ _ (by decide)⟩
    | before n some' six' =>
      have wide : Fits 6 m ∧ Fits 6 n := ⟨⟨by decide, by omega⟩, by decide, by omega⟩
      have same : (shown 6 n).length = (shown 6 m).length := by rw [shownOrdered.length wide.1, shownOrdered.length wide.2]
      have later : shown 6 n ++ y < shown 6 m ++ x := lessBefore _ _ same (shownOrdered.less (by omega) wide.1)
      exact .inr ⟨by omega, List.cons_lt_cons_iff.mpr (.inr ⟨rfl, later⟩)⟩

-- A time value a `Date` can hold.
def Dated (ms : Int) : Prop := ms.natAbs ≤ 8640000000000000

theorem yearDated {ms : Int} (dated : Dated ms) : (yearAt ms).natAbs < 1000000 := by
  have last : yearAt ms ≤ 275760 := (civilYears (b := 100000000) (by unfold dayOf Dated at *; omega)).trans (by decide)
  have early : -271821 ≤ yearAt ms :=
    le_trans (by decide) (civilYears (a := -100000000) (by unfold dayOf Dated at *; omega))
  omega

-- Where the order of the texts is not the order of the instants.
structure Turned (a b : Int) : Prop where
  apart : yearAt a ≠ yearAt b
  signed : yearAt a ≤ 9999 ∧ 9999 < yearAt b ∨ yearAt b < 0

theorem isoOrder {a b : Int} (first : Dated a) (second : Dated b) (less : a < b) :
    ¬ Turned a b ∧ isoText a < isoText b ∨ Turned a b ∧ isoText b < isoText a := by
  by_cases year : yearAt a = yearAt b
  · exact .inl ⟨fun turned => turned.apart year, isoLessSameYear less year⟩
  · have sooner : yearAt a < yearAt b := by
      have le : yearAt a ≤ yearAt b := civilYears (by unfold dayOf; omega)
      omega
    rw [String.lt_iff_toList_lt, String.lt_iff_toList_lt, isoTextParts, isoTextParts]
    rcases yearTextOrder (yearText (yearDated first)) (yearText (yearDated second)) _ _ sooner with ⟨straight, texts⟩ | ⟨signed, texts⟩
    · exact .inl ⟨fun turned => straight turned.signed, texts⟩
    · exact .inr ⟨⟨year, signed⟩, texts⟩

theorem isoLess {a b : Int} (first : Dated a) (second : Dated b) (less : a < b) : isoText a < isoText b ↔ ¬ Turned a b := by
  rcases isoOrder first second less with ⟨straight, texts⟩ | ⟨turned, texts⟩
  · exact iff_of_true texts straight
  · exact iff_of_false (not_lt_of_gt texts) (not_not_intro turned)

theorem isoInjective {a b : Int} (first : Dated a) (second : Dated b) (same : isoText a = isoText b) : a = b := by
  have apart : ∀ {a b : Int}, Dated a → Dated b → a < b → isoText a ≠ isoText b := by
    intro a b first second less
    rcases isoOrder first second less with ⟨_, texts⟩ | ⟨_, texts⟩
    · exact texts.ne
    · exact texts.ne'
  rcases lt_trichotomy a b with less | equal | more
  · exact absurd same (apart first second less)
  · exact equal
  · exact absurd same.symm (apart second first more)

-- Years of four digits: the texts are in the order of the instants.
def FourDigits (ms : Int) : Prop := -62167219200000 ≤ ms ∧ ms ≤ 253402300799999

instance (ms : Int) : Decidable (FourDigits ms) := inferInstanceAs (Decidable (_ ∧ _))

theorem fourDigitsYear {ms : Int} : FourDigits ms ↔ 0 ≤ yearAt ms ∧ yearAt ms ≤ 9999 := by
  unfold FourDigits
  constructor
  · rintro ⟨low, high⟩
    exact ⟨le_trans (by decide) (civilYears (a := -719528) (by unfold dayOf; omega)),
      (civilYears (b := 2932896) (by unfold dayOf; omega)).trans (by decide)⟩
  · rintro ⟨low, high⟩
    constructor
    · by_contra early
      have year : yearAt ms ≤ (civil (-719529)).1 := civilYears (by unfold dayOf; omega)
      have before : (civil (-719529)).1 = -1 := by decide
      omega
    · by_contra late
      have year : (civil 2932897).1 ≤ yearAt ms := civilYears (by unfold dayOf; omega)
      have after : (civil 2932897).1 = 10000 := by decide
      omega

theorem FourDigits.dated {ms : Int} (four : FourDigits ms) : Dated ms := by
  unfold Dated FourDigits at *
  omega

theorem fourDigitsLess {a b : Int} (first : FourDigits a) (second : FourDigits b) : isoText a < isoText b ↔ a < b := by
  have straight : ∀ {a b : Int}, FourDigits a → FourDigits b → a < b → isoText a < isoText b := by
    intro a b first second less
    refine (isoLess first.dated second.dated less).mpr (fun turned => ?_)
    have years := fourDigitsYear.mp second
    have signed := turned.signed
    omega
  constructor
  · intro texts
    rcases lt_trichotomy a b with less | rfl | more
    · exact less
    · exact absurd texts (lt_irrefl _)
    · exact absurd texts (lt_asymm (straight second first more))
  · exact straight first second

theorem fourDigitsLe {a b : Int} (first : FourDigits a) (second : FourDigits b) : isoText a ≤ isoText b ↔ a ≤ b := by
  rw [← not_lt, ← not_lt, fourDigitsLess second first]

-- The date at the head of a text, and the texts that go on from it with a clock time.
def dateText (day : Int) : List Char := (isoYear (civil day).1).toList ++ dateTail day

theorem dateTextOrder {a b : Int} (less : a < b) (first : 0 ≤ (civil a).1) (second : (civil b).1 ≤ 9999) :
    (dateText a).length = (dateText b).length ∧ dateText a < dateText b := by
  have years : (civil a).1 ≤ (civil b).1 := civilYears less.le
  have plain : ∀ day : Int, 0 ≤ (civil day).1 → (civil day).1 ≤ 9999 →
      (isoYear (civil day).1).toList = shown 4 (civil day).1.toNat ∧ Fits 4 (civil day).1.toNat := by
    intro day low high
    refine ⟨?_, by decide, by omega⟩
    rw [isoYear, if_pos ⟨low, high⟩]
    rfl
  obtain ⟨textA, fitA⟩ := plain a first (years.trans second)
  obtain ⟨textB, fitB⟩ := plain b (first.trans years) second
  have long : (shown 4 (civil a).1.toNat).length = (shown 4 (civil b).1.toNat).length := by
    rw [shownOrdered.length fitA, shownOrdered.length fitB]
  unfold dateText
  rw [textA, textB]
  refine ⟨by rw [List.length_append, List.length_append, long, dateTailLength a b], ?_⟩
  rcases Int.le_iff_lt_or_eq.mp years with sooner | same
  · exact lessBefore _ _ long (shownOrdered.less (by omega) fitB)
  · rw [same]
    exact lessAfter _ (dateTailLess less same)

theorem isoTextDate (ms : Int) : (isoText ms).toList = dateText (dayOf ms) ++ clockText (restOf ms) := by
  rw [isoTextParts, dateText, List.append_assoc]
  rfl

end HarnessMem.IsoTexts
