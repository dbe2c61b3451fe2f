import HarnessMem.IsoTexts
import HarnessMem.LeaseHolder
import HarnessMem.Verify
import HarnessMem.Visibility

/-! The expiry of an observation: what `normalizeExpiresAt` makes of a number or a text, and how the SQL
filter and the verify check read the stored text back. -/
namespace HarnessMem.Expiry
open IsoTexts Js Recorder

inductive Value where
  | absent
  | number (value : Number)
  | text (value : String)

-- Reading dates, and the product of a double with 1000: whole numbers below 2^53 are doubles, so it stays between
-- the whole numbers around the exact one, and rounding does not turn an order.
structure Runtime where
  host : Host
  times : ℚ → Number
  near : ∀ {q p}, times q = .fin p → |p| ≤ (8640000000000000 : Nat) → (⌊1000 * q⌋ : ℚ) ≤ p ∧ p ≤ ⌈1000 * q⌉
  mono : ∀ {q q' p p'}, q ≤ q' → times q = .fin p → times q' = .fin p' → p ≤ p'
  dated : ∀ {text ms}, host.parseDate text = some ms → Dated ms
  readsBack : ∀ {ms}, Dated ms → host.parseDate (isoText ms) = some ms

section
variable (rt : Runtime)

def normalizeExpiresAt : Value → Except String (Option String)
  | .absent => .ok none
  | .number (.fin q) =>
    match toIso (rt.times q) with
    | some iso => .ok (some iso)
    | none => .error invalidDate
  | .number _ => .ok none
  | .text text => .ok (if text = "" then none else (rt.host.parseDate text).map isoText)

def millisOf : Number → Number
  | .fin q => rt.times q
  | _ => .nan

def valueOf (number : String → Number) : Option Json → Value
  | some (.num text) => .number (number text)
  | some (.str text) => .text text
  | _ => .absent

-- The recorder's own normalisation of a field of the event.
theorem recordedExpiry {number : String → Number} (read : ∀ text, rt.host.millis text = millisOf rt (number text))
    (defined : ∀ q, rt.times q ≠ .nan) (value : Option Json) :
    Recorder.normalizeExpiresAt rt.host value = normalizeExpiresAt rt (valueOf number value) := by
  cases value with
  | none => rfl
  | some value =>
    cases value with
    | num text =>
      rw [Recorder.normalizeExpiresAt, valueOf, read text]
      cases seconds : number text with
      | fin q =>
        cases product : rt.times q with
        | nan => exact absurd product (defined q)
        | fin p => cases printed : toIso (.fin p) <;> simp [millisOf, normalizeExpiresAt, product, printed]
        | negInf => simp [millisOf, normalizeExpiresAt, product, toIso, timeClip]
        | posInf => simp [millisOf, normalizeExpiresAt, product, toIso, timeClip]
      | nan => rfl
      | negInf => rfl
      | posInf => rfl
    | str text => rfl
    | null => rfl
    | bool value => rfl
    | arr items => rfl
    | obj entries => rfl

-- The instant a value denotes in milliseconds, and the one a `Date` keeps of it.
inductive Denotes : Value → ℚ → Int → Prop where
  | number {q : ℚ} {ms : Int} (clipped : timeClip (rt.times q) = some ms) : Denotes (.number (.fin q)) (1000 * q) ms
  | text {text : String} {ms : Int} (named : text ≠ "") (parsed : rt.host.parseDate text = some ms) : Denotes (.text text) ms ms

def Beyond : Value → Prop
  | .number (.fin q) => timeClip (rt.times q) = none
  | _ => False

theorem throwsExact (value : Value) : (∃ thrown, normalizeExpiresAt rt value = .error thrown) ↔ Beyond rt value := by
  cases value with
  | absent => exact iff_of_false (fun ⟨_, thrown⟩ => by cases thrown) (fun beyond => beyond)
  | text text => exact iff_of_false (fun ⟨_, thrown⟩ => by cases thrown) (fun beyond => beyond)
  | number value =>
    cases value with
    | nan => exact iff_of_false (fun ⟨_, thrown⟩ => by cases thrown) (fun beyond => beyond)
    | negInf => exact iff_of_false (fun ⟨_, thrown⟩ => by cases thrown) (fun beyond => beyond)
    | posInf => exact iff_of_false (fun ⟨_, thrown⟩ => by cases thrown) (fun beyond => beyond)
    | fin q =>
      cases clipped : timeClip (rt.times q) with
      | none => simp [normalizeExpiresAt, Beyond, toIso, clipped]
      | some ms => simp [normalizeExpiresAt, Beyond, toIso, clipped]

variable {rt}

theorem denotesText {value : Value} {t : ℚ} {ms : Int} (denotes : Denotes rt value t ms) :
    normalizeExpiresAt rt value = .ok (some (isoText ms)) := by
  cases denotes with
  | number clipped => simp [normalizeExpiresAt, Lease.toIsoOf clipped]
  | text named parsed => simp [normalizeExpiresAt, named, parsed]

theorem truncateBetween (q : ℚ) : ⌊q⌋ ≤ truncate q ∧ truncate q ≤ ⌈q⌉ := by
  unfold truncate
  split
  · exact ⟨le_refl _, Int.floor_le_ceil q⟩
  · exact ⟨Int.floor_le_ceil q, le_refl _⟩

theorem truncateMono {p q : ℚ} (le : p ≤ q) : truncate p ≤ truncate q := by
  unfold truncate
  split
  · rename_i positive
    rw [if_pos (positive.trans le)]
    exact Int.floor_le_floor le
  · rename_i negative
    split
    · rename_i positive
      have below : ⌈p⌉ ≤ 0 := Int.ceil_le.mpr (by push_cast; linarith)
      have above : 0 ≤ ⌊q⌋ := Int.le_floor.mpr (by exact_mod_cast positive)
      omega
    · exact Int.ceil_le_ceil le

theorem clipped {number : Number} {ms : Int} (clip : timeClip number = some ms) :
    ∃ p, number = .fin p ∧ |p| ≤ (8640000000000000 : Nat) ∧ truncate p = ms := by
  cases number with
  | fin p =>
    simp only [timeClip] at clip
    split at clip
    · rename_i range
      exact ⟨p, rfl, (Lease.clipRange p _).mp range, Option.some.inj clip⟩
    · cases clip
  | nan => cases clip
  | negInf => cases clip
  | posInf => cases clip

theorem denotesDated {value : Value} {t : ℚ} {ms : Int} (denotes : Denotes rt value t ms) : Dated ms := by
  cases denotes with
  | text named parsed => exact rt.dated parsed
  | number clip =>
    obtain ⟨p, _, range, rfl⟩ := clipped clip
    obtain ⟨low, high⟩ := abs_le.mp range
    obtain ⟨above, below⟩ := truncateBetween p
    have most : ⌈p⌉ ≤ 8640000000000000 := Int.ceil_le.mpr (by exact_mod_cast high)
    have least : -8640000000000000 ≤ ⌊p⌋ := Int.le_floor.mpr (by exact_mod_cast low)
    unfold Dated
    omega

-- The stored millisecond is next to the exact instant.
theorem denotesNear {value : Value} {t : ℚ} {ms : Int} (denotes : Denotes rt value t ms) : ⌊t⌋ ≤ ms ∧ ms ≤ ⌈t⌉ := by
  cases denotes with
  | text named parsed => simp
  | number clip =>
    obtain ⟨p, product, range, rfl⟩ := clipped clip
    obtain ⟨low, high⟩ := rt.near product range
    obtain ⟨above, below⟩ := truncateBetween p
    exact ⟨(Int.le_floor.mpr low).trans above, below.trans (Int.ceil_le.mpr high)⟩

theorem denotesMono {value other : Value} {t t' : ℚ} {ms ms' : Int} (first : Denotes rt value t ms) (second : Denotes rt other t' ms')
    (less : t < t') : ms ≤ ms' := by
  cases first with
  | text named parsed =>
    have low := (denotesNear second).1
    exact (Int.le_floor.mpr less.le).trans low
  | number clip =>
    cases second with
    | text named parsed => exact (denotesNear (.number clip)).2.trans (Int.ceil_le.mpr less.le)
    | number clip' =>
      obtain ⟨p, product, _, rfl⟩ := clipped clip
      obtain ⟨p', product', _, rfl⟩ := clipped clip'
      exact truncateMono (rt.mono (by linarith) product product')

theorem nearLe {t : ℚ} {ms n : Int} (near : ⌊t⌋ ≤ ms ∧ ms ≤ ⌈t⌉) : (t ≤ n ↔ ms ≤ n) ↔ ¬ (ms = n ∧ n < t) := by
  rcases lt_trichotomy ms n with less | rfl | more
  · have past : t ≤ n := (Int.floor_lt.mp (near.1.trans_lt less)).le
    exact iff_of_true (iff_of_true past less.le) (fun both => by omega)
  · rw [← not_le]
    simp
  · have ahead : (n : ℚ) < t := Int.lt_ceil.mp (more.trans_le near.2)
    exact iff_of_true (iff_of_false (not_le_of_gt ahead) (by omega)) (fun both => by omega)

-- A text at or before that of the clock, though its instant is later, or the other way round.
def Misread (ms n : Int) : Prop := ms < n ∧ Turned ms n ∨ n < ms ∧ Turned n ms

theorem isoLeExact {ms n : Int} (first : Dated ms) (second : Dated n) : (isoText ms ≤ isoText n ↔ ms ≤ n) ↔ ¬ Misread ms n := by
  unfold Misread
  rcases lt_trichotomy ms n with less | rfl | more
  · rcases isoOrder first second less with ⟨straight, texts⟩ | ⟨turned, texts⟩
    · exact iff_of_true (iff_of_true texts.le less.le) (by rintro (⟨_, turned⟩ | ⟨other, _⟩); exacts [straight turned, by omega])
    · exact iff_of_false (fun same => absurd (same.mpr less.le) (not_le_of_gt texts)) (not_not_intro (.inl ⟨less, turned⟩))
  · exact iff_of_true (iff_of_true (le_refl _) (le_refl _)) (by rintro (⟨other, _⟩ | ⟨other, _⟩) <;> omega)
  · rcases isoOrder second first more with ⟨straight, texts⟩ | ⟨turned, texts⟩
    · refine iff_of_true (iff_of_false (not_le_of_gt texts) (by omega)) ?_
      rintro (⟨other, _⟩ | ⟨_, turned⟩)
      · omega
      · exact straight turned
    · exact iff_of_false (fun same => absurd (same.mp texts.le) (by omega)) (not_not_intro (.inr ⟨more, turned⟩))

section
variable {value : Value} {t : ℚ} {ms n : Int} {row : Observation}

theorem filterExact (denotes : Denotes rt value t ms) (stored : normalizeExpiresAt rt value = .ok row.expiresAt) (clock : Dated n) :
    (Visibility.expiredFilter (isoText n) row = false ↔ t ≤ n) ↔ ¬ Misread ms n ∧ ¬ (ms = n ∧ n < t) := by
  rw [denotesText denotes] at stored
  have expires := (Except.ok.inj stored).symm
  have filtered : Visibility.expiredFilter (isoText n) row = false ↔ isoText ms ≤ isoText n := by
    rw [Visibility.expiredFilter, expires]
    simp only [decide_eq_false_iff_not, not_lt]
  have texts := isoLeExact (denotesDated denotes) clock
  have instants := nearLe (n := n) (denotesNear denotes)
  rw [filtered]
  by_cases within : ms = n ∧ n < t
  · have later : ¬ t ≤ n := not_le_of_gt within.2
    rw [within.1]
    exact iff_of_false (fun same => later (same.mp (le_refl _))) (fun both => both.2 ⟨rfl, within.2⟩)
  · rw [instants.mpr within, texts]
    exact ⟨fun straight => ⟨straight, within⟩, fun both => both.1⟩

theorem reportExact (denotes : Denotes rt value t ms) (stored : normalizeExpiresAt rt value = .ok row.expiresAt) :
    (Verify.isExpired rt.host n row = true ↔ t ≤ n) ↔ ¬ (ms = n ∧ n < t) := by
  rw [denotesText denotes] at stored
  have expires := (Except.ok.inj stored).symm
  have reported : Verify.isExpired rt.host n row = true ↔ ms ≤ n := by
    rw [Verify.isExpired, expires, Option.bind_some, rt.readsBack (denotesDated denotes)]
    simp
  rw [reported, ← nearLe (denotesNear denotes)]
  exact ⟨fun same => same.symm, fun same => same.symm⟩
end

-- Total but for the numbers past the range of a date; ordered and read back as the instants but for two values of one
-- millisecond and for years that print with a sign.
theorem expiryExact {value other : Value} {t t' : ℚ} {ms ms' n : Int} {row : Observation} (first : Denotes rt value t ms)
    (second : Denotes rt other t' ms') (less : t < t') (stored : normalizeExpiresAt rt value = .ok row.expiresAt) (clock : Dated n) :
    (∀ given, (∃ thrown, normalizeExpiresAt rt given = .error thrown) ↔ Beyond rt given) ∧
    (∃ s u, normalizeExpiresAt rt value = .ok (some s) ∧ normalizeExpiresAt rt other = .ok (some u) ∧
      (s < u ↔ ms ≠ ms' ∧ ¬ Turned ms ms')) ∧
    ((Visibility.expiredFilter (isoText n) row = false ↔ t ≤ n) ↔ ¬ Misread ms n ∧ ¬ (ms = n ∧ n < t)) ∧
    ((Verify.isExpired rt.host n row = true ↔ t ≤ n) ↔ ¬ (ms = n ∧ n < t)) := by
  refine ⟨throwsExact rt, ⟨_, _, denotesText first, denotesText second, ?_⟩, filterExact first stored clock, reportExact first stored⟩
  rcases (denotesMono first second less).lt_or_eq with sooner | same
  · rw [isoLess (denotesDated first) (denotesDated second) sooner]
    exact ⟨fun straight => ⟨sooner.ne, straight⟩, fun both => both.2⟩
  · rw [same]
    simp
end

-- The texts of `toISOString` read back, and doubles with no rounding.
noncomputable def readIso (text : String) : Option Int :=
  open Classical in if written : ∃ ms, Dated ms ∧ isoText ms = text then some written.choose else none

theorem readIsoDated {text : String} {ms : Int} (read : readIso text = some ms) : Dated ms := by
  unfold readIso at read
  split at read
  · rename_i written
    rw [← Option.some.inj read]
    exact written.choose_spec.1
  · cases read

theorem readIsoText {ms : Int} (dated : Dated ms) : readIso (isoText ms) = some ms := by
  have written : ∃ other, Dated other ∧ isoText other = isoText ms := ⟨ms, dated, rfl⟩
  rw [readIso, dif_pos written, isoInjective written.choose_spec.1 dated written.choose_spec.2]

noncomputable def exactRuntime : Runtime where
  host := {plainHost with parseDate := readIso}
  times q := .fin (1000 * q)
  near := by
    rintro q p ⟨⟩ _
    exact ⟨Int.floor_le _, Int.le_ceil _⟩
  mono := by
    rintro q q' p p' le ⟨⟩ ⟨⟩
    linarith
  dated := readIsoDated
  readsBack := readIsoText

def expiring (ms : Int) : Observation := {Search.plainRow "a" "p" "u" with expiresAt := some (isoText ms)}

theorem secondsDenote (q : ℚ) (ms : Int) (clip : timeClip (.fin (1000 * q)) = some ms) :
    Denotes exactRuntime (.number (.fin q)) (1000 * q) ms := .number clip

theorem expiryOfTwoSeconds :
    (normalizeExpiresAt exactRuntime (.number (.fin 1)) = .ok (some (isoText 1000))) ∧
    (Visibility.expiredFilter (isoText 1500) (expiring 1000) = false ↔ (1000 * 1 : ℚ) ≤ (1500 : Int)) := by
  have stored : normalizeExpiresAt exactRuntime (.number (.fin 1)) = .ok (expiring 1000).expiresAt :=
    denotesText (secondsDenote 1 1000 (by decide +kernel))
  have whole := expiryExact (secondsDenote 1 1000 (by decide +kernel)) (secondsDenote 2 2000 (by decide +kernel))
    (by norm_num) stored (n := 1500) (by unfold Dated; decide)
  refine ⟨stored, whole.2.2.1.mpr ⟨?_, fun both => absurd both.1 (by decide)⟩⟩
  rintro (⟨_, turned⟩ | ⟨more, _⟩)
  · exact turned.apart (by decide)
  · exact absurd more (by decide)

-- 10^13 seconds; the last second of the year 9999 against the first of 10000, and that one under the clock of 2026.
theorem expiryMisread :
    normalizeExpiresAt exactRuntime (.number (.fin 10000000000000)) = .error invalidDate ∧
    isoText 253402300800000 < isoText 253402300799000 ∧
    Visibility.expiredFilter (isoText 1767225600000) (expiring 253402300800000) = false ∧
    Verify.isExpired exactRuntime.host 1767225600000 (expiring 253402300800000) = false := by
  refine ⟨by decide +kernel, by decide +kernel, by decide +kernel, ?_⟩
  have later : ¬ (253402300800000 : Int) ≤ 1767225600000 := by decide
  rw [Verify.isExpired, show (expiring 253402300800000).expiresAt = some (isoText 253402300800000) from rfl, Option.bind_some,
    exactRuntime.readsBack (by unfold Dated; decide)]
  exact decide_eq_false later

end HarnessMem.Expiry
