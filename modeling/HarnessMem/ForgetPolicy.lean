import HarnessMem.Consolidation
import HarnessMem.Visibility
import HarnessMem.Lib.Ranking
import Mathlib.Algebra.Order.Round

/-! The forget policy: which observations a run picks, and the soft delete of a wet one. -/
namespace HarnessMem.ForgetPolicy
open Text Recorder

structure ForgetPolicyWeights where
  access : ℚ
  signal : ℚ
  age : ℚ
  deriving DecidableEq, Repr

def defaultForgetWeights : ForgetPolicyWeights := ⟨4 / 10, 3 / 10, 3 / 10⟩

structure PartialWeights where
  access : Option ℚ
  signal : Option ℚ
  age : Option ℚ

structure ForgetPolicyOptions where
  dryRun : Option Bool
  scoreThreshold : Option ℚ
  weights : Option PartialWeights
  project : Option String
  limit : Option Js.Number
  protectAccessed : Option Bool
  now : Int

structure ForgetPolicyCandidate where
  observationId : String
  project : String
  score : ℚ
  factors : ForgetPolicyWeights
  ageDays : ℚ
  accessCount : Nat
  signalScore : ℚ
  expiredAt : Option String
  deriving DecidableEq, Repr

structure ForgetPolicyResult where
  dryRun : Bool
  evicted : Nat
  candidates : List ForgetPolicyCandidate
  skippedReason : Option String
  scoreThreshold : ℚ
  weights : ForgetPolicyWeights
  scanned : Nat
  deriving DecidableEq, Repr

def clamp01 (v : ℚ) : ℚ := max 0 (min 1 v)

def normaliseWeights (input : Option PartialWeights) : ForgetPolicyWeights :=
  let given := input.getD ⟨none, none, none⟩
  let access := max 0 (given.access.getD defaultForgetWeights.access)
  let signal := max 0 (given.signal.getD defaultForgetWeights.signal)
  let age := max 0 (given.age.getD defaultForgetWeights.age)
  let sum := access + signal + age
  if sum ≤ 0 then ⟨1 / 3, 1 / 3, 1 / 3⟩ else ⟨access / sum, signal / sum, age / sum⟩

def scoreFactors (accessCount : Nat) (signalScore ageDays : ℚ) : ForgetPolicyWeights :=
  ⟨if accessCount = 0 then 1 else clamp01 (max 0 (1 - accessCount / 5)), clamp01 (1 - clamp01 signalScore),
    clamp01 ((ageDays - 30) / 150)⟩

-- `Math.round`: the half goes up.
def rounded (scale v : ℚ) : ℚ := ⌊v * scale + 1 / 2⌋ / scale
def compositeScore (factors weights : ForgetPolicyWeights) : ℚ :=
  rounded 10000 (weights.access * factors.access + weights.signal * factors.signal + weights.age * factors.age)

def parsePrivacyTags (host : Host) (raw : String) : List String := Visibility.parseArrayJson host raw

def daysBetween (host : Host) (fromIso : String) (now : Int) : ℚ :=
  if fromIso = "" then 0
  else match host.parseDate fromIso with
    | some t => max 0 ((now - t : ℤ) / 86400000)
    | none => 0

section
variable (host : Host) (accessCount : String → Nat) (options : ForgetPolicyOptions)

def threshold : ℚ := options.scoreThreshold.getD (7 / 10)
def minAgeDaysForEviction : ℚ := 30

-- A limit that is not a number cuts everything off.
def clampedLimit : Nat :=
  match options.limit with
  | some (.fin value) => (max 1 (min 1000 ⌊value⌋)).toNat
  | some .posInf => 1000
  | some .negInf => 1
  | some .nan => 0
  | none => 100

def protectedTags : List String := ["private", "secret", "sensitive", "legal_hold"]
def isProtectedByPrivacy (row : Observation) : Bool :=
  ((parsePrivacyTags host row.privacyTagsJson).map host.toLowerCase).any protectedTags.contains

def expiredAt (row : Observation) : Option String :=
  (truthy row.expiresAt).filter (fun expiry => !Js.less (Js.isoText options.now) expiry)
def ageDays (row : Observation) : ℚ := daysBetween host row.createdAt options.now
def isAccessed (row : Observation) : Bool := options.protectAccessed ≠ some false && 0 < accessCount row.id

def factorsOf (row : Observation) : ForgetPolicyWeights :=
  scoreFactors (accessCount row.id) row.signalScore (ageDays host options row)
def scoreOf (row : Observation) : ℚ :=
  compositeScore (factorsOf host accessCount options row) (normaliseWeights options.weights)

def describe (row : Observation) (score : ℚ) (expired : Option String) : ForgetPolicyCandidate :=
  ⟨row.id, row.project, score, factorsOf host accessCount options row, rounded 100 (ageDays host options row),
    accessCount row.id, row.signalScore, expired⟩

-- One row of the loop.
def candidate (row : Observation) : Option ForgetPolicyCandidate :=
  if isProtectedByPrivacy host row then none
  else match expiredAt options row with
    | some expiry => some (describe host accessCount options row 1 (some expiry))
    | none =>
      if isAccessed accessCount options row then none
      else if ageDays host options row < minAgeDaysForEviction then none
      else if scoreOf host accessCount options row < threshold options then none
      else some (describe host accessCount options row (scoreOf host accessCount options row) none)

def scannedRow (row : Observation) : Bool :=
  row.live && match truthy options.project with
    | some project => row.project = project
    | none => true

-- `scan` is the order the query gives its rows in.
def collectForgetCandidates (scan : Tables.Scan Observation) (db : Db) : List ForgetPolicyCandidate × Nat :=
  let rows := scan.arrange (db.observations.filter (scannedRow options))
  ((Ranking.ranked ForgetPolicyCandidate.score (rows.filterMap (candidate host accessCount options))).take
    (clampedLimit options), rows.length)

def archive (at' : String) (ids : List String) : List Observation → List Observation :=
  Tables.update (fun row => ids.contains row.id && row.live) (fun row =>
    {row with archivedAt := some at', updatedAt := at'})

-- `autoForget` is the guard HARNESS_MEM_AUTO_FORGET sets, and `at'` the clock when the rows are written.
def runForgetPolicy (scan : Tables.Scan Observation) (autoForget : Bool) (at' : String) (db : Db) : Db × ForgetPolicyResult :=
  let dryRequested := options.dryRun ≠ some false
  let (candidates, scanned) := collectForgetCandidates host accessCount options scan db
  let effectiveDryRun := dryRequested || !autoForget
  let ids := candidates.map ForgetPolicyCandidate.observationId
  let evicts := !effectiveDryRun && !candidates.isEmpty
  (if evicts then {db with observations := archive at' ids db.observations} else db,
    { dryRun := effectiveDryRun
      evicted := if evicts then (db.observations.filter (fun row => ids.contains row.id && row.live)).length else 0
      candidates := candidates
      skippedReason := if !dryRequested && !autoForget then
        some "HARNESS_MEM_AUTO_FORGET=1 not set; downgraded to dry_run" else none
      scoreThreshold := threshold options
      weights := normaliseWeights options.weights
      scanned := scanned })

def Expired (row : Observation) : Prop := (expiredAt options row).isSome = true
def Protected (row : Observation) : Prop :=
  isProtectedByPrivacy host row = true ∨ isAccessed accessCount options row = true ∨
    ageDays host options row < minAgeDaysForEviction
-- The visibility filter holds such a row for private.
def Unreadable (row : Observation) : Prop := row.privacyTagsJson = "" ∨ host.parseJson row.privacyTagsJson = none

-- What the policy has against a row, its privacy apart.
def Eligible (row : Observation) : Prop :=
  Expired options row ∨ isAccessed accessCount options row = false ∧ minAgeDaysForEviction ≤ ageDays host options row ∧
    threshold options ≤ scoreOf host accessCount options row
instance (row : Observation) : Decidable (Expired options row) := inferInstanceAs (Decidable (_ = true))
instance (row : Observation) : Decidable (Eligible host accessCount options row) := inferInstanceAs (Decidable (_ ∨ _))

def rankScore (row : Observation) : ℚ := if Expired options row then 1 else scoreOf host accessCount options row
def wanted (row : Observation) : Bool := !isProtectedByPrivacy host row && decide (Eligible host accessCount options row)

section
variable (scan : Tables.Scan Observation) (at' : String) (db : Db)

def dry : Db × ForgetPolicyResult := runForgetPolicy host accessCount {options with dryRun := some true} scan true at' db
def wet : Db × ForgetPolicyResult := runForgetPolicy host accessCount {options with dryRun := some false} scan true at' db

def Listed (result : ForgetPolicyResult) (row : Observation) : Prop :=
  ∃ found ∈ result.candidates, found.observationId = row.id

-- What the dry run promises of the wet run with the same options.
structure Foreseen : Prop where
  idle : (dry host accessCount options scan at' db).1 = db
  archives : List.Forall₂ (fun old new =>
      Listed (dry host accessCount options scan at' db).2 old ∧ old.archivedAt = none ∧
          new = {old with archivedAt := some at', updatedAt := at'} ∨
        ¬ Listed (dry host accessCount options scan at' db).2 old ∧ new = old)
    db.observations (wet host accessCount options scan at' db).1.observations
  spares : ∀ row ∈ db.observations, Listed (dry host accessCount options scan at' db).2 row →
    ¬ Expired options row → ¬ Protected host accessCount options row
  closes : ∀ row ∈ db.observations, Listed (dry host accessCount options scan at' db).2 row → ¬ Unreadable host row

def wantedRows : List Observation :=
  (scan.arrange (db.observations.filter (scannedRow options))).filter (wanted host accessCount options)

-- How many rows the policy would rather have.
def rank (row : Observation) : Nat :=
  ((wantedRows host accessCount options scan db).filter (fun other =>
    Ranking.Ahead (rankScore host accessCount options) (wantedRows host accessCount options scan db) other row)).length
end
end

section
variable {host : Host} {accessCount : String → Nat} {options : ForgetPolicyOptions} {scan : Tables.Scan Observation}
  {at' : String} {db : Db}

theorem unreadableOpen {row : Observation} (unreadable : Unreadable host row) : isProtectedByPrivacy host row = false := by
  have none : parsePrivacyTags host row.privacyTagsJson = [] := by
    unfold parsePrivacyTags Visibility.parseArrayJson
    rcases unreadable with empty | broken
    · rw [if_pos empty]
    · rw [broken, ite_self]
  rw [isProtectedByPrivacy, none]
  rfl

theorem candidateWanted (row : Observation) : candidate host accessCount options row =
    if wanted host accessCount options row then
      some (describe host accessCount options row (rankScore host accessCount options row) (expiredAt options row))
    else none := by
  unfold candidate
  by_cases hidden : isProtectedByPrivacy host row = true
  · simp [hidden, wanted]
  · cases expired : expiredAt options row with
    | some expiry =>
      have due : Expired options row := by simp [Expired, expired]
      simp [hidden, wanted, Eligible, rankScore, due]
    | none =>
      have notDue : ¬ Expired options row := by simp [Expired, expired]
      by_cases accessed : isAccessed accessCount options row = true
      · simp [hidden, wanted, Eligible, notDue, accessed]
      · by_cases young : ageDays host options row < minAgeDaysForEviction
        · simp [hidden, wanted, Eligible, notDue, accessed, young]
        · by_cases low : scoreOf host accessCount options row < threshold options
          · simp [hidden, wanted, Eligible, notDue, accessed, young, low]
          · simp [hidden, wanted, Eligible, notDue, accessed, young, low, rankScore, not_lt.mp young, not_lt.mp low]

theorem collected : (collectForgetCandidates host accessCount options scan db).1 =
    ((Ranking.ranked (rankScore host accessCount options) (wantedRows host accessCount options scan db)).take
      (clampedLimit options)).map (fun row =>
        describe host accessCount options row (rankScore host accessCount options row) (expiredAt options row)) := by
  have rows : ∀ table : List Observation, table.filterMap (candidate host accessCount options) =
      (table.filter (wanted host accessCount options)).map (fun row =>
        describe host accessCount options row (rankScore host accessCount options row) (expiredAt options row)) := by
    intro table
    induction table with
    | nil => rfl
    | cons row rest ih =>
      rw [List.filterMap_cons, candidateWanted, ih]
      by_cases chosen : wanted host accessCount options row = true
      · simp [chosen]
      · simp [chosen]
  unfold collectForgetCandidates
  simp only [rows, List.map_take, Ranking.rankedMap]
  rfl

theorem listedIff (unique : (db.observations.map Observation.id).Nodup) {row : Observation} (mem : row ∈ db.observations) :
    Listed (dry host accessCount options scan at' db).2 row ↔
      scannedRow options row = true ∧ wanted host accessCount options row = true ∧
        rank host accessCount options scan db row < clampedLimit options := by
  have rows : ∀ other, other ∈ wantedRows host accessCount options scan db ↔
      other ∈ db.observations ∧ scannedRow options other = true ∧ wanted host accessCount options other = true := by
    simp [wantedRows, and_assoc]
  have distinct : (wantedRows host accessCount options scan db).Nodup :=
    (((scan.perm _).nodup_iff.mpr ((List.Nodup.of_map _ unique).filter _))).filter _
  have listed : Listed (dry host accessCount options scan at' db).2 row ↔ row ∈ (Ranking.ranked
      (rankScore host accessCount options) (wantedRows host accessCount options scan db)).take (clampedLimit options) := by
    have candidates : (dry host accessCount options scan at' db).2.candidates =
        (collectForgetCandidates host accessCount options scan db).1 := rfl
    rw [Listed, candidates, collected]
    constructor
    · rintro ⟨found, held, is⟩
      obtain ⟨other, taken, rfl⟩ := List.mem_map.mp held
      have inside := (rows other).mp ((Ranking.rankedPerm _ _).mem_iff.mp (List.mem_of_mem_take taken))
      rwa [← Tables.keyUnique unique inside.1 mem is]
    · exact fun taken => ⟨_, List.mem_map_of_mem taken, rfl⟩
  rw [listed]
  constructor
  · intro taken
    have inside := (Ranking.rankedPerm _ _).mem_iff.mp (List.mem_of_mem_take taken)
    exact ⟨((rows row).mp inside).2.1, ((rows row).mp inside).2.2, (Ranking.takenIff distinct inside _).mp taken⟩
  · rintro ⟨scanned, chosen, first⟩
    exact (Ranking.takenIff distinct ((rows row).mpr ⟨mem, scanned, chosen⟩) _).mpr first

theorem wetObservations : (wet host accessCount options scan at' db).1.observations =
    archive at' ((dry host accessCount options scan at' db).2.candidates.map ForgetPolicyCandidate.observationId) db.observations := by
  have candidates : (dry host accessCount options scan at' db).2.candidates =
      (collectForgetCandidates host accessCount options scan db).1 := rfl
  have same : collectForgetCandidates host accessCount {options with dryRun := some false} scan db =
      collectForgetCandidates host accessCount options scan db := rfl
  rw [candidates]
  simp only [wet, runForgetPolicy, same]
  cases found : (collectForgetCandidates host accessCount options scan db).1 with
  | nil => simp [archive, Tables.updateNone]
  | cons first rest => simp

theorem wetArchives (unique : (db.observations.map Observation.id).Nodup) :
    List.Forall₂ (fun old new =>
      Listed (dry host accessCount options scan at' db).2 old ∧ old.archivedAt = none ∧
          new = {old with archivedAt := some at', updatedAt := at'} ∨
        ¬ Listed (dry host accessCount options scan at' db).2 old ∧ new = old)
      db.observations (wet host accessCount options scan at' db).1.observations := by
  rw [wetObservations, archive, Tables.update, List.forall₂_map_right_iff, List.forall₂_same]
  intro old mem
  have named : ((dry host accessCount options scan at' db).2.candidates.map ForgetPolicyCandidate.observationId).contains old.id =
      true ↔ Listed (dry host accessCount options scan at' db).2 old := by
    rw [List.contains_iff_mem, List.mem_map]
    rfl
  by_cases listed : Listed (dry host accessCount options scan at' db).2 old
  · have live : old.live = true := by
      have scanned := ((listedIff unique mem).mp listed).1
      rw [scannedRow, Bool.and_eq_true] at scanned
      exact scanned.1
    rw [named.mpr listed, live, Bool.and_self, if_pos rfl]
    exact .inl ⟨listed, by simpa [Observation.live] using live, rfl⟩
  · rw [Bool.eq_false_of_not_eq_true (fun held => listed (named.mp held)), Bool.false_and, if_neg Bool.false_ne_true]
    exact .inr ⟨listed, rfl⟩

theorem listedSpared (unique : (db.observations.map Observation.id).Nodup) {row : Observation} (mem : row ∈ db.observations)
    (listed : Listed (dry host accessCount options scan at' db).2 row) (lasts : ¬ Expired options row) :
    ¬ Protected host accessCount options row := by
  have chosen := ((listedIff unique mem).mp listed).2.1
  rw [wanted, Bool.and_eq_true, Bool.not_eq_true', decide_eq_true_eq] at chosen
  obtain ⟨notAccessed, old, -⟩ := chosen.2.resolve_left lasts
  rintro (hidden | accessed | young)
  · rw [chosen.1] at hidden
    cases hidden
  · rw [notAccessed] at accessed
    cases accessed
  · exact absurd old (not_le.mpr young)

theorem forgetForeseen (host : Host) (accessCount : String → Nat) (options : ForgetPolicyOptions) (scan : Tables.Scan Observation)
    (at' : String) (unique : (db.observations.map Observation.id).Nodup) :
    Foreseen host accessCount options scan at' db ↔
      ∀ row ∈ db.observations, scannedRow options row = true → Unreadable host row →
        Eligible host accessCount options row → clampedLimit options ≤ rank host accessCount options scan db row := by
  constructor
  · intro foreseen row mem scanned unreadable eligible
    refine not_lt.mp (fun first => foreseen.closes row mem ?_ unreadable)
    exact (listedIff unique mem).mpr ⟨scanned, by simp [wanted, unreadableOpen unreadable, eligible], first⟩
  · intro late
    refine ⟨rfl, wetArchives unique, fun row mem => listedSpared unique mem, fun row mem listed unreadable => ?_⟩
    obtain ⟨scanned, chosen, first⟩ := (listedIff unique mem).mp listed
    rw [wanted, Bool.and_eq_true, decide_eq_true_eq] at chosen
    exact absurd first (not_lt.mpr (late row mem scanned unreadable chosen.2))

end

-- Rows made at the epoch and never read, with the clock at 2026.
def epoch : String := "1970-01-01T00:00:00.000Z"
def epochHost : Host := {plainHost with
  parseJson := fun text => if text = "[]" then some (.arr []) else none
  parseDate := fun text => if text = epoch then some 0 else none}
def plainOptions : ForgetPolicyOptions := ⟨none, none, none, none, none, none, 1767225600000⟩
def epochDb (privacyTagsJson : String) : Db := {Db.empty with
  observations := [{Consolidation.plainObservation "obs_a" "s" "text" with privacyTagsJson, createdAt := epoch}]}

theorem forgetForeseenReadable :
    Foreseen epochHost (fun _ => 0) plainOptions Tables.inOrder "now" (epochDb "[]") ↔
      ∀ row ∈ (epochDb "[]").observations, scannedRow plainOptions row = true → Unreadable epochHost row →
        Eligible epochHost (fun _ => 0) plainOptions row →
          clampedLimit plainOptions ≤ rank epochHost (fun _ => 0) plainOptions Tables.inOrder (epochDb "[]") row :=
  forgetForeseen epochHost (fun _ => 0) plainOptions Tables.inOrder "now" (by decide)

-- The tags of a private row, cut short: nothing protects it any more.
theorem forgetArchivesUnreadable :
    ¬ Foreseen epochHost (fun _ => 0) plainOptions Tables.inOrder "now" (epochDb "[\"private\"") ∧
      (wet epochHost (fun _ => 0) plainOptions Tables.inOrder "now" (epochDb "[\"private\"")).1.observations.map
        Observation.archivedAt = [some "now"] := by
  refine ⟨fun foreseen => ?_, by decide +kernel⟩
  have candidates : (dry epochHost (fun _ => 0) plainOptions Tables.inOrder "now" (epochDb "[\"private\"")).2.candidates =
      [describe epochHost (fun _ => 0) plainOptions
        {Consolidation.plainObservation "obs_a" "s" "text" with privacyTagsJson := "[\"private\"", createdAt := epoch} 1 none] := by
    decide +kernel
  exact foreseen.closes _ List.mem_cons_self ⟨_, candidates ▸ List.mem_cons_self, rfl⟩ (.inr (by decide))

end HarnessMem.ForgetPolicy
