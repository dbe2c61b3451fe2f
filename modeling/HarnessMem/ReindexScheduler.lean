import HarnessMem.Lib.Runs
import HarnessMem.VectorBackfill

/-! The reindex scheduler: its flag over any run of ticks and writes, and the tick at which it is set. -/
namespace HarnessMem.ReindexScheduler
open Recorder Visibility EmbeddingRegistry VectorBackfill

structure ReindexVectorsSchedulerConfig where
  batchSize : Js.Number
  targetCoverage : ℚ

structure Status where
  converged : Bool
  lastCoverage : Option ℚ
  lastReindexed : Nat
  totalReindexed : Nat
  ticks : Nat
  deriving DecidableEq, Repr

def started : Status := ⟨false, none, 0, 0, 0⟩

structure Scheduled where
  status : Status
  db : Db

-- What one tick reads from outside: the environment each picked row is embedded in, and the clock.
structure Pace where
  env : Nat → Ambient
  now : String

section
variable (config : ReindexVectorsSchedulerConfig)

def justConverged : Option ReindexReport → Bool
  | some report => config.targetCoverage ≤ report.vectorCoverage && report.missingVectorsRemaining = 0 && report.legacyVectorsRemaining = 0
  | none => false

def afterReport (report : Option ReindexReport) (status : Status) : Status :=
  let reindexed := (report.map ReindexReport.reindexed).getD 0
  { converged :=
      if justConverged config report && !status.converged then true
      else if !justConverged config report && status.converged then false
      else status.converged
    lastCoverage := (report.map ReindexReport.vectorCoverage).orElse (fun _ => status.lastCoverage)
    lastReindexed := reindexed
    totalReindexed := status.totalReindexed + reindexed
    ticks := status.ticks + 1 }

-- A failed embedding ends the tick after the rows before it.
def tick (pace : Pace) (s : Scheduled) : Scheduled :=
  let limit := if s.status.converged then .fin 1 else config.batchSize
  match reindexVectors ⟨pace.env, pace.now, limit⟩ s.db with
  | (after, .ok report) => ⟨afterReport config report s.status, after⟩
  | (after, .error _) => ⟨{s.status with ticks := s.status.ticks + 1}, after⟩

-- Between ticks the tables change in any way.
inductive Move where
  | tick (pace : Pace)
  | write (change : Db → Db)

def step (s : Scheduled) : Move → Scheduled
  | .tick pace => tick config pace s
  | .write change => ⟨s.status, change s.db⟩
end

theorem flagOf (config : ReindexVectorsSchedulerConfig) (report : Option ReindexReport) (status : Status) :
    (afterReport config report status).converged = justConverged config report := by
  unfold afterReport
  cases justConverged config report <;> cases status.converged <;> rfl

-- Nothing is left to cover exactly when every live row is covered, and then the coverage is whole.
theorem convergedReport (model now : String) (db : Db) (reindexed limit : Nat) (config : ReindexVectorsSchedulerConfig) :
    justConverged config (some (report model now db reindexed limit)) = true ↔ config.targetCoverage ≤ 1 ∧ uncovered model now db = 0 := by
  have both : currentCount model now db + uncovered model now db = (liveRows now db).length := by
    rw [currentCount, uncovered, ← List.countP_eq_length_filter, ← List.countP_eq_length_filter,
      List.length_eq_countP_add_countP (covered model db)]
    simp
  have whole : uncovered model now db = 0 → coverage model now db = 1 := by
    intro none
    rw [coverageUncovered, none]
    simp
  have legacy : uncovered model now db = 0 → (legacyRows model now db).length = 0 := by
    intro none
    have empty := List.length_eq_zero_iff.mp none
    rw [legacyRows, latestFirst, List.length_eq_zero_iff, Tables.orderByEmpty, List.filter_eq_nil_iff]
    intro row live
    have held := List.filter_eq_nil_iff.mp empty row live
    rw [Bool.not_eq_true', Bool.not_eq_false] at held
    simp [held]
  have is : justConverged config (some (report model now db reindexed limit)) = true ↔ (config.targetCoverage ≤ coverage model now db ∧
      (liveRows now db).length - currentCount model now db = 0) ∧ (legacyRows model now db).length = 0 := by
    rw [justConverged, Bool.and_eq_true, Bool.and_eq_true, decide_eq_true_iff, decide_eq_true_iff, decide_eq_true_iff]
    exact Iff.rfl
  rw [is]
  constructor
  · rintro ⟨⟨reached, missing⟩, -⟩
    have none : uncovered model now db = 0 := by omega
    rw [whole none] at reached
    exact ⟨reached, none⟩
  · rintro ⟨reached, none⟩
    rw [whole none]
    exact ⟨⟨reached, by omega⟩, legacy none⟩

-- A report comes with the tables it was counted over.
theorem reported {pass : Pass} {db after : Db} {found : ReindexReport} (ok : reindexVectors pass db = (after, .ok (some found))) :
    (pass.env 0).vectorDisabled = false ∧ ∃ reindexed limit, found = report (pass.env 0).vectorModel pass.now after reindexed limit := by
  unfold reindexVectors at ok
  split at ok
  · cases ok
  · rename_i enabled
    refine ⟨Bool.eq_false_of_not_eq_true enabled, ?_⟩
    simp only [Prod.mk.injEq] at ok
    obtain ⟨rfl, answered⟩ := ok
    split at answered
    · cases answered
    · exact ⟨_, _, (Option.some.inj (Except.ok.inj answered)).symm⟩

theorem unreported {pass : Pass} {db after : Db} (ok : reindexVectors pass db = (after, .ok none)) : (pass.env 0).vectorDisabled = true := by
  unfold reindexVectors at ok
  split at ok
  · assumption
  · simp only [Prod.mk.injEq] at ok
    obtain ⟨-, answered⟩ := ok
    split at answered
    · cases answered
    · cases answered

section
variable (config : ReindexVectorsSchedulerConfig)

def passOf (pace : Pace) (s : Scheduled) : Pass := ⟨pace.env, pace.now, if s.status.converged then .fin 1 else config.batchSize⟩

-- A tick whose pass throws nothing, and one whose pass leaves every live row covered.
def Completes (s : Scheduled) : Move → Prop
  | .tick pace => ∃ report, (reindexVectors (passOf config pace s) s.db).2 = .ok report
  | .write _ => False
def Covers (s : Scheduled) : Move → Prop
  | .tick pace => (∃ report, (reindexVectors (passOf config pace s) s.db).2 = .ok (some report)) ∧
      uncovered (pace.env 0).vectorModel pace.now (reindexVectors (passOf config pace s) s.db).1 = 0
  | .write _ => False

theorem tickDb (pace : Pace) (s : Scheduled) : (tick config pace s).db = (reindexVectors (passOf config pace s) s.db).1 := by
  unfold tick passOf
  simp only
  split <;> rename_i answered <;> rw [answered]

theorem stepFlag (s : Scheduled) (move : Move) : (step config s move).status.converged = true ↔
    config.targetCoverage ≤ 1 ∧ Covers config s move ∨ s.status.converged = true ∧ ¬ Completes config s move := by
  cases move with
  | write change => simp [step, Covers, Completes]
  | tick pace =>
    unfold step tick Covers Completes
    simp only
    rw [← passOf]
    generalize answered : reindexVectors (passOf config pace s) s.db = result
    obtain ⟨after, failure | report⟩ := result
    · simp
    · simp only [flagOf]
      cases report with
      | none => simp [justConverged]
      | some found =>
        obtain ⟨on, reindexed, limit, rfl⟩ := reported answered
        rw [convergedReport]
        simp [passOf]

-- The flag is set exactly when the last tick that threw nothing left no live row uncovered; of the target it only matters that it
-- is not above one.
theorem flagExact (moves : List Move) (db : Db) : (Runs.run (step config) ⟨started, db⟩ moves).status.converged = true ↔
    config.targetCoverage ≤ 1 ∧ ∃ before move after, moves = before ++ move :: after ∧
      Covers config (Runs.run (step config) ⟨started, db⟩ before) move ∧
      Runs.Throughout (step config) (fun s i => ¬ Completes config s i) (Runs.run (step config) ⟨started, db⟩ (before ++ [move])) after := by
  rw [Runs.lastSet (step config) (P := fun s => s.status.converged = true) (stepFlag config)]
  constructor
  · rintro (⟨set, -⟩ | ⟨before, move, after, rfl, ⟨within, covers⟩, kept⟩)
    · cases set
    · exact ⟨within, before, move, after, rfl, covers, kept⟩
  · rintro ⟨within, before, move, after, rfl, covers, kept⟩
    exact .inr ⟨before, move, after, rfl, ⟨within, covers⟩, kept⟩

end

-- A row's vectors are the only ones its pass writes.
theorem upsertOther {env : Ambient} {id content createdAt : String} {db after : Db} (ok : upsertVector env id content createdAt db = .ok after)
    {row : Observation} (other : id ≠ row.id) : hasVector after row = hasVector db row := by
  unfold upsertVector at ok
  split at ok
  · cases ok
    rfl
  cases variants : vectorVariants env content with
  | error failure => rw [variants] at ok; cases ok
  | ok found =>
    rw [variants] at ok
    cases ok
    have folded : ∀ (rows : List (String × String)) (held : List Vector),
        ((rows.map (fun variant => (⟨id, variant.1, env.vectorDimension, variant.2, createdAt, env.clock 5⟩ : Vector))).foldl
          upsertVectorRow held).any (fun v => v.observationId = row.id) = held.any (fun v => v.observationId = row.id) := by
      intro rows
      induction rows with
      | nil => exact fun held => rfl
      | cons variant rest ih =>
        intro held
        rw [List.map_cons, List.foldl_cons, ih, upsertKeys (fun own _ => own = row.id)]
        simp [other]
    exact folded found db.vectors

theorem reindexOther {env : Nat → Ambient} (n : Nat) (rows : List Observation) {db : Db} {row : Observation}
    (others : ∀ picked ∈ rows, picked.id ≠ row.id) : hasVector (reindexRows env n rows db).1 row = hasVector db row := by
  induction rows generalizing n db with
  | nil => rfl
  | cons first rest ih =>
    unfold reindexRows
    split
    · rename_i after ok
      rw [ih (n + 1) fun picked mem => others picked (List.mem_cons_of_mem _ mem), upsertOther ok (others first List.mem_cons_self)]
    · rfl

theorem coveredHas {model : String} {db : Db} {row : Observation} (held : covered model db row = true) : hasVector db row = true := by
  obtain ⟨v, mem, same⟩ := List.any_eq_true.mp held
  rw [Bool.and_eq_true] at same
  exact List.any_eq_true.mpr ⟨v, mem, same.1⟩

section
variable {provider : EmbeddingProvider} {now : String} {db : Db}

def missingCount (now : String) (db : Db) : Nat := ((liveRows now db).filter (fun row => !hasVector db row)).length
def legacyCount (model now : String) (db : Db) : Nat :=
  ((liveRows now db).filter (fun row => hasVector db row && !covered model db row)).length

theorem uncoveredNone (model : String) : uncovered model now db = 0 ↔ missingCount now db = 0 ∧ legacyCount model now db = 0 := by
  rw [uncovered, missingCount, legacyCount, List.length_eq_zero_iff, List.length_eq_zero_iff, List.length_eq_zero_iff,
    List.filter_eq_nil_iff, List.filter_eq_nil_iff, List.filter_eq_nil_iff]
  constructor
  · intro all
    have held : ∀ row ∈ liveRows now db, covered model db row = true := fun row live => by simpa using all row live
    exact ⟨fun row live => by simp [coveredHas (held row live)], fun row live => by simp [held row live]⟩
  · rintro ⟨missing, legacy⟩ row live
    have has : hasVector db row = true := by simpa using missing row live
    simpa [has] using legacy row live

def batch (limit : Nat) (first second rows : List Observation) : List Observation :=
  if (latestFirst first).take limit ≠ [] then (latestFirst first).take limit
  else if (latestFirst second).take limit ≠ [] then (latestFirst second).take limit
  else (latestFirst rows).take limit

theorem takenNone {limit : Nat} (positive : 0 < limit) (rows : List Observation) : (latestFirst rows).take limit ≠ [] ↔ rows ≠ [] := by
  rw [not_iff_not, List.take_eq_nil_iff, or_iff_right (by omega), latestFirst, Tables.orderByEmpty]

theorem latestTaken {rows : List Observation} (unique : (rows.map Observation.id).Nodup) (limit : Nat) :
    (rows.filter (fun row => !((latestFirst rows).take limit).any (fun other => other.id = row.id))).length = rows.length - limit := by
  have perm : (latestFirst rows).Perm rows := List.perm_insertionSort _ _
  rw [(Tables.takeLeaves unique perm limit).length_eq, List.length_drop, perm.length_eq]

theorem batchLeaves {rows : List Observation} (unique : (rows.map Observation.id).Nodup) {limit : Nat} (positive : 0 < limit)
    (has covers : Observation → Bool) :
    let first := rows.filter (fun row => !has row)
    let second := rows.filter (fun row => has row && !covers row)
    (first.filter (fun row => !(batch limit first second rows).any (fun other => other.id = row.id))).length = first.length - limit ∧
      (second.filter (fun row => !(batch limit first second rows).any (fun other => other.id = row.id))).length =
        if first.length = 0 then second.length - limit else second.length := by
  intro first second
  have uniqueFirst : (first.map Observation.id).Nodup := unique.sublist (List.filter_sublist.map _)
  have uniqueSecond : (second.map Observation.id).Nodup := unique.sublist (List.filter_sublist.map _)
  by_cases none : first = []
  · rw [batch, if_neg (by rw [takenNone positive]; exact not_not.mpr none), none, List.length_nil, if_pos rfl]
    refine ⟨by simp, ?_⟩
    by_cases empty : second = []
    · simp [empty]
    · rw [if_pos ((takenNone positive second).mpr empty)]
      exact latestTaken uniqueSecond limit
  · rw [batch, if_pos ((takenNone positive first).mpr none), if_neg (mt List.length_eq_zero_iff.mp none)]
    refine ⟨latestTaken uniqueFirst limit, ?_⟩
    -- A row of the second kind is none of the first, and no other row has its id.
    rw [List.filter_eq_self.mpr]
    intro row mem
    obtain ⟨held, kind⟩ := List.mem_filter.mp mem
    rw [Bool.and_eq_true] at kind
    rw [Bool.not_eq_true', List.any_eq_false]
    intro other chosen same
    obtain ⟨held', bare⟩ := List.mem_filter.mp ((Tables.memOrderBy _).mp (List.mem_of_mem_take chosen))
    obtain rfl := List.inj_on_of_nodup_map unique held' held (of_decide_eq_true same)
    simp [kind.1] at bare

-- What one pass of a working provider leaves of the two backlogs: a batch of the first while there is any, else of the second.
theorem passCounts (pass : Pass) (working : ∀ n, Working provider (pass.env n))
    (stores : ∀ route fallbackActive, (resolvedModels provider route fallbackActive).contains (vectorModelVersion provider) = true)
    (steady : liveRows pass.now db = liveRows now db) (unique : (db.observations.map Observation.id).Nodup) :
    missingCount now (reindexVectors pass db).1 = missingCount now db - Search.clampLimit pass.limit 100 1 10000 ∧
      legacyCount (vectorModelVersion provider) now (reindexVectors pass db).1 =
        if missingCount now db = 0 then legacyCount (vectorModelVersion provider) now db - Search.clampLimit pass.limit 100 1 10000
        else legacyCount (vectorModelVersion provider) now db := by
  obtain ⟨observations, -, covers⟩ := passCovers pass working stores db
  have positive := limitPositive pass.limit
  have ran : (reindexVectors pass db).1 = (reindexRows pass.env 0 (pickedRows (vectorModelVersion provider) pass.now db
      (Search.clampLimit pass.limit 100 1 10000)) db).1 := by
    rw [reindexVectors, if_neg (by simp [(working 0).enabled]), (working 0).model]
  generalize Search.clampLimit pass.limit 100 1 10000 = limit at *
  generalize (reindexVectors pass db).1 = done at *
  generalize vectorModelVersion provider = model at *
  have live : liveRows now done = liveRows now db := by rw [liveRows, observations, ← liveRows]
  have picks : pickedRows model pass.now db limit = batch limit ((liveRows now db).filter (fun row => !hasVector db row))
      ((liveRows now db).filter (fun row => hasVector db row && !covered model db row)) (liveRows now db) := by
    rw [pickedRows, missingRows, legacyRows, steady, batch]
  generalize pickedRows model pass.now db limit = picked at *
  let taken := fun row : Observation => picked.any (fun other => other.id = row.id)
  have has : ∀ row, hasVector done row = (hasVector db row || taken row) := by
    intro row
    cases chosen : taken row with
    | true =>
      rw [Bool.or_true]
      exact coveredHas (by rw [covers, Bool.true_and]; exact (congrArg _ chosen).trans (Bool.or_true _))
    | false =>
      rw [Bool.or_false, ran]
      exact reindexOther 0 picked fun other mem => by simpa using List.any_eq_false.mp chosen other mem
  have missing : missingCount now done = (((liveRows now db).filter (fun row => !hasVector db row)).filter (fun row => !taken row)).length := by
    rw [missingCount, live, List.filter_filter]
    refine congrArg _ (List.filter_congr fun row _ => ?_)
    rw [has]
    cases hasVector db row <;> cases taken row <;> rfl
  have legacy : legacyCount model now done =
      (((liveRows now db).filter (fun row => hasVector db row && !covered model db row)).filter (fun row => !taken row)).length := by
    rw [legacyCount, live, List.filter_filter]
    refine congrArg _ (List.filter_congr fun row _ => ?_)
    rw [has, covers, Bool.true_and]
    change ((hasVector db row || taken row) && !(covered model db row || taken row)) = _
    cases hasVector db row <;> cases covered model db row <;> cases taken row <;> rfl
  have uniqueLive : ((liveRows now db).map Observation.id).Nodup := unique.sublist (List.filter_sublist.map _)
  obtain ⟨fewer, other⟩ := batchLeaves uniqueLive positive (hasVector db) (covered model db)
  rw [missing, legacy, missingCount, legacyCount]
  simp only [taken, picks]
  exact ⟨fewer, other⟩


-- Full batches and the last one, which may be short.
def rounds (limit n : Nat) : Nat := (n + limit - 1) / limit

theorem roundsNone {limit : Nat} (positive : 0 < limit) (n : Nat) : rounds limit n = 0 ↔ n = 0 := by
  rw [rounds, Nat.div_eq_zero_iff]
  omega

theorem roundsLess {limit n : Nat} (positive : 0 < limit) (left : n ≠ 0) : rounds limit (n - limit) = rounds limit n - 1 := by
  unfold rounds
  by_cases short : n ≤ limit
  · have one : (n + limit - 1) / limit = 1 := Nat.div_eq_of_lt_le (by omega) (by omega)
    have none : (n - limit + limit - 1) / limit = 0 := Nat.div_eq_of_lt (by omega)
    rw [one, none]
  · have next : n + limit - 1 = (n - limit + limit - 1) + limit := by omega
    rw [next, Nat.add_div_right _ positive, Nat.succ_sub_one]

def roundsLeft (limit : Nat) (model now : String) (db : Db) : Nat := rounds limit (missingCount now db) + rounds limit (legacyCount model now db)

theorem roundsUncovered {limit : Nat} (positive : 0 < limit) (model : String) : roundsLeft limit model now db = 0 ↔ uncovered model now db = 0 := by
  rw [uncoveredNone, roundsLeft, Nat.add_eq_zero_iff, roundsNone positive, roundsNone positive]

variable {config : ReindexVectorsSchedulerConfig}

def batchOf (config : ReindexVectorsSchedulerConfig) : Nat := Search.clampLimit config.batchSize 100 1 10000

-- An active tick takes one round off, an idle one finds none left; either way the flag says whether any is.
theorem tickRounds {pace : Pace} {s : Scheduled} (within : config.targetCoverage ≤ 1) (working : ∀ n, Working provider (pace.env n))
    (stores : ∀ route fallbackActive, (resolvedModels provider route fallbackActive).contains (vectorModelVersion provider) = true)
    (steady : ∀ row ∈ s.db.observations, archivedFilter pace.now false row = archivedFilter now false row)
    (unique : (s.db.observations.map Observation.id).Nodup)
    (idle : s.status.converged = true → roundsLeft (batchOf config) (vectorModelVersion provider) now s.db = 0) :
    (tick config pace s).db.observations = s.db.observations ∧
      roundsLeft (batchOf config) (vectorModelVersion provider) now (tick config pace s).db =
        roundsLeft (batchOf config) (vectorModelVersion provider) now s.db - 1 ∧
      ((tick config pace s).status.converged = true ↔
        roundsLeft (batchOf config) (vectorModelVersion provider) now (tick config pace s).db = 0) := by
  have positive : 0 < batchOf config := limitPositive config.batchSize
  obtain ⟨observations, ⟨reindexed, limit, ok⟩, -⟩ := passCovers (passOf config pace s) working stores s.db
  have live : liveRows pace.now s.db = liveRows now s.db := uncoveredSteady steady
  have liveAfter : liveRows pace.now (tick config pace s).db = liveRows now (tick config pace s).db := by
    rw [tickDb]
    exact uncoveredSteady (by rw [observations]; exact steady)
  obtain ⟨missing, legacy⟩ := passCounts (passOf config pace s) working stores live unique
  rw [← tickDb] at observations missing legacy
  refine ⟨observations, ?_, ?_⟩
  · cases active : s.status.converged with
    | true =>
      have none := idle active
      rw [none]
      obtain ⟨noMissing, noLegacy⟩ := (uncoveredNone _).mp ((roundsUncovered positive _).mp none)
      refine (roundsUncovered positive _).mpr ((uncoveredNone _).mpr ⟨?_, ?_⟩)
      · rw [missing, noMissing, Nat.zero_sub]
      · rw [legacy, if_pos noMissing, noLegacy, Nat.zero_sub]
    | false =>
      have limitIs : Search.clampLimit (passOf config pace s).limit 100 1 10000 = batchOf config := by
        rw [passOf, active]
        rfl
      rw [limitIs] at missing legacy
      rw [roundsLeft, roundsLeft, missing, legacy]
      by_cases noMissing : missingCount now s.db = 0
      · rw [if_pos noMissing, noMissing, Nat.zero_sub, (roundsNone positive 0).mpr rfl, Nat.zero_add, Nat.zero_add]
        by_cases noLegacy : legacyCount (vectorModelVersion provider) now s.db = 0
        · rw [noLegacy, Nat.zero_sub, (roundsNone positive 0).mpr rfl]
        · exact roundsLess positive noLegacy
      · rw [if_neg noMissing, roundsLess positive noMissing]
        have some_ : rounds (batchOf config) (missingCount now s.db) ≠ 0 := mt (roundsNone positive _).mp noMissing
        omega
  · have flag := stepFlag config s (.tick pace)
    have completes : Completes config s (.tick pace) := ⟨_, ok⟩
    rw [step] at flag
    rw [flag, Covers, ← tickDb, roundsUncovered positive, (working 0).model, uncovered, liveAfter, ← uncovered]
    constructor
    · rintro (⟨-, -, none⟩ | ⟨-, throws⟩)
      · exact none
      · exact absurd completes throws
    · exact fun none => .inl ⟨within, ⟨_, ok⟩, none⟩

theorem ticksRounds {paces : List Pace} {s : Scheduled} (within : config.targetCoverage ≤ 1)
    (working : ∀ pace ∈ paces, ∀ n, Working provider (pace.env n))
    (stores : ∀ route fallbackActive, (resolvedModels provider route fallbackActive).contains (vectorModelVersion provider) = true)
    (steady : ∀ pace ∈ paces, ∀ row ∈ s.db.observations, archivedFilter pace.now false row = archivedFilter now false row)
    (unique : (s.db.observations.map Observation.id).Nodup)
    (idle : s.status.converged = true → roundsLeft (batchOf config) (vectorModelVersion provider) now s.db = 0) :
    (Runs.run (fun s pace => tick config pace s) s paces).status.converged = true ↔
      if paces = [] then s.status.converged = true else roundsLeft (batchOf config) (vectorModelVersion provider) now s.db ≤ paces.length := by
  induction paces generalizing s with
  | nil => rfl
  | cons pace rest ih =>
    obtain ⟨observations, left, flag⟩ := tickRounds within (working pace List.mem_cons_self) stores (steady pace List.mem_cons_self) unique idle
    rw [Runs.runCons, ih (fun other mem => working other (List.mem_cons_of_mem _ mem))
      (fun other mem => by rw [observations]; exact steady other (List.mem_cons_of_mem _ mem)) (by rw [observations]; exact unique) flag.mp,
      if_neg (List.cons_ne_nil _ _), flag, left, List.length_cons]
    by_cases last : rest = []
    · rw [if_pos last, last, List.length_nil]
      omega
    · rw [if_neg last]
      omega

end

-- The scheduler is done at the tick that ends the last round of rows without vectors and then the last of those with old ones.
theorem convergesAt (host : Host) (options : EmbeddingRegistryOptions) {config : ReindexVectorsSchedulerConfig} {paces : List Pace}
    (now : String) {s : Scheduled} (active : s.status.converged = false) (within : config.targetCoverage ≤ 1)
    (counted : requestedProvider host options ≠ "adaptive")
    (working : ∀ pace ∈ paces, ∀ n, Working (createEmbeddingProviderRegistry host options) (pace.env n))
    (steady : ∀ pace ∈ paces, ∀ row ∈ s.db.observations, archivedFilter pace.now false row = archivedFilter now false row)
    (unique : (s.db.observations.map Observation.id).Nodup) :
    (Runs.run (fun s pace => tick config pace s) s paces).status.converged = true ↔ paces ≠ [] ∧
      rounds (batchOf config) (missingCount now s.db) +
        rounds (batchOf config) (legacyCount (vectorModelVersion (createEmbeddingProviderRegistry host options)) now s.db) ≤ paces.length := by
  have stores := fun route fallbackActive => (storesEither host options route fallbackActive).trans (decide_eq_true counted)
  rw [ticksRounds within working stores steady unique (fun done => absurd done (by simp [active]))]
  by_cases none : paces = []
  · simp [none, active]
  · rw [if_neg none, and_iff_right none]
    rfl

-- Two rows, one without vectors and one with an old one: they take a round each, although one batch would hold both.
def backlog : Db := {Db.empty with
  observations := [Search.plainRow "a" "p" "u", Search.plainRow "b" "p" "u"]
  vectors := [⟨"b", "old", 0, "[]", "2026-01-01T00:00:00.000Z", "2026-01-01T00:00:00.000Z"⟩]}
def paced : Pace := ⟨fun _ => storing "fallback:local-hash-v3" "fallback:local-hash-v3", "2026-01-01T00:00:00.000Z"⟩

theorem convergesSecond :
    (Runs.run (fun s pace => tick ⟨.fin 100, 95 / 100⟩ pace s) ⟨started, backlog⟩ [paced, paced]).status.converged = true :=
  have all : ∀ pace ∈ [paced, paced], pace = paced := by simp
  (convergesAt plainHost (providerOptions none) paced.now rfl (by norm_num) (by decide +kernel) (fun pace mem _ => all pace mem ▸ plainWorks)
    (fun pace mem _ _ => by rw [all pace mem]) (by decide)).mpr ⟨by simp, by decide +kernel⟩

end HarnessMem.ReindexScheduler
