import HarnessMem.EmbeddingRegistry
import HarnessMem.Recorder
import HarnessMem.Search
import Mathlib.Tactic.GCongr
import Mathlib.Tactic.Linarith

/-! `reindexVectors`, pass after pass: which observations it picks, and the coverage it reports. -/
namespace HarnessMem.VectorBackfill
open Recorder Visibility EmbeddingRegistry

-- One call: the environment each picked row is embedded in, the clock and the limit asked for.
structure Pass where
  env : Nat → Ambient
  now : String
  limit : Js.Number

structure ReindexReport where
  reindexed : Nat
  limit : Nat
  totalObservations : Nat
  currentModelVectors : Nat
  missingVectorsRemaining : Nat
  legacyVectorsRemaining : Nat
  vectorCoverage : ℚ
  progressPct : Int
  migrationComplete : Bool
  deriving DecidableEq, Repr

def hasVector (db : Db) (row : Observation) : Bool := db.vectors.any (fun v => v.observationId = row.id)
def covered (model : String) (db : Db) (row : Observation) : Bool :=
  db.vectors.any (fun v => v.observationId = row.id && v.model = model)

def liveRows (now : String) (db : Db) : List Observation := db.observations.filter (archivedFilter now false)
def latestFirst (rows : List Observation) : List Observation :=
  Tables.orderBy (fun a b : Observation => b.createdAt ≤ a.createdAt) rows

section
variable (model now : String) (db : Db)

def missingRows : List Observation := latestFirst ((liveRows now db).filter (fun row => !hasVector db row))
def legacyRows : List Observation :=
  latestFirst ((liveRows now db).filter (fun row => hasVector db row && !covered model db row))

def pickedRows (limit : Nat) : List Observation :=
  if (missingRows now db).take limit ≠ [] then (missingRows now db).take limit
  else if (legacyRows model now db).take limit ≠ [] then (legacyRows model now db).take limit
  else (latestFirst (liveRows now db)).take limit

def currentCount : Nat := ((liveRows now db).filter (covered model db)).length
def coverage : ℚ :=
  if (liveRows now db).length = 0 then 1 else currentCount model now db / (liveRows now db).length

def report (reindexed limit : Nat) : ReindexReport :=
  let missing := (liveRows now db).length - currentCount model now db
  let legacy := (legacyRows model now db).length
  { reindexed, limit
    totalObservations := (liveRows now db).length
    currentModelVectors := currentCount model now db
    missingVectorsRemaining := missing
    legacyVectorsRemaining := legacy
    vectorCoverage := coverage model now db
    progressPct := ⌊coverage model now db * 100 + 1 / 2⌋
    migrationComplete := missing = 0 && legacy = 0 }
end

-- The rows before one that fails stay reindexed.
def reindexRows (env : Nat → Ambient) : Nat → List Observation → Db → Db × Option EmbeddingFailure
  | _, [], db => (db, none)
  | n, row :: rest, db =>
    match upsertVector (env n) row.id row.contentRedacted (if row.createdAt = "" then (env n).clock 6 else row.createdAt) db with
    | .ok after => reindexRows env (n + 1) rest after
    | .error failure => (db, some failure)

-- No report where vectors are disabled.
def reindexVectors (pass : Pass) (db : Db) : Db × Except EmbeddingFailure (Option ReindexReport) :=
  if (pass.env 0).vectorDisabled then (db, .ok none)
  else
    let model := (pass.env 0).vectorModel
    let limit := Search.clampLimit pass.limit 100 1 10000
    let rows := pickedRows model pass.now db limit
    let done := reindexRows pass.env 0 rows db
    (done.1, match done.2 with
      | some failure => .error failure
      | none => .ok (some (report model pass.now done.1 rows.length limit)))

def passes (pass : Nat → Pass) (db : Db) : Nat → Db
  | 0 => db
  | k + 1 => (reindexVectors (pass k) (passes pass db k)).1

-- A provider that answers: its vectors are stored under the models it resolves for the text.
structure Working (provider : EmbeddingProvider) (env : Ambient) : Prop where
  enabled : env.vectorDisabled = false
  model : env.vectorModel = vectorModelVersion provider
  embeds : ∀ content, ∃ variants route fallbackActive, vectorVariants env content = .ok variants ∧
    variants.map Prod.fst = resolvedModels provider route fallbackActive

def uncovered (model now : String) (db : Db) : Nat := ((liveRows now db).filter (fun row => !covered model db row)).length

-- `passed k` is what pass `k` answers, between `state k` and `state (k + 1)`.
structure Converges (model now : String) (state : Nat → Db) (passed : Nat → Except EmbeddingFailure (Option ReindexReport)) : Prop where
  reports : ∀ k, ∃ report, passed k = .ok (some report) ∧ report.vectorCoverage = coverage model now (state (k + 1))
  keeps : ∀ k, coverage model now (state k) ≤ coverage model now (state (k + 1))
  reaches : ∃ k, uncovered model now (state k) = 0
  advances : ∀ k, uncovered model now (state k) ≠ 0 → uncovered model now (state (k + 1)) < uncovered model now (state k)

theorem upsertKeys (key : String → String → Bool) (rows : List Vector) (row : Vector) :
    (upsertVectorRow rows row).any (fun v => key v.observationId v.model) =
      (rows.any (fun v => key v.observationId v.model) || key row.observationId row.model) := by
  unfold upsertVectorRow
  simp only
  split
  · rename_i held
    obtain ⟨old, mem, same⟩ := List.any_eq_true.mp held
    simp only [Bool.and_eq_true, decide_eq_true_eq] at same
    have pairs : (Tables.update (fun old : Vector => old.observationId = row.observationId && old.model = row.model)
        (fun old => {old with dimension := row.dimension, vectorJson := row.vectorJson, updatedAt := row.updatedAt}) rows).map
        (fun v => key v.observationId v.model) = rows.map (fun v => key v.observationId v.model) :=
      Tables.updateColumn (fun v : Vector => key v.observationId v.model) (fun _ => by rfl) rows
    have anys : ∀ rows : List Vector, rows.any (fun v => key v.observationId v.model) =
        (rows.map (fun v => key v.observationId v.model)).any id := by simp [Function.comp_def]
    rw [anys, pairs, ← anys]
    cases keyed : key row.observationId row.model with
    | false => simp
    | true =>
      rw [Bool.or_true, List.any_eq_true]
      exact ⟨old, mem, by rw [same.1, same.2, keyed]⟩
  · simp

section
variable {provider : EmbeddingProvider} {env : Nat → Ambient} {model now : String} {db : Db}

variable (model db) in
-- What one row's vectors add under a model that the provider stores every text under, or none.
theorem upsertCovers {one : Ambient} (working : Working provider one) {stores : Bool}
    (either : ∀ route fallbackActive, (resolvedModels provider route fallbackActive).contains model = stores)
    (id content createdAt : String) : ∃ after, upsertVector one id content createdAt db = .ok after ∧
      after.observations = db.observations ∧
      ∀ row, covered model after row = (covered model db row || (stores && id = row.id)) := by
  obtain ⟨variants, route, fallbackActive, embedded, models⟩ := working.embeds content
  refine ⟨{db with vectors := (variants.map (fun variant =>
      (⟨id, variant.1, one.vectorDimension, variant.2, createdAt, one.clock 5⟩ : Vector))).foldl upsertVectorRow db.vectors}, ?_, rfl, ?_⟩
  · rw [upsertVector, if_neg (by simp [working.enabled]), embedded]
    rfl
  · intro row
    have folded : ∀ (variants : List (String × String)) (rows : List Vector),
        ((variants.map (fun variant => (⟨id, variant.1, one.vectorDimension, variant.2, createdAt, one.clock 5⟩ : Vector))).foldl
          upsertVectorRow rows).any (fun v => v.observationId = row.id && v.model = model) =
        (rows.any (fun v => v.observationId = row.id && v.model = model) ||
          ((variants.map Prod.fst).contains model && id = row.id)) := by
      intro variants
      induction variants with
      | nil => simp
      | cons variant rest ih =>
        intro rows
        rw [List.map_cons, List.foldl_cons, ih, upsertKeys (fun id' model' => id' = row.id && model' = model)]
        have first : (model == variant.1) = decide (variant.1 = model) := Bool.eq_iff_iff.mpr (by rw [beq_iff_eq, decide_eq_true_eq]; exact eq_comm)
        rw [List.map_cons, List.contains_cons, first]
        cases decide (id = row.id) <;> cases decide (variant.1 = model) <;> simp
    rw [covered, folded, models, either]
    rfl

variable (db) in
theorem reindexCovers (working : ∀ n, Working provider (env n)) {stores : Bool}
    (either : ∀ route fallbackActive, (resolvedModels provider route fallbackActive).contains model = stores)
    (n : Nat) (rows : List Observation) : (reindexRows env n rows db).2 = none ∧
      (reindexRows env n rows db).1.observations = db.observations ∧
      ∀ row, covered model (reindexRows env n rows db).1 row =
        (covered model db row || (stores && rows.any (fun picked => picked.id = row.id))) := by
  induction rows generalizing n db with
  | nil => simp [reindexRows]
  | cons first rest ih =>
    obtain ⟨after, ok, observations, covers⟩ := upsertCovers model db (working n) either first.id
      first.contentRedacted (if first.createdAt = "" then (env n).clock 6 else first.createdAt)
    obtain ⟨done, same, later⟩ := ih after (n + 1)
    rw [reindexRows, ok]
    refine ⟨done, same.trans observations, fun row => ?_⟩
    rw [later, covers, List.any_cons, Bool.or_assoc, Bool.and_or_distrib_left]

theorem limitPositive (limit : Js.Number) : 0 < Search.clampLimit limit 100 1 10000 := by
  unfold Search.clampLimit
  split
  · omega
  · decide

-- While something is uncovered, a pass picks something uncovered.
theorem pickedUncovered {limit : Nat} (positive : 0 < limit) (left : uncovered model now db ≠ 0) :
    ∃ row ∈ pickedRows model now db limit, row ∈ liveRows now db ∧ covered model db row = false := by
  have bare : ∀ row, hasVector db row = false → covered model db row = false := by
    intro row none
    rw [hasVector, List.any_eq_false] at none
    exact List.any_eq_false.mpr (fun v mem => by simpa using fun same _ => absurd same (by simpa using none v mem))
  have front : ∀ {rows : List Observation}, rows.take limit ≠ [] → ∃ row ∈ rows.take limit, row ∈ rows := by
    intro rows some'
    obtain ⟨row, mem⟩ := List.exists_mem_of_ne_nil _ some'
    exact ⟨row, mem, List.mem_of_mem_take mem⟩
  unfold pickedRows
  split
  · rename_i some'
    obtain ⟨row, mem, inside⟩ := front some'
    obtain ⟨live, none⟩ := List.mem_filter.mp ((Tables.memOrderBy _).mp inside)
    exact ⟨row, mem, live, bare row (by simpa using none)⟩
  split
  · rename_i some'
    obtain ⟨row, mem, inside⟩ := front some'
    obtain ⟨live, legacy⟩ := List.mem_filter.mp ((Tables.memOrderBy _).mp inside)
    rw [Bool.and_eq_true, Bool.not_eq_true'] at legacy
    exact ⟨row, mem, live, legacy.2⟩
  · rename_i noMissing noLegacy
    exfalso
    have empty : ∀ {rows : List Observation}, ¬ (latestFirst rows).take limit ≠ [] → rows = [] := by
      intro rows none
      rw [not_not, List.take_eq_nil_iff] at none
      exact Tables.orderByEmpty.mp (none.resolve_left (by omega))
    have some' : (liveRows now db).filter (fun row => !covered model db row) ≠ [] := fun none => left (by rw [uncovered, none]; rfl)
    obtain ⟨row, mem⟩ := List.exists_mem_of_ne_nil _ some'
    obtain ⟨live, open'⟩ := List.mem_filter.mp mem
    cases held : hasVector db row with
    | false =>
      have missing : row ∈ (liveRows now db).filter (fun row => !hasVector db row) :=
        List.mem_filter.mpr ⟨live, by rw [held]; rfl⟩
      rw [empty noMissing] at missing
      cases missing
    | true =>
      have legacy : row ∈ (liveRows now db).filter (fun row => hasVector db row && !covered model db row) :=
        List.mem_filter.mpr ⟨live, by rw [held, Bool.true_and]; exact open'⟩
      rw [empty noLegacy] at legacy
      cases legacy
end

section
variable {provider : EmbeddingProvider} {model now : String} {db : Db}

-- One pass of a working provider: the observations stay, and the picked ones are covered or none is.
theorem passCovers (pass : Pass) (working : ∀ n, Working provider (pass.env n)) {stores : Bool}
    (either : ∀ route fallbackActive, (resolvedModels provider route fallbackActive).contains (vectorModelVersion provider) = stores)
    (db : Db) : (reindexVectors pass db).1.observations = db.observations ∧
      (∃ reindexed limit, (reindexVectors pass db).2 =
        .ok (some (report (vectorModelVersion provider) pass.now (reindexVectors pass db).1 reindexed limit))) ∧
      ∀ row, covered (vectorModelVersion provider) (reindexVectors pass db).1 row =
        (covered (vectorModelVersion provider) db row || (stores &&
          (pickedRows (vectorModelVersion provider) pass.now db (Search.clampLimit pass.limit 100 1 10000)).any
            (fun picked => picked.id = row.id))) := by
  obtain ⟨done, observations, covers⟩ := reindexCovers db working either 0
    (pickedRows (vectorModelVersion provider) pass.now db (Search.clampLimit pass.limit 100 1 10000))
  rw [reindexVectors, if_neg (by simp [(working 0).enabled])]
  simp only [(working 0).model]
  rw [done]
  exact ⟨observations, ⟨_, _, rfl⟩, covers⟩

theorem uncoveredLe {after : Db} (same : after.observations = db.observations)
    (more : ∀ row, covered model db row = true → covered model after row = true) :
    uncovered model now after ≤ uncovered model now db := by
  rw [uncovered, uncovered, liveRows, same, ← liveRows, ← List.countP_eq_length_filter, ← List.countP_eq_length_filter]
  refine List.countP_mono_left (fun row _ left => ?_)
  rw [Bool.not_eq_true'] at left ⊢
  exact Bool.eq_false_of_not_eq_true (fun held => by simp [more row held] at left)

theorem uncoveredLt {after : Db} (same : after.observations = db.observations)
    (more : ∀ row, covered model db row = true → covered model after row = true) {row : Observation}
    (live : row ∈ liveRows now db) (before : covered model db row = false) (now' : covered model after row = true) :
    uncovered model now after < uncovered model now db := by
  obtain ⟨front, back, split⟩ := List.append_of_mem live
  have part : ∀ rows : List Observation, rows.countP (fun row => !covered model after row) ≤
      rows.countP (fun row => !covered model db row) := by
    refine fun rows => List.countP_mono_left (fun row _ left => ?_)
    rw [Bool.not_eq_true'] at left ⊢
    exact Bool.eq_false_of_not_eq_true (fun held => by simp [more row held] at left)
  have here : liveRows now after = liveRows now db := by rw [liveRows, same, ← liveRows]
  rw [uncovered, uncovered, here, ← List.countP_eq_length_filter, ← List.countP_eq_length_filter, split, List.countP_append,
    List.countP_append, List.countP_cons_of_neg (by simp [now']), List.countP_cons_of_pos (by simp [before])]
  have := part front
  have := part back
  omega

theorem coverageUncovered : coverage model now db =
    if (liveRows now db).length = 0 then 1 else 1 - (uncovered model now db : ℚ) / (liveRows now db).length := by
  have both : currentCount model now db + uncovered model now db = (liveRows now db).length := by
    rw [currentCount, uncovered, ← List.countP_eq_length_filter, ← List.countP_eq_length_filter,
      List.length_eq_countP_add_countP (covered model db)]
    simp
  unfold coverage
  split
  · rfl
  · rename_i some'
    have total : ((liveRows now db).length : ℚ) ≠ 0 := Nat.cast_ne_zero.mpr some'
    rw [eq_sub_iff_add_eq, ← add_div, ← Nat.cast_add, both, div_self total]

theorem coverageLe {after : Db} (same : after.observations = db.observations)
    (fewer : uncovered model now after ≤ uncovered model now db) : coverage model now db ≤ coverage model now after := by
  have here : liveRows now after = liveRows now db := by rw [liveRows, same, ← liveRows]
  rw [coverageUncovered, coverageUncovered, here]
  split
  · exact le_refl _
  · have : (uncovered model now after : ℚ) / (liveRows now db).length ≤ uncovered model now db / (liveRows now db).length := by
      gcongr
    linarith

theorem uncoveredSteady {now' : String} (steady : ∀ row ∈ db.observations, archivedFilter now' false row = archivedFilter now false row) :
    liveRows now' db = liveRows now db :=
  List.filter_congr steady

-- What one pass does to the uncovered rows, by whether the provider stores texts under the counted name.
theorem passUncovered (pass : Pass) (working : ∀ n, Working provider (pass.env n)) {stores : Bool}
    (either : ∀ route fallbackActive, (resolvedModels provider route fallbackActive).contains (vectorModelVersion provider) = stores)
    (steady : liveRows pass.now db = liveRows now db) :
    uncovered (vectorModelVersion provider) now (reindexVectors pass db).1 ≤ uncovered (vectorModelVersion provider) now db ∧
      (uncovered (vectorModelVersion provider) now db ≠ 0 →
        (uncovered (vectorModelVersion provider) now (reindexVectors pass db).1 <
          uncovered (vectorModelVersion provider) now db ↔ stores = true)) := by
  obtain ⟨same, -, covers⟩ := passCovers pass working either db
  have more : ∀ row, covered (vectorModelVersion provider) db row = true →
      covered (vectorModelVersion provider) (reindexVectors pass db).1 row = true := by
    intro row held
    rw [covers, held, Bool.true_or]
  refine ⟨uncoveredLe same more, fun left => ⟨fun fewer => ?_, fun is => ?_⟩⟩
  · by_contra none
    rw [Bool.not_eq_true] at none
    have kept : ∀ row, covered (vectorModelVersion provider) (reindexVectors pass db).1 row =
        covered (vectorModelVersion provider) db row := by
      intro row
      rw [covers, none, Bool.false_and, Bool.or_false]
    have here : liveRows now (reindexVectors pass db).1 = liveRows now db := by rw [liveRows, same, ← liveRows]
    rw [uncovered, uncovered, here] at fewer
    simp only [kept] at fewer
    exact absurd fewer (lt_irrefl _)
  · have left' : uncovered (vectorModelVersion provider) pass.now db ≠ 0 := by
      rwa [uncovered, steady, ← uncovered]
    obtain ⟨row, picked, live, open'⟩ := pickedUncovered (limitPositive pass.limit) left'
    rw [steady] at live
    refine uncoveredLt same more live open' ?_
    rw [covers, is, Bool.true_and, List.any_eq_true.mpr ⟨row, picked, by simp⟩, Bool.or_true]
end

section
variable (host : Host) (options : EmbeddingRegistryOptions)

theorem storesPlain {provider : EmbeddingProvider} (plain : provider.labels = none) (route : AdaptiveRoute) (fallbackActive : Bool) :
    (resolvedModels provider route fallbackActive).contains (vectorModelVersion provider) = true := by
  simp [resolvedModels, plain]

theorem storesEither : ∀ route fallbackActive,
    (resolvedModels (createEmbeddingProviderRegistry host options) route fallbackActive).contains
      (vectorModelVersion (createEmbeddingProviderRegistry host options)) = decide (requestedProvider host options ≠ "adaptive") := by
  intro route fallbackActive
  by_cases is : requestedProvider host options = "adaptive"
  · rw [registryAdaptive host options is, decide_eq_false (not_not.mpr is)]
    simpa using adaptiveUncounted options route fallbackActive
  · rw [storesPlain (registryPlain host options is), decide_eq_true is]

theorem potentialReaches {potential : Nat → Nat} (advances : ∀ k, potential k ≠ 0 → potential (k + 1) < potential k) (start : Nat) :
    ∃ k, start ≤ k ∧ potential k = 0 := by
  induction measured : potential start using Nat.strong_induction_on generalizing start with
  | _ n ih =>
    by_cases none : potential start = 0
    · exact ⟨start, le_refl _, none⟩
    · obtain ⟨k, after, done⟩ := ih _ (measured ▸ advances start none) (start + 1) rfl
      exact ⟨k, by omega, done⟩

theorem passesObservations (db : Db) {pass : Nat → Pass}
    (working : ∀ k n, Working (createEmbeddingProviderRegistry host options) ((pass k).env n)) (k : Nat) :
    (passes pass db k).observations = db.observations := by
  induction k with
  | zero => rfl
  | succ k ih => exact (passCovers (pass k) (working k) (storesEither host options) _).1.trans ih

theorem backfillConverges {pass : Nat → Pass} {now : String} {db : Db}
    (working : ∀ k n, Working (createEmbeddingProviderRegistry host options) ((pass k).env n))
    (steady : ∀ k, ∀ row ∈ db.observations, archivedFilter (pass k).now false row = archivedFilter now false row) :
    Converges (vectorModelVersion (createEmbeddingProviderRegistry host options)) now (passes pass db)
        (fun k => (reindexVectors (pass k) (passes pass db k)).2) ↔
      requestedProvider host options ≠ "adaptive" ∨
        uncovered (vectorModelVersion (createEmbeddingProviderRegistry host options)) now db = 0 := by
  have same := passesObservations host options db working
  have live : ∀ k db', db'.observations = db.observations → liveRows (pass k).now db' = liveRows now db' :=
    fun k db' same => uncoveredSteady (by rw [same]; exact steady k)
  have step := fun k => passUncovered (pass k) (working k) (storesEither host options) (live k _ (same k))
  have keeps : ∀ k, uncovered (vectorModelVersion (createEmbeddingProviderRegistry host options)) now (passes pass db (k + 1)) ≤
      uncovered (vectorModelVersion (createEmbeddingProviderRegistry host options)) now (passes pass db k) := fun k => (step k).1
  constructor
  · intro converges
    by_contra neither
    rw [not_or, not_not] at neither
    -- An adaptive provider covers nothing, so the first pass already fails to advance.
    have fewer := ((step 0).2 neither.2).mp (converges.advances 0 neither.2)
    exact absurd neither.1 (of_decide_eq_true fewer)
  · intro either
    have advances : ∀ k, uncovered (vectorModelVersion (createEmbeddingProviderRegistry host options)) now (passes pass db k) ≠ 0 →
        uncovered (vectorModelVersion (createEmbeddingProviderRegistry host options)) now (passes pass db (k + 1)) <
          uncovered (vectorModelVersion (createEmbeddingProviderRegistry host options)) now (passes pass db k) := by
      intro k left
      rcases either with other | none
      · exact ((step k).2 left).mpr (decide_eq_true other)
      · have first : uncovered (vectorModelVersion (createEmbeddingProviderRegistry host options)) now (passes pass db k) ≤
            uncovered (vectorModelVersion (createEmbeddingProviderRegistry host options)) now (passes pass db 0) :=
          antitone_nat_of_succ_le (f := fun k => uncovered (vectorModelVersion (createEmbeddingProviderRegistry host options)) now
            (passes pass db k)) keeps (Nat.zero_le k)
        exact absurd (Nat.le_zero.mp (first.trans_eq none)) left
    refine ⟨fun k => ?_, fun k => coverageLe ((same (k + 1)).trans (same k).symm) (keeps k), ?_, advances⟩
    · obtain ⟨-, ⟨reindexed, limit, ok⟩, -⟩ := passCovers (pass k) (working k) (storesEither host options) (passes pass db k)
      refine ⟨_, ok, ?_⟩
      change coverage _ (pass k).now (passes pass db (k + 1)) = _
      rw [coverage, currentCount, live k _ (same (k + 1)), ← currentCount, ← coverage]
    · obtain ⟨k, -, none⟩ := potentialReaches advances 0
      exact ⟨k, none⟩
end

def providerOptions (providerName : Option String) : EmbeddingRegistryOptions :=
  ⟨providerName, none, none, none, none, none, none, none, fun _ => false⟩

-- Every text goes to `model`.
def storing (counted model : String) : Ambient :=
  {plainAmbient with vectorDisabled := false, vectorModel := counted, passageEmbeddings := some (fun _ => .ok [(model, "[]")])}
def everyPass (env : Ambient) : Nat → Pass := fun _ => ⟨fun _ => env, "2026-01-01T00:00:00.000Z", .fin 1⟩
def oneRow : Db := {Db.empty with observations := [Search.plainRow "a" "p" "u"]}

theorem plainWorks : Working (createEmbeddingProviderRegistry plainHost (providerOptions none))
    (storing "fallback:local-hash-v3" "fallback:local-hash-v3") where
  enabled := rfl
  model := show "fallback:local-hash-v3" = _ by decide +kernel
  embeds _ := ⟨_, .ruri, false, rfl, show ["fallback:local-hash-v3"] = _ by decide +kernel⟩
theorem adaptiveWorks : Working (createEmbeddingProviderRegistry plainHost (providerOptions (some "adaptive")))
    (storing "adaptive:local-hash-v3+local-hash-v3" "adaptive:ruri:fallback:local-hash-v3") where
  enabled := rfl
  model := show "adaptive:local-hash-v3+local-hash-v3" = _ by decide +kernel
  embeds _ := ⟨_, .ruri, false, rfl, show ["adaptive:ruri:fallback:local-hash-v3"] = _ by decide +kernel⟩

theorem backfillConvergesPlain :
    (∀ k n, Working (createEmbeddingProviderRegistry plainHost (providerOptions none))
      ((everyPass (storing "fallback:local-hash-v3" "fallback:local-hash-v3") k).env n)) ∧
    (Converges (vectorModelVersion (createEmbeddingProviderRegistry plainHost (providerOptions none))) "2026-01-01T00:00:00.000Z"
        (passes (everyPass (storing "fallback:local-hash-v3" "fallback:local-hash-v3")) oneRow)
        (fun k => (reindexVectors (everyPass (storing "fallback:local-hash-v3" "fallback:local-hash-v3") k)
          (passes (everyPass (storing "fallback:local-hash-v3" "fallback:local-hash-v3")) oneRow k)).2) ↔
      requestedProvider plainHost (providerOptions none) ≠ "adaptive" ∨
        uncovered (vectorModelVersion (createEmbeddingProviderRegistry plainHost (providerOptions none))) "2026-01-01T00:00:00.000Z"
          oneRow = 0) := by
  have working : ∀ k n, Working (createEmbeddingProviderRegistry plainHost (providerOptions none))
      ((everyPass (storing "fallback:local-hash-v3" "fallback:local-hash-v3") k).env n) :=
    fun _ _ => plainWorks
  exact ⟨working, backfillConverges plainHost (providerOptions none) working (fun _ _ _ => rfl)⟩

-- The adaptive provider's vectors are stored under its routes' labels, its coverage is counted under the pair of models.
theorem backfillStalls :
    (∀ k n, Working (createEmbeddingProviderRegistry plainHost (providerOptions (some "adaptive")))
      ((everyPass (storing "adaptive:local-hash-v3+local-hash-v3" "adaptive:ruri:fallback:local-hash-v3") k).env n)) ∧
    ¬ Converges (vectorModelVersion (createEmbeddingProviderRegistry plainHost (providerOptions (some "adaptive"))))
        "2026-01-01T00:00:00.000Z"
        (passes (everyPass (storing "adaptive:local-hash-v3+local-hash-v3" "adaptive:ruri:fallback:local-hash-v3")) oneRow)
        (fun k => (reindexVectors
          (everyPass (storing "adaptive:local-hash-v3+local-hash-v3" "adaptive:ruri:fallback:local-hash-v3") k)
          (passes (everyPass (storing "adaptive:local-hash-v3+local-hash-v3" "adaptive:ruri:fallback:local-hash-v3")) oneRow k)).2) := by
  have working : ∀ k n, Working (createEmbeddingProviderRegistry plainHost (providerOptions (some "adaptive")))
      ((everyPass (storing "adaptive:local-hash-v3+local-hash-v3" "adaptive:ruri:fallback:local-hash-v3") k).env n) :=
    fun _ _ => adaptiveWorks
  refine ⟨working, fun converges => ?_⟩
  have left : uncovered (vectorModelVersion (createEmbeddingProviderRegistry plainHost (providerOptions (some "adaptive"))))
      "2026-01-01T00:00:00.000Z" oneRow ≠ 0 := by decide
  have fewer := ((passUncovered _ (working 0) (storesEither plainHost (providerOptions (some "adaptive"))) rfl).2 left).mp
    (converges.advances 0 left)
  exact absurd (by decide +kernel) (of_decide_eq_true fewer)

end HarnessMem.VectorBackfill
