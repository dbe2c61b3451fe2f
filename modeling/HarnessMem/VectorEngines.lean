import HarnessMem.Lib.Pages
import HarnessMem.Search
import Mathlib.Data.Prod.Lex

/-! The two branches of `vectorSearch`: all admitted vectors compared one by one, and the nearest
rows of the extension's table filtered afterwards. Distances and similarities are exact. -/
namespace HarnessMem.Search
open Js Recorder Pages

structure VecRow (Embedding : Type) where
  rowid : Nat
  embedding : Embedding

structure MapRow where
  rowid : Nat
  observationId : String
  deriving DecidableEq, Repr

-- The tables of one model, with the keys that their definitions declare.
structure VecTables (Embedding : Type) where
  rows : List (VecRow Embedding)
  map : List MapRow
  rowsKeyed : (rows.map VecRow.rowid).Nodup
  mapKeyed : (map.map MapRow.rowid).Nodup
  mapUnique : (map.map MapRow.observationId).Nodup

-- A model and the query's vector for it: how far a row is, the order in which the extension ranks
-- rows, nearest first, and the cosine similarity of a stored array.
structure Target (Embedding Key : Type) [LinearOrder Key] where
  model : String
  weight : ℚ
  distance : Embedding → ℚ
  place : VecRow Embedding → Key
  exact : ∀ a b, place a < place b → distance a.embedding ≤ distance b.embedding
  apart : ∀ a b, place a = place b → a.rowid = b.rowid
  cosine : List Json → ℚ

def setScore (scores : List (String × ℚ)) (id : String) (score : ℚ) : List (String × ℚ) :=
  if scores.any (fun entry => entry.1 = id) then
    scores.map (fun entry => if entry.1 = id then (id, score) else entry)
  else scores ++ [(id, score)]
def scoreMap (entries : List (String × ℚ)) : List (String × ℚ) :=
  entries.foldl (fun scores entry => setScore scores entry.1 entry.2) []

def least (values : List ℚ) : ℚ := values.foldl min (values.headD 0)
def greatest (values : List ℚ) : ℚ := values.foldl max (values.headD 0)

def normalizeScoreMap (raw : List (String × ℚ)) : List (String × ℚ) :=
  let low := least (raw.map Prod.snd)
  let high := greatest (raw.map Prod.snd)
  raw.map (fun entry => (entry.1, if high = low then 1 else (entry.2 - low) / (high - low)))

def fuse (weight : ℚ) (fused : List (String × ℚ)) (entry : String × ℚ) : List (String × ℚ) :=
  setScore fused entry.1 ((scoreOf fused entry.1).getD 0 + entry.2 * weight)

-- The weighted sums of the score sets.
def mergeScoreSets (scoreSets : List (ℚ × List (String × ℚ))) : List (String × ℚ) :=
  normalizeScoreMap (scoreSets.foldl (fun fused scoreSet => scoreSet.2.foldl (fuse scoreSet.1) fused) [])

def isNumber : Json → Bool
  | .num _ => true
  | _ => false

section
variable {Embedding Key : Type} [LinearOrder Key] (host : Host) (settings : Settings) (dimension : Nat)
  (request : Normalized) (limit : Nat) (db : Db) (target : Target Embedding Key)

def strictProjectWindow : Nat :=
  if (truthy request.project).isSome ∧ request.strictProject then min 1500 (max 600 (limit * 12))
  else min 2000 (max 800 (limit * 20))

-- mem_vectors v JOIN mem_observations o, for the model and the dimension, where the filters hold
def vectorRows : List (Vector × Observation) :=
  (db.vectors.filter (fun v => v.model = target.model && v.dimension = dimension)).flatMap (fun v =>
    ((admitted host settings request db).filter (fun row => row.id = v.observationId)).map (fun row => (v, row)))

def similarity (vectorJson : String) : Option ℚ :=
  match host.parseJson vectorJson with
  | some (.arr items) => some ((target.cosine (items.filter isNumber) + 1) / 2)
  | _ => none

def scored (pair : Vector × Observation) : Option (String × ℚ) :=
  (similarity host target pair.1.vectorJson).map (fun score => (pair.2.id, score))

def runBruteForce : List (String × ℚ) :=
  ((Tables.orderBy (fun a b => b.2.createdAt ≤ a.2.createdAt) (vectorRows host settings dimension request db target)).take
    (strictProjectWindow request limit)).filterMap (scored host target)

def bruteForceScores : List (String × ℚ) :=
  normalizeScoreMap (scoreMap ((Tables.orderBy (fun a b => b.2 ≤ a.2)
    (runBruteForce host settings dimension request limit db target)).take limit))

def byPlace (row : VecRow Embedding) : Keyᵒᵈ := OrderDual.toDual (target.place row)
def everyRow (_ : VecRow Embedding) : Bool := true
-- `embedding MATCH ? AND k = ?`
def nearest (k : Nat) (rows : List (VecRow Embedding)) : List (VecRow Embedding) :=
  shown (byPlace target) everyRow (some k) rows

variable (tables : VecTables Embedding)

def mapped : List (String × ℚ) :=
  (nearest target (limit * 3) tables.rows).flatMap (fun v =>
    (tables.map.filter (fun m => m.rowid = v.rowid)).map (fun m => (m.observationId, target.distance v.embedding)))

def joined : List (String × ℚ) :=
  (mapped limit target tables).flatMap (fun c =>
    ((vectorRows host settings dimension request db target).filter (fun pair => pair.2.id = c.1)).map (fun pair => (pair.2.id, c.2)))

def sqliteScores : List (String × ℚ) :=
  normalizeScoreMap (scoreMap (((Tables.orderBy (fun a b => a.2 ≤ b.2)
    (joined host settings dimension request limit db target tables)).take limit).map (fun row => (row.1, 1 / (1 + max 0 row.2)))))

-- The extension's branch runs where it is ready and has the tables of every target.
def runVariantSearch (ready : Bool) (tablesOf : String → Option (VecTables Embedding)) (targets : List (Target Embedding Key)) :
    List (String × ℚ) :=
  if ready ∧ targets ≠ [] ∧ ∀ target ∈ targets, (tablesOf target.model).isSome then
    mergeScoreSets (targets.filterMap (fun target => (tablesOf target.model).map (fun tables =>
      (target.weight, sqliteScores host settings dimension request limit db target tables))))
  else mergeScoreSets (targets.map (fun target =>
    (target.weight, bruteForceScores host settings dimension request limit db target)))

end

theorem setScoreKeys {scores : List (String × ℚ)} {id key : String} {score : ℚ} :
    key ∈ (setScore scores id score).map Prod.fst ↔ key ∈ scores.map Prod.fst ∨ key = id := by
  unfold setScore
  split
  · rename_i found
    have same : (scores.map (fun entry => if entry.1 = id then (id, score) else entry)).map Prod.fst = scores.map Prod.fst := by
      rw [List.map_map]
      refine List.map_congr_left fun entry _ => ?_
      by_cases here : entry.1 = id <;> simp [here]
    rw [same]
    refine (or_iff_left_of_imp ?_).symm
    rintro rfl
    obtain ⟨entry, mem, is⟩ := List.any_eq_true.mp found
    exact List.mem_map.mpr ⟨entry, mem, of_decide_eq_true is⟩
  · simp [eq_comm]

theorem foldKeys {step : List (String × ℚ) → String × ℚ → List (String × ℚ)}
    (each : ∀ scores entry key, key ∈ (step scores entry).map Prod.fst ↔ key ∈ scores.map Prod.fst ∨ key = entry.1)
    {entries : List (String × ℚ)} {start : List (String × ℚ)} {key : String} :
    key ∈ (entries.foldl step start).map Prod.fst ↔ key ∈ start.map Prod.fst ∨ key ∈ entries.map Prod.fst := by
  induction entries generalizing start with
  | nil => simp
  | cons entry rest ih => rw [List.foldl_cons, ih, each, List.map_cons, List.mem_cons, or_assoc]

theorem scoreMapKeys {entries : List (String × ℚ)} {key : String} :
    key ∈ (scoreMap entries).map Prod.fst ↔ key ∈ entries.map Prod.fst := by
  rw [scoreMap, foldKeys (fun _ _ _ => setScoreKeys), List.map_nil, or_iff_right List.not_mem_nil]

theorem normalizeKeys (raw : List (String × ℚ)) : (normalizeScoreMap raw).map Prod.fst = raw.map Prod.fst := by
  rw [normalizeScoreMap, List.map_map]
  rfl

theorem fuseKeys {weight : ℚ} (fused : List (String × ℚ)) (entry : String × ℚ) (key : String) :
    key ∈ (fuse weight fused entry).map Prod.fst ↔ key ∈ fused.map Prod.fst ∨ key = entry.1 := setScoreKeys

theorem mergeKeys {scoreSets : List (ℚ × List (String × ℚ))} {key : String} :
    key ∈ (mergeScoreSets scoreSets).map Prod.fst ↔ ∃ scoreSet ∈ scoreSets, key ∈ scoreSet.2.map Prod.fst := by
  have fused : ∀ start : List (String × ℚ), key ∈ (scoreSets.foldl (fun fused scoreSet =>
      scoreSet.2.foldl (fuse scoreSet.1) fused) start).map Prod.fst ↔
        key ∈ start.map Prod.fst ∨ ∃ scoreSet ∈ scoreSets, key ∈ scoreSet.2.map Prod.fst := by
    induction scoreSets with
    | nil => simp
    | cons scoreSet rest ih =>
      intro start
      rw [List.foldl_cons, ih, foldKeys fuseKeys]
      simp [or_assoc]
  rw [mergeScoreSets, normalizeKeys, fused, List.map_nil, or_iff_right List.not_mem_nil]

section
variable {Embedding Key : Type} [LinearOrder Key] {host : Host} {settings : Settings} {dimension : Nat}
  {request : Normalized} {limit : Nat} {db : Db} {target : Target Embedding Key}

-- The primary keys of the two tables.
structure Keyed (db : Db) : Prop where
  observations : (db.observations.map Observation.id).Nodup
  vectors : (db.vectors.map (fun v => (v.observationId, v.model))).Nodup

variable (host settings request db target) in
-- All vectors of the model, with the observations that the filters admit.
def modelRows : List (Vector × Observation) :=
  (db.vectors.filter (fun v => v.model = target.model)).flatMap (fun v =>
    ((admitted host settings request db).filter (fun row => row.id = v.observationId)).map (fun row => (v, row)))

theorem vectorRowsFilter : vectorRows host settings dimension request db target =
    (modelRows host settings request db target).filter (fun pair => pair.1.dimension = dimension) := by
  have each : ∀ (rows : Vector → List Observation) (vectors : List Vector),
      (vectors.filter (fun v => v.dimension = dimension)).flatMap (fun v => (rows v).map (fun row => (v, row))) =
        (vectors.flatMap (fun v => (rows v).map (fun row => (v, row)))).filter (fun pair => pair.1.dimension = dimension) := by
    intro rows vectors
    induction vectors with
    | nil => rfl
    | cons v rest ih =>
      rw [List.flatMap_cons, List.filter_append, ← ih, List.filter_map]
      by_cases same : v.dimension = dimension <;> simp [Function.comp_def, same]
  have split : db.vectors.filter (fun v => v.model = target.model && v.dimension = dimension) =
      (db.vectors.filter (fun v => v.model = target.model)).filter (fun v => v.dimension = dimension) := by
    rw [List.filter_filter]
    exact List.filter_congr fun v _ => Bool.and_comm _ _
  rw [vectorRows, split, each, modelRows]

-- An observation has one vector of a model.
theorem modelIds (keyed : Keyed db) : ((modelRows host settings request db target).map (fun pair => pair.2.id)).Nodup := by
  have inner : ∀ v : Vector, (((admitted host settings request db).filter (fun row => row.id = v.observationId)).map
      (fun row => (v, row))).map (fun pair : Vector × Observation => pair.2.id) =
        ((admitted host settings request db).filter (fun row => row.id = v.observationId)).map Observation.id := fun v => by
    rw [List.map_map]
    rfl
  have named : ∀ (v : Vector) (id : String), id ∈ ((admitted host settings request db).filter
      (fun row => row.id = v.observationId)).map Observation.id → id = v.observationId := by
    intro v id mem
    obtain ⟨row, kept, rfl⟩ := List.mem_map.mp mem
    exact of_decide_eq_true (List.mem_filter.mp kept).2
  rw [modelRows, List.map_flatMap]
  simp only [inner]
  refine List.nodup_flatMap.mpr ⟨fun v _ => ?_, ?_⟩
  · exact (keyed.observations.sublist (List.filter_sublist.map Observation.id)).sublist (List.filter_sublist.map _)
  · have distinct : (db.vectors.filter (fun v => v.model = target.model)).Pairwise
        (fun a b => (a.observationId, a.model) ≠ (b.observationId, b.model)) :=
      (List.pairwise_map.mp keyed.vectors).sublist List.filter_sublist
    refine distinct.imp_of_mem fun memA memB apart => ?_
    intro id inA inB
    have modelA := of_decide_eq_true (List.mem_filter.mp memA).2
    have modelB := of_decide_eq_true (List.mem_filter.mp memB).2
    exact apart (by rw [← named _ _ inA, ← named _ _ inB, modelA, modelB])

theorem vectorIds (keyed : Keyed db) :
    ((vectorRows host settings dimension request db target).map (fun pair => pair.2.id)).Nodup := by
  rw [vectorRowsFilter]
  exact (modelIds keyed).sublist (List.filter_sublist.map _)

-- An observation with a vector that is compared.
def Compared (host : Host) (settings : Settings) (dimension : Nat) (request : Normalized) (db : Db)
    (target : Target Embedding Key) (id : String) : Prop :=
  ∃ pair ∈ vectorRows host settings dimension request db target, pair.2.id = id

-- The table holds a row for the observation, and fewer than `k` rows come before it.
def Near (target : Target Embedding Key) (tables : VecTables Embedding) (k : Nat) (id : String) : Prop :=
  ∃ v ∈ tables.rows, ∃ m ∈ tables.map, m.rowid = v.rowid ∧ m.observationId = id ∧
    (tables.rows.filter (fun other => target.place other < target.place v)).length < k

theorem windowWide (few : limit ≤ 500) : limit ≤ strictProjectWindow request limit := by
  unfold strictProjectWindow
  split <;> omega

theorem bruteKeys (few : limit ≤ 500) (small : (vectorRows host settings dimension request db target).length ≤ limit) {id : String} :
    id ∈ (bruteForceScores host settings dimension request limit db target).map Prod.fst ↔
      ∃ pair ∈ vectorRows host settings dimension request db target,
        (similarity host target pair.1.vectorJson).isSome = true ∧ pair.2.id = id := by
  have all : (Tables.orderBy (fun a b => b.2.createdAt ≤ a.2.createdAt) (vectorRows host settings dimension request db target)).take
      (strictProjectWindow request limit) =
        Tables.orderBy (fun a b => b.2.createdAt ≤ a.2.createdAt) (vectorRows host settings dimension request db target) := by
    refine List.take_of_length_le ?_
    rw [Tables.orderBy, List.length_insertionSort]
    exact small.trans (windowWide few)
  have short : (runBruteForce host settings dimension request limit db target).length ≤ limit := by
    rw [runBruteForce, all]
    refine (List.length_filterMap_le _ _).trans ?_
    rwa [Tables.orderBy, List.length_insertionSort]
  rw [bruteForceScores, normalizeKeys, scoreMapKeys, List.take_of_length_le (by rwa [Tables.orderBy, List.length_insertionSort]),
    runBruteForce, all]
  simp only [List.mem_map, Tables.memOrderBy, List.mem_filterMap, scored]
  constructor
  · rintro ⟨entry, ⟨pair, mem, is⟩, rfl⟩
    obtain ⟨score, found, rfl⟩ := Option.map_eq_some_iff.mp is
    exact ⟨pair, mem, Option.isSome_of_mem found, rfl⟩
  · rintro ⟨pair, mem, parsed, rfl⟩
    obtain ⟨score, found⟩ := Option.isSome_iff_exists.mp parsed
    exact ⟨(pair.2.id, score), ⟨pair, mem, by rw [found]; rfl⟩, rfl⟩

variable {tables : VecTables Embedding}

theorem placesApart : (tables.rows.map (byPlace target)).Nodup := by
  refine (List.pairwise_map.mp tables.rowsKeyed).map _ fun a b apart same => apart ?_
  exact target.apart a b (OrderDual.toDual.injective same)

theorem nearestKeys {k : Nat} {v : VecRow Embedding} : v ∈ nearest target k tables.rows ↔
    v ∈ tables.rows ∧ (tables.rows.filter (fun other => target.place other < target.place v)).length < k := by
  have late : Late (byPlace target) everyRow (some k) tables.rows v ↔
      k ≤ (tables.rows.filter (fun other => target.place other < target.place v)).length := by
    simp [Late, everyRow, byPlace, OrderDual.toDual_lt_toDual]
  constructor
  · intro mem
    have held := ((shownFits everyRow (some k) placesApart).kept v mem).1
    exact ⟨held, not_le.mp fun crowded => shownNotLate placesApart mem (late.mpr crowded)⟩
  · rintro ⟨held, free⟩
    exact (memShown placesApart held rfl).mpr fun behind => absurd (late.mp behind) (not_le.mpr free)

theorem mappedKeys {id : String} : id ∈ (mapped limit target tables).map Prod.fst ↔ Near target tables (limit * 3) id := by
  simp only [mapped, Near, List.map_flatMap, List.map_map, List.mem_flatMap, nearestKeys, List.mem_map, List.mem_filter,
    decide_eq_true_eq, Function.comp_apply]
  constructor
  · rintro ⟨v, ⟨held, free⟩, m, ⟨inMap, same⟩, rfl⟩
    exact ⟨v, held, m, inMap, same, rfl, free⟩
  · rintro ⟨v, held, m, inMap, same, rfl, free⟩
    exact ⟨v, ⟨held, free⟩, m, ⟨inMap, same⟩, rfl⟩

theorem mappedIds : ((mapped limit target tables).map Prod.fst).Nodup := by
  have inner : ∀ v : VecRow Embedding, ((tables.map.filter (fun m => m.rowid = v.rowid)).map (fun m =>
      (m.observationId, target.distance v.embedding))).map Prod.fst =
        (tables.map.filter (fun m => m.rowid = v.rowid)).map MapRow.observationId := fun v => by
    rw [List.map_map]
    rfl
  rw [mapped, List.map_flatMap]
  simp only [inner]
  refine List.nodup_flatMap.mpr ⟨fun v _ => tables.mapUnique.sublist (List.filter_sublist.map _), ?_⟩
  have distinct : (nearest target (limit * 3) tables.rows).Pairwise (fun a b => byPlace target a > byPlace target b) :=
    (shownFits everyRow (some (limit * 3)) placesApart).order
  refine distinct.imp_of_mem fun inA inB apart => ?_
  intro id first second
  obtain ⟨m, found, rfl⟩ := List.mem_map.mp first
  obtain ⟨m', found', same⟩ := List.mem_map.mp second
  obtain ⟨held, row⟩ := List.mem_filter.mp found
  obtain ⟨held', row'⟩ := List.mem_filter.mp found'
  obtain rfl := List.inj_on_of_nodup_map tables.mapUnique held' held same
  have rowids := (of_decide_eq_true row).symm.trans (of_decide_eq_true row')
  have rows := List.inj_on_of_nodup_map tables.rowsKeyed (nearestKeys.mp inA).1 (nearestKeys.mp inB).1 rowids
  exact absurd (rows ▸ apart) (lt_irrefl _)

theorem joinedKeys {id : String} : id ∈ (joined host settings dimension request limit db target tables).map Prod.fst ↔
    Near target tables (limit * 3) id ∧ Compared host settings dimension request db target id := by
  rw [← mappedKeys]
  simp only [joined, Compared, List.map_flatMap, List.map_map, List.mem_flatMap, List.mem_map, List.mem_filter,
    decide_eq_true_eq, Function.comp_apply]
  constructor
  · rintro ⟨c, inC, pair, ⟨mem, same⟩, rfl⟩
    exact ⟨⟨c, inC, same.symm⟩, pair, mem, rfl⟩
  · rintro ⟨⟨c, inC, rfl⟩, pair, mem, same⟩
    exact ⟨c, inC, pair, ⟨mem, same⟩, same⟩

-- One row for an observation at most, so the limit cuts none off.
theorem joinedShort (keyed : Keyed db) (small : (vectorRows host settings dimension request db target).length ≤ limit) :
    (joined host settings dimension request limit db target tables).length ≤ limit := by
  have inner : ∀ c : String × ℚ, (((vectorRows host settings dimension request db target).filter (fun pair => pair.2.id = c.1)).map
      (fun pair => (pair.2.id, c.2))).map Prod.fst =
        ((vectorRows host settings dimension request db target).filter (fun pair => pair.2.id = c.1)).map (fun pair => pair.2.id) :=
    fun c => by
      rw [List.map_map]
      rfl
  have named : ∀ (c : String × ℚ) (id : String), id ∈ ((vectorRows host settings dimension request db target).filter
      (fun pair => pair.2.id = c.1)).map (fun pair => pair.2.id) → id = c.1 := by
    intro c id mem
    obtain ⟨pair, found, rfl⟩ := List.mem_map.mp mem
    exact of_decide_eq_true (List.mem_filter.mp found).2
  have distinct : ((joined host settings dimension request limit db target tables).map Prod.fst).Nodup := by
    rw [joined, List.map_flatMap]
    simp only [inner]
    refine List.nodup_flatMap.mpr ⟨fun c _ => (vectorIds keyed).sublist (List.filter_sublist.map _), ?_⟩
    refine (List.pairwise_map.mp mappedIds).imp fun apart id first second => apart ?_
    exact (named _ _ first).symm.trans (named _ _ second)
  have within : (joined host settings dimension request limit db target tables).map Prod.fst ⊆
      (vectorRows host settings dimension request db target).map (fun pair => pair.2.id) := by
    intro id mem
    obtain ⟨pair, held, rfl⟩ := (joinedKeys.mp mem).2
    exact List.mem_map.mpr ⟨pair, held, rfl⟩
  have sizes := distinct.length_le_of_subset within
  rw [List.length_map, List.length_map] at sizes
  exact sizes.trans small

theorem sqliteKeys (keyed : Keyed db) (small : (vectorRows host settings dimension request db target).length ≤ limit) {id : String} :
    id ∈ (sqliteScores host settings dimension request limit db target tables).map Prod.fst ↔
      Near target tables (limit * 3) id ∧ Compared host settings dimension request db target id := by
  rw [← joinedKeys, sqliteScores, normalizeKeys, scoreMapKeys, List.take_of_length_le, List.map_map]
  · simp only [List.mem_map, Tables.memOrderBy, Function.comp_apply]
  · rw [Tables.orderBy, List.length_insertionSort]
    exact joinedShort keyed small

-- Both branches score the observations that the filters admit and that have a vector of the model, and no others.
def EnginesAgree (host : Host) (settings : Settings) (dimension : Nat) (request : Normalized) (limit : Nat) (db : Db)
    (target : Target Embedding Key) (tablesOf : String → Option (VecTables Embedding)) : Prop :=
  ∀ ready id, id ∈ (runVariantSearch host settings dimension request limit db ready tablesOf [target]).map Prod.fst ↔
    ∃ pair ∈ modelRows host settings request db target, pair.2.id = id

theorem readyKeys {tablesOf : String → Option (VecTables Embedding)} (there : tablesOf target.model = some tables) {id : String} :
    id ∈ (runVariantSearch host settings dimension request limit db true tablesOf [target]).map Prod.fst ↔
      id ∈ (sqliteScores host settings dimension request limit db target tables).map Prod.fst := by
  simp [runVariantSearch, there, mergeKeys]

theorem unreadyKeys {tablesOf : String → Option (VecTables Embedding)} {id : String} :
    id ∈ (runVariantSearch host settings dimension request limit db false tablesOf [target]).map Prod.fst ↔
      id ∈ (bruteForceScores host settings dimension request limit db target).map Prod.fst := by
  simp [runVariantSearch, mergeKeys]

-- On a scope that fits the limit the branches agree exactly if every vector in it has the server's
-- dimension, is stored as an array, and has fewer than three times the limit of rows nearer to the
-- query in the extension's table, whosever they are.
theorem enginesAgree (keyed : Keyed db) (few : limit ≤ 500)
    (small : (modelRows host settings request db target).length ≤ limit) {tablesOf : String → Option (VecTables Embedding)}
    (there : tablesOf target.model = some tables) :
    EnginesAgree host settings dimension request limit db target tablesOf ↔
      ∀ pair ∈ modelRows host settings request db target, pair.1.dimension = dimension ∧
        (similarity host target pair.1.vectorJson).isSome = true ∧ Near target tables (limit * 3) pair.2.id := by
  have fewer : (vectorRows host settings dimension request db target).length ≤ limit := by
    rw [vectorRowsFilter]
    exact (List.length_filter_le _ _).trans small
  have compared : ∀ {pair}, pair ∈ vectorRows host settings dimension request db target ↔
      pair ∈ modelRows host settings request db target ∧ pair.1.dimension = dimension := by
    intro pair
    rw [vectorRowsFilter, List.mem_filter, decide_eq_true_eq]
  constructor
  · intro agree pair mem
    obtain ⟨other, held, parsed, same⟩ := (bruteKeys few fewer).mp (unreadyKeys.mp ((agree false pair.2.id).mpr ⟨pair, mem, rfl⟩))
    obtain ⟨inside, dimensioned⟩ := compared.mp held
    obtain rfl := List.inj_on_of_nodup_map (modelIds keyed) inside mem same
    exact ⟨dimensioned, parsed, ((sqliteKeys keyed fewer).mp ((readyKeys there).mp ((agree true _).mpr ⟨_, mem, rfl⟩))).1⟩
  · intro all ready id
    cases ready with
    | true =>
      rw [readyKeys there, sqliteKeys keyed fewer]
      constructor
      · rintro ⟨-, pair, mem, same⟩
        exact ⟨pair, (compared.mp mem).1, same⟩
      · rintro ⟨pair, mem, rfl⟩
        exact ⟨(all pair mem).2.2, pair, compared.mpr ⟨mem, (all pair mem).1⟩, rfl⟩
    | false =>
      rw [unreadyKeys, bruteKeys few fewer]
      constructor
      · rintro ⟨pair, mem, -, same⟩
        exact ⟨pair, (compared.mp mem).1, same⟩
      · rintro ⟨pair, mem, rfl⟩
        exact ⟨pair, compared.mpr ⟨mem, (all pair mem).1⟩, (all pair mem).2.1, rfl⟩

end

-- Distances along a line; rows of one distance in the order of their numbers.
def onLine : Target ℚ (ℚ ×ₗ ℕ) where
  model := "m"
  weight := 1
  distance := id
  place := fun row => toLex (row.embedding, row.rowid)
  exact := fun a b below => by
    rcases Prod.Lex.toLex_lt_toLex.mp below with nearer | ⟨same, -⟩
    · exact nearer.le
    · exact same.le
  apart := fun a b same => congrArg (fun key => (ofLex key).2) same
  cosine := fun _ => 0

def storedVector (id : String) : Vector := ⟨id, "m", 3, "[]", "", ""⟩
def placed (rows : List (ℕ × ℚ × String)) (distinct : (rows.map (fun row => row.1)).Nodup)
    (unique : (rows.map (fun row => row.2.2)).Nodup) : VecTables ℚ where
  rows := rows.map (fun row => ⟨row.1, row.2.1⟩)
  map := rows.map (fun row => ⟨row.1, row.2.2⟩)
  rowsKeyed := by rwa [List.map_map]
  mapKeyed := by rwa [List.map_map]
  mapUnique := by rwa [List.map_map]

def oneProject : Normalized := {plainRequest "q" with project := some "p", projectMembers := some ["p"]}
def vectored (rows : List (String × String)) : Db :=
  {Db.empty with
    observations := rows.map (fun row => plainRow row.1 row.2 "u")
    vectors := rows.map (fun row => storedVector row.1)}

def alone : VecTables ℚ := placed [(1, 1, "a")] (by decide) (by decide)
def crowd : VecTables ℚ := placed [(1, 0, "x"), (2, 0, "y"), (3, 0, "z"), (4, 1, "a")] (by decide) (by decide)

theorem aloneAgree : EnginesAgree readHost plainSettings 3 oneProject 1 (vectored [("a", "p")]) onLine (fun _ => some alone) :=
  (enginesAgree ⟨by decide, by decide⟩ (by decide) (by decide) rfl).mpr (by unfold Near; decide)

-- Three nearer rows of another project, and the extension's branch does not see the only row in scope.
theorem crowdedOut :
    (modelRows readHost plainSettings oneProject (vectored [("a", "p"), ("x", "o"), ("y", "o"), ("z", "o")]) onLine).length ≤ 1 ∧
    ¬ EnginesAgree readHost plainSettings 3 oneProject 1 (vectored [("a", "p"), ("x", "o"), ("y", "o"), ("z", "o")]) onLine
      (fun _ => some crowd) := by
  refine ⟨by decide, fun agree => ?_⟩
  have missed : "a" ∉ (runVariantSearch readHost plainSettings 3 oneProject 1
      (vectored [("a", "p"), ("x", "o"), ("y", "o"), ("z", "o")]) true (fun _ => some crowd) [onLine]).map Prod.fst := by
    decide
  exact missed ((agree true "a").mpr (by decide))

end HarnessMem.Search
