import HarnessMem.Lib.Breadth
import HarnessMem.Recorder
import HarnessMem.SearchStages

/-! The entity graph: which observations an expansion reaches, and how near the entities of a query are. -/
namespace HarnessMem.GraphReasoner
open Js Text Recorder Search Breadth

def touches (entities : List String) (relation : Relation) : Bool :=
  entities.contains relation.src || entities.contains relation.dst

-- An entity of the observation, by the relations it produced.
def Mentions (relations : List Relation) (observationId entity : String) : Prop :=
  ∃ relation ∈ relations, relation.observationId = observationId ∧ (relation.src = entity ∨ relation.dst = entity)

-- Two entities of one relation.
def Related (relations : List Relation) (a b : String) : Prop :=
  ∃ relation ∈ relations, (relation.src = a ∨ relation.dst = a) ∧ (relation.src = b ∨ relation.dst = b)

-- The hop each candidate was found at, and the entities seen so far and in this hop.
structure Proximity where
  distances : List (String × Nat)
  visited : List String
  fresh : List String

def discover (now : Proximity) (entity : String) : Proximity :=
  if entity ∈ now.visited then now
  else {now with visited := now.visited ++ [entity], fresh := now.fresh ++ [entity]}

def assign (candidates : List String) (hop : Nat) (now : Proximity) (observationId : String) : Proximity :=
  if observationId ∈ candidates ∧ observationId ∉ now.distances.map Prod.fst then
    {now with distances := now.distances ++ [(observationId, hop)]}
  else now

def noteRow (candidates : List String) (hop : Nat) (now : Proximity) (row : Relation) : Proximity :=
  discover (discover (assign candidates hop now row.observationId) row.src) row.dst

def hopRows (scan : Tables.Scan Relation) (relations : List Relation) (frontier : List String) : List Relation :=
  (batches 50 frontier.length frontier).flatMap (fun batch => scan.arrange (relations.filter (touches batch)))

def proximityHops (scan : Tables.Scan Relation) (relations : List Relation) (candidates : List String) :
    Nat → Nat → List String → Proximity → Proximity
  | 0, _, _, now => now
  | left + 1, hop, frontier, now =>
    if frontier = [] then now
    else
      let next := (hopRows scan relations frontier).foldl (noteRow candidates hop) {now with fresh := []}
      proximityHops scan relations candidates left (hop + 1) next.fresh next

def computeQueryEntityProximity (scan : Tables.Scan Relation) (host : Host) (db : Db) (queryText : String)
    (candidateIds : List String) : List (String × ℚ) :=
  let queryEntityIds := (extractEntitiesAndRelations host queryText []).1
  if candidateIds = [] ∨ queryEntityIds = [] then []
  else
    let found := proximityHops scan db.relations candidateIds 3 1 queryEntityIds ⟨[], queryEntityIds, []⟩
    found.distances.map (fun entry => (entry.1, 1 / (1 + (entry.2 : ℚ))))

-- An observation that is not in the answer counts as zero.
def proximityOf (scores : List (String × ℚ)) (observationId : String) : ℚ :=
  ((scores.find? (fun entry => entry.1 = observationId)).map Prod.snd).getD 0

section
variable {candidates : List String} {hop : Nat} {now : Proximity}

theorem discoverVisited (entity other : String) : other ∈ (discover now entity).visited ↔ other ∈ now.visited ∨ other = entity := by
  unfold discover
  split
  · rename_i seen
    exact ⟨.inl, fun either => either.elim id (fun same => same ▸ seen)⟩
  · simp

theorem discoverFresh (entity other : String) : other ∈ (discover now entity).fresh ↔
    other ∈ now.fresh ∨ other = entity ∧ entity ∉ now.visited := by
  unfold discover
  split
  · rename_i seen
    simp [seen]
  · rename_i new
    simp [new]

theorem noteVisited (row : Relation) (entity : String) : entity ∈ (noteRow candidates hop now row).visited ↔
    entity ∈ now.visited ∨ row.src = entity ∨ row.dst = entity := by
  have same : (assign candidates hop now row.observationId).visited = now.visited := by
    unfold assign
    split <;> rfl
  rw [noteRow, discoverVisited, discoverVisited, same, or_assoc, eq_comm (a := entity), eq_comm (a := entity)]

theorem noteFresh (row : Relation) (entity : String) : entity ∈ (noteRow candidates hop now row).fresh ↔
    entity ∈ now.fresh ∨ entity ∉ now.visited ∧ (row.src = entity ∨ row.dst = entity) := by
  have same : (assign candidates hop now row.observationId).visited = now.visited ∧
      (assign candidates hop now row.observationId).fresh = now.fresh := by
    unfold assign
    split <;> exact ⟨rfl, rfl⟩
  rw [noteRow, discoverFresh, discoverFresh, discoverVisited, same.1, same.2]
  constructor
  · rintro ((old | ⟨rfl, new⟩) | ⟨rfl, new⟩)
    · exact .inl old
    · exact .inr ⟨new, .inl rfl⟩
    · exact .inr ⟨fun seen => new (.inl seen), .inr rfl⟩
  · rintro (old | ⟨new, rfl | rfl⟩)
    · exact .inl (.inl old)
    · exact .inl (.inr ⟨rfl, new⟩)
    · by_cases same : row.dst = row.src
      · exact .inl (.inr ⟨same, same ▸ new⟩)
      · exact .inr ⟨rfl, fun either => either.elim new same⟩

theorem noteDistances (row : Relation) : (noteRow candidates hop now row).distances =
    (assign candidates hop now row.observationId).distances := by
  have kept : ∀ (now : Proximity) entity, (discover now entity).distances = now.distances := by
    intro now entity
    unfold discover
    split <;> rfl
  rw [noteRow, kept, kept]

theorem noteAssigned (row : Relation) (entry : String × Nat) : entry ∈ (noteRow candidates hop now row).distances ↔
    entry ∈ now.distances ∨ entry = (row.observationId, hop) ∧ row.observationId ∈ candidates ∧
      row.observationId ∉ now.distances.map Prod.fst := by
  rw [noteDistances, assign]
  split
  · rename_i new
    simp [new]
  · rename_i old
    exact ⟨.inl, fun either => either.elim id (fun both => absurd both.2 old)⟩

theorem rowsVisited (rows : List Relation) (now : Proximity) (entity : String) :
    entity ∈ (rows.foldl (noteRow candidates hop) now).visited ↔
      entity ∈ now.visited ∨ ∃ row ∈ rows, row.src = entity ∨ row.dst = entity := by
  induction rows generalizing now with
  | nil => simp
  | cons row rest ih => rw [List.foldl_cons, ih, noteVisited, List.exists_mem_cons_iff, or_assoc]

theorem rowsFresh (rows : List Relation) (now : Proximity) (entity : String) :
    entity ∈ (rows.foldl (noteRow candidates hop) now).fresh ↔
      entity ∈ now.fresh ∨ entity ∉ now.visited ∧ ∃ row ∈ rows, row.src = entity ∨ row.dst = entity := by
  induction rows generalizing now with
  | nil => simp
  | cons row rest ih =>
    rw [List.foldl_cons, ih, noteFresh, noteVisited, List.exists_mem_cons_iff]
    by_cases seen : entity ∈ now.visited
    · simp [seen]
    · by_cases here : row.src = entity ∨ row.dst = entity
      · simp [seen, here]
      · simp [seen, here]

theorem rowsAssigned (rows : List Relation) (now : Proximity) (id : String) (at' : Nat) :
    (id, at') ∈ (rows.foldl (noteRow candidates hop) now).distances ↔ (id, at') ∈ now.distances ∨
      at' = hop ∧ id ∈ candidates ∧ id ∉ now.distances.map Prod.fst ∧ ∃ row ∈ rows, row.observationId = id := by
  induction rows generalizing now with
  | nil => simp
  | cons row rest ih =>
    have keys : id ∈ (noteRow candidates hop now row).distances.map Prod.fst ↔ id ∈ now.distances.map Prod.fst ∨
        row.observationId = id ∧ id ∈ candidates := by
      rw [noteDistances, assign]
      split
      · rename_i new
        simp only [List.map_append, List.mem_append, List.map_cons, List.map_nil, List.mem_singleton]
        exact or_congr_right ⟨fun same => ⟨same.symm, same ▸ new.1⟩, fun both => both.1.symm⟩
      · rename_i old
        refine ⟨.inl, fun either => either.elim (fun old => old) fun both => ?_⟩
        by_contra new
        exact old (both.1 ▸ ⟨both.2, new⟩)
    rw [List.foldl_cons, ih, noteAssigned, keys, List.exists_mem_cons_iff, Prod.mk.injEq]
    constructor
    · rintro ((old | ⟨⟨rfl, rfl⟩, asked, new⟩) | ⟨rfl, asked, new, found⟩)
      · exact .inl old
      · exact .inr ⟨rfl, asked, new, .inl rfl⟩
      · exact .inr ⟨rfl, asked, fun old => new (.inl old), .inr found⟩
    · rintro (old | ⟨rfl, asked, new, here | found⟩)
      · exact .inl (.inl old)
      · subst here
        exact .inl (.inr ⟨⟨rfl, rfl⟩, asked, new⟩)
      · by_cases here : row.observationId = id
        · subst here
          exact .inl (.inr ⟨⟨rfl, rfl⟩, asked, new⟩)
        · exact .inr ⟨rfl, asked, fun either => either.elim new (fun both => here both.1), found⟩

theorem rowsOnce (rows : List Relation) {now : Proximity} (once : (now.distances.map Prod.fst).Nodup) :
    ((rows.foldl (noteRow candidates hop) now).distances.map Prod.fst).Nodup := by
  induction rows generalizing now with
  | nil => exact once
  | cons row rest ih =>
    refine ih ?_
    rw [noteDistances, assign]
    split
    · rename_i new
      rw [List.map_append]
      exact once.append (List.nodup_singleton _) (by simpa using new.2)
    · exact once
end

theorem memBatches {size : Nat} (some : 0 < size) {n : Nat} {ids : List String} (enough : ids.length ≤ n) (id : String) :
    (∃ batch ∈ batches size n ids, id ∈ batch) ↔ id ∈ ids := by
  induction n generalizing ids with
  | zero =>
    rw [List.length_eq_zero_iff.mp (Nat.le_zero.mp enough)]
    simp [batches]
  | succ n ih =>
    unfold batches
    split
    · rename_i none
      simp [none]
    · rename_i more
      have shorter : (ids.drop size).length ≤ n := by
        have := List.length_pos_of_ne_nil more
        rw [List.length_drop]
        omega
      rw [List.exists_mem_cons_iff, ih shorter, ← List.mem_append, List.take_append_drop]

theorem memChunks {ids : List String} (id : String) : (∃ batch ∈ batches 50 ids.length ids, id ∈ batch) ↔ id ∈ ids :=
  memBatches (by decide) le_rfl id

theorem memHopRows {scan : Tables.Scan Relation} {relations : List Relation} {frontier : List String} {row : Relation} :
    row ∈ hopRows scan relations frontier ↔ row ∈ relations ∧ (row.src ∈ frontier ∨ row.dst ∈ frontier) := by
  simp only [hopRows, List.mem_flatMap, Tables.Scan.mem, List.mem_filter, touches, Bool.or_eq_true, List.contains_iff_mem]
  rw [← memChunks row.src, ← memChunks row.dst]
  constructor
  · rintro ⟨batch, held, mem, src | dst⟩
    · exact ⟨mem, .inl ⟨batch, held, src⟩⟩
    · exact ⟨mem, .inr ⟨batch, held, dst⟩⟩
  · rintro ⟨mem, ⟨batch, held, src⟩ | ⟨batch, held, dst⟩⟩
    · exact ⟨batch, held, mem, .inl src⟩
    · exact ⟨batch, held, mem, .inr dst⟩

-- The least number of relations from an entity of the query to one of the observation.
structure Away (relations : List Relation) (query : List String) (distance : Nat) (observationId : String) : Prop where
  reached : ∃ entity, Mentions relations observationId entity ∧ Within (· ∈ query) (Related relations) distance entity
  least : ∀ less < distance, ¬ ∃ entity, Mentions relations observationId entity ∧ Within (· ∈ query) (Related relations) less entity

-- What holds after some hops: the frontier is the last layer, and the candidates nearer than it have their hop.
structure Layered (relations : List Relation) (query candidates : List String) (hops : Nat) (frontier : List String)
    (now : Proximity) : Prop where
  frontier : ∀ entity, entity ∈ frontier ↔ Exactly (· ∈ query) (Related relations) hops entity
  visited : ∀ entity, entity ∈ now.visited ↔ Within (· ∈ query) (Related relations) hops entity
  assigned : ∀ id hop, (id, hop) ∈ now.distances ↔
    id ∈ candidates ∧ ∃ distance < hops, hop = distance + 1 ∧ Away relations query distance id
  once : (now.distances.map Prod.fst).Nodup

section
variable {relations : List Relation} {query candidates frontier : List String} {hops : Nat} {now : Proximity}

theorem awayExactly {distance : Nat} {id : String} (away : Away relations query distance id) :
    ∃ entity, Mentions relations id entity ∧ Exactly (· ∈ query) (Related relations) distance entity := by
  obtain ⟨entity, mentions, within⟩ := away.reached
  exact ⟨entity, mentions, within, fun less below near => away.least less below ⟨entity, mentions, near⟩⟩

theorem awayFound {n : Nat} {id entity : String} (mentions : Mentions relations id entity)
    (within : Within (· ∈ query) (Related relations) n entity) : ∃ distance ≤ n, Away relations query distance id := by
  classical
  have some : ∃ d, ∃ entity, Mentions relations id entity ∧ Within (· ∈ query) (Related relations) d entity :=
    ⟨n, entity, mentions, within⟩
  exact ⟨Nat.find some, Nat.find_min' some ⟨entity, mentions, within⟩, Nat.find_spec some, fun less => Nat.find_min some⟩

theorem awayUnique {m n : Nat} {id : String} (one : Away relations query m id) (two : Away relations query n id) : m = n := by
  rcases lt_trichotomy m n with less | same | more
  · exact absurd one.reached (two.least m less)
  · exact same
  · exact absurd two.reached (one.least n more)

theorem layeredStep (scan : Tables.Scan Relation) (layered : Layered relations query candidates hops frontier now) :
    Layered relations query candidates (hops + 1)
      ((hopRows scan relations frontier).foldl (noteRow candidates (hops + 1)) {now with fresh := []}).fresh
      ((hopRows scan relations frontier).foldl (noteRow candidates (hops + 1)) {now with fresh := []}) := by
  have touched : ∀ entity, (∃ row ∈ hopRows scan relations frontier, row.src = entity ∨ row.dst = entity) ↔
      ∃ x, Exactly (· ∈ query) (Related relations) hops x ∧ Related relations x entity := by
    intro entity
    simp only [memHopRows, layered.frontier]
    constructor
    · rintro ⟨row, ⟨mem, src | dst⟩, is⟩
      · exact ⟨_, src, row, mem, .inl rfl, is⟩
      · exact ⟨_, dst, row, mem, .inr rfl, is⟩
    · rintro ⟨x, layer, row, mem, rfl | rfl, is⟩
      · exact ⟨row, ⟨mem, .inl layer⟩, is⟩
      · exact ⟨row, ⟨mem, .inr layer⟩, is⟩
  constructor
  · intro entity
    rw [rowsFresh, touched, exactlyNext]
    simp [layered.visited]
  · intro entity
    rw [rowsVisited, touched, layered.visited, withinLayer, exactlyNext]
    tauto
  · intro id hop
    rw [rowsAssigned, layered.assigned]
    have keys : id ∈ now.distances.map Prod.fst ↔ id ∈ candidates ∧ ∃ distance < hops, Away relations query distance id := by
      constructor
      · intro mem
        obtain ⟨⟨id', hop'⟩, held, rfl⟩ := List.mem_map.mp mem
        obtain ⟨asked, distance, less, -, away⟩ := (layered.assigned id' hop').mp held
        exact ⟨asked, distance, less, away⟩
      · rintro ⟨asked, distance, less, away⟩
        exact List.mem_map.mpr ⟨(id, distance + 1), (layered.assigned _ _).mpr ⟨asked, distance, less, rfl, away⟩, rfl⟩
    constructor
    · rintro (⟨asked, distance, less, is, away⟩ | ⟨rfl, asked, new, row, found, rfl⟩)
      · exact ⟨asked, distance, Nat.lt_succ_of_lt less, is, away⟩
      · have near : ∃ entity, Mentions relations row.observationId entity ∧ entity ∈ frontier := by
          obtain ⟨mem, src | dst⟩ := memHopRows.mp found
          · exact ⟨row.src, ⟨row, mem, rfl, .inl rfl⟩, src⟩
          · exact ⟨row.dst, ⟨row, mem, rfl, .inr rfl⟩, dst⟩
        obtain ⟨entity, mentions, layer⟩ := near
        have within := ((layered.frontier entity).mp layer).within
        refine ⟨asked, hops, Nat.lt_succ_self hops, rfl, ⟨entity, mentions, within⟩, ?_⟩
        rintro less below ⟨other, mentions', nearer⟩
        obtain ⟨distance, le, away⟩ := awayFound mentions' nearer
        exact new (keys.mpr ⟨asked, distance, by omega, away⟩)
    · rintro ⟨asked, distance, less, is, away⟩
      rcases Nat.lt_or_eq_of_le (Nat.le_of_lt_succ less) with before | rfl
      · exact .inl ⟨asked, distance, before, is, away⟩
      · refine .inr ⟨is, asked, fun old => ?_, ?_⟩
        · obtain ⟨-, nearer, below, again⟩ := keys.mp old
          exact absurd (awayUnique again away) (Nat.ne_of_lt below)
        · obtain ⟨entity, ⟨row, mem, rfl, side⟩, layer⟩ := awayExactly away
          rw [← layered.frontier] at layer
          rcases side with rfl | rfl
          · exact ⟨row, memHopRows.mpr ⟨mem, .inl layer⟩, rfl⟩
          · exact ⟨row, memHopRows.mpr ⟨mem, .inr layer⟩, rfl⟩
  · exact rowsOnce _ layered.once

-- When the frontier runs out there is nothing further away.
theorem layeredEnds (layered : Layered relations query candidates hops [] now) {distance : Nat} {id : String}
    (away : Away relations query distance id) : distance < hops := by
  obtain ⟨entity, mentions, within⟩ := away.reached
  have empty : ∀ x, ¬ Exactly (· ∈ query) (Related relations) hops x :=
    fun x layer => absurd ((layered.frontier x).mpr layer) List.not_mem_nil
  obtain ⟨m, le, exactly⟩ := withinExactly.mp (layersEnd empty within)
  have below : m < hops := Nat.lt_of_le_of_ne le (fun same => empty entity (same ▸ exactly))
  by_contra beyond
  exact away.least m (by omega) ⟨entity, mentions, exactly.within⟩

theorem layeredRun (scan : Tables.Scan Relation) (layered : Layered relations query candidates hops frontier now) (left : Nat) :
    (∀ id hop, (id, hop) ∈ (proximityHops scan relations candidates left (hops + 1) frontier now).distances ↔
        id ∈ candidates ∧ ∃ distance < hops + left, hop = distance + 1 ∧ Away relations query distance id) ∧
      ((proximityHops scan relations candidates left (hops + 1) frontier now).distances.map Prod.fst).Nodup := by
  induction left generalizing hops frontier now with
  | zero => exact ⟨layered.assigned, layered.once⟩
  | succ left ih =>
    unfold proximityHops
    split
    · rename_i none
      subst none
      refine ⟨fun id hop => (layered.assigned id hop).trans (and_congr_right fun _ => ?_), layered.once⟩
      constructor
      · rintro ⟨distance, less, is, away⟩
        exact ⟨distance, by omega, is, away⟩
      · rintro ⟨distance, -, is, away⟩
        exact ⟨distance, layeredEnds layered away, is, away⟩
    · have next := ih (layeredStep scan layered)
      have total : hops + 1 + left = hops + (left + 1) := by omega
      rw [total] at next
      exact next
end

theorem proximityEntry {scores : List (String × ℚ)} (once : (scores.map Prod.fst).Nodup) {id : String} {score : ℚ}
    (mem : (id, score) ∈ scores) : proximityOf scores id = score := by
  unfold proximityOf
  cases found : scores.find? (fun entry => entry.1 = id) with
  | none => exact absurd (List.find?_eq_none.mp found _ mem) (by simp)
  | some entry =>
    have same : entry.1 = id := by simpa using List.find?_some found
    have is : entry = (id, score) := Tables.keyUnique once (List.mem_of_find?_eq_some found) mem same
    simp [is]

theorem proximityMissing {scores : List (String × ℚ)} {id : String} (missing : id ∉ scores.map Prod.fst) :
    proximityOf scores id = 0 := by
  have none : scores.find? (fun entry => entry.1 = id) = none := by
    refine List.find?_eq_none.mpr (fun entry mem is => missing ?_)
    exact List.mem_map.mpr ⟨entry, mem, by simpa using is⟩
  simp [proximityOf, none]

variable (scan : Tables.Scan Relation) (host : Host) (db : Db) (queryText : String) (candidateIds : List String) in
-- A relation from the query to what an observation mentions counts as a hop, and so does the mention itself.
theorem proximityExact :
    (∀ id ∈ candidateIds, ∀ distance < 3, Away db.relations (extractEntitiesAndRelations host queryText []).1 distance id →
        proximityOf (computeQueryEntityProximity scan host db queryText candidateIds) id = 1 / (1 + ((distance + 1 : Nat) : ℚ))) ∧
      ∀ id, (id ∉ candidateIds ∨ ∀ distance < 3, ¬ Away db.relations (extractEntitiesAndRelations host queryText []).1 distance id) →
        id ∉ (computeQueryEntityProximity scan host db queryText candidateIds).map Prod.fst ∧
          proximityOf (computeQueryEntityProximity scan host db queryText candidateIds) id = 0 := by
  unfold computeQueryEntityProximity
  generalize (extractEntitiesAndRelations host queryText []).1 = query
  dsimp only
  split
  · rename_i idle
    refine ⟨fun id asked distance less away => ?_, fun id _ => ⟨List.not_mem_nil, rfl⟩⟩
    rcases idle with rfl | rfl
    · exact absurd asked List.not_mem_nil
    · obtain ⟨entity, -, within⟩ := away.reached
      have never : ∀ {n x}, ¬ Within (· ∈ ([] : List String)) (Related db.relations) n x := by
        intro n x near
        induction near with
        | start from_ => exact absurd from_ List.not_mem_nil
        | next _ _ ih => exact ih
      exact absurd within never
  · have start : Layered db.relations query candidateIds 0 query ⟨[], query, []⟩ :=
      ⟨fun _ => exactlyZero.symm, fun _ => withinZero.symm, fun id hop => by simp, List.nodup_nil⟩
    obtain ⟨assigned, once⟩ := layeredRun scan start 3
    generalize (proximityHops scan db.relations candidateIds 3 (0 + 1) query ⟨[], query, []⟩).distances = distances at assigned once ⊢
    have keys : (distances.map (fun entry => (entry.1, 1 / (1 + (entry.2 : ℚ))))).map Prod.fst = distances.map Prod.fst := by
      rw [List.map_map]
      rfl
    constructor
    · intro id asked distance less away
      have found := (assigned id (distance + 1)).mpr ⟨asked, distance, less, rfl, away⟩
      exact proximityEntry (keys ▸ once) (List.mem_map.mpr ⟨_, found, rfl⟩)
    · intro id far
      have missing : id ∉ (distances.map (fun entry => (entry.1, 1 / (1 + (entry.2 : ℚ))))).map Prod.fst := by
        rw [keys]
        intro mem
        obtain ⟨⟨id', hop⟩, held, rfl⟩ := List.mem_map.mp mem
        obtain ⟨asked, distance, less, -, away⟩ := (assigned id' hop).mp held
        exact far.elim (fun unasked => unasked asked) (fun none => none distance less away)
      exact ⟨missing, proximityMissing missing⟩

def mentioning : Db :=
  {Db.empty with relations := [⟨"deploy.sh", "worker.ts", "co-occurs", 1, "o", ⟨none, none, none, none, none, none⟩, ""⟩]}

theorem proximityMention :
    Away mentioning.relations (extractEntitiesAndRelations plainHost "deploy.sh" []).1 0 "o" ∧
      proximityOf (computeQueryEntityProximity Tables.inOrder plainHost mentioning "deploy.sh" ["o"]) "o" ≠ 1 / (1 + (0 : ℚ)) := by
  have query : (extractEntitiesAndRelations plainHost "deploy.sh" []).1 = ["deploy.sh"] := by decide +kernel
  have found : computeQueryEntityProximity Tables.inOrder plainHost mentioning "deploy.sh" ["o"] = [("o", 1 / (1 + 1))] := by
    decide +kernel
  refine ⟨⟨⟨"deploy.sh", ⟨_, List.mem_singleton_self _, rfl, .inl rfl⟩, .start ?_⟩, fun _ less => absurd less (Nat.not_lt_zero _)⟩, ?_⟩
  · rw [query]
    exact List.mem_singleton_self _
  · rw [found]
    decide +kernel

end HarnessMem.GraphReasoner
