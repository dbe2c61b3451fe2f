import HarnessMem.Consolidation
import Mathlib.Data.List.Dedup
import Mathlib.Tactic.NormNum

/-! What the worker's statements do to facts and links, and what the in-session dedupe leaves. -/
namespace HarnessMem.Consolidation
open Recorder

def Near (host : Host) (a b : Fact) : Prop :=
  a.project = b.project ∧ a.factType = b.factType ∧ 3 / 10 ≤ similarity host b a

theorem jaccardComm {a b : List String} (ha : a.Nodup) (hb : b.Nodup) : jaccard a b = jaccard b a := by
  have common : (a.filter (fun token => b.contains token)).length = (b.filter (fun token => a.contains token)).length := by
    refine ((List.perm_ext_iff_of_nodup (ha.filter _) (hb.filter _)).mpr (fun token => ?_)).length_eq
    simp [and_comm]
  unfold jaccard
  rw [common, Nat.add_comm a.length b.length]

theorem similarityComm (host : Host) (a b : Fact) : similarity host a b = similarity host b a :=
  jaccardComm (List.nodup_dedup _) (List.nodup_dedup _)

theorem nearSymm (host : Host) (a b : Fact) (near : Near host a b) : Near host b a := by
  obtain ⟨project, kind, close⟩ := near
  rw [similarityComm] at close
  exact ⟨project.symm, kind.symm, close⟩

-- Before the first near leader the best is still nothing at all.
theorem closerPicks (host : Host) (fact : Fact) (leaders seen : List Fact) (best : Option Fact × ℚ)
    (sound : ∀ leader, best.1 = some leader → leader ∈ seen ∧ Near host leader fact)
    (complete : best.1 = none → best.2 = 0 ∧ ∀ leader ∈ seen, ¬ Near host leader fact) :
    (∀ leader, (leaders.foldl (closer host fact) best).1 = some leader → leader ∈ seen ++ leaders ∧ Near host leader fact) ∧
      ((leaders.foldl (closer host fact) best).1 = none → ∀ leader ∈ seen ++ leaders, ¬ Near host leader fact) := by
  induction leaders generalizing seen best with
  | nil => simpa using ⟨sound, fun none => (complete none).2⟩
  | cons existing rest ih =>
    rw [List.foldl_cons, List.append_cons]
    by_cases better : existing.project = fact.project ∧ existing.factType = fact.factType ∧
        3 / 10 ≤ similarity host fact existing ∧ best.2 < similarity host fact existing
    · have step : closer host fact best existing = (some existing, similarity host fact existing) := if_pos better
      rw [step]
      refine ih _ _ (fun leader is => ?_) nofun
      obtain rfl := Option.some.inj is
      exact ⟨by simp, better.1, better.2.1, better.2.2.1⟩
    · have step : closer host fact best existing = best := if_neg better
      rw [step]
      refine ih _ _ (fun leader is => ?_) (fun none => ?_)
      · exact ⟨List.mem_append_left _ (sound leader is).1, (sound leader is).2⟩
      · obtain ⟨zero, far⟩ := complete none
        refine ⟨zero, fun leader mem near => ?_⟩
        rcases List.mem_append.mp mem with old | new
        · exact far leader old near
        · obtain rfl := List.mem_singleton.mp new
          have positive : (0 : ℚ) < similarity host fact leader := lt_of_lt_of_le (by norm_num) near.2.2
          exact better ⟨near.1, near.2.1, near.2.2, zero ▸ positive⟩

theorem nearestPicks (host : Host) : Leaders.Picks (Near host) (nearest host) := by
  have from0 : ∀ leaders fact, _ := fun leaders fact => closerPicks host fact leaders [] (none, 0) (by simp) (by simp)
  constructor
  · intro leaders fact leader picked
    exact (from0 leaders fact).1 leader picked
  · intro leaders fact none
    exact (from0 leaders fact).2 none

-- The three tables the facts are read from and written to, one statement at a time.
def Write.onFacts (facts : List Fact) : Write → List Fact
  | .insertFact row => Consolidation.insertFact facts row
  | .supersede factId supersededBy at' => Consolidation.supersede factId supersededBy at' facts
  | .merge factId into at' => Consolidation.merge factId into at' facts
  | _ => facts
def Write.onLinks (links : List Link) : Write → List Link
  | .insertLink row => Recorder.insertLink links row
  | _ => links

theorem runFacts (writes : List Write) (db : Db) : (run writes db).facts = writes.foldl Write.onFacts db.facts := by
  induction writes generalizing db with
  | nil => rfl
  | cons w rest ih =>
    rw [run, List.foldl_cons, ← run, ih, List.foldl_cons]
    cases w <;> rfl
theorem runLinks (writes : List Write) (db : Db) : (run writes db).links = writes.foldl Write.onLinks db.links := by
  induction writes generalizing db with
  | nil => rfl
  | cons w rest ih =>
    rw [run, List.foldl_cons, ← run, ih, List.foldl_cons]
    cases w <;> rfl
@[simp] theorem runObservations (writes : List Write) (db : Db) : (run writes db).observations = db.observations := by
  induction writes generalizing db with
  | nil => rfl
  | cons w rest ih =>
    rw [run, List.foldl_cons, ← run, ih]
    cases w <;> rfl
theorem runAppend (first second : List Write) (db : Db) : run (first ++ second) db = run second (run first db) :=
  List.foldl_append

-- What a list of merges makes of one row.
def MergedRow (pairs : List (String × String)) (old new : Fact) : Prop :=
  old.factId ∉ pairs.map Prod.fst ∧ new = old ∨
    ∃ into at', (old.factId, into) ∈ pairs ∧ new = {old with mergedIntoFactId := some into, updatedAt := at'}

theorem mergeOne (from' into at' : String) (facts : List Fact) :
    List.Forall₂ (MergedRow [(from', into)]) facts (merge from' into at' facts) := by
  induction facts with
  | nil => exact .nil
  | cons fact rest ih =>
    refine .cons ?_ ih
    by_cases chosen : fact.factId = from'
    · exact .inr ⟨into, at', by simp [chosen], by simp [chosen]⟩
    · exact .inl ⟨by simpa using chosen, by simp [chosen]⟩

theorem mergeAll (merges : List (String × String × String)) (facts : List Fact) :
    List.Forall₂ (MergedRow (merges.map (fun m => (m.1, m.2.1)))) facts
      (merges.foldl (fun facts m => merge m.1 m.2.1 m.2.2 facts) facts) := by
  induction merges generalizing facts with
  | nil => exact List.forall₂_same.mpr (fun fact _ => .inl ⟨by simp, rfl⟩)
  | cons m rest ih =>
    refine Tables.relatedTrans (fun a b c first later => ?_) (mergeOne m.1 m.2.1 m.2.2 facts) (ih _)
    have sameId : b.factId = a.factId := by
      rcases first with ⟨-, rfl⟩ | ⟨_, _, -, rfl⟩ <;> rfl
    rcases later with ⟨free, rfl⟩ | ⟨into, at', chosen, rfl⟩
    · rcases first with ⟨others, rfl⟩ | ⟨into, at', chosen, rfl⟩
      · refine .inl ⟨?_, rfl⟩
        rw [List.map_cons, List.map_cons, List.mem_cons, not_or]
        exact ⟨by simpa using others, free⟩
      · exact .inr ⟨into, at', List.mem_cons.mpr (.inl (List.mem_singleton.mp chosen)), rfl⟩
    · rw [sameId] at chosen
      refine .inr ⟨into, at', List.mem_cons_of_mem _ chosen, ?_⟩
      rcases first with ⟨-, rfl⟩ | ⟨_, _, -, rfl⟩ <;> rfl

def Belongs (job : Job) (fact : Fact) : Prop := fact.project = job.project ∧ fact.sessionId = job.sessionId

-- Who is merged into whom, by fact id.
def mergePairs (env : Env) (job : Job) (db : Db) : List (String × String) :=
  (dedupeFacts env (sessionFacts job db)).map (fun pair => (pair.1.factId, pair.2.factId))

section
variable {env : Env} {job : Job} {db : Db}

theorem sessionFact {fact : Fact} : fact ∈ sessionFacts job db ↔
    fact ∈ db.facts ∧ Belongs job fact ∧ fact.mergedIntoFactId = none := by
  simp [sessionFacts, Belongs, and_assoc]

theorem mergedFacts (env : Env) (job : Job) (db : Db) :
    List.Forall₂ (MergedRow (mergePairs env job db)) db.facts (run (mergeWrites env job db) db).facts := by
  have merges := mergeAll (((dedupeFacts env (sessionFacts job db)).zipIdx).map (fun entry =>
    (entry.1.1.factId, entry.1.2.factId, env.now (.merge entry.2)))) db.facts
  have pairs : (((dedupeFacts env (sessionFacts job db)).zipIdx).map (fun entry =>
      (entry.1.1.factId, entry.1.2.factId, env.now (.merge entry.2)))).map (fun m => (m.1, m.2.1)) = mergePairs env job db := by
    rw [mergePairs, ← List.zipIdx_map_fst 0 (dedupeFacts env (sessionFacts job db)), List.map_map, List.map_map,
      List.zipIdx_map_fst]
    rfl
  rw [pairs] at merges
  rw [runFacts, mergeWrites, List.foldl_map]
  rwa [List.foldl_map] at merges

variable (job) in
theorem sessionKeyed (keyed : (db.facts.map Fact.factId).Nodup) : ((sessionFacts job db).map Fact.factId).Nodup :=
  ((List.perm_insertionSort _ _).map Fact.factId).nodup_iff.mpr (keyed.sublist (List.filter_sublist.map Fact.factId))

variable (env job db) in
-- The leaders of the session's facts in the order the dedupe visits them.
def leaders : List Fact :=
  (Leaders.group (nearest env.host) [] (Tables.orderBy (fun a b => byAge env a b = true) (sessionFacts job db))).1

variable (env job db) in
theorem leadersPerm : (leaders env job db ++ (dedupeFacts env (sessionFacts job db)).map Prod.fst).Perm (sessionFacts job db) :=
  (Leaders.groupPerm _ [] _).trans (List.perm_insertionSort _ _)

-- Followers and leaders are unmerged facts of the session, and no leader follows.
theorem mergePair (keyed : (db.facts.map Fact.factId).Nodup) {pair : Fact × Fact}
    (mem : pair ∈ dedupeFacts env (sessionFacts job db)) :
    pair.1 ∈ sessionFacts job db ∧ pair.2 ∈ sessionFacts job db ∧ Near env.host pair.2 pair.1 ∧
      pair.2.factId ∉ (mergePairs env job db).map Prod.fst := by
  obtain ⟨-, led, near⟩ := Leaders.groupFollower (nearestPicks env.host) mem
  have inside : ∀ fact, fact ∈ leaders env job db ∨ fact ∈ (dedupeFacts env (sessionFacts job db)).map Prod.fst →
      fact ∈ sessionFacts job db := fun fact either => (leadersPerm env job db).mem_iff.mp (List.mem_append.mpr either)
  have leader := inside pair.2 (.inl led)
  refine ⟨inside pair.1 (.inr (List.mem_map_of_mem mem)), leader, near, fun follows => ?_⟩
  rw [mergePairs, List.map_map] at follows
  obtain ⟨other, held, same⟩ := List.mem_map.mp follows
  have is : other.1 = pair.2 :=
    Tables.keyUnique (sessionKeyed job keyed) (inside other.1 (.inr (List.mem_map_of_mem held))) leader same
  have apart := (leadersPerm env job db).nodup_iff.mpr (List.Nodup.of_map _ (sessionKeyed job keyed))
  exact (List.nodup_append'.mp apart).2.2 led (is ▸ List.mem_map_of_mem held)

-- What the pass leaves unmerged is pairwise apart.
theorem dedupeApart (keyed : (db.facts.map Fact.factId).Nodup) :
    (sessionFacts job (run (mergeWrites env job db) db)).Pairwise (fun a b => ¬ Near env.host a b) := by
  let froms := (mergePairs env job db).map Prod.fst
  have kept : ((run (mergeWrites env job db) db).facts.filter (fun fact =>
      fact.project = job.project && fact.sessionId = job.sessionId && fact.mergedIntoFactId.isNone)) =
      db.facts.filter (fun fact => !froms.contains fact.factId && (fact.project = job.project &&
        fact.sessionId = job.sessionId && fact.mergedIntoFactId.isNone)) := by
    refine Tables.filterKept (fun a b row => ?_) (fun a b row => ?_) (mergedFacts env job db)
    · rcases row with ⟨free, rfl⟩ | ⟨into, at', chosen, rfl⟩
      · simp [froms, free]
      · have gone : (!froms.contains a.factId) = false := by simpa [froms] using ⟨into, chosen⟩
        rw [gone]
        simp
    · rcases row with ⟨free, rfl⟩ | ⟨into, at', chosen, rfl⟩
      · exact fun _ => rfl
      · simp
  have perm : (sessionFacts job (run (mergeWrites env job db) db)).Perm
      ((leaders env job db).filter (fun fact => !froms.contains fact.factId)) := by
    have rest : ((dedupeFacts env (sessionFacts job db)).map Prod.fst).filter (fun fact => !froms.contains fact.factId) = [] := by
      refine List.filter_eq_nil_iff.mpr (fun fact mem => ?_)
      obtain ⟨pair, held, rfl⟩ := List.mem_map.mp mem
      have gone : pair.1.factId ∈ froms :=
        List.mem_map.mpr ⟨_, List.mem_map.mpr ⟨pair, held, rfl⟩, rfl⟩
      simpa using gone
    have all := (leadersPerm env job db).filter (fun fact => !froms.contains fact.factId)
    rw [List.filter_append, rest, List.append_nil] at all
    refine (List.perm_insertionSort _ _).trans ?_
    rw [kept, ← List.filter_filter]
    exact ((List.perm_insertionSort _ _).symm.filter _).trans all.symm
  have symm : ∀ {a b : Fact}, ¬ Near env.host a b → ¬ Near env.host b a := fun far near => far (nearSymm _ _ _ near)
  exact (perm.pairwise_iff symm).mpr
    ((Leaders.groupApart (nearestPicks env.host) _ .nil).sublist List.filter_sublist)

end

end HarnessMem.Consolidation
