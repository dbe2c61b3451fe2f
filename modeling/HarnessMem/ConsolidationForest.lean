import HarnessMem.Compress
import HarnessMem.ConsolidationMerges
import HarnessMem.ConsolidationSupersedes

/-! The merges of a dedupe pass as a forest of depth one, and `merged_into_fact_id` over any number of runs. -/
namespace HarnessMem.Consolidation
open Recorder

-- The facts fall into survivors and merged ones, each merged one with a survivor of its own kind to go to.
structure Forest (facts : List Fact) (merges : List (Fact × Fact)) (survivors : List Fact) : Prop where
  parts : (survivors ++ merges.map Prod.fst).Perm facts
  rooted : ∀ pair ∈ merges, pair.2 ∈ survivors
  alike : ∀ pair ∈ merges, pair.1.project = pair.2.project ∧ pair.1.factType = pair.2.factType

-- By fact ids: no fact goes to itself, and none to a fact that goes elsewhere.
def DepthOne (merges : List (Fact × Fact)) : Prop :=
  ∀ pair ∈ merges, ∀ other ∈ merges, other.1.factId ≠ pair.2.factId

section
variable (env : Env) (facts : List Fact)

theorem dedupeParts : Forest facts (dedupeFacts env facts)
    (Leaders.group (nearest env.host) [] (Tables.orderBy (fun a b => byAge env a b = true) facts)).1 := by
  refine ⟨(Leaders.groupPerm _ [] _).trans (List.perm_insertionSort _ _), fun pair mem => ?_, fun pair mem => ?_⟩
  · exact (Leaders.groupFollower (nearestPicks env.host) mem).2.1
  · obtain ⟨-, -, project, kind, -⟩ := Leaders.groupFollower (nearestPicks env.host) mem
    exact ⟨project.symm, kind.symm⟩

theorem dedupeAgain {again : List Fact} (same : again.Perm
    (Leaders.group (nearest env.host) [] (Tables.orderBy (fun a b => byAge env a b = true) facts)).1) :
    dedupeFacts env again = [] := by
  have far := Leaders.groupApart (nearestPicks env.host) (Tables.orderBy (fun a b => byAge env a b = true) facts) .nil
  have symm : ∀ {a b : Fact}, ¬ Near env.host a b → ¬ Near env.host b a := fun far near => far (nearSymm _ _ _ near)
  have sorted : (Tables.orderBy (fun a b => byAge env a b = true) again).Perm
      (Leaders.group (nearest env.host) [] (Tables.orderBy (fun a b => byAge env a b = true) facts)).1 :=
    (List.perm_insertionSort _ _).trans same
  rw [dedupeFacts, Leaders.groupNone (nearestPicks env.host) ((sorted.pairwise_iff symm).mpr far)]

variable {facts} in
theorem dedupeDepthOne (keyed : (facts.map Fact.factId).Nodup) : DepthOne (dedupeFacts env facts) := by
  intro pair mem other held same
  obtain ⟨parts, rooted, -⟩ := dedupeParts env facts
  have led := rooted pair mem
  have follows := List.mem_map_of_mem (f := Prod.fst) held
  have inside := fun {fact : Fact} (either : fact ∈ _ ∨ fact ∈ _) => parts.mem_iff.mp (List.mem_append.mpr either)
  have is : other.1 = pair.2 := Tables.keyUnique keyed (inside (.inr follows)) (inside (.inl led)) same
  have apart := parts.nodup_iff.mpr (List.Nodup.of_map _ keyed)
  exact (List.nodup_append'.mp apart).2.2 led (is ▸ follows)
end

-- One step along `merged_into_fact_id`, by fact id.
def MergedInto (facts : List Fact) (a b : String) : Prop := ∃ fact ∈ facts, fact.factId = a ∧ fact.mergedIntoFactId = some b

-- A later table merges as an earlier one did, and otherwise only into facts that it leaves unmerged.
def Extends (before after : List Fact) : Prop := ∀ a b, MergedInto after a b → MergedInto before a b ∨ ∀ c, ¬ MergedInto after b c

-- A new fact is unmerged, and a merge is of another fact into an unmerged one.
def Write.Rooted (facts : List Fact) : Write → Prop
  | .insertFact row => row.mergedIntoFactId = none
  | .merge factId into _ => factId ≠ into ∧ ∀ leader ∈ facts, leader.factId = into → leader.mergedIntoFactId = none
  | _ => True

abbrev RootedAll : List Fact → List Write → Prop := Runs.Throughout Write.onFacts Write.Rooted

section
variable {w : Write} {facts : List Fact}

theorem rootedExtends (rooted : w.Rooted facts) : Extends facts (w.onFacts facts) := by
  rintro a b ⟨fact, mem, rfl, into⟩
  rcases onFactsFrom mem with ⟨old, held, rfl⟩ | rfl
  · by_cases taken : ∃ into at', w = .merge old.factId into at'
    · obtain ⟨leader, at', rfl⟩ := taken
      refine .inr ?_
      have is : leader = b := by simpa [Write.touch] using into
      subst is
      rintro c ⟨last, there, same, onward⟩
      rcases onFactsFrom there with ⟨target, led, rfl⟩ | new
      · rw [touchId] at same
        have other : target.factId ≠ old.factId := fun is => rooted.1 (is.symm.trans same)
        rw [Write.touch, if_neg other, rooted.2 target led same] at onward
        cases onward
      · cases new
    · have same := touchMerged w old (fun into at' is => taken ⟨into, at', is⟩)
      exact .inl ⟨old, held, (touchId w old).symm, same.symm.trans into⟩
  · rw [show fact.mergedIntoFactId = none from rooted] at into
    cases into

theorem mergesRooted {merges : List (String × String × String)} (apart : ∀ m ∈ merges, ∀ other ∈ merges, m.1 ≠ other.2.1)
    (free : ∀ m ∈ merges, ∀ leader ∈ facts, leader.factId = m.2.1 → leader.mergedIntoFactId = none) :
    RootedAll facts (merges.map (fun m => .merge m.1 m.2.1 m.2.2)) := by
  induction merges generalizing facts with
  | nil => trivial
  | cons m rest ih =>
    refine ⟨⟨apart m List.mem_cons_self m List.mem_cons_self, free m List.mem_cons_self⟩, ?_⟩
    refine ih (fun first mem other held => apart first (List.mem_cons_of_mem _ mem) other (List.mem_cons_of_mem _ held)) ?_
    intro later mem leader led is
    rcases onFactsFrom led with ⟨old, held, rfl⟩ | new
    · rw [touchId] at is
      have other : old.factId ≠ m.1 := fun same =>
        apart m List.mem_cons_self later (List.mem_cons_of_mem _ mem) (same.symm.trans is)
      rw [Write.touch, if_neg other]
      exact free later (List.mem_cons_of_mem _ mem) old held is
    · cases new

theorem plainRooted (facts : List Fact) {writes : List Write} (upserts : ∀ w ∈ writes, w.Upserts) : RootedAll facts writes := by
  induction writes generalizing facts with
  | nil => trivial
  | cons w rest ih =>
    refine ⟨?_, ih _ (fun w mem => upserts w (List.mem_cons_of_mem _ mem))⟩
    have first := upserts w List.mem_cons_self
    cases w with
    | insertFact row => exact first
    | merge => exact first.elim
    | _ => trivial

-- A cycle would have to pass a new merge, and that one leads nowhere further.
theorem extendsAcyclic {before after : List Fact} (extended : Extends before after)
    (acyclic : Chains.Acyclic (MergedInto before)) : Chains.Acyclic (MergedInto after) := by
  have trails : ∀ a b, Relation.TransGen (MergedInto after) a b →
      Relation.TransGen (MergedInto before) a b ∨ ∀ c, ¬ MergedInto after b c := by
    intro a b trail
    induction trail with
    | single step => exact (extended _ _ step).imp_left .single
    | tail _ step ih =>
      have reached := ih.resolve_right (fun ends => ends _ step)
      exact (extended _ _ step).imp_left reached.tail
  intro node cycle
  rcases trails node node cycle with old | ends
  · exact acyclic node old
  · obtain ⟨next, first, -⟩ := Relation.TransGen.head'_iff.mp cycle
    exact ends next first

theorem rootedRun {writes : List Write} (rooted : RootedAll facts writes) (acyclic : Chains.Acyclic (MergedInto facts)) :
    Chains.Acyclic (MergedInto (Runs.run Write.onFacts facts writes)) := by
  induction writes generalizing facts with
  | nil => exact acyclic
  | cons w rest ih => exact ih rooted.2 (extendsAcyclic (rootedExtends rooted.1) acyclic)

theorem keyedRun (keyed : (facts.map Fact.factId).Nodup) (writes : List Write) :
    ((Runs.run Write.onFacts facts writes).map Fact.factId).Nodup := by
  have keep : ∀ facts w, (facts.map Fact.factId).Nodup → ((Write.onFacts facts w).map Fact.factId).Nodup :=
    fun _ _ => onFactsKeyed
  exact Runs.invariant Write.onFacts keep keyed writes
end

section
variable (env : Env) (job : Job) {db : Db}

theorem mergeWritesRooted (keyed : (db.facts.map Fact.factId).Nodup) : RootedAll db.facts (mergeWrites env job db) := by
  have all := dedupeMerges env job keyed
  have rooted := mergesRooted all.apart (fun m mem leader led is => by
    obtain ⟨entry, held, rfl⟩ := List.mem_map.mp mem
    obtain ⟨-, leads, -⟩ := mergePair keyed (List.fst_mem_of_mem_zipIdx held)
    obtain ⟨inside, -, free⟩ := sessionFact.mp leads
    rwa [Tables.keyUnique keyed led inside is])
  rwa [List.map_map] at rooted

theorem traceRooted (keyed : (db.facts.map Fact.factId).Nodup) (reason : String) : RootedAll db.facts (trace env job reason db) := by
  obtain ⟨last, split, idle⟩ := traceParts env job db reason
  have keyed' := keyedRun keyed (upsertWrites env job db)
  rw [← ranFacts] at keyed'
  rw [split]
  refine (Runs.throughoutAppend _).mpr ⟨plainRooted _ upsertUpserts, (Runs.throughoutAppend _).mpr ⟨?_, plainRooted _ ?_⟩⟩
  · rw [← ranFacts]
    exact mergeWritesRooted env job keyed'
  · intro w mem
    rcases idle w mem with ⟨_, rfl⟩ | ⟨_, rfl⟩ <;> trivial

theorem eachTrue (envs : Nat → Env) (reason : String) (stop : Nat → Option Stop) (n : Nat) (jobs : List Job) (store : Store) :
    EachJob (fun _ _ _ => True) envs reason stop n jobs store := by
  induction jobs generalizing n store with
  | nil => trivial
  | cons job rest ih => exact ⟨trivial, fun _ => ih (n + 1) _⟩
end

-- A run, with the facts it finds and those it leaves.
theorem turnRooted (turn : Turn) (keyed : (turn.store.db.facts.map Fact.factId).Nodup) :
    (turn.after.db.facts.map Fact.factId).Nodup ∧
      (Chains.Acyclic (MergedInto turn.store.db.facts) → Chains.Acyclic (MergedInto turn.after.db.facts)) := by
  have job : ∀ n job store, ((store.db.facts.map Fact.factId).Nodup ∧
      (Chains.Acyclic (MergedInto turn.store.db.facts) → Chains.Acyclic (MergedInto store.db.facts))) → True →
      (((runJob (turn.env n) (reasonOf turn.options) (turn.faults.stop n) job store).1.db.facts.map Fact.factId).Nodup ∧
        (Chains.Acyclic (MergedInto turn.store.db.facts) → Chains.Acyclic
          (MergedInto (runJob (turn.env n) (reasonOf turn.options) (turn.faults.stop n) job store).1.db.facts))) := by
    rintro n job store ⟨keyed, kept⟩ -
    rw [runJobFacts]
    have rooted := executedThroughout job (turn.faults.stop n) (traceRooted (turn.env n) job keyed (reasonOf turn.options))
    exact ⟨keyedRun keyed _, fun acyclic => rootedRun rooted (kept acyclic)⟩
  rw [Turn.after, ranJobs]
  exact runJobsKeep job 0 _ (runStarted turn.store) ⟨keyed, id⟩ (eachTrue _ _ _ _ _ _)

section
variable {plan : Compress.Plan} {now : String} {project : Option String} {facts : List Fact}

theorem sameExtends {after : List Fact} (same : after.map (fun fact => (fact.factId, fact.mergedIntoFactId)) =
    facts.map (fun fact => (fact.factId, fact.mergedIntoFactId))) : Extends facts after := by
  rintro a b ⟨fact, mem, rfl, into⟩
  have listed := List.mem_map_of_mem (f := fun fact => (fact.factId, fact.mergedIntoFactId)) mem
  rw [same] at listed
  obtain ⟨old, held, is⟩ := List.mem_map.mp listed
  obtain ⟨named, merged⟩ := Prod.mk.inj is
  exact .inl ⟨old, held, named, merged.trans into⟩

theorem groupsExtend (keyed : (facts.map Fact.factId).Nodup) : Extends facts (Compress.mergeGroups plan now project facts).1 := by
  rw [Compress.mergedFacts]
  rintro a b ⟨fact, mem, rfl, into⟩
  obtain ⟨old, held, rfl⟩ := List.mem_map.mp mem
  rcases Compress.outcomeCases plan now project facts (Compress.selectedKeys plan project facts) old with
    same | ⟨keep, keeps, -, -, -, is⟩
  · rw [same] at into ⊢
    exact .inl ⟨old, held, rfl, into⟩
  · rw [is] at into
    obtain rfl := Option.some.inj into
    obtain ⟨inside, chosen⟩ := Compress.keeperHeld keeps
    refine .inr ?_
    rintro c ⟨last, there, named, onward⟩
    obtain ⟨row, stored, rfl⟩ := List.mem_map.mp there
    rw [Compress.outcomeId] at named
    obtain rfl := Tables.keyUnique keyed stored inside named
    obtain ⟨key, alive, -⟩ := Compress.keyedSame.mp chosen
    have free : row.mergedIntoFactId = none := by
      simp only [active, Bool.and_eq_true, Option.isNone_iff_eq_none] at alive
      exact alive.1.1
    have stays : Compress.outcome plan now project facts (Compress.selectedKeys plan project facts) row = row := by
      simp [Compress.outcome, key, keeps, Compress.older]
    rw [stays, free] at onward
    cases onward
end

-- The other writer of the column merges into facts it leaves unmerged as well.
theorem compressExtends (plan : Compress.Plan) (now : String) (logged : Bool) (request : Compress.Request) {db : Db}
    (keyed : (db.facts.map Fact.factId).Nodup) :
    Extends db.facts (Compress.compressMemory plan now logged request db).1.facts := by
  unfold Compress.compressMemory
  split
  · exact fun _ _ => .inl
  · cases is : request.strategy with
    | none =>
      simp only [Compress.compressed, is]
      exact fun _ _ => .inl
    | prune =>
      simp only [Compress.compressed, is]
      exact sameExtends (Compress.pruneMerged now request.project db.facts)
    | merge =>
      simp only [Compress.compressed, is]
      exact groupsExtend keyed

-- A pass makes a forest of depth one that another pass leaves alone, and the runs make no cycle of them.
theorem mergesForest (env : Env) (facts : List Fact) {turn : Nat → Turn}
    (keyed : ∀ n, ((turn n).store.db.facts.map Fact.factId).Nodup)
    (between : ∀ n, Extends (turn n).after.db.facts (turn (n + 1)).store.db.facts)
    (acyclic : Chains.Acyclic (MergedInto (turn 0).store.db.facts)) :
    (∃ survivors, Forest facts (dedupeFacts env facts) survivors ∧
        ∀ again : List Fact, again.Perm survivors → dedupeFacts env again = []) ∧
      ((facts.map Fact.factId).Nodup → DepthOne (dedupeFacts env facts)) ∧
      ∀ n, Chains.Acyclic (MergedInto (turn n).store.db.facts) ∧ Chains.Acyclic (MergedInto (turn n).after.db.facts) := by
  refine ⟨⟨_, dedupeParts env facts, fun again => dedupeAgain env facts⟩, dedupeDepthOne env, fun n => ?_⟩
  have before : Chains.Acyclic (MergedInto (turn n).store.db.facts) := by
    induction n with
    | zero => exact acyclic
    | succ n ih => exact extendsAcyclic (between n) ((turnRooted (turn n) (keyed n)).2 ih)
  exact ⟨before, (turnRooted (turn n) (keyed n)).2 before⟩

-- One run after another on what the last one left.
def repeated (turn : Turn) (n : Nat) : Turn := (fun turn : Turn => {turn with store := turn.after})^[n] turn

theorem repeatedNext (turn : Turn) (n : Nat) : (repeated turn (n + 1)).store = (repeated turn n).after := by
  rw [repeated, Function.iterate_succ_apply']
  rfl

def likeFacts : List Fact :=
  [knownFact "fact_a" none "2026-01-01", knownFact "fact_b" none "2026-01-02", knownFact "fact_c" none "2026-01-03"]

theorem mergesForestRepeated :
    (∃ survivors, Forest likeFacts (dedupeFacts plainEnv likeFacts) survivors ∧
        ∀ again : List Fact, again.Perm survivors → dedupeFacts plainEnv again = []) ∧
      ((likeFacts.map Fact.factId).Nodup → DepthOne (dedupeFacts plainEnv likeFacts)) ∧
      ∀ n, Chains.Acyclic (MergedInto (repeated (sessionTurn plainEnv likeFacts) n).store.db.facts) ∧
        Chains.Acyclic (MergedInto (repeated (sessionTurn plainEnv likeFacts) n).after.db.facts) := by
  have keyed : ∀ n, ((repeated (sessionTurn plainEnv likeFacts) n).store.db.facts.map Fact.factId).Nodup := by
    intro n
    induction n with
    | zero => decide
    | succ n ih =>
      rw [repeatedNext]
      exact (turnRooted _ ih).1
  have acyclic : Chains.Acyclic (MergedInto likeFacts) := by
    intro node trail
    obtain ⟨next, ⟨fact, mem, -, into⟩, -⟩ := Relation.TransGen.head'_iff.mp trail
    have free : ∀ fact ∈ likeFacts, fact.mergedIntoFactId = none := by decide
    rw [free fact mem] at into
    cases into
  refine mergesForest plainEnv likeFacts keyed (fun n => ?_) acyclic
  rw [repeatedNext]
  exact fun _ _ => .inl

end HarnessMem.Consolidation
