import HarnessMem.Consolidation
import Mathlib.Data.List.Dedup

/-! `compressMemory`: facts of low confidence expire, or the facts of one key are merged into the
latest of them. -/
namespace HarnessMem.Compress
open Recorder Consolidation

inductive Strategy where
  | prune | merge | none
  deriving DecidableEq, Repr

def Strategy.text : Strategy → String
  | .prune => "prune"
  | .merge => "merge"
  | .none => "none"

structure Request where
  strategy : Strategy
  project : Option String
  dryRun : Option Bool

structure Answer where
  ok : Bool
  strategy : Strategy
  observationsBefore : Nat
  observationsAfter : Nat
  prunedCount : Nat
  mergedCount : Nat
  deriving DecidableEq, Repr

-- The orders SQLite takes groups and rows in.
structure Plan where
  groups : Tables.Scan String
  facts : Tables.Scan Fact

def within (project : Option String) (fact : Fact) : Bool :=
  match truthy project with
  | some name => fact.project = name
  | none => true
def current (project : Option String) (fact : Fact) : Bool := active fact && within project fact

def countActiveFacts (project : Option String) (facts : List Fact) : Nat := (facts.filter (current project)).length

def unsure (project : Option String) (fact : Fact) : Bool := fact.confidence < 1 / 2 && current project fact
def prune (now : String) (project : Option String) : List Fact → List Fact :=
  Tables.update (unsure project) (fun fact =>
    {fact with temporal := {fact.temporal with validTo := some now, invalidatedAt := some now}, updatedAt := now})

-- The facts of one group, and the latest `created_at` among them.
def keyed (project : Option String) (key : String) (fact : Fact) : Bool := fact.factKey = key && current project fact
def latestAt : List Fact → String
  | [] => ""
  | fact :: rest => rest.foldl (fun best fact => if best < fact.createdAt then fact.createdAt else best) fact.createdAt

structure Duplicate where
  factKey : String
  latestAt : String

def selectedKeys (plan : Plan) (project : Option String) (facts : List Fact) : List String :=
  ((plan.groups.arrange ((facts.filter (current project)).map Fact.factKey).dedup).filter (fun key =>
    1 < (facts.filter (keyed project key)).length)).take 200
def duplicates (plan : Plan) (project : Option String) (facts : List Fact) : List Duplicate :=
  (selectedKeys plan project facts).map (fun key => ⟨key, latestAt (facts.filter (keyed project key))⟩)

def keepRow (plan : Plan) (project : Option String) (dup : Duplicate) (facts : List Fact) : Option Fact :=
  (plan.facts.arrange ((facts.filter (keyed project dup.factKey)).filter (fun fact => fact.createdAt = dup.latestAt))).head?

def older (project : Option String) (key keepId : String) (fact : Fact) : Bool :=
  keyed project key fact && fact.factId ≠ keepId
def absorb (now : String) (project : Option String) (key keepId : String) : List Fact → List Fact :=
  Tables.update (older project key keepId) (fun fact => {fact with mergedIntoFactId := some keepId, updatedAt := now})

-- One round of the loop, with the count of merged rows.
def mergeGroup (plan : Plan) (now : String) (project : Option String) (done : List Fact × Nat) (dup : Duplicate) :
    List Fact × Nat :=
  match keepRow plan project dup done.1 with
  | some keep => (absorb now project dup.factKey keep.factId done.1,
      done.2 + (done.1.filter (older project dup.factKey keep.factId)).length)
  | none => done

def mergeGroups (plan : Plan) (now : String) (project : Option String) (facts : List Fact) : List Fact × Nat :=
  (duplicates plan project facts).foldl (mergeGroup plan now project) (facts, 0)

def auditRow (now : String) (request : Request) (answer : Answer) : Audit :=
  let details := Json.stringify (.obj [("strategy", .str request.strategy.text),
    ("project", .str ((truthy request.project).getD "*")), ("observations_before", count answer.observationsBefore),
    ("observations_after", count answer.observationsAfter), ("pruned_count", count answer.prunedCount),
    ("merged_count", count answer.mergedCount)])
  ⟨"admin.compress", "system", "facts", "", details, now, none⟩

def compressed (plan : Plan) (now : String) (request : Request) (facts : List Fact) : List Fact × Nat × Nat :=
  match request.strategy with
  | .prune => (prune now request.project facts, (facts.filter (unsure request.project)).length, 0)
  | .merge => ((mergeGroups plan now request.project facts).1, 0, (mergeGroups plan now request.project facts).2)
  | .none => (facts, 0, 0)

-- The audit row is written where the log can be written.
def compressMemory (plan : Plan) (now : String) (logged : Bool) (request : Request) (db : Db) : Db × Answer :=
  let before := countActiveFacts request.project db.facts
  if request.strategy = .none ∨ request.dryRun = some true then (db, ⟨true, request.strategy, before, before, 0, 0⟩)
  else
    let done := compressed plan now request db.facts
    let answer := ⟨true, request.strategy, before, countActiveFacts request.project done.1, done.2.1, done.2.2⟩
    ({db with
      facts := done.1
      auditLog := if logged then db.auditLog ++ [auditRow now request answer] else db.auditLog}, answer)

-- Every fact merged away has an active one of its project to stand for it.
def Represented (before after : List Fact) : Prop :=
  ∀ old ∈ before, ∀ new ∈ after, new.factId = old.factId → new.mergedIntoFactId ≠ old.mergedIntoFactId →
    ∃ kept ∈ after, active kept = true ∧ kept.project = old.project ∧ new.mergedIntoFactId = some kept.factId

-- A group the call takes up holds active facts of two projects.
def Mixed (plan : Plan) (project : Option String) (facts : List Fact) : Prop :=
  ∃ key ∈ selectedKeys plan project facts, ∃ a ∈ facts, ∃ b ∈ facts,
    keyed project key a = true ∧ keyed project key b = true ∧ a.project ≠ b.project

section
variable {plan : Plan} {now : String} {project : Option String} {facts : List Fact}

theorem keyedSame {key : String} {fact : Fact} : keyed project key fact = true ↔
    fact.factKey = key ∧ active fact = true ∧ within project fact = true := by
  simp [keyed, current]

theorem latestHeld {rows : List Fact} (some' : rows ≠ []) : ∃ fact ∈ rows, fact.createdAt = latestAt rows := by
  have attained : ∀ (rest : List Fact) (best : String),
      rest.foldl (fun best fact => if best < fact.createdAt then fact.createdAt else best) best = best ∨
      ∃ fact ∈ rest, fact.createdAt =
        rest.foldl (fun best fact => if best < fact.createdAt then fact.createdAt else best) best := by
    intro rest
    induction rest with
    | nil => exact fun _ => .inl rfl
    | cons fact rest ih =>
      intro best
      rw [List.foldl_cons]
      rcases ih (if best < fact.createdAt then fact.createdAt else best) with same | ⟨later, mem, is⟩
      · rw [same]
        by_cases newer : best < fact.createdAt
        · exact .inr ⟨fact, List.mem_cons_self, (if_pos newer).symm⟩
        · exact .inl (if_neg newer)
      · exact .inr ⟨later, List.mem_cons_of_mem _ mem, is⟩
  cases rows with
  | nil => exact absurd rfl some'
  | cons fact rest =>
    rcases attained rest fact.createdAt with same | ⟨later, mem, is⟩
    · exact ⟨fact, List.mem_cons_self, same.symm⟩
    · exact ⟨later, List.mem_cons_of_mem _ mem, is⟩

variable (plan project facts) in
-- Who a group's facts are merged into.
def keeper (key : String) : Option Fact :=
  keepRow plan project ⟨key, latestAt (facts.filter (keyed project key))⟩ facts

theorem keeperHeld {key : String} {keep : Fact} (is : keeper plan project facts key = some keep) :
    keep ∈ facts ∧ keyed project key keep = true := by
  have mem := List.mem_of_head? is
  rw [Tables.Scan.mem] at mem
  exact List.mem_filter.mp (List.mem_of_mem_filter mem)

variable (plan) in
theorem keeperFound {key : String} {fact : Fact} (mem : fact ∈ facts) (inside : keyed project key fact = true) :
    ∃ keep, keeper plan project facts key = some keep := by
  obtain ⟨last, held, at'⟩ := latestHeld (List.ne_nil_of_mem (List.mem_filter.mpr ⟨mem, inside⟩))
  have found : last ∈ plan.facts.arrange ((facts.filter (keyed project key)).filter (fun fact =>
      fact.createdAt = latestAt (facts.filter (keyed project key)))) := by
    rw [Tables.Scan.mem]
    exact List.mem_filter.mpr ⟨held, decide_eq_true at'⟩
  exact Option.isSome_iff_exists.mp (List.isSome_head?.mpr (List.ne_nil_of_mem found))

variable (plan now project facts) in
-- What the groups of some keys make of a fact.
def outcome (keys : List String) (old : Fact) : Fact :=
  match keeper plan project facts old.factKey with
  | some keep =>
    if old.factKey ∈ keys ∧ older project old.factKey keep.factId old = true then
      {old with mergedIntoFactId := some keep.factId, updatedAt := now}
    else old
  | none => old

variable (plan now project facts) in
theorem outcomeCases (keys : List String) (old : Fact) :
    outcome plan now project facts keys old = old ∨
      ∃ keep, keeper plan project facts old.factKey = some keep ∧ old.factKey ∈ keys ∧ keyed project old.factKey old = true ∧
        old.factId ≠ keep.factId ∧
        outcome plan now project facts keys old = {old with mergedIntoFactId := some keep.factId, updatedAt := now} := by
  unfold outcome
  split
  · rename_i keep is
    split
    · rename_i taken
      have apart : keyed project old.factKey old = true ∧ old.factId ≠ keep.factId := by simpa [older] using taken.2
      exact .inr ⟨keep, is, taken.1, apart.1, apart.2, rfl⟩
    · exact .inl rfl
  · exact .inl rfl

@[simp] theorem outcomeId (keys : List String) (old : Fact) : (outcome plan now project facts keys old).factId = old.factId := by
  rcases outcomeCases plan now project facts keys old with same | ⟨_, _, _, _, _, is⟩
  · rw [same]
  · rw [is]
@[simp] theorem outcomeKey (keys : List String) (old : Fact) : (outcome plan now project facts keys old).factKey = old.factKey := by
  rcases outcomeCases plan now project facts keys old with same | ⟨_, _, _, _, _, is⟩
  · rw [same]
  · rw [is]

theorem outcomeOutside {keys : List String} {old : Fact} (outside : old.factKey ∉ keys) :
    outcome plan now project facts keys old = old := by
  unfold outcome
  split
  · exact if_neg (fun taken => outside taken.1)
  · rfl

-- A group not worked on yet is as it was.
theorem groupWaits {keys : List String} {key : String} (waits : key ∉ keys) :
    (facts.map (outcome plan now project facts keys)).filter (keyed project key) = facts.filter (keyed project key) := by
  have same : ∀ old, old.factKey = key → outcome plan now project facts keys old = old :=
    fun old is => outcomeOutside (is ▸ waits)
  have seen : ∀ old, keyed project key (outcome plan now project facts keys old) = keyed project key old := by
    intro old
    by_cases mine : old.factKey = key
    · rw [same old mine]
    · simp [keyed, mine]
  have chosen : facts.filter (keyed project key ∘ outcome plan now project facts keys) = facts.filter (keyed project key) :=
    List.filter_congr (fun old _ => seen old)
  rw [List.filter_map, chosen]
  refine (List.map_congr_left fun old mem => ?_).trans (List.map_id _)
  exact same old (keyedSame.mp (List.of_mem_filter mem)).1

variable (plan now project facts) in
theorem groupStep {keys : List String} {key : String} (waits : key ∉ keys) (n : Nat) :
    (mergeGroup plan now project (facts.map (outcome plan now project facts keys), n)
      ⟨key, latestAt (facts.filter (keyed project key))⟩).1 = facts.map (outcome plan now project facts (keys ++ [key])) := by
  have chosen : keepRow plan project ⟨key, latestAt (facts.filter (keyed project key))⟩
      (facts.map (outcome plan now project facts keys)) = keeper plan project facts key := by
    rw [keepRow, groupWaits waits]
    rfl
  have others : ∀ old, old.factKey ≠ key →
      outcome plan now project facts (keys ++ [key]) old = outcome plan now project facts keys old := by
    intro old other
    unfold outcome
    simp only [List.mem_append, List.mem_singleton, other, or_false]
  rw [mergeGroup, chosen]
  cases is : keeper plan project facts key with
  | none =>
    refine List.map_congr_left (fun old _ => ?_)
    by_cases mine : old.factKey = key
    · rw [outcomeOutside (mine ▸ waits), outcome, mine, is]
    · exact (others old mine).symm
  | some keep =>
    simp only [absorb, Tables.update, List.map_map]
    refine List.map_congr_left (fun old _ => ?_)
    rw [Function.comp_apply]
    by_cases mine : old.factKey = key
    · rw [outcomeOutside (mine ▸ waits), outcome, mine, is]
      simp
    · have missed : older project key keep.factId (outcome plan now project facts keys old) = false := by
        simp [older, keyed, mine]
      rw [missed, if_neg Bool.false_ne_true, others old mine]

theorem groupsRun (plan : Plan) (now : String) (project : Option String) (facts : List Fact) {keys done : List String}
    (distinct : (done ++ keys).Nodup) (n : Nat) :
    ((keys.map (fun key => ⟨key, latestAt (facts.filter (keyed project key))⟩)).foldl (mergeGroup plan now project)
      (facts.map (outcome plan now project facts done), n)).1 = facts.map (outcome plan now project facts (done ++ keys)) := by
  induction keys generalizing done n with
  | nil => simp
  | cons key rest ih =>
    have waits : key ∉ done := fun held =>
      (List.nodup_append'.mp distinct).2.2 held List.mem_cons_self
    have step := groupStep plan now project facts waits n
    rw [List.append_cons] at distinct ⊢
    rw [List.map_cons, List.foldl_cons, ← ih distinct _, ← step]

theorem selectedDistinct : (selectedKeys plan project facts).Nodup := by
  refine (List.Nodup.filter _ ?_).sublist (List.take_sublist _ _)
  exact (plan.groups.perm _).nodup_iff.mpr (List.nodup_dedup _)

theorem mergedFacts : (mergeGroups plan now project facts).1 =
    facts.map (outcome plan now project facts (selectedKeys plan project facts)) := by
  have start : facts.map (outcome plan now project facts []) = facts :=
    (List.map_congr_left fun old _ => outcomeOutside List.not_mem_nil).trans (List.map_id facts)
  have distinct : ([] ++ selectedKeys plan project facts).Nodup := selectedDistinct
  have ran := groupsRun plan now project facts distinct 0
  rw [start] at ran
  exact ran

-- The merge in terms of the facts there were before.
theorem mergeRepresents (unique : (facts.map Fact.factId).Nodup) :
    Represented facts (mergeGroups plan now project facts).1 ↔
      ∀ old ∈ facts, ∀ keep, keeper plan project facts old.factKey = some keep →
        old.factKey ∈ selectedKeys plan project facts → keyed project old.factKey old = true → keep.project = old.project := by
  rw [mergedFacts]
  have own : ∀ {old : Fact}, old ∈ facts → ∀ {row : Fact}, row ∈ facts → old.factId = row.factId → old = row :=
    fun mem _ held same => Tables.keyUnique unique mem held same
  constructor
  · intro represented old mem keep is taken inside
    by_cases self : old.factId = keep.factId
    · rw [own mem (keeperHeld is).1 self]
    · have into : outcome plan now project facts (selectedKeys plan project facts) old =
          {old with mergedIntoFactId := some keep.factId, updatedAt := now} := by
        simp [outcome, is, taken, older, inside, self]
      have unmerged : old.mergedIntoFactId = none := by
        have alive := (keyedSame.mp inside).2.1
        simp only [active, Bool.and_eq_true, Option.isNone_iff_eq_none] at alive
        exact alive.1.1
      obtain ⟨kept, held, -, sameProject, names⟩ := represented old mem _ (List.mem_map_of_mem mem) (by simp)
        (by rw [into, unmerged]; simp)
      obtain ⟨row, rowMem, rfl⟩ := List.mem_map.mp held
      rw [into] at names
      have isKeep : keep = row := own (keeperHeld is).1 rowMem (by simpa using names)
      subst isKeep
      rcases outcomeCases plan now project facts
        (selectedKeys plan project facts) keep with same | ⟨_, _, _, _, _, same⟩
      · rwa [same] at sameProject
      · rwa [same] at sameProject
  · intro sameProject old mem new newMem sameId changed
    obtain ⟨row, rowMem, rfl⟩ := List.mem_map.mp newMem
    obtain rfl := own rowMem mem (by simpa using sameId)
    rcases outcomeCases plan now project facts
      (selectedKeys plan project facts) row with same | ⟨keep, is, taken, inside, apart, into⟩
    · exact absurd (congrArg Fact.mergedIntoFactId same) changed
    · obtain ⟨keepMem, keepInside⟩ := keeperHeld is
      have stays : outcome plan now project facts (selectedKeys plan project facts) keep = keep := by
        simp [outcome, (keyedSame.mp keepInside).1, is, older]
      refine ⟨keep, ?_, (keyedSame.mp keepInside).2.1, sameProject row mem keep is taken inside, by rw [into]⟩
      rw [← stays]
      exact List.mem_map_of_mem keepMem

theorem unmixedIff : (∀ old ∈ facts, ∀ keep, keeper plan project facts old.factKey = some keep →
      old.factKey ∈ selectedKeys plan project facts → keyed project old.factKey old = true → keep.project = old.project) ↔
    ¬ Mixed plan project facts := by
  constructor
  · rintro same ⟨key, taken, a, aMem, b, bMem, aIn, bIn, apart⟩
    obtain ⟨keep, is⟩ := keeperFound plan aMem aIn
    have at' : ∀ fact ∈ facts, keyed project key fact = true → keep.project = fact.project := by
      intro fact mem inside
      have named := (keyedSame.mp inside).1
      exact same fact mem keep (named ▸ is) (named ▸ taken) (named ▸ inside)
    exact apart ((at' a aMem aIn).symm.trans (at' b bMem bIn))
  · intro unmixed old mem keep is taken inside
    obtain ⟨keepMem, keepIn⟩ := keeperHeld is
    exact by_contra fun apart => unmixed ⟨_, taken, keep, keepMem, old, mem, keepIn, inside, apart⟩

-- Inside one project no group mixes projects.
theorem scopedUnmixed {name : String} (given : truthy project = some name) : ¬ Mixed plan project facts := by
  rintro ⟨key, -, a, -, b, -, aIn, bIn, apart⟩
  have named : ∀ fact, keyed project key fact = true → fact.project = name := by
    intro fact inside
    have within' := (keyedSame.mp inside).2.2
    simpa [within, given] using within'
  exact apart ((named a aIn).trans (named b bIn).symm)

end

theorem pruneMerged (now : String) (project : Option String) (facts : List Fact) :
    (prune now project facts).map (fun fact => (fact.factId, fact.mergedIntoFactId)) =
      facts.map (fun fact => (fact.factId, fact.mergedIntoFactId)) := by
  rw [prune, Tables.updateColumn]
  exact fun _ => rfl

-- Where no fact is merged nothing needs to stand for one.
theorem unmergedRepresented {before after : List Fact} (unique : (before.map Fact.factId).Nodup)
    (same : after.map (fun fact => (fact.factId, fact.mergedIntoFactId)) =
      before.map (fun fact => (fact.factId, fact.mergedIntoFactId))) : Represented before after := by
  intro old mem new newMem sameId changed
  have listed : (new.factId, new.mergedIntoFactId) ∈ before.map (fun fact => (fact.factId, fact.mergedIntoFactId)) :=
    same ▸ List.mem_map_of_mem newMem
  obtain ⟨row, rowMem, is⟩ := List.mem_map.mp listed
  obtain ⟨rowId, rowMerged⟩ := Prod.mk.inj is
  obtain rfl := Tables.keyUnique unique rowMem mem (rowId.trans sameId)
  exact absurd rowMerged.symm changed

theorem compressRepresents (plan : Plan) (now : String) (logged : Bool) (request : Request) {db : Db}
    (unique : (db.facts.map Fact.factId).Nodup) :
    Represented db.facts (compressMemory plan now logged request db).1.facts ↔
      ¬ (request.strategy = .merge ∧ request.dryRun ≠ some true ∧ truthy request.project = none ∧
        Mixed plan request.project db.facts) := by
  unfold compressMemory
  split
  · rename_i idle
    refine iff_of_true (unmergedRepresented unique rfl) ?_
    rintro ⟨merges, wet, -⟩
    rcases idle with none | dry
    · rw [merges] at none
      cases none
    · exact wet dry
  · rename_i busy
    obtain ⟨works, wet⟩ := not_or.mp busy
    cases is : request.strategy with
    | none => exact absurd is works
    | prune =>
      refine iff_of_true ?_ (by simp)
      simp only [compressed, is]
      exact unmergedRepresented unique (pruneMerged now request.project db.facts)
    | merge =>
      simp only [compressed, is]
      rw [mergeRepresents unique, unmixedIff]
      refine not_congr ⟨fun mixed => ⟨trivial, wet, ?_, mixed⟩, fun all => all.2.2.2⟩
      cases given : truthy request.project with
      | none => rfl
      | some name => exact absurd mixed (scopedUnmixed given)

def plainPlan : Plan := ⟨Tables.inOrder, Tables.inOrder⟩
def everywhere : Request := ⟨.merge, none, none⟩
def fact (id project key createdAt : String) : Fact where
  factId := id
  observationId := none
  project := project
  sessionId := "s"
  factType := "decision"
  factKey := key
  factValue := "v"
  confidence := 1
  supersededBy := none
  temporal := ⟨none, none, none, none, none, none⟩
  mergedIntoFactId := none
  createdAt := createdAt
  updatedAt := createdAt
def oneProject : Db := {Db.empty with facts := [fact "a" "p" "k" "1", fact "b" "p" "k" "2"]}
def twoProjects : Db := {Db.empty with facts := [fact "a" "p" "k" "1", fact "b" "q" "k" "2"]}

theorem compressRepresentsOne :
    Represented oneProject.facts (compressMemory plainPlan "3" true everywhere oneProject).1.facts ↔
      ¬ (everywhere.strategy = .merge ∧ everywhere.dryRun ≠ some true ∧ truthy everywhere.project = none ∧
        Mixed plainPlan everywhere.project oneProject.facts) :=
  compressRepresents plainPlan "3" true everywhere (by decide)

-- The only fact of `p` is merged into a fact of `q`.
theorem compressMixes : ¬ Represented twoProjects.facts (compressMemory plainPlan "3" true everywhere twoProjects).1.facts := by
  have merged : (compressMemory plainPlan "3" true everywhere twoProjects).1.facts =
      [{fact "a" "p" "k" "1" with mergedIntoFactId := some "b", updatedAt := "3"}, fact "b" "q" "k" "2"] := by decide
  rw [merged]
  intro represented
  obtain ⟨kept, mem, -, project, names⟩ := represented (fact "a" "p" "k" "1") List.mem_cons_self _ List.mem_cons_self rfl (by decide)
  rcases List.mem_cons.mp mem with rfl | mem
  · exact absurd names (by decide)
  · rw [List.mem_singleton.mp mem] at project
    exact absurd project (by decide)

end HarnessMem.Compress
