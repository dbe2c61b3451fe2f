import HarnessMem.ConsolidationFacts
import HarnessMem.ConsolidationQueue
import HarnessMem.Lib.Runs

/-! What each statement of the worker does to the rows of `mem_facts`, and which of its statements a
run executes. -/
namespace HarnessMem.Consolidation
open Recorder

def Write.touch : Write → Fact → Fact
  | .supersede factId supersededBy at', fact =>
    if fact.factId = factId ∧ fact.supersededBy = none then
      { fact with
        supersededBy := some supersededBy
        temporal := {fact.temporal with validTo := some at', invalidatedAt := some at'}
        updatedAt := at' }
    else fact
  | .merge factId into at', fact => if fact.factId = factId then {fact with mergedIntoFactId := some into, updatedAt := at'} else fact
  | _, fact => fact

section
variable (w : Write) (facts : List Fact)

theorem onFactsRows : ∃ added, w.onFacts facts = facts.map w.touch ++ added ∧
    ∀ row ∈ added, (∃ at', w = .insertFact at' ∧ row = at') ∧ ∀ fact ∈ facts, fact.factId ≠ row.factId := by
  have same : facts = facts.map (fun fact => fact) := (List.map_id _).symm
  cases w with
  | insertFact row =>
    by_cases known : facts.any (fun old => sameFact old row) = true
    · refine ⟨[], ?_, by simp⟩
      rw [List.append_nil]
      exact (if_pos known).trans same
    · refine ⟨[row], ?_, fun new mem => ?_⟩
      · exact (if_neg known).trans (congrArg (· ++ [row]) same)
      · obtain rfl := List.mem_singleton.mp mem
        refine ⟨⟨new, rfl, rfl⟩, fun fact held is => known (List.any_eq_true.mpr ⟨fact, held, ?_⟩)⟩
        simpa [sameFact] using is
  | supersede factId supersededBy at' =>
    refine ⟨[], ?_, by simp⟩
    rw [List.append_nil]
    refine List.map_congr_left (fun fact _ => ?_)
    simp [Write.touch, Option.isNone_iff_eq_none]
  | merge factId into at' =>
    refine ⟨[], ?_, by simp⟩
    rw [List.append_nil]
    refine List.map_congr_left (fun fact _ => ?_)
    simp [Write.touch]
  | insertTag row => exact ⟨[], (same.trans (List.append_nil _).symm), by simp⟩
  | insertLink row => exact ⟨[], (same.trans (List.append_nil _).symm), by simp⟩
  | audit row => exact ⟨[], (same.trans (List.append_nil _).symm), by simp⟩

variable (fact : Fact)

@[simp] theorem touchId : (w.touch fact).factId = fact.factId := by
  cases w <;> simp only [Write.touch] <;> split <;> rfl
@[simp] theorem touchProject : (w.touch fact).project = fact.project := by
  cases w <;> simp only [Write.touch] <;> split <;> rfl
@[simp] theorem touchType : (w.touch fact).factType = fact.factType := by
  cases w <;> simp only [Write.touch] <;> split <;> rfl

theorem touchMerged (other : ∀ into at', w ≠ .merge fact.factId into at') : (w.touch fact).mergedIntoFactId = fact.mergedIntoFactId := by
  cases w with
  | merge factId into at' =>
    have apart : fact.factId ≠ factId := fun is => other into at' (by rw [is])
    rw [Write.touch, if_neg apart]
  | supersede factId supersededBy at' =>
    simp only [Write.touch]
    split <;> rfl
  | _ => rfl

theorem touchActive (live : active (w.touch fact) = true) : active fact = true := by
  cases w <;> simp only [Write.touch] at live <;> try exact live
  all_goals
    split at live
    · simp [active] at live
    · exact live

theorem touchSpared (kept : ∀ supersededBy at', w ≠ .supersede fact.factId supersededBy at')
    (unmerged : ∀ into at', w ≠ .merge fact.factId into at') : w.touch fact = fact := by
  cases w with
  | merge factId into at' =>
    have apart : fact.factId ≠ factId := fun is => unmerged into at' (by rw [is])
    rw [Write.touch, if_neg apart]
  | supersede factId supersededBy at' =>
    have apart : fact.factId ≠ factId := fun is => kept supersededBy at' (by rw [is])
    rw [Write.touch, if_neg (fun both => apart both.1)]
  | _ => rfl
end

section
variable {w : Write} {facts : List Fact}

-- A fact that is already there, after the statement.
theorem onFactsOld {fact : Fact} (mem : fact ∈ w.onFacts facts) (known : ∃ old ∈ facts, old.factId = fact.factId) :
    ∃ old ∈ facts, fact = w.touch old := by
  obtain ⟨added, rows, fresh⟩ := onFactsRows w facts
  rw [rows, List.mem_append] at mem
  rcases mem with there | new
  · obtain ⟨old, held, rfl⟩ := List.mem_map.mp there
    exact ⟨old, held, rfl⟩
  · obtain ⟨old, held, same⟩ := known
    exact absurd same ((fresh fact new).2 old held)

theorem onFactsKeeps {fact : Fact} (mem : fact ∈ facts) : w.touch fact ∈ w.onFacts facts := by
  obtain ⟨added, rows, -⟩ := onFactsRows w facts
  rw [rows]
  exact List.mem_append_left _ (List.mem_map_of_mem mem)

theorem onFactsKeyed (keyed : (facts.map Fact.factId).Nodup) : ((w.onFacts facts).map Fact.factId).Nodup := by
  cases w with
  | insertFact row =>
    have inserted : (([row].foldl (Tables.insertNew sameFact) facts).map Fact.factId).Nodup := Tables.insertKeyed keyed
    exact inserted
  | supersede =>
    rw [Write.onFacts, Consolidation.supersede, Tables.updateColumn Fact.factId (fun _ => by rfl)]
    exact keyed
  | merge =>
    rw [Write.onFacts, Consolidation.merge, Tables.updateColumn Fact.factId (fun _ => by rfl)]
    exact keyed
  | _ => exact keyed
end

def Write.Upserts : Write → Prop
  | .insertFact row => row.mergedIntoFactId = none
  | .merge .. => False
  | _ => True

section
variable {env : Env} {job : Job} {db : Db}

theorem insertUpserts (n i : Nat) (row : Observation) (fact : Extractor.FactCandidate) (supersedes : Option String) :
    ∀ w ∈ insertWrites env job n i row fact supersedes, w.Upserts := by
  intro w mem
  rcases List.mem_cons.mp mem with rfl | tag
  · rfl
  · obtain ⟨_, -, rfl⟩ := List.mem_map.mp tag
    trivial

theorem supersedeUpserts (at' newFactId : String) (oldFactIds : List String) :
    ∀ w ∈ supersedeWrites at' newFactId oldFactIds, w.Upserts := by
  intro w mem
  obtain ⟨_, -, rfl⟩ := List.mem_map.mp mem
  trivial

theorem llmUpserts (n : Nat) (rows : List Observation) (existing : List Extractor.ExistingFact) :
    ∀ w ∈ llmWrites env job n rows existing, w.Upserts := by
  induction rows generalizing n existing with
  | nil => exact fun w mem => absurd mem List.not_mem_nil
  | cons row rest ih =>
    intro w mem
    rcases List.mem_append.mp mem with here | later
    · rcases List.mem_append.mp here with inserts | deletes
      · obtain ⟨entry, -, inside⟩ := List.mem_flatMap.mp inserts
        rcases List.mem_append.mp inside with insert | supersede
        · exact insertUpserts _ _ _ _ _ w insert
        · exact supersedeUpserts _ _ _ w supersede
      · exact supersedeUpserts _ _ _ w deletes
    · exact ih _ _ w later

theorem upsertUpserts : ∀ w ∈ upsertWrites env job db, w.Upserts := by
  unfold upsertWrites
  split
  · exact llmUpserts 0 _ _
  · intro w mem
    obtain ⟨entry, -, inside⟩ := List.mem_flatMap.mp mem
    obtain ⟨found, -, insert⟩ := List.mem_flatMap.mp inside
    exact insertUpserts _ _ _ _ _ w insert

variable (env job db) in
-- After the merges a job only writes links and its audit row.
theorem traceParts (reason : String) : ∃ last, trace env job reason db =
    upsertWrites env job db ++ (mergeWrites env job (run (upsertWrites env job db) db) ++ last) ∧
      ∀ w ∈ last, (∃ row, w = .insertLink row) ∨ ∃ row, w = .audit row := by
  refine ⟨linkWrites env (activeFacts job (mergedDb env job db)) ++ [.audit (auditRow env job reason (counts env job db))], ?_, ?_⟩
  · rw [trace, List.append_assoc, List.append_assoc]
  · intro w mem
    rcases List.mem_append.mp mem with link | last
    · obtain ⟨_, -, rfl⟩ := List.mem_map.mp link
      exact .inl ⟨_, rfl⟩
    · exact .inr ⟨_, List.mem_singleton.mp last⟩
end

-- What a job's turn executes of its statements.
def executed (job : Job) (stop : Option Stop) (writes : List Write) : List Write :=
  match stop with
  | some .mark => if job.id.isSome then [] else writes
  | some (.body written _) => writes.take written
  | _ => writes

theorem ranFacts (writes : List Write) (db : Db) : (run writes db).facts = Runs.run Write.onFacts db.facts writes := runFacts writes db

theorem setRowDb (id : Option Nat) (change : QueueRow → QueueRow) (store : Store) : (setRow id change store).db = store.db := by
  cases id <;> rfl

theorem runJobFacts (env : Env) (reason : String) (stop : Option Stop) (job : Job) (store : Store) :
    (runJob env reason stop job store).1.db.facts =
      Runs.run Write.onFacts store.db.facts (executed job stop (trace env job reason store.db)) := by
  rcases stop with _ | _ | ⟨written, message⟩ | _
  · simp only [runJob, markCompleted, markRunning, setRowDb, executed, ranFacts]
  · simp only [runJob, executed]
    split
    · rfl
    · simp only [markCompleted, markRunning, setRowDb, ranFacts]
  · simp only [runJob, markRunning, setRowDb, executed, ranFacts]
  · simp only [runJob, executed]
    split <;> simp only [markRunning, setRowDb, ranFacts]

-- A condition on each job a run begins, on what is stored then.
def EachJob (P : Nat → Job → Store → Prop) (env : Nat → Env) (reason : String) (stop : Nat → Option Stop) :
    Nat → List Job → Store → Prop
  | _, [], _ => True
  | n, job :: rest, store => P n job store ∧
      ((runJob (env n) reason (stop n) job store).2 = none →
        EachJob P env reason stop (n + 1) rest (runJob (env n) reason (stop n) job store).1)

section
variable {env : Nat → Env} {reason : String} {stop : Nat → Option Stop}

-- The loop goes on from what a job leaves, unless the job throws.
theorem runJobsNext (n : Nat) (job : Job) (rest : List Job) (ended : Ended) :
    ((∃ message, (runJob (env n) reason (stop n) job ended.store).2 = some message) ∧
        (runJobs env reason stop n (job :: rest) ended).store = (runJob (env n) reason (stop n) job ended.store).1) ∨
      (runJob (env n) reason (stop n) job ended.store).2 = none ∧
        ∃ next : Ended, next.store = (runJob (env n) reason (stop n) job ended.store).1 ∧
          runJobs env reason stop n (job :: rest) ended = runJobs env reason stop (n + 1) rest next := by
  cases thrown : (runJob (env n) reason (stop n) job ended.store).2 with
  | some message =>
    refine .inl ⟨⟨message, rfl⟩, ?_⟩
    simp only [runJobs, thrown]
  | none =>
    refine .inr ⟨rfl, ?_⟩
    simp only [runJobs, thrown]
    exact ⟨_, rfl, rfl⟩

theorem runJobsKeep {Inv : Store → Prop} {P : Nat → Job → Store → Prop}
    (turn : ∀ n job store, Inv store → P n job store → Inv (runJob (env n) reason (stop n) job store).1) (n : Nat)
    (jobs : List Job) (ended : Ended) (init : Inv ended.store) (each : EachJob P env reason stop n jobs ended.store) :
    Inv (runJobs env reason stop n jobs ended).store := by
  induction jobs generalizing n ended with
  | nil => exact init
  | cons job rest ih =>
    have kept := turn n job ended.store init each.1
    rcases runJobsNext n job rest ended with ⟨-, step⟩ | ⟨calm, next, is, step⟩
    · rwa [step]
    · rw [step]
      exact ih (n + 1) next (by rwa [is]) (by rw [is]; exact each.2 calm)
end

theorem runJobRows (env : Env) (reason : String) (stop : Option Stop) (job : Job) (store : Store) :
    (runJob env reason stop job store).1.db.observations = store.db.observations := by
  rcases stop with _ | _ | ⟨written, message⟩ | _
  · simp only [runJob, markCompleted, markRunning, setRowDb, runObservations]
  · simp only [runJob]
    split
    · rfl
    · simp only [markCompleted, markRunning, setRowDb, runObservations]
  · simp only [runJob, markRunning, setRowDb, runObservations]
  · simp only [runJob]
    split <;> simp only [markRunning, setRowDb, runObservations]

def reasonOf (options : Options) : String := (truthy options.reason).getD "manual"

theorem ranJobs (env : Nat → Env) (faults : Faults) (options : Options) (store : Store) :
    (runConsolidationOnce env faults options store).1.store =
      (runJobs env (reasonOf options) faults.stop 0 (takenJobs faults options store) (runStarted store)).store := by
  unfold runConsolidationOnce takenJobs
  cases faults.load <;> rfl

end HarnessMem.Consolidation
