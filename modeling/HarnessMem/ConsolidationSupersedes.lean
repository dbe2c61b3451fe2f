import HarnessMem.ConsolidationWrites
import HarnessMem.Lib.Chains

/-! Where `superseded_by` leads, over any number of consolidation runs. -/
namespace HarnessMem.Consolidation
open Recorder Extractor

-- One step along `superseded_by`, by fact id.
def Replaced (facts : List Fact) (a b : String) : Prop := ∃ fact ∈ facts, fact.factId = a ∧ fact.supersededBy = some b
-- Following `superseded_by` never comes back.
def NeverBack (facts : List Fact) : Prop := Chains.Acyclic (Replaced facts)
def Known (facts : List Fact) (id : String) : Prop := ∃ fact ∈ facts, fact.factId = id
def Invalidation (id : String) : Prop := ∃ observationId, id = "invalidated_by_" ++ observationId

-- A successor that the replaced fact's own successors do not lead back from.
def Write.Forward (facts : List Fact) : Write → Prop
  | .supersede factId supersededBy _ => (∃ fact ∈ facts, fact.factId = factId ∧ fact.supersededBy = none) →
      ¬ Relation.TransGen (Replaced facts) supersededBy factId
  | _ => True

-- The statements the worker issues: a new fact has no successor, and a successor is stored or marks an invalidation.
def Write.Issued (closing : String → Prop) (facts : List Fact) : Write → Prop
  | .insertFact row => row.supersededBy = none ∧ ∀ at', row.temporal.validTo = some at' → closing at'
  | .supersede factId supersededBy _ => factId ≠ supersededBy ∧ (Known facts supersededBy ∨ Invalidation supersededBy)
  | _ => True

-- What is kept of the facts that `base` began with: each successor is accounted for, and so is the end of
-- an unreplaced fact's validity.
structure Accounted (base : List Fact) (closing : String → Prop) (facts : List Fact) : Prop where
  named : ∀ fact ∈ facts, ∀ id, fact.supersededBy = some id →
    Known facts id ∨ Invalidation id ∨ ∃ old ∈ base, old.factId = fact.factId ∧ old.supersededBy = some id
  closed : ∀ fact ∈ facts, fact.supersededBy = none → ∀ at', fact.temporal.validTo = some at' → closing at'

section
variable {w : Write} {base facts : List Fact} {closing : String → Prop}

variable (w) in
theorem touchSuperseded (fact : Fact) : ((w.touch fact).supersededBy = fact.supersededBy ∧
      ((w.touch fact).supersededBy = none → (w.touch fact).temporal.validTo = fact.temporal.validTo)) ∨
    fact.supersededBy = none ∧ ∃ supersededBy at', w = .supersede fact.factId supersededBy at' ∧
      (w.touch fact).supersededBy = some supersededBy := by
  cases w with
  | supersede factId supersededBy at' =>
    by_cases taken : fact.factId = factId ∧ fact.supersededBy = none
    · refine .inr ⟨taken.2, supersededBy, at', by rw [taken.1], ?_⟩
      rw [Write.touch, if_pos taken]
    · refine .inl ?_
      rw [Write.touch, if_neg taken]
      exact ⟨rfl, fun _ => rfl⟩
  | merge factId into at' =>
    refine .inl ?_
    simp only [Write.touch]
    split <;> exact ⟨rfl, fun _ => rfl⟩
  | _ => exact .inl ⟨rfl, fun _ => rfl⟩

theorem knownStep {id : String} (known : Known facts id) : Known (w.onFacts facts) id := by
  obtain ⟨fact, mem, is⟩ := known
  exact ⟨w.touch fact, onFactsKeeps mem, (touchId w fact).trans is⟩

theorem onFactsFrom {fact : Fact} (mem : fact ∈ w.onFacts facts) :
    (∃ old ∈ facts, fact = w.touch old) ∨ w = .insertFact fact := by
  obtain ⟨added, rows, fresh⟩ := onFactsRows w facts
  rw [rows, List.mem_append] at mem
  rcases mem with there | new
  · obtain ⟨old, held, rfl⟩ := List.mem_map.mp there
    exact .inl ⟨old, held, rfl⟩
  · obtain ⟨⟨row, rfl, rfl⟩, -⟩ := fresh fact new
    exact .inr rfl

theorem accountedStep (accounted : Accounted base closing facts) (issued : w.Issued closing facts) :
    Accounted base closing (w.onFacts facts) := by
  constructor
  · intro fact mem id into
    rcases onFactsFrom mem with ⟨old, held, rfl⟩ | rfl
    · rcases touchSuperseded w old with ⟨same, -⟩ | ⟨-, supersededBy, at', rfl, is⟩
      · rcases accounted.named old held id (same.symm.trans into) with known | mark | before
        · exact .inl (knownStep known)
        · exact .inr (.inl mark)
        · exact .inr (.inr (by simpa using before))
      · obtain rfl := Option.some.inj (is.symm.trans into)
        rcases issued.2 with known | mark
        · exact .inl (knownStep known)
        · exact .inr (.inl mark)
    · rw [issued.1] at into
      cases into
  · intro fact mem open' at' ends
    rcases onFactsFrom mem with ⟨old, held, rfl⟩ | rfl
    · rcases touchSuperseded w old with ⟨same, kept⟩ | ⟨-, supersededBy, at', rfl, is⟩
      · exact accounted.closed old held (same.symm.trans open') at' ((kept open').symm.trans ends)
      · rw [is] at open'
        cases open'
    · exact issued.2 at' ends

-- A statement adds at most the edge it names.
theorem replacedStep (issued : w.Issued closing facts) {a b : String} : Replaced (w.onFacts facts) a b ↔
    Replaced facts a b ∨ (∃ at', w = .supersede a b at') ∧ ∃ fact ∈ facts, fact.factId = a ∧ fact.supersededBy = none := by
  constructor
  · rintro ⟨fact, mem, rfl, into⟩
    rcases onFactsFrom mem with ⟨old, held, rfl⟩ | rfl
    · rcases touchSuperseded w old with ⟨same, -⟩ | ⟨none, supersededBy, at', rfl, is⟩
      · exact .inl ⟨old, held, (touchId w old).symm, same.symm.trans into⟩
      · obtain rfl := Option.some.inj (is.symm.trans into)
        exact .inr ⟨⟨at', by rw [touchId]⟩, old, held, (touchId _ old).symm, none⟩
    · rw [issued.1] at into
      cases into
  · rintro (⟨fact, mem, rfl, into⟩ | ⟨⟨at', rfl⟩, fact, mem, rfl, none⟩)
    · refine ⟨w.touch fact, onFactsKeeps mem, touchId w fact, ?_⟩
      rcases touchSuperseded w fact with ⟨same, -⟩ | ⟨none, -⟩
      · exact same.trans into
      · rw [none] at into
        cases into
    · refine ⟨_, onFactsKeeps mem, touchId _ fact, ?_⟩
      rw [Write.touch, if_pos ⟨rfl, none⟩]

theorem acyclicStep (issued : w.Issued closing facts) :
    NeverBack (w.onFacts facts) ↔ NeverBack facts ∧ w.Forward facts := by
  by_cases adds : ∃ a b at', w = .supersede a b at' ∧ ∃ fact ∈ facts, fact.factId = a ∧ fact.supersededBy = none
  · obtain ⟨a, b, at', rfl, found⟩ := adds
    have edges : Replaced ((Write.supersede a b at').onFacts facts) = Chains.withEdge (Replaced facts) a b := by
      funext x y
      refine propext ((replacedStep issued).trans (or_congr_right ⟨?_, ?_⟩))
      · rintro ⟨⟨_, is⟩, -⟩
        obtain ⟨rfl, rfl, -⟩ := Write.supersede.inj is
        exact ⟨rfl, rfl⟩
      · rintro ⟨rfl, rfl⟩
        exact ⟨⟨at', rfl⟩, found⟩
    rw [NeverBack, edges, Chains.acyclicWith]
    refine and_congr_right (fun _ => ⟨fun away _ back => away back.to_reflTransGen, fun forward back => ?_⟩)
    rcases Relation.reflTransGen_iff_eq_or_transGen.mp back with same | trail
    · exact issued.1 same
    · exact forward found trail
  · have edges : Replaced (w.onFacts facts) = Replaced facts := by
      funext x y
      refine propext ((replacedStep issued).trans ⟨fun either => either.resolve_right ?_, .inl⟩)
      rintro ⟨⟨at', is⟩, found⟩
      exact adds ⟨x, y, at', is, found⟩
    rw [NeverBack, edges]
    refine (and_iff_left ?_).symm
    cases w with
    | supersede factId supersededBy at' => exact fun found => absurd ⟨_, _, _, rfl, found⟩ adds
    | _ => trivial
end

abbrev IssuedAll (closing : String → Prop) : List Fact → List Write → Prop :=
  Runs.Throughout Write.onFacts (Write.Issued closing)

section
variable {facts : List Fact} {closing : String → Prop}

theorem issuedAppend {first second : List Write} : IssuedAll closing facts (first ++ second) ↔
    IssuedAll closing facts first ∧ IssuedAll closing (Runs.run Write.onFacts facts first) second := Runs.throughoutAppend _

theorem knownRun {id : String} (known : Known facts id) (writes : List Write) : Known (Runs.run Write.onFacts facts writes) id := by
  have keep : ∀ facts w, Known facts id → Known (Write.onFacts facts w) id := fun _ _ => knownStep
  exact Runs.invariant Write.onFacts keep known writes

theorem insertedKnown (row : Fact) : Known ((Write.insertFact row).onFacts facts) row.factId := by
  change Known (Tables.insertNew sameFact facts row) row.factId
  rw [Tables.insertNew]
  split
  · rename_i stored
    obtain ⟨old, mem, same⟩ := List.any_eq_true.mp stored
    exact ⟨old, mem, by simpa [sameFact] using same⟩
  · exact ⟨row, List.mem_append_right _ (List.mem_singleton_self _), rfl⟩

-- Statements that are sound wherever the facts known now still are.
theorem issuedAll {writes : List Write}
    (all : ∀ w ∈ writes, ∀ later, (∀ id, Known facts id → Known later id) → w.Issued closing later) :
    IssuedAll closing facts writes := by
  induction writes generalizing facts with
  | nil => trivial
  | cons w rest ih =>
    refine ⟨all w List.mem_cons_self facts (fun _ => id), ih (fun other mem later kept => ?_)⟩
    exact all other (List.mem_cons_of_mem _ mem) later (fun id known => kept id (knownStep known))

theorem supersedeIssued (at' : String) {newFactId : String} (oldFactIds : List String)
    (named : Known facts newFactId ∨ Invalidation newFactId) :
    IssuedAll closing facts (supersedeWrites at' newFactId oldFactIds) := by
  refine issuedAll (fun w mem later kept => ?_)
  obtain ⟨decision, found, rfl⟩ := List.mem_map.mp mem
  obtain ⟨old, held, rfl⟩ := List.mem_map.mp found
  have apart : old ≠ "" ∧ old ≠ newFactId := by simpa using (List.mem_filter.mp held).2
  exact ⟨apart.2, named.imp_left (kept newFactId)⟩

variable {env : Env} {job : Job} {row : Observation}

variable (facts env job) in
theorem insertIssued (closes : ∀ at', row.temporal.validTo = some at' → closing at') (n i : Nat) (fact : FactCandidate)
    (supersedes : Option String) : IssuedAll closing facts (insertWrites env job n i row fact supersedes) ∧
      Known (Runs.run Write.onFacts facts (insertWrites env job n i row fact supersedes))
        (createFactId env.sha1 job fact.factKey row.id) := by
  constructor
  · refine issuedAll (fun w mem later _ => ?_)
    rcases List.mem_cons.mp mem with rfl | tag
    · exact ⟨rfl, closes⟩
    · obtain ⟨_, -, rfl⟩ := List.mem_map.mp tag
      trivial
  · rw [insertWrites, Runs.runCons]
    exact knownRun (insertedKnown (factRow env job n i row fact supersedes)) _

variable (facts env job) in
theorem newFactIssued (closes : ∀ at', row.temporal.validTo = some at' → closing at') (n i : Nat) (fact : FactCandidate)
    (superseded : Option String) : IssuedAll closing facts (newFactWrites env job n i row fact superseded) ∧
      Known (Runs.run Write.onFacts facts (newFactWrites env job n i row fact superseded))
        (createFactId env.sha1 job fact.factKey row.id) := by
  obtain ⟨issued, known⟩ := insertIssued facts env job closes n i fact superseded
  rw [newFactWrites, issuedAppend, Runs.runAppend]
  exact ⟨⟨issued, supersedeIssued _ _ (.inl known)⟩, knownRun known _⟩

variable (facts env job) in
theorem newFactsIssued (closes : ∀ at', row.temporal.validTo = some at' → closing at') (n : Nat)
    (entries : List ((FactCandidate × Option String) × Nat)) :
    IssuedAll closing facts (entries.flatMap (fun entry => newFactWrites env job n entry.2 row entry.1.1 entry.1.2)) ∧
      ∀ entry ∈ entries, Known (Runs.run Write.onFacts facts
        (entries.flatMap (fun entry => newFactWrites env job n entry.2 row entry.1.1 entry.1.2)))
        (createFactId env.sha1 job entry.1.1.factKey row.id) := by
  induction entries generalizing facts with
  | nil => exact ⟨trivial, fun _ mem => absurd mem List.not_mem_nil⟩
  | cons entry rest ih =>
    obtain ⟨issued, known⟩ := newFactIssued facts env job closes n entry.2 entry.1.1 entry.1.2
    obtain ⟨later, knownLater⟩ := ih (Runs.run Write.onFacts facts (newFactWrites env job n entry.2 row entry.1.1 entry.1.2))
    rw [List.flatMap_cons, issuedAppend, Runs.runAppend]
    refine ⟨⟨issued, later⟩, fun other mem => ?_⟩
    rcases List.mem_cons.mp mem with rfl | held
    · exact knownRun known _
    · exact knownLater other held

theorem diffLengths (host : Host) (answer : Option String) (existing : List ExistingFact) :
    (llmExtractWithDiff host answer existing).newFacts.length = (llmExtractWithDiff host answer existing).supersedes.length := by
  unfold llmExtractWithDiff
  split
  · rfl
  · simp [parseDiffFromContent]

theorem llmIssued (rows : List Observation) (closes : ∀ row ∈ rows, ∀ at', row.temporal.validTo = some at' → closing at')
    (n : Nat) (existing : List ExistingFact) : IssuedAll closing facts (llmWrites env job n rows existing) := by
  induction rows generalizing facts n existing with
  | nil => trivial
  | cons row rest ih =>
    rw [llmWrites, issuedAppend]
    refine ⟨?_, ih (fun row mem => closes row (List.mem_cons_of_mem _ mem)) _ _⟩
    have lengths := diffLengths env.host (env.answer n) existing
    obtain ⟨issued, known⟩ := newFactsIssued facts env job (closes row List.mem_cons_self) n
      (((llmExtractWithDiff env.host (env.answer n) existing).newFacts.zip
        (llmExtractWithDiff env.host (env.answer n) existing).supersedes).zipIdx)
    refine issuedAppend.mpr ⟨issued, supersedeIssued _ _ ?_⟩
    cases last : ((llmExtractWithDiff env.host (env.answer n) existing).newFacts.map
        (fun fact => createFactId env.sha1 job fact.factKey row.id)).getLast? with
    | none => exact .inr ⟨row.id, rfl⟩
    | some id =>
      obtain ⟨fact, mem, rfl⟩ := List.mem_map.mp (List.mem_of_getLast? last)
      rw [← List.map_fst_zip (le_of_eq lengths), ← List.zipIdx_map_fst 0 (List.zip _ _), List.map_map] at mem
      obtain ⟨entry, held, rfl⟩ := List.mem_map.mp mem
      exact .inl (known entry held)

variable {db : Db}

theorem upsertIssued (closes : ∀ row ∈ db.observations, ∀ at', row.temporal.validTo = some at' → closing at') :
    IssuedAll closing facts (upsertWrites env job db) := by
  have closes' : ∀ row ∈ sessionObservations job db, ∀ at', row.temporal.validTo = some at' → closing at' :=
    fun row mem => closes row (List.mem_of_mem_filter ((Tables.memOrderBy _).mp mem))
  unfold upsertWrites
  split
  · exact llmIssued _ closes' 0 _
  · refine issuedAll (fun w mem later _ => ?_)
    obtain ⟨entry, held, inside⟩ := List.mem_flatMap.mp mem
    obtain ⟨found, -, insert⟩ := List.mem_flatMap.mp inside
    rcases List.mem_cons.mp insert with rfl | tag
    · exact ⟨rfl, closes' entry.1 (List.fst_mem_of_mem_zipIdx held)⟩
    · obtain ⟨_, -, rfl⟩ := List.mem_map.mp tag
      trivial
end

section
variable {env : Env} {job : Job} {db : Db} {closing : String → Prop}

variable (env job) in
theorem traceIssued (closes : ∀ row ∈ db.observations, ∀ at', row.temporal.validTo = some at' → closing at') (reason : String) :
    IssuedAll closing db.facts (trace env job reason db) := by
  obtain ⟨last, split, idle⟩ := traceParts env job db reason
  rw [split, issuedAppend, issuedAppend]
  refine ⟨upsertIssued closes, issuedAll (fun w mem later _ => ?_), issuedAll (fun w mem later _ => ?_)⟩
  · obtain ⟨_, -, rfl⟩ := List.mem_map.mp mem
    trivial
  · rcases idle w mem with ⟨_, rfl⟩ | ⟨_, rfl⟩
    · trivial
    · trivial
end

-- A run of the worker, on what is stored when it begins.
structure Turn where
  env : Nat → Env
  faults : Faults
  options : Options
  store : Store

def Turn.after (turn : Turn) : Store := (runConsolidationOnce turn.env turn.faults turn.options turn.store).1.store

-- Between two runs anything but the facts may change.
def Successive (turn : Nat → Turn) : Prop := ∀ n, (turn (n + 1)).store.db.facts = (turn n).after.db.facts

-- No statement of the run names a successor that already leads back to the replaced fact.
def Turn.Forward (turn : Turn) : Prop :=
  EachJob (fun n job store => Runs.Throughout Write.onFacts Write.Forward store.db.facts
      (executed job (turn.faults.stop n) (trace (turn.env n) job (reasonOf turn.options) store.db)))
    turn.env (reasonOf turn.options) turn.faults.stop 0 (takenJobs turn.faults turn.options turn.store) turn.store

-- The ends of validity that the facts before the runs and the observations carry.
def Given (turn : Nat → Turn) (at' : String) : Prop :=
  (∃ old ∈ (turn 0).store.db.facts, old.temporal.validTo = some at') ∨
    ∃ n, ∃ row ∈ (turn n).store.db.observations, row.temporal.validTo = some at'

-- Where the trail from a fact ends: at an unreplaced fact, at an invalidation, or at a name that named nothing before.
def EndsWell (turn : Nat → Turn) (facts : List Fact) (last : String) : Prop :=
  (∃ kept ∈ facts, kept.factId = last ∧ kept.supersededBy = none ∧ ∀ at', kept.temporal.validTo = some at' → Given turn at') ∨
    ¬ Known facts last ∧ (Invalidation last ∨ ∃ old ∈ (turn 0).store.db.facts, old.supersededBy = some last)

section
variable {base : List Fact} {closing : String → Prop}

theorem executedThroughout {P : List Fact → Write → Prop} {facts : List Fact} {writes : List Write} (job : Job) (stop : Option Stop)
    (all : Runs.Throughout Write.onFacts P facts writes) : Runs.Throughout Write.onFacts P facts (executed job stop writes) := by
  unfold executed
  split
  · split
    · trivial
    · exact all
  · exact Runs.throughoutTake _ _ all
  · exact all

structure Held (base : List Fact) (closing : String → Prop) (store : Store) : Prop where
  closes : ∀ row ∈ store.db.observations, ∀ at', row.temporal.validTo = some at' → closing at'
  accounted : Accounted base closing store.db.facts
  acyclic : NeverBack store.db.facts

theorem turnHeld (turn : Turn) (held : Held base closing turn.store) (forward : turn.Forward) : Held base closing turn.after := by
  have job : ∀ n job store, Held base closing store → Runs.Throughout Write.onFacts Write.Forward store.db.facts
      (executed job (turn.faults.stop n) (trace (turn.env n) job (reasonOf turn.options) store.db)) →
      Held base closing (runJob (turn.env n) (reasonOf turn.options) (turn.faults.stop n) job store).1 := by
    intro n job store now forward
    have issued := executedThroughout job (turn.faults.stop n)
      (traceIssued (turn.env n) job now.closes (reasonOf turn.options))
    obtain ⟨after, exactly⟩ := Runs.exactRun Write.onFacts (fun _ _ => accountedStep) (fun _ _ _ => acyclicStep) now.accounted issued
    constructor
    · rw [runJobRows]
      exact now.closes
    · rw [runJobFacts]
      exact after
    · rw [runJobFacts]
      exact exactly.mpr ⟨now.acyclic, forward⟩
  rw [Turn.after, ranJobs]
  exact runJobsKeep job 0 _ (runStarted turn.store) held forward
end

def storedFact (id : String) (supersededBy : Option String) : Fact :=
  ⟨id, some "o", "p", "a", "decision", "k", "v", 1, supersededBy,
    ⟨none, none, none, supersededBy.map (fun _ => "2026-01-01"), none, none⟩, none, "2026-01-01", "2026-01-01"⟩
def sessionTurn (env : Env) (facts : List Fact) : Turn where
  env := fun _ => env
  faults := ⟨none, fun _ => none, none⟩
  options := ⟨none, some "p", some "a", none⟩
  store := ⟨{Db.empty with observations := [plainObservation "o" "a" ""], facts := facts}, []⟩
def answering (decision : Json) : Env :=
  { plainEnv with
    host := {plainHost with parseJson := fun text => if text = Json.stringify decision then some decision else none}
    llmMode := true
    answer := fun _ => some (Json.stringify decision) }

def erasing : Turn :=
  sessionTurn (answering (.obj [("facts", .arr []), ("deleted", .arr [.str "fact_a"])])) [storedFact "fact_a" none]
def returning : Turn :=
  sessionTurn (answering (.obj [("facts", .arr [.obj [("fact_type", .str "decision"), ("fact_key", .str "k"), ("fact_value", .str "v")]]),
    ("supersedes", .obj [("k", .str "fact_b")])])) [storedFact "fact_p:a:k:o" (some "fact_b"), storedFact "fact_b" none]

end HarnessMem.Consolidation
