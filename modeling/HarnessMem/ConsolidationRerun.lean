import HarnessMem.ConsolidationFacts

/-! A second consolidation of the same sessions in the keyword mode, with no new observations. -/
namespace HarnessMem.Consolidation
open Recorder Extractor

-- The fact ids the session's observations give; the same in every run.
def heuristicIds (sha1 : String → String) (host : Host) (job : Job) (db : Db) : List String :=
  (sessionObservations job db).flatMap (fun row =>
    (heuristicExtract host (inputOf row)).map (fun fact => createFactId sha1 job fact.factKey row.id))

def Write.fact? : Write → Option Fact
  | .insertFact row => some row
  | _ => none

-- Statements that insert a fact or a tag.
def Write.Plain : Write → Prop
  | .insertFact _ | .insertTag _ => True
  | _ => False

theorem plainFacts {writes : List Write} (plain : ∀ w ∈ writes, w.Plain) (facts : List Fact) :
    writes.foldl Write.onFacts facts = (writes.filterMap Write.fact?).foldl insertFact facts := by
  induction writes generalizing facts with
  | nil => rfl
  | cons w rest ih =>
    have later : ∀ w ∈ rest, w.Plain := fun w mem => plain w (List.mem_cons_of_mem _ mem)
    cases w with
    | insertFact row => exact ih later _
    | insertTag row => exact ih later facts
    | _ => exact (plain _ List.mem_cons_self).elim

theorem plainLinks {writes : List Write} (plain : ∀ w ∈ writes, w.Plain) (links : List Link) :
    writes.foldl Write.onLinks links = links := by
  induction writes with
  | nil => rfl
  | cons w rest ih =>
    have later := ih (fun w mem => plain w (List.mem_cons_of_mem _ mem))
    cases w with
    | insertFact row => exact later
    | insertTag row => exact later
    | _ => exact (plain _ List.mem_cons_self).elim

section
variable {env : Env} {job : Job} {db : Db}

theorem insertWritesPlain (n i : Nat) (row : Observation) (fact : FactCandidate) (supersedes : Option String) :
    ∀ w ∈ insertWrites env job n i row fact supersedes, w.Plain := by
  intro w mem
  rcases List.mem_cons.mp mem with rfl | tag
  · trivial
  · obtain ⟨_, _, rfl⟩ := List.mem_map.mp tag
    trivial

theorem insertWritesFacts (n i : Nat) (row : Observation) (fact : FactCandidate) (supersedes : Option String) :
    (insertWrites env job n i row fact supersedes).filterMap Write.fact? = [factRow env job n i row fact supersedes] := by
  have tags : (fact.autoTags.map (fun tag => Write.insertTag ⟨row.id, tag, "auto", env.now (.insert n i)⟩)).filterMap
      Write.fact? = [] := by simp [Write.fact?]
  simp only [insertWrites, List.filterMap_cons, tags]
  rfl

theorem heuristicPlain (heuristic : env.llmMode = false) : ∀ w ∈ upsertWrites env job db, w.Plain := by
  intro w mem
  simp only [upsertWrites, heuristic, Bool.false_eq_true, if_false, heuristicWrites, List.mem_flatMap] at mem
  obtain ⟨_, _, _, _, written⟩ := mem
  exact insertWritesPlain _ _ _ _ _ w written

theorem heuristicFacts (heuristic : env.llmMode = false) :
    ((upsertWrites env job db).filterMap Write.fact?).map Fact.factId = heuristicIds env.sha1 env.host job db ∧
      ∀ row ∈ (upsertWrites env job db).filterMap Write.fact?, Belongs job row := by
  have rows : (upsertWrites env job db).filterMap Write.fact? = (sessionObservations job db).zipIdx.flatMap (fun entry =>
      (heuristicExtract env.host (inputOf entry.1)).zipIdx.map (fun found => factRow env job entry.2 found.2 entry.1 found.1 none)) := by
    simp only [upsertWrites, heuristic, Bool.false_eq_true, if_false, heuristicWrites, List.filterMap_flatMap, insertWritesFacts,
      List.map_eq_flatMap]
  rw [rows]
  constructor
  · have ids : ∀ (n : Nat) (row : Observation), ((heuristicExtract env.host (inputOf row)).zipIdx.map (fun found =>
        factRow env job n found.2 row found.1 none)).map Fact.factId =
        (heuristicExtract env.host (inputOf row)).map (fun fact => createFactId env.sha1 job fact.factKey row.id) := by
      intro n row
      rw [List.map_map]
      conv_rhs => rw [← List.zipIdx_map_fst 0 (heuristicExtract env.host (inputOf row)), List.map_map]
      rfl
    rw [List.map_flatMap]
    simp only [ids]
    conv_rhs => rw [heuristicIds, ← List.zipIdx_map_fst 0 (sessionObservations job db), List.flatMap_map]
  · intro row mem
    simp only [List.mem_flatMap, List.mem_map] at mem
    obtain ⟨_, _, _, _, rfl⟩ := mem
    exact ⟨rfl, rfl⟩

def linkRows (env : Env) (facts : List Fact) : List Link :=
  (derivedLinks env.host facts).map (fun link => ⟨link.1, link.2.1, "derives", link.2.2, env.now .link⟩)
def sameLink (old row : Link) : Bool := old.fromId = row.fromId && old.toId = row.toId && old.relation = row.relation

variable (env db) in
theorem linkWritesRun (facts : List Fact) : (run (linkWrites env facts) db).facts = db.facts ∧
    (run (linkWrites env facts) db).links = (linkRows env facts).foldl (Tables.insertNew sameLink) db.links := by
  rw [runFacts, runLinks, linkWrites, linkRows, List.foldl_map, List.foldl_map, List.foldl_map]
  refine ⟨?_, rfl⟩
  induction derivedLinks env.host facts with
  | nil => rfl
  | cons link rest ih => exact ih

theorem mergeWritesLinks (at' : Db) : (run (mergeWrites env job at') db).links = db.links := by
  rw [runLinks, mergeWrites, List.foldl_map]
  induction (dedupeFacts env (sessionFacts job at')).zipIdx with
  | nil => rfl
  | cons entry rest ih => exact ih

theorem auditFacts (row : Audit) : (Write.apply db (.audit row)).facts = db.facts := rfl
theorem auditLinks (row : Audit) : (Write.apply db (.audit row)).links = db.links := rfl
theorem auditObservations (row : Audit) : (Write.apply db (.audit row)).observations = db.observations := rfl

theorem mergedObservations : (mergedDb env job db).observations = db.observations := by simp [mergedDb]

variable (job db) in
-- What a whole job leaves of the tables it works on.
theorem traceRun (heuristic : env.llmMode = false) (reason : String) :
    (run (trace env job reason db) db).facts = (mergedDb env job db).facts ∧
      (run (trace env job reason db) db).links =
        (linkRows env (activeFacts job (mergedDb env job db))).foldl (Tables.insertNew sameLink) db.links ∧
      (run (trace env job reason db) db).observations = db.observations := by
  have links : (mergedDb env job db).links = db.links := by
    rw [mergedDb, mergeWritesLinks, runLinks, plainLinks (heuristicPlain heuristic)]
  obtain ⟨sameFacts, newLinks⟩ := linkWritesRun env (mergedDb env job db) (activeFacts job (mergedDb env job db))
  rw [links] at newLinks
  have last : run (trace env job reason db) db = Write.apply (run (linkWrites env (activeFacts job (mergedDb env job db)))
      (mergedDb env job db)) (.audit (auditRow env job reason (counts env job db))) := by
    rw [trace, runAppend, runAppend, runAppend]
    rfl
  rw [last, auditFacts, auditLinks]
  exact ⟨sameFacts, newLinks, by simp [auditObservations, mergedObservations]⟩

-- Nothing is left for a further run to do for the session.
structure Fixed (sha1 : String → String) (host : Host) (job : Job) (db : Db) : Prop where
  stored : ∀ id ∈ heuristicIds sha1 host job db, ∃ held ∈ db.facts, held.factId = id
  apart : (sessionFacts job db).Pairwise (fun a b => ¬ Near host a b)
  linked : ∀ link ∈ derivedLinks host (activeFacts job db), ∃ held ∈ db.links,
    held.fromId = link.1 ∧ held.toId = link.2.1 ∧ held.relation = "derives"

theorem dedupeNone (apart : (sessionFacts job db).Pairwise (fun a b => ¬ Near env.host a b)) :
    dedupeFacts env (sessionFacts job db) = [] := by
  have symm : ∀ {a b : Fact}, ¬ Near env.host a b → ¬ Near env.host b a := fun far near => far (nearSymm _ _ _ near)
  have sorted : ([] ++ Tables.orderBy (fun a b => byAge env a b = true) (sessionFacts job db)).Pairwise
      (fun a b => ¬ Near env.host a b) := ((List.perm_insertionSort _ _).pairwise_iff symm).mpr apart
  rw [dedupeFacts, Leaders.groupNone (nearestPicks env.host) sorted]

theorem upsertedFacts (heuristic : env.llmMode = false) : (run (upsertWrites env job db) db).facts =
    ((upsertWrites env job db).filterMap Write.fact?).foldl insertFact db.facts := by
  rw [runFacts, plainFacts (heuristicPlain heuristic)]

-- A job whose session is fixed changes neither facts nor links.
theorem fixedStep (heuristic : env.llmMode = false) (fixed : Fixed env.sha1 env.host job db) (reason : String) :
    (run (trace env job reason db) db).facts = db.facts ∧ (run (trace env job reason db) db).links = db.links := by
  have upserted : (run (upsertWrites env job db) db).facts = db.facts := by
    rw [upsertedFacts heuristic]
    refine Tables.insertKnown (fun row mem => ?_)
    obtain ⟨held, inside, same⟩ := fixed.stored row.factId
      ((heuristicFacts heuristic).1 ▸ List.mem_map_of_mem mem)
    exact ⟨held, inside, decide_eq_true same⟩
  have session : sessionFacts job (run (upsertWrites env job db) db) = sessionFacts job db := by
    rw [sessionFacts, upserted, sessionFacts]
  have merged : (mergedDb env job db).facts = db.facts := by
    rw [mergedDb, mergeWrites, session, dedupeNone fixed.apart]
    exact upserted
  obtain ⟨facts, links, -⟩ := traceRun job db heuristic reason
  have current : activeFacts job (mergedDb env job db) = activeFacts job db := by rw [activeFacts, merged, activeFacts]
  refine ⟨facts.trans merged, links.trans ?_⟩
  rw [current]
  refine Tables.insertKnown (fun row mem => ?_)
  obtain ⟨link, found, rfl⟩ := List.mem_map.mp mem
  obtain ⟨held, inside, from', to', relation⟩ := fixed.linked link found
  exact ⟨held, inside, by simp [sameLink, from', to', relation]⟩

variable (job) in
theorem upsertedKeyed (heuristic : env.llmMode = false) (keyed : (db.facts.map Fact.factId).Nodup) :
    ((run (upsertWrites env job db) db).facts.map Fact.factId).Nodup := by
  rw [upsertedFacts heuristic]
  exact Tables.insertKeyed keyed

theorem mergedIds (facts : List Fact) {others : List Fact} {pairs : List (String × String)}
    (merged : List.Forall₂ (MergedRow pairs) facts others) : others.map Fact.factId = facts.map Fact.factId := by
  induction merged with
  | nil => rfl
  | cons row _ ih =>
    rw [List.map_cons, List.map_cons, ih]
    rcases row with ⟨-, rfl⟩ | ⟨_, _, -, rfl⟩ <;> rfl

theorem mergedKeyed (heuristic : env.llmMode = false) (keyed : (db.facts.map Fact.factId).Nodup) :
    ((mergedDb env job db).facts.map Fact.factId).Nodup := by
  rw [mergedDb, mergedIds _ (mergedFacts env job _)]
  exact upsertedKeyed job heuristic keyed

theorem heuristicIdsSame {other : Db} (same : other.observations = db.observations) (sha1 : String → String) (host : Host) :
    heuristicIds sha1 host job other = heuristicIds sha1 host job db := by
  rw [heuristicIds, sessionObservations, same]
  rfl

theorem activeSame {other : Db} (same : other.facts = db.facts) : activeFacts job other = activeFacts job db := by
  rw [activeFacts, same, activeFacts]
theorem sessionSame {other : Db} (same : other.facts = db.facts) : sessionFacts job other = sessionFacts job db := by
  rw [sessionFacts, same, sessionFacts]

-- The ids of facts, once stored, stay.
theorem storedKept (heuristic : env.llmMode = false) {id : String} (held : ∃ fact ∈ db.facts, fact.factId = id) :
    ∃ fact ∈ (mergedDb env job db).facts, fact.factId = id := by
  have ids : id ∈ (mergedDb env job db).facts.map Fact.factId := by
    rw [mergedDb, mergedIds _ (mergedFacts env job _), upsertedFacts heuristic]
    obtain ⟨new, result, -, -⟩ := Tables.insertAll sameFact (fun _ => decide_eq_true rfl)
      ((upsertWrites env job db).filterMap Write.fact?) db.facts
    rw [insertFact, result, List.map_append]
    obtain ⟨fact, mem, rfl⟩ := held
    exact List.mem_append_left _ (List.mem_map_of_mem mem)
  obtain ⟨fact, mem, is⟩ := List.mem_map.mp ids
  exact ⟨fact, mem, is⟩

theorem ownStored (heuristic : env.llmMode = false) {id : String} (found : id ∈ heuristicIds env.sha1 env.host job db) :
    ∃ fact ∈ (mergedDb env job db).facts, fact.factId = id := by
  have ids : id ∈ (mergedDb env job db).facts.map Fact.factId := by
    rw [mergedDb, mergedIds _ (mergedFacts env job _), upsertedFacts heuristic]
    obtain ⟨new, result, -, all⟩ := Tables.insertAll sameFact (fun _ => decide_eq_true rfl)
      ((upsertWrites env job db).filterMap Write.fact?) db.facts
    rw [← (heuristicFacts heuristic).1] at found
    obtain ⟨row, mem, rfl⟩ := List.mem_map.mp found
    obtain ⟨held, inside, same⟩ := all row mem
    rw [insertFact, result]
    exact List.mem_map.mpr ⟨held, inside, of_decide_eq_true same⟩
  obtain ⟨fact, mem, is⟩ := List.mem_map.mp ids
  exact ⟨fact, mem, is⟩

-- After its own job a session is fixed.
theorem fixedOwn (heuristic : env.llmMode = false) (keyed : (db.facts.map Fact.factId).Nodup) (reason : String) :
    Fixed env.sha1 env.host job (run (trace env job reason db) db) := by
  obtain ⟨facts, links, observations⟩ := traceRun job db heuristic reason
  constructor
  · intro id found
    rw [heuristicIdsSame observations] at found
    rw [facts]
    exact ownStored heuristic found
  · rw [sessionSame facts]
    exact dedupeApart (upsertedKeyed job heuristic keyed)
  · intro link found
    rw [activeSame facts] at found
    obtain ⟨new, result, -, all⟩ := Tables.insertAll sameLink (fun row => by simp [sameLink])
      (linkRows env (activeFacts job (mergedDb env job db))) db.links
    obtain ⟨held, inside, same⟩ := all _ (List.mem_map_of_mem found)
    rw [links, result]
    simp only [sameLink, Bool.and_eq_true, decide_eq_true_eq] at same
    exact ⟨held, inside, same.1.1, same.1.2, same.2⟩

-- Facts that are none of the job's own are selected as before.
theorem filterOthers (heuristic : env.llmMode = false) (keyed : (db.facts.map Fact.factId).Nodup) {keep : Fact → Bool}
    (outside : ∀ fact, Belongs job fact → keep fact = false) :
    (mergedDb env job db).facts.filter keep = db.facts.filter keep := by
  obtain ⟨new, result, part, -⟩ := Tables.insertAll sameFact (fun _ => decide_eq_true rfl)
    ((upsertWrites env job db).filterMap Write.fact?) db.facts
  have upserted : (run (upsertWrites env job db) db).facts.filter keep = db.facts.filter keep := by
    have none : new.filter keep = [] := List.filter_eq_nil_iff.mpr (fun row mem => by
      simp [outside row ((heuristicFacts heuristic).2 row (part.subset mem))])
    rw [upsertedFacts heuristic, insertFact, result, List.filter_append, none, List.append_nil]
  have keyedUp := upsertedKeyed job heuristic keyed
  have own : ∀ fact ∈ (run (upsertWrites env job db) db).facts,
      fact.factId ∈ (mergePairs env job (run (upsertWrites env job db) db)).map Prod.fst → Belongs job fact := by
    intro fact mem follows
    rw [mergePairs, List.map_map] at follows
    obtain ⟨pair, held, same⟩ := List.mem_map.mp follows
    obtain ⟨inside, belongs, -⟩ := sessionFact.mp (mergePair keyedUp held).1
    rwa [Tables.keyUnique keyedUp mem inside same.symm]
  rw [← upserted]
  have related := (List.forall₂_and_left _ _).mpr ⟨own, mergedFacts env job (run (upsertWrites env job db) db)⟩
  refine Tables.filterKept (fun a b row => ?_) (fun a b row kept => ?_) related
  · rcases row with ⟨mine, ⟨-, rfl⟩ | ⟨into, at', chosen, rfl⟩⟩
    · rfl
    · have belongs := mine (List.mem_map_of_mem chosen)
      have moved : Belongs job {a with mergedIntoFactId := some into, updatedAt := at'} := belongs
      rw [outside a belongs, outside _ moved]
  · rcases row with ⟨mine, ⟨-, rfl⟩ | ⟨into, at', chosen, rfl⟩⟩
    · rfl
    · have moved : Belongs job {a with mergedIntoFactId := some into, updatedAt := at'} := mine (List.mem_map_of_mem chosen)
      rw [outside _ moved] at kept
      cases kept

def SameSession (a b : Job) : Prop := a.project = b.project ∧ a.sessionId = b.sessionId

theorem fixedSame {sha1 : String → String} {host : Host} {a b : Job} (same : SameSession a b) (fixed : Fixed sha1 host a db) :
    Fixed sha1 host b db := by
  obtain ⟨id, project, sessionId⟩ := a
  obtain ⟨otherId, otherProject, otherSession⟩ := b
  obtain ⟨rfl, rfl⟩ := same
  exact ⟨fixed.stored, fixed.apart, fixed.linked⟩

-- A session that is fixed stays so while other jobs run.
theorem fixedOther (heuristic : env.llmMode = false) (keyed : (db.facts.map Fact.factId).Nodup) (reason : String) {other : Job}
    (fixed : Fixed env.sha1 env.host other db) : Fixed env.sha1 env.host other (run (trace env job reason db) db) := by
  by_cases session : SameSession job other
  · exact fixedSame session (fixedOwn heuristic keyed reason)
  obtain ⟨facts, links, observations⟩ := traceRun job db heuristic reason
  constructor
  · intro id found
    rw [heuristicIdsSame observations] at found
    rw [facts]
    exact storedKept heuristic (fixed.stored id found)
  · have same : sessionFacts other (mergedDb env job db) = sessionFacts other db := by
      rw [sessionFacts, filterOthers heuristic keyed, sessionFacts]
      intro fact belongs
      by_cases project : fact.project = other.project
      · have apart : fact.sessionId ≠ other.sessionId :=
          fun same => session ⟨belongs.1.symm.trans project, belongs.2.symm.trans same⟩
        simp [apart]
      · simp [project]
    rw [sessionSame facts, same]
    exact fixed.apart
  · by_cases project : job.project = other.project
    · -- The job's own links are all those of the project.
      have same : activeFacts other (run (trace env job reason db) db) = activeFacts job (run (trace env job reason db) db) := by
        rw [activeFacts, activeFacts, project]
      rw [same]
      exact (fixedOwn heuristic keyed reason).linked
    · have same : activeFacts other (mergedDb env job db) = activeFacts other db := by
        rw [activeFacts, filterOthers heuristic keyed, activeFacts]
        intro fact belongs
        have apart : fact.project ≠ other.project := fun is => project (belongs.1.symm.trans is)
        simp [apart]
      rw [activeSame facts, same]
      intro link found
      obtain ⟨held, inside, key⟩ := fixed.linked link found
      obtain ⟨new, result, -, -⟩ := Tables.insertAll sameLink (fun row => by simp [sameLink])
        (linkRows env (activeFacts job (mergedDb env job db))) db.links
      rw [links, result]
      exact ⟨held, List.mem_append_left _ inside, key⟩
end

-- Every job of the run works in the keyword mode, on the same runtime.
def Heuristic (sha1 : String → String) (host : Host) (env : Nat → Env) : Prop :=
  ∀ n, (env n).sha1 = sha1 ∧ (env n).host = host ∧ (env n).llmMode = false

def calm : Faults := ⟨none, fun _ => none, none⟩

section
variable {sha1 : String → String} {host : Host} {env : Nat → Env}

theorem runJobDb (env : Env) (reason : String) (job : Job) (store : Store) :
    (runJob env reason none job store).2 = none ∧
      (runJob env reason none job store).1.db = run (trace env job reason store.db) store.db := by
  have rows : ∀ id change store, (setRow id change store).db = store.db := by
    intro id change store
    cases id <;> rfl
  refine ⟨rfl, ?_⟩
  simp only [runJob, markCompleted, markRunning, rows]

variable (env) in
theorem runJobsCons (reason : String) (n : Nat) (job : Job) (rest : List Job) (ended : Ended) :
    ∃ next : Ended,
      runJobs env reason (fun _ => none) n (job :: rest) ended = runJobs env reason (fun _ => none) (n + 1) rest next ∧
        next.store.db = run (trace (env n) job reason ended.store.db) ended.store.db := by
  obtain ⟨calm, db⟩ := runJobDb (env n) reason job ended.store
  simp only [runJobs, calm]
  exact ⟨_, rfl, db⟩

theorem runJobsFixed (heuristic : Heuristic sha1 host env) (reason : String) (n : Nat) (jobs done : List Job) (ended : Ended)
    (keyed : (ended.store.db.facts.map Fact.factId).Nodup) (before : ∀ job ∈ done, Fixed sha1 host job ended.store.db) :
    ((runJobs env reason (fun _ => none) n jobs ended).store.db.facts.map Fact.factId).Nodup ∧
      ∀ job ∈ done ++ jobs, Fixed sha1 host job (runJobs env reason (fun _ => none) n jobs ended).store.db := by
  induction jobs generalizing n done ended with
  | nil => exact ⟨keyed, by simpa [runJobs] using before⟩
  | cons job rest ih =>
    obtain ⟨rfl, rfl, mode⟩ := heuristic n
    obtain ⟨next, step, db⟩ := runJobsCons env reason n job rest ended
    rw [step, List.append_cons]
    refine ih (n + 1) (done ++ [job]) next ?_ (fun other mem => ?_)
    · rw [db, (traceRun job ended.store.db mode reason).1]
      exact mergedKeyed mode keyed
    · rw [db]
      rcases List.mem_append.mp mem with old | new
      · exact fixedOther mode keyed reason (before other old)
      · rw [List.mem_singleton.mp new]
        exact fixedOwn mode keyed reason

theorem runJobsStill (heuristic : Heuristic sha1 host env) (reason : String) (n : Nat) (jobs : List Job) (ended : Ended)
    (keyed : (ended.store.db.facts.map Fact.factId).Nodup) (fixed : ∀ job ∈ jobs, Fixed sha1 host job ended.store.db) :
    (runJobs env reason (fun _ => none) n jobs ended).store.db.facts = ended.store.db.facts ∧
      (runJobs env reason (fun _ => none) n jobs ended).store.db.links = ended.store.db.links := by
  induction jobs generalizing n ended with
  | nil => exact ⟨rfl, rfl⟩
  | cons job rest ih =>
    obtain ⟨rfl, rfl, mode⟩ := heuristic n
    obtain ⟨next, step, db⟩ := runJobsCons env reason n job rest ended
    obtain ⟨facts, links⟩ := fixedStep mode (fixed job List.mem_cons_self) reason
    rw [← db] at facts links
    rw [step]
    obtain ⟨sameFacts, sameLinks⟩ := ih (n + 1) next (by rwa [facts]) (fun other mem => by
      rw [db]
      exact fixedOther mode keyed reason (fixed other (List.mem_cons_of_mem _ mem)))
    exact ⟨sameFacts.trans facts, sameLinks.trans links⟩

theorem fixedMoved {job : Job} {db other : Db} (facts : other.facts = db.facts) (links : other.links = db.links)
    (observations : other.observations = db.observations) (fixed : Fixed sha1 host job db) : Fixed sha1 host job other := by
  constructor
  · rw [heuristicIdsSame observations, facts]
    exact fixed.stored
  · rw [sessionSame facts]
    exact fixed.apart
  · rw [activeSame facts, links]
    exact fixed.linked

-- The second run may start from any tables with the same observations, facts and links.
theorem rerunStill {first second : Nat → Env} (heuristic : Heuristic sha1 host first) (again : Heuristic sha1 host second)
    (options later : Options) {store next : Store} (keyed : (store.db.facts.map Fact.factId).Nodup)
    (facts : next.db.facts = (runConsolidationOnce first calm options store).1.store.db.facts)
    (links : next.db.links = (runConsolidationOnce first calm options store).1.store.db.links)
    (observations : next.db.observations = (runConsolidationOnce first calm options store).1.store.db.observations)
    (sessions : ∀ job ∈ loadPendingJobs later next, ∃ old ∈ loadPendingJobs options store, SameSession old job) :
    (runConsolidationOnce second calm later next).1.store.db.facts = next.db.facts ∧
      (runConsolidationOnce second calm later next).1.store.db.links = next.db.links := by
  obtain ⟨keyedAfter, fixed⟩ :=
    runJobsFixed heuristic ((truthy options.reason).getD "manual") 0 (loadPendingJobs options store) [] (runStarted store) keyed
      (by simp)
  refine runJobsStill again ((truthy later.reason).getD "manual") 0 (loadPendingJobs later next) (runStarted next) ?_
    (fun job mem => ?_)
  · exact facts ▸ keyedAfter
  · obtain ⟨old, held, same⟩ := sessions job mem
    exact fixedSame same (fixedMoved facts links observations (fixed old held))
end

def decided : Store := ⟨{Db.empty with observations := [plainObservation "o" "a" "We decided to use sqlite."]}, []⟩
def sessionA : Options := ⟨none, some "p", some "a", none⟩
def decidedOnce : Store := (runConsolidationOnce (fun _ => plainEnv) calm sessionA decided).1.store

theorem rerunStillDecided :
    (runConsolidationOnce (fun _ => plainEnv) calm sessionA decidedOnce).1.store.db.facts = decidedOnce.db.facts ∧
      (runConsolidationOnce (fun _ => plainEnv) calm sessionA decidedOnce).1.store.db.links = decidedOnce.db.links :=
  rerunStill (fun _ => ⟨rfl, rfl, rfl⟩) (fun _ => ⟨rfl, rfl, rfl⟩) sessionA sessionA (by simp [decided, Db.empty]) rfl rfl rfl
    (fun job mem => ⟨job, mem, rfl, rfl⟩)

example : decidedOnce.db.facts.map Fact.factKey = ["decision:we_decided_to_use_sqlite"] := by decide +kernel

end HarnessMem.Consolidation
