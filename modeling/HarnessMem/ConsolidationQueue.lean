import HarnessMem.Consolidation

/-! What becomes of the queue rows a consolidation run takes up when one of its jobs throws. -/
namespace HarnessMem.Consolidation
open Recorder

-- The stop is at a statement the job has.
def Strikes (job : Job) : Option Stop → Prop
  | none => False
  | some (.body _ _) => True
  | some .mark | some .complete => job.id.isSome = true
instance (job : Job) (stop : Option Stop) : Decidable (Strikes job stop) := by
  unfold Strikes
  split <;> infer_instance

-- The status a turn leaves in a queue row.
def landing (job : Job) (stop : Option Stop) (id : Nat) (status : String) : String :=
  if job.id ≠ some id ∨ stop = some .mark then status
  else if Strikes job stop then "running" else "completed"

def fate (stop : Nat → Option Stop) : Nat → List Job → Nat → String → String
  | _, [], _, status => status
  | n, job :: rest, id, status =>
    if Strikes job (stop n) then landing job (stop n) id status
    else fate stop (n + 1) rest id (landing job (stop n) id status)

def reached (stop : Nat → Option Stop) : Nat → List Job → List Nat
  | _, [] => []
  | n, job :: rest => n :: (if Strikes job (stop n) then [] else reached stop (n + 1) rest)

def statuses (store : Store) : List (Nat × String) := store.queue.map (fun row => (row.id, row.status))

theorem runJobThrows (env : Env) (reason : String) (stop : Option Stop) (job : Job) (store : Store) :
    (runJob env reason stop job store).2.isSome = true ↔ Strikes job stop := by
  unfold runJob Strikes
  split <;> by_cases queued : job.id.isSome = true <;> simp [queued]

theorem setRowStatuses (id : Option Nat) (change : QueueRow → QueueRow) {status : String} (sameId : ∀ row, (change row).id = row.id)
    (set : ∀ row, (change row).status = status) (store : Store) :
    statuses (setRow id change store) = (statuses store).map (fun row => (row.1, if id = some row.1 then status else row.2)) := by
  unfold statuses setRow
  cases id with
  | none => simp
  | some id =>
    simp only [Tables.update, List.map_map, Option.some.injEq]
    refine List.map_congr_left (fun row _ => ?_)
    by_cases mine : row.id = id
    · simp [mine, sameId, set]
    · simp [mine, Ne.symm mine]

theorem runJobStatuses (env : Env) (reason : String) (stop : Option Stop) (job : Job) (store : Store) :
    statuses (runJob env reason stop job store).1 =
      (statuses store).map (fun row => (row.1, landing job stop row.1 row.2)) := by
  have marked : statuses (markRunning env job store) =
      (statuses store).map (fun row => (row.1, if job.id = some row.1 then "running" else row.2)) := setRowStatuses job.id (QueueRow.running (env.now .started)) (fun _ => rfl) (fun _ => rfl) store
  have ran : ∀ db, statuses {markRunning env job store with db} =
      (statuses store).map (fun row => (row.1, if job.id = some row.1 then "running" else row.2)) := fun _ => marked
  have completed : ∀ db, statuses (markCompleted env job {markRunning env job store with db}) =
      (statuses store).map (fun row => (row.1, if job.id = some row.1 then "completed" else row.2)) := by
    intro db
    rw [markCompleted, setRowStatuses job.id (QueueRow.completed (env.now .finished)) (fun _ => rfl) (fun _ => rfl), ran,
      List.map_map]
    refine List.map_congr_left (fun row _ => ?_)
    by_cases mine : job.id = some row.1 <;> simp [mine]
  unfold runJob landing
  rcases stop with _ | _ | ⟨written, message⟩ | _
  · simp only [completed]
    exact List.map_congr_left (fun row _ => by by_cases mine : job.id = some row.1 <;> simp [mine, Strikes])
  · cases queued : job.id with
    | none => simpa [queued] using completed _
    | some id => simp
  · simp only [ran]
    exact List.map_congr_left (fun row _ => by by_cases mine : job.id = some row.1 <;> simp [mine, Strikes])
  · cases queued : job.id with
    | none => simpa [queued] using ran _
    | some id =>
      have whole := ran (run (trace env job reason (markRunning env job store).db) (markRunning env job store).db)
      simp only [queued, Option.isSome_some, if_true, whole]
      exact List.map_congr_left (fun row _ => by by_cases mine : id = row.1 <;> simp [mine, Strikes, queued])

theorem runJobsStatuses (env : Nat → Env) (reason : String) (stop : Nat → Option Stop) (n : Nat) (jobs : List Job)
    (ended : Ended) : statuses (runJobs env reason stop n jobs ended).store =
      (statuses ended.store).map (fun row => (row.1, fate stop n jobs row.1 row.2)) := by
  induction jobs generalizing n ended with
  | nil => simp [runJobs, fate]
  | cons job rest ih =>
    have throws := runJobThrows (env n) reason (stop n) job ended.store
    have turned := runJobStatuses (env n) reason (stop n) job ended.store
    unfold runJobs fate
    generalize runJob (env n) reason (stop n) job ended.store = turn at throws turned
    cases thrown : turn.2 with
    | some message =>
      have strikes : Strikes job (stop n) := throws.mp (by rw [thrown]; rfl)
      simpa only [thrown, strikes, if_true] using turned
    | none =>
      have goes : ¬ Strikes job (stop n) := fun strikes => by simpa [thrown] using throws.mpr strikes
      simp only [thrown, goes, if_false, ih, turned, List.map_map]
      rfl

theorem runJobsBegun (env : Nat → Env) (reason : String) (stop : Nat → Option Stop) (n : Nat) (jobs : List Job)
    (ended : Ended) : (runJobs env reason stop n jobs ended).begun = ended.begun ++ reached stop n jobs := by
  induction jobs generalizing n ended with
  | nil => simp [runJobs, reached]
  | cons job rest ih =>
    have throws := runJobThrows (env n) reason (stop n) job ended.store
    unfold runJobs reached
    generalize runJob (env n) reason (stop n) job ended.store = turn at throws
    cases thrown : turn.2 with
    | some message =>
      have strikes : Strikes job (stop n) := throws.mp (by rw [thrown]; rfl)
      simp [thrown, strikes]
    | none =>
      have goes : ¬ Strikes job (stop n) := fun strikes => by simpa [thrown] using throws.mpr strikes
      simp [thrown, goes, ih]

-- A job that throws is the last one, and it has no queue row or throws before its row is marked.
def OnlyLast (stop : Nat → Option Stop) : Nat → List Job → Prop
  | _, [] => True
  | n, job :: rest => (Strikes job (stop n) → rest = [] ∧ (job.id = none ∨ stop n = some .mark)) ∧ OnlyLast stop (n + 1) rest

def settledStatuses : List String := ["completed", "failed", "pending"]

theorem fateOther {stop : Nat → Option Stop} {n : Nat} {jobs : List Job} {id : Nat} (other : id ∉ jobs.filterMap Job.id)
    (status : String) : fate stop n jobs id status = status := by
  induction jobs generalizing n with
  | nil => rfl
  | cons job rest ih =>
    have notMine : job.id ≠ some id := fun mine => other (List.mem_filterMap.mpr ⟨job, List.mem_cons_self, mine⟩)
    have notLater : id ∉ rest.filterMap Job.id := fun later => other (by
      obtain ⟨next, mem, is⟩ := List.mem_filterMap.mp later
      exact List.mem_filterMap.mpr ⟨next, List.mem_cons_of_mem _ mem, is⟩)
    have untouched : landing job (stop n) id status = status := if_pos (.inl notMine)
    simp only [fate, untouched, ih notLater, ite_self]

theorem reachedCons {stop : Nat → Option Stop} {n : Nat} {job : Job} {rest : List Job} (goes : ¬ Strikes job (stop n)) :
    (∀ i < (job :: rest).length, n + i ∈ reached stop n (job :: rest)) ↔
      ∀ i < rest.length, n + 1 + i ∈ reached stop (n + 1) rest := by
  simp only [reached, if_neg goes, List.length_cons, List.mem_cons]
  constructor
  · intro all i short
    rcases all (i + 1) (by omega) with here | later
    · omega
    · rwa [show n + 1 + i = n + (i + 1) by omega]
  · intro all i short
    cases i with
    | zero => exact .inl rfl
    | succ i => exact .inr (by simpa only [show n + (i + 1) = n + 1 + i by omega] using all i (by omega))

-- A turn that ends the pass: only this job is begun, so nothing may follow it, and its row must not have been marked.
theorem settledStriking {stop : Nat → Option Stop} {n : Nat} {job : Job} (strikes : Strikes job (stop n)) (rest : List Job) :
    ((∀ id ∈ (job :: rest).filterMap Job.id, fate stop n (job :: rest) id "pending" ∈ settledStatuses) ∧
      ∀ i < (job :: rest).length, n + i ∈ reached stop n (job :: rest)) ↔ rest = [] ∧ (job.id = none ∨ stop n = some .mark) := by
  have turns : (∀ i < (job :: rest).length, n + i ∈ reached stop n (job :: rest)) ↔ rest = [] := by
    simp only [reached, if_pos strikes, List.mem_singleton, List.length_cons]
    constructor
    · intro all
      cases rest with
      | nil => rfl
      | cons next rest => exact absurd (all 1 (by simp)) (by omega)
    · rintro rfl i short
      simp only [List.length_nil] at short
      omega
  rw [turns]
  constructor
  · rintro ⟨rows, rfl⟩
    refine ⟨rfl, ?_⟩
    cases queued : job.id with
    | none => exact .inl rfl
    | some id =>
      refine .inr (by_contra fun marked => ?_)
      have left := rows id (by simp [queued])
      simp [fate, landing, strikes, queued, marked, settledStatuses] at left
  · rintro ⟨rfl, unmarked⟩
    refine ⟨fun id mem => ?_, rfl⟩
    have mine : job.id = some id := by simpa using mem
    have marked : stop n = some .mark := unmarked.resolve_left (by simp [mine])
    simp [fate, landing, marked, settledStatuses]

-- Any other turn completes its own row, and leaves the rest to the later ones.
theorem settledPassing {stop : Nat → Option Stop} {n : Nat} {job : Job} {rest : List Job} (strikes : ¬ Strikes job (stop n))
    (distinct : ((job :: rest).filterMap Job.id).Nodup) :
    (∀ id ∈ (job :: rest).filterMap Job.id, fate stop n (job :: rest) id "pending" ∈ settledStatuses) ↔
      ∀ id ∈ rest.filterMap Job.id, fate stop (n + 1) rest id "pending" ∈ settledStatuses := by
  have once : ∀ id, job.id = some id → id ∉ rest.filterMap Job.id := by
    intro id mine
    rw [List.filterMap_cons_some mine, List.nodup_cons] at distinct
    exact distinct.1
  have later : ∀ id ∈ rest.filterMap Job.id, fate stop n (job :: rest) id "pending" = fate stop (n + 1) rest id "pending" := by
    intro id mem
    have other : job.id ≠ some id := fun mine => once id mine mem
    rw [fate, if_neg strikes, landing, if_pos (.inl other)]
  have own : ∀ id, job.id = some id → fate stop n (job :: rest) id "pending" = "completed" := by
    intro id mine
    have unmarked : stop n ≠ some .mark := fun marked => strikes (by simp [marked, Strikes, mine])
    simp [fate, strikes, landing, mine, unmarked, fateOther (once id mine)]
  constructor
  · intro all id mem
    rw [← later id mem]
    obtain ⟨next, held, is⟩ := List.mem_filterMap.mp mem
    exact all id (List.mem_filterMap.mpr ⟨next, List.mem_cons_of_mem _ held, is⟩)
  · intro all id mem
    obtain ⟨next, held, is⟩ := List.mem_filterMap.mp mem
    rcases List.mem_cons.mp held with rfl | held
    · rw [own id is]
      simp [settledStatuses]
    · have mem := List.mem_filterMap.mpr ⟨next, held, is⟩
      rw [later id mem]
      exact all id mem

theorem settledIff (stop : Nat → Option Stop) (n : Nat) {jobs : List Job} (distinct : (jobs.filterMap Job.id).Nodup) :
    ((∀ id ∈ jobs.filterMap Job.id, fate stop n jobs id "pending" ∈ settledStatuses) ∧
      ∀ i < jobs.length, n + i ∈ reached stop n jobs) ↔ OnlyLast stop n jobs := by
  induction jobs generalizing n with
  | nil => simp [OnlyLast]
  | cons job rest ih =>
    have apart : (rest.filterMap Job.id).Nodup := distinct.sublist ((List.sublist_cons_self job rest).filterMap _)
    rw [OnlyLast]
    by_cases strikes : Strikes job (stop n)
    · rw [settledStriking strikes]
      constructor
      · rintro ⟨rfl, unmarked⟩
        exact ⟨fun _ => ⟨rfl, unmarked⟩, trivial⟩
      · exact fun only => only.1 strikes
    · rw [settledPassing strikes distinct, reachedCons strikes, ← ih (n + 1) apart]
      simp only [strikes, false_implies, true_and]

def takenJobs (faults : Faults) (options : Options) (store : Store) : List Job :=
  if faults.load.isSome then [] else loadPendingJobs options store

-- Every queue row taken up ends completed, failed or pending, and every job gets its turn.
structure Settled (jobs : List Job) (ended : Ended) : Prop where
  rows : ∀ job ∈ jobs, ∀ row ∈ ended.store.queue, job.id = some row.id → row.status ∈ settledStatuses
  turns : ∀ n < jobs.length, n ∈ ended.begun

section
variable {store : Store}

-- The queue's primary key.
def Keyed (store : Store) : Prop := (store.queue.map QueueRow.id).Nodup

theorem loadedQueued {options : Options} {job : Job} {id : Nat} (mem : job ∈ loadPendingJobs options store)
    (queued : job.id = some id) : ∃ row ∈ store.queue, row.id = id ∧ row.status = "pending" := by
  unfold loadPendingJobs at mem
  split at mem
  · rw [List.mem_singleton.mp mem] at queued
    cases queued
  · split at mem
    · obtain ⟨row, taken, rfl⟩ := List.mem_map.mp mem
      have held := List.mem_filter.mp ((Tables.memOrderBy _).mp (List.mem_of_mem_take taken))
      exact ⟨row, held.1, Option.some.inj queued, by simpa using held.2⟩
    · obtain ⟨row, -, rfl⟩ := List.mem_map.mp mem
      cases queued

theorem loadedDistinct (keyed : Keyed store) (options : Options) : ((loadPendingJobs options store).filterMap Job.id).Nodup := by
  have rows : ((pendingRows store).map QueueRow.id).Nodup := keyed.sublist (List.filter_sublist.map _)
  have queued : ((queuedRows (clampedLimit options.limit) store).map QueueRow.id).Nodup :=
    (((List.perm_insertionSort _ (pendingRows store)).map QueueRow.id).nodup_iff.mpr rows).sublist
      ((List.take_sublist (clampedLimit options.limit) _).map QueueRow.id)
  unfold loadPendingJobs
  split
  · simp
  split
  · rw [List.filterMap_map]
    rwa [← List.filterMap_eq_map] at queued
  · rw [List.filterMap_map]
    simp

theorem ranStore (env : Nat → Env) (faults : Faults) (options : Options) (store : Store) :
    statuses (runConsolidationOnce env faults options store).1.store =
        (statuses store).map (fun row => (row.1, fate faults.stop 0 (takenJobs faults options store) row.1 row.2)) ∧
      (runConsolidationOnce env faults options store).1.begun = reached faults.stop 0 (takenJobs faults options store) := by
  unfold runConsolidationOnce takenJobs
  cases faults.load with
  | some message => simp [fate, reached, runStarted]
  | none =>
    simp only [Option.isSome_none, Bool.false_eq_true, if_false, runJobsStatuses, runJobsBegun, runStarted, List.nil_append,
      and_self]

theorem settledRows {faults : Faults} {options : Options} (keyed : Keyed store) {after : Store}
    (ran : statuses after =
      (statuses store).map (fun row => (row.1, fate faults.stop 0 (takenJobs faults options store) row.1 row.2))) :
    (∀ job ∈ takenJobs faults options store, ∀ row ∈ after.queue, job.id = some row.id → row.status ∈ settledStatuses) ↔
      ∀ id ∈ (takenJobs faults options store).filterMap Job.id,
        fate faults.stop 0 (takenJobs faults options store) id "pending" ∈ settledStatuses := by
  have pending : ∀ job ∈ takenJobs faults options store, ∀ id, job.id = some id → (id, "pending") ∈ statuses store := by
    intro job mem id queued
    have loaded : job ∈ loadPendingJobs options store := by
      unfold takenJobs at mem
      split at mem
      · cases mem
      · exact mem
    obtain ⟨row, held, rfl, waits⟩ := loadedQueued loaded queued
    exact List.mem_map.mpr ⟨row, held, by rw [waits]⟩
  have keys : ((statuses store).map Prod.fst).Nodup := by
    rw [statuses, List.map_map]
    exact keyed
  constructor
  · intro all id mem
    obtain ⟨job, taken, queued⟩ := List.mem_filterMap.mp mem
    have left : (id, fate faults.stop 0 (takenJobs faults options store) id "pending") ∈ statuses after := by
      rw [ran]
      exact List.mem_map.mpr ⟨_, pending job taken id queued, rfl⟩
    obtain ⟨row, held, is⟩ := List.mem_map.mp left
    obtain ⟨rfl, status⟩ := Prod.mk.inj is
    rw [← status]
    exact all job taken row held queued
  · intro all job taken row held queued
    have left : (row.id, row.status) ∈ statuses after := List.mem_map.mpr ⟨row, held, rfl⟩
    rw [ran] at left
    obtain ⟨old, mem, is⟩ := List.mem_map.mp left
    obtain ⟨sameId, status⟩ := Prod.mk.inj is
    have was : old = (row.id, "pending") := Tables.keyUnique keys mem (pending job taken row.id queued) sameId
    rw [← status, was]
    exact all row.id (List.mem_filterMap.mpr ⟨job, taken, queued⟩)

theorem runSettles (env : Nat → Env) (faults : Faults) (options : Options) (keyed : Keyed store) :
    Settled (takenJobs faults options store) (runConsolidationOnce env faults options store).1 ↔
      OnlyLast faults.stop 0 (takenJobs faults options store) := by
  obtain ⟨ran, begun⟩ := ranStore env faults options store
  have distinct : ((takenJobs faults options store).filterMap Job.id).Nodup := by
    unfold takenJobs
    split
    · simp
    · exact loadedDistinct keyed options
  rw [← settledIff faults.stop 0 distinct, ← settledRows keyed ran]
  simp only [Nat.zero_add]
  rw [← begun]
  exact ⟨fun settled => ⟨settled.rows, settled.turns⟩, fun ⟨rows, turns⟩ => ⟨rows, turns⟩⟩
end

def waiting (id : Nat) (sessionId : String) : QueueRow :=
  ⟨id, "p", sessionId, "manual", "pending", "2026-01-01T00:00:00.000Z", none, none, none⟩
def twoWaiting : Store := ⟨Db.empty, [waiting 1 "a", waiting 2 "b"]⟩
def everyJob : Options := ⟨none, none, none, none⟩
def stopAt (n : Nat) (stop : Stop) : Faults := ⟨none, fun k => if k = n then some stop else none, none⟩

-- The second job throws before its row is marked; then the first one does, with its row marked.
theorem runSettlesLast :
    Settled (takenJobs (stopAt 1 .mark) everyJob twoWaiting)
        (runConsolidationOnce (fun _ => plainEnv) (stopAt 1 .mark) everyJob twoWaiting).1 ↔
      OnlyLast (stopAt 1 .mark).stop 0 (takenJobs (stopAt 1 .mark) everyJob twoWaiting) :=
  runSettles (fun _ => plainEnv) (stopAt 1 .mark) everyJob (by unfold Keyed; decide)

theorem runStrands :
    ¬ Settled (takenJobs (stopAt 0 (.body 0 "SQLITE_BUSY")) everyJob twoWaiting)
      (runConsolidationOnce (fun _ => plainEnv) (stopAt 0 (.body 0 "SQLITE_BUSY")) everyJob twoWaiting).1 ∧
      ((runConsolidationOnce (fun _ => plainEnv) (stopAt 0 (.body 0 "SQLITE_BUSY")) everyJob twoWaiting).1.store.queue.map
        QueueRow.status) = ["running", "pending"] := by
  refine ⟨fun settled => ?_, by decide⟩
  have second : 1 ∈ (runConsolidationOnce (fun _ => plainEnv) (stopAt 0 (.body 0 "SQLITE_BUSY")) everyJob twoWaiting).1.begun :=
    settled.turns 1 (by decide)
  rw [(ranStore _ _ _ _).2] at second
  revert second
  decide

end HarnessMem.Consolidation
