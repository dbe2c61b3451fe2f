import HarnessMem.Lib.Runs
import HarnessMem.RecordFrames
import Mathlib.Data.String.Basic
import Mathlib.Order.Bounds.Basic

/-! The session rows: what `ensureSession` keeps of the events of a session, in any order of them,
and that recording an event writes the table through nothing else. -/
namespace HarnessMem.Recorder
open Js Text

structure Call where
  env : Ambient
  event : EventEnvelope
  draft : Draft

def ensureAll (db : Db) (calls : List Call) : Db :=
  Runs.run (fun db c => ensureSession c.env c.event c.draft db) db calls

def rowsOf (sessionId : String) (db : Db) : List Session := db.sessions.filter (fun row => row.sessionId = sessionId)
def callsOf (sessionId : String) (calls : List Call) : List Call := calls.filter (fun c => c.event.sessionId = sessionId)

def meetSession (row : Session) (c : Call) : Session := {row with
  startedAt := if row.startedAt ≤ c.draft.timestamp then row.startedAt else c.draft.timestamp
  correlationId := row.correlationId.orElse (fun _ => c.event.correlationId)
  updatedAt := c.env.clock 4}
def newSession (c : Call) : Session :=
  ⟨c.event.sessionId, c.event.platform, c.draft.project, c.draft.timestamp, none, none, none, c.event.correlationId,
    c.draft.userId, c.draft.teamId, c.env.clock 4, c.env.clock 4⟩

theorem ensureSessionOf (c : Call) (db : Db) : (ensureSession c.env c.event c.draft db).sessions =
    if db.sessions.any (fun row => row.sessionId = c.event.sessionId) then
      Tables.update (fun row => row.sessionId = c.event.sessionId) (meetSession · c) db.sessions
    else db.sessions ++ [newSession c] := by
  unfold ensureSession
  simp only
  split <;> rfl

theorem ensureOther {sessionId : String} {c : Call} (other : c.event.sessionId ≠ sessionId) (db : Db) :
    rowsOf sessionId (ensureSession c.env c.event c.draft db) = rowsOf sessionId db := by
  unfold rowsOf
  rw [ensureSessionOf]
  split
  · refine Tables.filterOutside (fun _ => rfl) (fun row _ chosen => ?_)
    rw [of_decide_eq_true chosen]
    exact decide_eq_false other
  · rw [List.filter_append]
    simp [newSession, other]

theorem ensureSame (c : Call) (db : Db) : rowsOf c.event.sessionId (ensureSession c.env c.event c.draft db) =
    if rowsOf c.event.sessionId db = [] then [newSession c] else (rowsOf c.event.sessionId db).map (meetSession · c) := by
  have absent : rowsOf c.event.sessionId db = [] ↔ ¬ db.sessions.any (fun row => row.sessionId = c.event.sessionId) := by
    simp [rowsOf, List.filter_eq_nil_iff]
  unfold rowsOf at absent ⊢
  rw [ensureSessionOf]
  by_cases known : db.sessions.any (fun row => row.sessionId = c.event.sessionId)
  · have kept : ∀ row : Session, decide ((meetSession row c).sessionId = c.event.sessionId) =
        decide (row.sessionId = c.event.sessionId) := fun _ => rfl
    rw [if_pos known, if_neg (fun none => absent.mp none known), Tables.filterUpdate kept]
    refine List.map_congr_left (fun row mem => ?_)
    rw [if_pos (List.of_mem_filter mem)]
  · rw [if_neg known, if_pos (absent.mpr known), List.filter_append, absent.mpr known]
    simp [newSession]

-- A run of calls, seen from one session: its own calls meet in its row.
theorem ensureAllKnown {sessionId : String} {db : Db} {row : Session} (known : rowsOf sessionId db = [row]) (calls : List Call) :
    rowsOf sessionId (ensureAll db calls) = [(callsOf sessionId calls).foldl meetSession row] := by
  induction calls generalizing db row with
  | nil => exact known
  | cons c calls ih =>
    by_cases own : c.event.sessionId = sessionId
    · have next : rowsOf sessionId (ensureSession c.env c.event c.draft db) = [meetSession row c] := by
        rw [← own] at known ⊢
        rw [ensureSame, known]
        rfl
      rw [callsOf, List.filter_cons_of_pos (by simpa using own)]
      exact ih next
    · rw [callsOf, List.filter_cons_of_neg (by simpa using own)]
      exact ih ((ensureOther own db).trans known)

theorem ensureAllFresh {sessionId : String} {db : Db} {first : Call} {later calls : List Call}
    (fresh : rowsOf sessionId db = []) (own : callsOf sessionId calls = first :: later) :
    rowsOf sessionId (ensureAll db calls) = [later.foldl meetSession (newSession first)] := by
  induction calls generalizing db with
  | nil => cases own
  | cons c calls ih =>
    by_cases here : c.event.sessionId = sessionId
    · rw [callsOf, List.filter_cons_of_pos (by simpa using here)] at own
      obtain ⟨rfl, rfl⟩ := List.cons.inj own
      refine ensureAllKnown ?_ calls
      rw [← here] at fresh ⊢
      rw [ensureSame, if_pos fresh]
    · rw [callsOf, List.filter_cons_of_neg (by simpa using here)] at own
      exact ih ((ensureOther here db).trans fresh) own

theorem meetAllStarted (calls : List Call) (row : Session) :
    IsLeast {t | t ∈ row.startedAt :: calls.map (fun c => c.draft.timestamp)} (calls.foldl meetSession row).startedAt := by
  induction calls generalizing row with
  | nil => exact ⟨List.mem_cons_self, fun t mem => (List.mem_singleton.mp mem).ge⟩
  | cons c calls ih =>
    obtain ⟨held, least⟩ := ih (meetSession row c)
    have met : (meetSession row c).startedAt = min row.startedAt c.draft.timestamp := (min_def _ _).symm
    rw [met] at held least
    rw [List.foldl_cons]
    constructor
    · rcases List.mem_cons.mp held with first | later
      · rcases min_choice row.startedAt c.draft.timestamp with own | new
        · exact List.mem_cons.mpr (.inl (first.trans own))
        · exact List.mem_cons_of_mem _ (List.mem_cons.mpr (.inl (first.trans new)))
      · exact List.mem_cons_of_mem _ (List.mem_cons_of_mem _ later)
    · have below := least List.mem_cons_self
      intro t mem
      rcases List.mem_cons.mp mem with rfl | rest
      · exact below.trans (min_le_left _ _)
      · rcases List.mem_cons.mp rest with rfl | later
        · exact below.trans (min_le_right _ _)
        · exact least (List.mem_cons_of_mem _ later)

theorem meetAllKeeps (calls : List Call) (row : Session) : (calls.foldl meetSession row).endedAt = row.endedAt ∧
    (calls.foldl meetSession row).platform = row.platform ∧ (calls.foldl meetSession row).project = row.project := by
  induction calls generalizing row with
  | nil => exact ⟨rfl, rfl, rfl⟩
  | cons c calls ih => exact ih (meetSession row c)

def stampsOf (sessionId : String) (db : Db) (calls : List Call) : List String :=
  (rowsOf sessionId db).map Session.startedAt ++ (callsOf sessionId calls).map (fun c => c.draft.timestamp)

def Keyed (db : Db) : Prop := (db.sessions.map Session.sessionId).Nodup

theorem keyedRows {db : Db} (keyed : Keyed db) (sessionId : String) :
    rowsOf sessionId db = [] ∨ ∃ row, rowsOf sessionId db = [row] := by
  have short : (rowsOf sessionId db).length ≤ 1 := by
    have ids : ((rowsOf sessionId db).map Session.sessionId).Nodup := keyed.sublist (List.filter_sublist.map _)
    have same : (rowsOf sessionId db).map Session.sessionId = List.replicate (rowsOf sessionId db).length sessionId := by
      refine List.eq_replicate_iff.mpr ⟨List.length_map _, fun id mem => ?_⟩
      obtain ⟨row, held, rfl⟩ := List.mem_map.mp mem
      exact of_decide_eq_true (List.mem_filter.mp held).2
    rw [same] at ids
    exact List.nodup_replicate.mp ids
  cases rows : rowsOf sessionId db with
  | nil => exact .inl rfl
  | cons row rest =>
    rw [rows, List.length_cons] at short
    exact .inr ⟨row, by rw [List.length_eq_zero_iff.mp (by omega : rest.length = 0)]⟩

theorem ensureKeyed (db : Db) (c : Call) (keyed : Keyed db) : Keyed (ensureSession c.env c.event c.draft db) := by
  unfold Keyed at keyed ⊢
  rw [ensureSessionOf]
  split
  · have kept : ∀ row : Session, (meetSession row c).sessionId = row.sessionId := fun _ => rfl
    rwa [Tables.updateColumn Session.sessionId kept]
  · rename_i absent
    rw [List.map_append, List.nodup_append']
    refine ⟨keyed, List.nodup_singleton _, ?_⟩
    intro id mem new
    obtain ⟨row, held, rfl⟩ := List.mem_map.mp mem
    refine absent (List.any_eq_true.mpr ⟨row, held, decide_eq_true ?_⟩)
    simpa [newSession] using new

theorem ensureAllKeyed {db : Db} (keyed : Keyed db) (calls : List Call) : Keyed (ensureAll db calls) :=
  Runs.invariant _ ensureKeyed keyed calls

structure Bounds (sessionId : String) (db : Db) (calls : List Call) (row : Session) : Prop where
  only : rowsOf sessionId (ensureAll db calls) = [row]
  started : IsLeast {t | t ∈ stampsOf sessionId db calls} row.startedAt
  ended : row.endedAt = (rowsOf sessionId db).head?.bind Session.endedAt
  prior : ∀ old ∈ rowsOf sessionId db, row.platform = old.platform ∧ row.project = old.project
  first : rowsOf sessionId db = [] → ∃ c ∈ callsOf sessionId calls, row.platform = c.event.platform ∧ row.project = c.draft.project

theorem ensuredRow {sessionId : String} {db : Db} {calls : List Call} (keyed : Keyed db) (some : callsOf sessionId calls ≠ []) :
    ∃ row, Bounds sessionId db calls row := by
  rcases keyedRows keyed sessionId with fresh | ⟨old, known⟩
  · obtain ⟨c, later, own⟩ := List.exists_cons_of_ne_nil some
    obtain ⟨ended, platform, project⟩ := meetAllKeeps later (newSession c)
    refine ⟨_, ensureAllFresh fresh own, ?_, ?_, ?_, ?_⟩
    · rw [stampsOf, fresh, own]
      exact meetAllStarted later (newSession c)
    · rw [fresh, ended]
      rfl
    · rw [fresh]
      simp
    · intro _
      rw [own]
      exact ⟨c, List.mem_cons_self, platform, project⟩
  · obtain ⟨ended, platform, project⟩ := meetAllKeeps (callsOf sessionId calls) old
    refine ⟨_, ensureAllKnown known calls, ?_, ?_, ?_, ?_⟩
    · rw [stampsOf, known]
      exact meetAllStarted _ old
    · rw [known, ended]
      rfl
    · rw [known]
      simpa using ⟨platform, project⟩
    · rw [known]
      intro none
      cases none

theorem rowsUntouched {sessionId : String} {calls : List Call} (none : callsOf sessionId calls = []) (db : Db) :
    rowsOf sessionId (ensureAll db calls) = rowsOf sessionId db := by
  induction calls generalizing db with
  | nil => rfl
  | cons c calls ih =>
    have apart := List.filter_eq_nil_iff.mp none
    have other : c.event.sessionId ≠ sessionId := by simpa using apart c List.mem_cons_self
    have rest : callsOf sessionId calls = [] :=
      List.filter_eq_nil_iff.mpr (fun later mem => apart later (List.mem_cons_of_mem _ mem))
    exact (ih rest _).trans (ensureOther other db)

theorem memIds {sessionId : String} {db : Db} : sessionId ∈ db.sessions.map Session.sessionId ↔ rowsOf sessionId db ≠ [] := by
  rw [rowsOf, ne_eq, List.filter_eq_nil_iff]
  simp

theorem memEnsured {sessionId : String} {db : Db} (keyed : Keyed db) (calls : List Call) :
    sessionId ∈ (ensureAll db calls).sessions.map Session.sessionId ↔ rowsOf sessionId db ≠ [] ∨ callsOf sessionId calls ≠ [] := by
  rw [memIds]
  by_cases none : callsOf sessionId calls = []
  · rw [rowsUntouched none]
    simp [none]
  · obtain ⟨row, bounds⟩ := ensuredRow keyed none
    simp [bounds.only, none]

-- Whatever the order the events come in: one row a session, its start the least of the texts, its end as it was.
theorem sessionBoundsOrderFree (db : Db) (keyed : Keyed db) (calls reordered : List Call) (same : reordered.Perm calls) :
    ((ensureAll db calls).sessions.map Session.sessionId).Nodup ∧
    ((ensureAll db reordered).sessions.map Session.sessionId).Perm ((ensureAll db calls).sessions.map Session.sessionId) ∧
    ∀ sessionId, callsOf sessionId calls ≠ [] → ∃ row other,
      rowsOf sessionId (ensureAll db calls) = [row] ∧ rowsOf sessionId (ensureAll db reordered) = [other] ∧
      IsLeast {t | t ∈ stampsOf sessionId db calls} row.startedAt ∧ other.startedAt = row.startedAt ∧
      row.endedAt = (rowsOf sessionId db).head?.bind Session.endedAt ∧ other.endedAt = row.endedAt ∧
      ∀ platform project, (∀ c ∈ callsOf sessionId calls, c.event.platform = platform ∧ c.draft.project = project) →
        (row.platform = platform ∧ row.project = project ↔ other.platform = platform ∧ other.project = project) := by
  have own : ∀ sessionId, (callsOf sessionId reordered).Perm (callsOf sessionId calls) := fun _ => same.filter _
  have none : ∀ sessionId, callsOf sessionId reordered = [] ↔ callsOf sessionId calls = [] := by
    intro sessionId
    rw [← List.length_eq_zero_iff, (own sessionId).length_eq, List.length_eq_zero_iff]
  refine ⟨ensureAllKeyed keyed calls, ?_, ?_⟩
  · refine (List.perm_ext_iff_of_nodup (ensureAllKeyed keyed reordered) (ensureAllKeyed keyed calls)).mpr (fun sessionId => ?_)
    rw [memEnsured keyed, memEnsured keyed, ne_eq (callsOf sessionId reordered), none sessionId]
  · intro sessionId some
    have some' : callsOf sessionId reordered ≠ [] := (none sessionId).not.mpr some
    obtain ⟨row, bounds⟩ := ensuredRow keyed some
    obtain ⟨other, bounds'⟩ := ensuredRow keyed some'
    have stamps : {t | t ∈ stampsOf sessionId db reordered} = {t | t ∈ stampsOf sessionId db calls} := by
      ext t
      exact (((own sessionId).map _).append_left _).mem_iff
    refine ⟨row, other, bounds.only, bounds'.only, bounds.started, ?_, bounds.ended, bounds'.ended.trans bounds.ended.symm, ?_⟩
    · exact (stamps ▸ bounds'.started).unique bounds.started
    · intro platform project settled
      rcases keyedRows keyed sessionId with fresh | ⟨old, known⟩
      · obtain ⟨c, mem, first⟩ := bounds.first fresh
        obtain ⟨c', mem', first'⟩ := bounds'.first fresh
        have placed := settled c mem
        have placed' := settled c' ((own sessionId).mem_iff.mp mem')
        exact iff_of_true (by rw [first.1, first.2]; exact placed) (by rw [first'.1, first'.2]; exact placed')
      · have held : old ∈ rowsOf sessionId db := by rw [known]; exact List.mem_cons_self
        rw [(bounds.prior old held).1, (bounds.prior old held).2, (bounds'.prior old held).1, (bounds'.prior old held).2]

def begun (eventId ts : String) : Call :=
  let event := {plainEvent eventId "p" [] with ts := some ts}
  ⟨plainAmbient, event, draft plainHost plainAmbient event "p"⟩

theorem laterEventFirst :
    (rowsOf "s" (ensureAll .empty [begun "b" "2026-01-02T00:00:00.000Z", begun "a" "2026-01-01T00:00:00.000Z"])).map
      Session.startedAt = ["2026-01-01T00:00:00.000Z"] := by
  obtain ⟨_, _, row⟩ := sessionBoundsOrderFree .empty List.nodup_nil
    [begun "a" "2026-01-01T00:00:00.000Z", begun "b" "2026-01-02T00:00:00.000Z"] _ (List.Perm.swap _ _ [])
  obtain ⟨row, other, _, only, started, same, _⟩ := row "s" (by simp [callsOf, begun, plainEvent])
  have first : IsLeast {t | t ∈ stampsOf "s" .empty [begun "a" "2026-01-01T00:00:00.000Z", begun "b" "2026-01-02T00:00:00.000Z"]}
      "2026-01-01T00:00:00.000Z" := by
    constructor
    · exact List.mem_cons_self
    · intro t mem
      rcases List.mem_cons.mp mem with rfl | rest
      · exact le_refl _
      · rw [List.mem_singleton.mp rest]
        decide
  rw [only, List.map_cons, List.map_nil, same, started.unique first]

-- Of the steps of a transaction only `ensureSession` writes the session rows.
theorem autoLinkSessions (host : Host) (observationId sessionId createdAt : String) (db : Db) :
    (autoLinkObservation host observationId sessionId createdAt db).sessions = db.sessions := by
  unfold autoLinkObservation
  simp only
  split <;> rfl

theorem autoSupersedesSessions (host : Host) (env : Ambient) (observationId project kind content createdAt : String) (db : Db) :
    (autoSupersedes host env observationId project kind content createdAt db).sessions = db.sessions := by
  unfold autoSupersedes
  simp only
  split <;> rfl

theorem runAutoLinkerSessions (host : Host) (observationId sessionId createdAt : String) (db : Db) :
    (runAutoLinker host observationId sessionId createdAt db).sessions = db.sessions := by
  unfold runAutoLinker
  rfl

theorem enrichSessions (host : Host) (env : Ambient) (e : EventEnvelope) (d : Draft) (temporal : Temporal) (db : Db) :
    (enrich host env e d temporal db).sessions = db.sessions := by
  unfold enrich
  extract_lets mined related linked updated auto
  have toRelated : related.sessions = db.sessions := (relatedBlind sessionsBlind _ _ _ _ _ _ _).trans (minedBlind sessionsBlind _ _ _ _)
  have toLinked : linked.sessions = db.sessions := (autoLinkSessions _ _ _ _ _).trans toRelated
  have toUpdated : updated.sessions = db.sessions := (autoSupersedesSessions _ _ _ _ _ _ _ _).trans toLinked
  have toAuto : auto.sessions = db.sessions := by
    by_cases semantic : env.autoLinkSemantic
    · simpa only [auto, semantic, if_true] using (runAutoLinkerSessions _ _ _ _ _).trans toUpdated
    · simpa only [auto, semantic, Bool.false_eq_true, if_false] using toUpdated
  exact (nuggetsBlind sessionsBlind _ _ _ _ _ _).trans toAuto

theorem createSessions {host : Host} {env : Ambient} {e : EventEnvelope} {d : Draft} {temporal : Temporal} {db : Db}
    {result : Db × Option String} (ok : createObservation host env e d temporal db = .ok result) :
    result.1.sessions = db.sessions := by
  obtain ⟨expiresAt, _, ok⟩ := bindOk ok
  obtain ⟨observations, _, ok⟩ := bindOk ok
  obtain ⟨embedded, stored, ok⟩ := bindOk ok
  cases ok
  have kept : embedded.1.sessions = db.sessions := (embedBlind sessionsBlind stored).trans (provenanceBlind sessionsBlind _ _ _ _ _)
  exact (auditPrivacyBlind sessionsBlind _ _ _ _).trans ((enrichSessions _ _ _ _ _ _).trans kept)

theorem transactionSessions {host : Host} {env : Ambient} {e : EventEnvelope} {d : Draft} {temporal : Temporal} {db : Db}
    {result : Db × Recorded} (ok : transaction host env e d temporal db = .ok result) :
    result.1.sessions = (ensureSession env e d db).sessions := by
  unfold transaction at ok
  simp only at ok
  split at ok
  · cases ok
    rfl
  · split at ok
    · cases ok
      rfl
    · obtain ⟨created, stored, rfl⟩ := mapOk ok
      exact (createSessions stored).trans rfl

theorem ensureSessionOn (env : Ambient) (e : EventEnvelope) (d : Draft) {db other : Db} (same : other.sessions = db.sessions) :
    (ensureSession env e d other).sessions = (ensureSession env e d db).sessions := by
  rw [ensureSessionOf ⟨env, e, d⟩, ensureSessionOf ⟨env, e, d⟩, same]

theorem writeSessions (host : Host) (env : Ambient) (allowQueue : Bool) (e : EventEnvelope) (d : Draft) (temporal : Temporal) (db : Db) :
    (write host env allowQueue e d temporal db).1.sessions = db.sessions ∨
      (write host env allowQueue e d temporal db).1.sessions = (ensureSession env e d db).sessions := by
  unfold write
  split
  · refine .inl ?_
    split <;> rfl
  · rename_i stored
    exact .inr (transactionSessions stored)

-- Recording an event leaves the session rows alone, or calls `ensureSession` on them once.
theorem recordSessions (host : Host) (env : Ambient) (allowQueue : Bool) (e : EventEnvelope) (db : Db) :
    (recordEvent host env allowQueue e db).1.sessions = db.sessions ∨
      ∃ d, (recordEvent host env allowQueue e db).1.sessions = (ensureSession env e d db).sessions := by
  unfold recordEvent
  split
  · exact .inl rfl
  split
  · exact .inl rfl
  split
  · exact .inl rfl
  rename_i project _
  extract_lets d stripped
  have toStripped : stripped.sessions = db.sessions := auditStripBlind sessionsBlind _ _ _ _ _
  split
  · exact .inl rfl
  split
  · exact .inl rfl
  split
  · exact .inl toStripped
  rename_i passed gated
  have toPassed : passed.sessions = db.sessions := (gateBlind sessionsBlind gated).trans toStripped
  split
  · exact .inl toPassed
  rename_i temporal _
  rcases writeSessions host env allowQueue e d temporal passed with kept | ensured
  · exact .inl (kept.trans toPassed)
  · exact .inr ⟨d, ensured.trans (ensureSessionOn env e d toPassed)⟩

end HarnessMem.Recorder
