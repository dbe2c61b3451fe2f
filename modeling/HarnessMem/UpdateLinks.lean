import HarnessMem.Dedupe
import HarnessMem.RecordFaults
import HarnessMem.RecordFrames
import HarnessMem.Search
import Mathlib.Data.String.Basic

/-! The `updates` links of recorded events: who is linked to whom while events arrive in any order, and when every
such link goes from an observation to one that is not later. -/
namespace HarnessMem.UpdateLinks
open Js Recorder Dedupe

-- The rows `autoSupersedes` compares a new observation with.
def candidates (d : Draft) (observations : List Observation) : List Observation :=
  (newestFirst (observations.filter (fun row =>
    row.project = d.project && row.observationType = d.observationType && row.id ≠ d.observationId))).take 50

section
variable (host : Host) (env : Ambient) (d : Draft)

structure Similar (row : Observation) : Prop where
  named : (host.tokenize d.redactedContent).dedup ≠ []
  tokens : (host.tokenize row.contentRedacted).dedup ≠ []
  near : env.jaccardThreshold ≤ jaccard (host.tokenize d.redactedContent).dedup (host.tokenize row.contentRedacted).dedup

-- A link one of the two writers adds for the observation of the draft.
structure Added (observations : List Observation) (link : Link) : Prop where
  source : link.fromId = d.observationId
  target : ∃ older ∈ observations, older.id = link.toId ∧
    (older.createdAt ≤ d.timestamp ∨ older ∈ candidates d observations ∧ Similar host env d older)

theorem addedBy {new : List Link} {db : Db} {link : Link} (mem : link ∈ (addLinks new db).links) : link ∈ db.links ∨ link ∈ new :=
  insertLinksFrom mem

variable {host env d} {db : Db} {link : Link}

theorem addedKeeps {new : List Link} (mem : link ∈ db.links) : link ∈ (addLinks new db).links := by
  unfold addLinks
  simp only
  generalize db.links = links at mem
  induction new generalizing links with
  | nil => exact mem
  | cons first rest ih =>
    refine ih _ ?_
    unfold insertLink
    split
    · exact mem
    · exact List.mem_append_left _ mem

-- `INSERT OR IGNORE`: afterwards there is a link of that pair and relation.
theorem addedThere {new : List Link} (mem : link ∈ new) :
    ∃ same ∈ (addLinks new db).links, same.fromId = link.fromId ∧ same.toId = link.toId ∧ same.relation = link.relation := by
  induction new generalizing db with
  | nil => cases mem
  | cons first rest ih =>
    have split : addLinks (first :: rest) db = addLinks rest {db with links := insertLink db.links first} := rfl
    rw [split]
    rcases List.mem_cons.mp mem with rfl | later
    · have here : ∃ same ∈ insertLink db.links link, same.fromId = link.fromId ∧ same.toId = link.toId ∧ same.relation = link.relation := by
        unfold insertLink
        split
        · rename_i known
          obtain ⟨same, held, equal⟩ := List.any_eq_true.mp known
          simp only [Bool.and_eq_true, decide_eq_true_eq] at equal
          exact ⟨same, held, equal.1.1, equal.1.2, equal.2⟩
        · exact ⟨link, List.mem_append_right _ List.mem_cons_self, rfl, rfl, rfl⟩
      obtain ⟨same, held, equal⟩ := here
      exact ⟨same, @addedKeeps {db with links := insertLink db.links link} same rest held, equal⟩
    · exact ih later

theorem autoLinkKeeps (sessionId : String) (mem : link ∈ db.links) :
    link ∈ (autoLinkObservation host d.observationId sessionId d.timestamp db).links := by
  unfold autoLinkObservation
  simp only
  refine addedKeeps ?_
  split
  · exact mem
  · exact addedKeeps mem

theorem autoSupersedesKeeps (mem : link ∈ db.links) :
    link ∈ (autoSupersedes host env d.observationId d.project d.observationType d.redactedContent d.timestamp db).links := by
  unfold autoSupersedes
  simp only
  split
  · exact mem
  · exact addedKeeps mem

theorem autoSupersedesThere {row : Observation} (mem : row ∈ candidates d db.observations) (similar : Similar host env d row) :
    ∃ link ∈ (autoSupersedes host env d.observationId d.project d.observationType d.redactedContent d.timestamp db).links,
      link.fromId = d.observationId ∧ link.toId = row.id ∧ link.relation = "updates" := by
  unfold autoSupersedes
  simp only
  rw [if_neg similar.named]
  refine @addedThere db
    ⟨d.observationId, row.id, "updates", jaccard (host.tokenize d.redactedContent).dedup (host.tokenize row.contentRedacted).dedup, d.timestamp⟩ _ ?_
  exact List.mem_filterMap.mpr ⟨row, mem, if_neg (not_or.mpr ⟨similar.tokens, not_lt.mpr similar.near⟩)⟩

theorem autoLinkAdded (sessionId : String) (updates : link.relation = "updates")
    (mem : link ∈ (autoLinkObservation host d.observationId sessionId d.timestamp db).links) :
    link ∈ db.links ∨ Added host env d db.observations link := by
  unfold autoLinkObservation at mem
  simp only at mem
  rcases addedBy mem with before | shared
  · split at before
    · exact .inl before
    · rename_i previous found
      rcases addedBy before with old | new
      · exact .inl old
      · have held := List.mem_of_mem_head? found
        rw [newestFirst, Tables.memOrderBy, List.mem_filter] at held
        simp only [Bool.and_eq_true, decide_eq_true_eq] at held
        rw [List.mem_singleton.mp new]
        exact .inr ⟨rfl, previous, held.1, rfl, .inl held.2.2⟩
  · obtain ⟨pair, _, rfl⟩ := List.mem_map.mp shared
    exact absurd (show "shared_entity" = "updates" from updates) (by decide)

theorem autoSupersedesAdded (updates : link.relation = "updates")
    (mem : link ∈ (autoSupersedes host env d.observationId d.project d.observationType d.redactedContent d.timestamp db).links) :
    link ∈ db.links ∨ Added host env d db.observations link := by
  unfold autoSupersedes at mem
  simp only at mem
  split at mem
  · exact .inl mem
  · rename_i named
    rcases addedBy mem with old | new
    · exact .inl old
    · obtain ⟨candidate, held, made⟩ := List.mem_filterMap.mp new
      split at made
      · cases made
      · rename_i far
        obtain ⟨tokens, near⟩ := not_or.mp far
        cases made
        have inside : candidate ∈ candidates d db.observations := held
        have row : candidate ∈ db.observations := by
          have taken := List.mem_of_mem_take inside
          rw [newestFirst, Tables.memOrderBy] at taken
          exact (List.mem_filter.mp taken).1
        exact .inr ⟨rfl, candidate, row, rfl, .inr ⟨inside, named, tokens, not_lt.mp near⟩⟩

theorem runAutoLinkerAdded (sessionId : String) (updates : link.relation = "updates")
    (mem : link ∈ (runAutoLinker host d.observationId sessionId d.timestamp db).links) : link ∈ db.links := by
  unfold runAutoLinker at mem
  simp only at mem
  rcases addedBy mem with old | new
  · exact old
  · rcases List.mem_append.mp new with both | meaning
    · rcases List.mem_append.mp both with entity | time
      · obtain ⟨pair, _, rfl⟩ := List.mem_map.mp entity
        exact absurd (show "shared_entity" = "updates" from updates) (by decide)
      · obtain ⟨row, _, rfl⟩ := List.mem_map.mp time
        exact absurd (show "follows" = "updates" from updates) (by decide)
    · split at meaning
      · cases meaning
      · obtain ⟨row, _, rfl⟩ := List.mem_map.mp meaning
        exact absurd (show "extends" = "updates" from updates) (by decide)

theorem enrichAdded {e : EventEnvelope} {temporal : Temporal} (updates : link.relation = "updates")
    (mem : link ∈ (enrich host env e d temporal db).links) : link ∈ db.links ∨ Added host env d db.observations link := by
  unfold enrich at mem
  extract_lets mined related linked updated auto at mem
  rw [nuggetsBlind linksBlind] at mem
  have toMined : db.SameRows mined := minedSame _ _ _ _
  have toRelated : db.SameRows related := Db.sameTrans toMined (relatedSame _ _ _ _ _ _ _)
  have toLinked : db.SameRows linked := Db.sameTrans toRelated (autoLinkSame _ _ _ _ _)
  have relatedLinks : related.links = db.links := (relatedBlind linksBlind _ _ _ _ _ _ _).trans (minedBlind linksBlind _ _ _ _)
  have inUpdated : link ∈ updated.links := by
    by_cases semantic : env.autoLinkSemantic
    · simp only [auto, semantic, if_true] at mem
      exact runAutoLinkerAdded e.sessionId updates mem
    · simpa only [auto, semantic, Bool.false_eq_true, if_false] using mem
  rcases @autoSupersedesAdded host env d linked link updates inUpdated with inLinked | added
  · rcases @autoLinkAdded host env d related link e.sessionId updates inLinked with old | added
    · exact .inl (relatedLinks ▸ old)
    · exact .inr (toRelated.observations ▸ added)
  · exact .inr (toLinked.observations ▸ added)

theorem enrichKeeps {e : EventEnvelope} {temporal : Temporal} (mem : link ∈ db.links) : link ∈ (enrich host env e d temporal db).links := by
  unfold enrich
  extract_lets mined related linked updated auto
  rw [nuggetsBlind linksBlind]
  have relatedLinks : related.links = db.links := (relatedBlind linksBlind _ _ _ _ _ _ _).trans (minedBlind linksBlind _ _ _ _)
  have inRelated : link ∈ related.links := by rwa [relatedLinks]
  have inLinked : link ∈ linked.links := autoLinkKeeps e.sessionId inRelated
  have inUpdated : link ∈ updated.links := autoSupersedesKeeps inLinked
  by_cases semantic : env.autoLinkSemantic
  · simp only [auto, semantic, if_true]
    exact addedKeeps inUpdated
  · simpa only [auto, semantic, Bool.false_eq_true, if_false] using inUpdated

theorem enrichThere {e : EventEnvelope} {temporal : Temporal} {row : Observation} (mem : row ∈ candidates d db.observations)
    (similar : Similar host env d row) :
    ∃ link ∈ (enrich host env e d temporal db).links, link.fromId = d.observationId ∧ link.toId = row.id ∧ link.relation = "updates" := by
  unfold enrich
  extract_lets mined related linked updated auto
  rw [nuggetsBlind linksBlind]
  have toMined : db.SameRows mined := minedSame _ _ _ _
  have toRelated : db.SameRows related := Db.sameTrans toMined (relatedSame _ _ _ _ _ _ _)
  have toLinked : db.SameRows linked := Db.sameTrans toRelated (autoLinkSame _ _ _ _ _)
  obtain ⟨link, inUpdated, same⟩ : ∃ link ∈ updated.links, link.fromId = d.observationId ∧ link.toId = row.id ∧ link.relation = "updates" :=
    autoSupersedesThere (toLinked.observations ▸ mem) similar
  refine ⟨link, ?_, same⟩
  by_cases semantic : env.autoLinkSemantic
  · simp only [auto, semantic, if_true]
    exact addedKeeps inUpdated
  · simpa only [auto, semantic, Bool.false_eq_true, if_false] using inUpdated

-- The row just inserted is no candidate of its own.
theorem candidatesNew (observations : List Observation) {row : Observation} (own : row.id = d.observationId) :
    candidates d (observations ++ [row]) = candidates d observations := by
  simp [candidates, own]

-- The store after `createObservation`, as far as links go: those of the tables, and those the writers added.
theorem createdLinks {e : EventEnvelope} {temporal : Temporal} {result : Db × Option String}
    (ok : createObservation host env e d temporal db = .ok result) :
    ∃ embedded, embedded.links = db.links ∧ embedded.observations = result.1.observations ∧
      result.1.links = (enrich host env e d temporal embedded).links := by
  unfold createObservation at ok
  obtain ⟨expiresAt, _, ok⟩ := bindOk ok
  obtain ⟨observations, _, ok⟩ := bindOk ok
  obtain ⟨⟨embedded, warning⟩, stored, ok⟩ := bindOk ok
  cases ok
  have before : embedded.links = db.links := (embedBlind linksBlind stored).trans (provenanceBlind linksBlind _ _ _ _ _)
  have kept := Db.keptTrans (enrichKept host env e d temporal embedded) (auditPrivacySame env e d _).toKept
  exact ⟨embedded, before, kept.observations.symm, auditPrivacyBlind linksBlind _ _ _ _⟩

end

-- A call that stores a new observation, said of the event and of the tables before it.
structure Storing (host : Host) (env : Ambient) (e : EventEnvelope) (db : Db) (project : String) : Prop where
  admitted : Admitted host env e project
  passes : ¬ (Refused .none env (draft host env e project) db ∧ env.gateMode = .block)
  anchors : ∃ temporal, temporalAnchors host e (draft host env e project).timestamp = .ok temporal
  fresh : Fresh (draft host env e project) db
  missing : existingObservation (draft host env e project) db = none
  creates : Creates .none host env e (draft host env e project) db.observations

-- One call: it stores nothing that is linked, or it is `createObservation` on the tables as they are.
inductive Stepped (host : Host) (env : Ambient) (e : EventEnvelope) (db : Db) : Db → Prop where
  | kept {after : Db} (observations : after.observations = db.observations) (links : after.links = db.links)
      (events : ∀ event ∈ db.events, ∃ same ∈ after.events, same.eventId = event.eventId)
      (refused : ∀ project, ¬ Storing host env e db project) : Stepped host env e db after
  | stored {started : Db} {project : String} {temporal : Temporal} {result : Db × Option String} (storing : Storing host env e db project)
      (events : started.events = db.events) (observations : started.observations = db.observations) (links : started.links = db.links)
      (made : createObservation host env e (draft host env e project) temporal (insertEvent env e (draft host env e project) started) =
        .ok result) : Stepped host env e db result.1

section
variable {host : Host} {env : Ambient} {e : EventEnvelope} {db : Db} {link : Link}

theorem storingNamed {project other : String} (named : env.normalizeProject e.project = .ok project)
    (storing : Storing host env e db other) : other = project :=
  Except.ok.inj (storing.admitted.named.symm.trans named)

theorem storingCommits {project : String} (storing : Storing host env e db project) :
    Commits .none host env e (draft host env e project) db :=
  ⟨fun _ _ => rfl, .inr ⟨fun _ _ => rfl, .inr ⟨storing.missing, storing.creates⟩⟩⟩

theorem transactionStepped {project : String} {temporal : Temporal} {passed : Db} {result : Db × Recorded}
    (admitted : Admitted host env e project) (passes : ¬ (Refused .none env (draft host env e project) db ∧ env.gateMode = .block))
    (anchors : temporalAnchors host e (draft host env e project).timestamp = .ok temporal) (events : passed.events = db.events)
    (observations : passed.observations = db.observations) (links : passed.links = db.links)
    (ok : transaction host env e (draft host env e project) temporal passed = .ok result) : Stepped host env e db result.1 := by
  have session := ensureSessionSame env e (draft host env e project) passed
  have sessionLinks : (ensureSession env e (draft host env e project) passed).links = passed.links := by
    unfold ensureSession
    extract_lets
    split <;> rfl
  have commits : Commits .none host env e (draft host env e project) db :=
    (commitsSame events observations).mp ((transactionOk temporal passed).mp ⟨result, transactionNone passed ▸ ok⟩)
  unfold transaction at ok
  generalize ensureSession env e (draft host env e project) passed = started at ok session sessionLinks
  have startedEvents := session.events.trans events
  simp only at ok
  split at ok
  · rename_i used
    cases ok
    refine .kept (session.observations.trans observations) (sessionLinks.trans links) ?_ fun other storing => ?_
    · rw [startedEvents]
      exact fun event mem => ⟨event, mem, rfl⟩
    · obtain rfl := storingNamed admitted.named storing
      rw [startedEvents, takenFresh.mpr storing.fresh] at used
      cases used
  rename_i unused
  have fresh : Fresh (draft host env e project) db := by
    have before := takenFresh.mp (Bool.eq_false_iff.mpr unused)
    rwa [Fresh, startedEvents] at before
  have sameFound : existingObservation (draft host env e project) (insertEvent env e (draft host env e project) started) =
      existingObservation (draft host env e project) db := by
    simp only [existingObservation, insertEvent, session.observations, observations]
  split at ok
  · rename_i id found
    cases ok
    refine .kept (session.observations.trans observations) (sessionLinks.trans links) ?_ fun other storing => ?_
    · rw [linkExistingEvents (by rwa [Fresh, startedEvents]), startedEvents]
      exact fun event mem => ⟨event, List.mem_append_left _ mem, rfl⟩
    · obtain rfl := storingNamed admitted.named storing
      have none := sameFound.trans storing.missing
      rw [found] at none
      cases none
  · rename_i missing
    obtain ⟨created, made, rfl⟩ := mapOk ok
    have none := sameFound.symm.trans missing
    have creates : Creates .none host env e (draft host env e project) db.observations := by
      rcases commits.2 with used | ⟨_, ⟨found, _⟩ | ⟨_, creates⟩⟩
      · rw [takenFresh.mpr fresh] at used
        cases used
      · rw [none] at found
        cases found
      · exact creates
    exact .stored ⟨admitted, passes, ⟨temporal, anchors⟩, fresh, none, creates⟩ startedEvents
      (session.observations.trans observations) (sessionLinks.trans links) made

theorem untouchedStepped {after : Db} (observations : after.observations = db.observations) (links : after.links = db.links)
    (events : after.events = db.events) (refused : ∀ project, ¬ Storing host env e db project) : Stepped host env e db after :=
  .kept observations links (fun event mem => ⟨event, events ▸ mem, rfl⟩) refused

theorem recordStepped (allowQueue : Bool) : Stepped host env e db (recordEvent host env allowQueue e db).1 := by
  rw [← recordNone]
  rcases recordCases .none host env e db allowQueue with ⟨same, -, -, outside⟩ | ⟨project, admitted, record⟩
  · rw [same]
    exact untouchedStepped rfl rfl rfl fun project storing => outside project storing.admitted
  rw [record]
  rcases checkedCases .none host env e (draft host env e project) db allowQueue with
    ⟨refused, after, reason, ⟨rows, -, rfl⟩, result⟩ | ⟨passes, passed, ⟨rows, -, rfl⟩, ⟨message, late, result⟩ | ⟨temporal, anchors, result⟩⟩
  · rw [result]
    refine untouchedStepped rfl rfl rfl fun other storing => ?_
    obtain rfl := storingNamed admitted.named storing
    exact storing.passes refused
  · rw [result]
    refine untouchedStepped rfl rfl rfl fun other storing => ?_
    obtain rfl := storingNamed admitted.named storing
    obtain ⟨temporal, anchors⟩ := storing.anchors
    rw [late] at anchors
    cases anchors
  · rw [result]
    rcases writeCases .none host env e (draft host env e project) temporal {db with auditLog := db.auditLog ++ rows} allowQueue with
      ⟨stored, ok, wrote⟩ | ⟨fails, wrong⟩
    · rw [wrote]
      rw [transactionNone] at ok
      refine transactionStepped admitted passes anchors ?_ ?_ ?_ ok <;> rfl
    · have refused : ∀ other, ¬ Storing host env e db other := fun other storing => by
        obtain rfl := storingNamed admitted.named storing
        have commits := storingCommits storing
        exact fails ((commitsSame (b := {db with auditLog := db.auditLog ++ rows}) rfl rfl).mpr commits)
      generalize writeWith .none host env e (draft host env e project) temporal {db with auditLog := db.auditLog ++ rows} allowQueue = left at wrong
      cases wrong with
      | queued _ _ message => exact untouchedStepped rfl rfl rfl refused
      | unqueued _ message => exact untouchedStepped rfl rfl rfl refused
      | thrown _ _ message => exact untouchedStepped rfl rfl rfl refused

end

-- The links of one stored observation, and the relation they form.
def Updates (db : Db) (a b : String) : Prop := ∃ link ∈ db.links, link.relation = "updates" ∧ link.fromId = a ∧ link.toId = b

def Back (observations : List Observation) (a b : String) : Prop :=
  ∃ newer ∈ observations, ∃ older ∈ observations, newer.id = a ∧ older.id = b ∧ older.createdAt ≤ newer.createdAt

-- Every update goes to a row that is not later: chains never go forward in time, a cycle is of one time, and a row that
-- `exclude_updated` hides for its update is not later than the row it is hidden for.
structure PointsBack (db : Db) : Prop where
  links : ∀ link ∈ db.links, link.relation = "updates" → Back db.observations link.fromId link.toId
  chains : ∀ newer ∈ db.observations, ∀ older ∈ db.observations, Relation.TransGen (Updates db) newer.id older.id →
    older.createdAt ≤ newer.createdAt
  cycles : ∀ row ∈ db.observations, ∀ other ∈ db.observations, Relation.TransGen (Updates db) row.id other.id →
    Relation.TransGen (Updates db) other.id row.id → row.createdAt = other.createdAt
  hidden : ∀ row ∈ db.observations, row.id ∈ Search.updatedIds db →
    (∃ link ∈ db.links, link.relation = "superseded" ∧ link.toId = row.id) ∨
      ∃ newer ∈ db.observations, Updates db newer.id row.id ∧ row.createdAt ≤ newer.createdAt

-- What the tables are between calls.
structure Settled (db : Db) : Prop where
  ids : (db.observations.map Observation.id).Nodup
  recorded : ∀ row ∈ db.observations, ∃ event ∈ db.events, row.id = "obs_" ++ event.eventId

section
variable {db : Db}

theorem sameRow (settled : Settled db) {a b : Observation} (one : a ∈ db.observations) (two : b ∈ db.observations)
    (same : a.id = b.id) : a = b := List.inj_on_of_nodup_map settled.ids one two same

theorem backTrans (settled : Settled db) {a b c : String} (one : Back db.observations a b) (two : Back db.observations b c) :
    Back db.observations a c := by
  obtain ⟨newer, held, middle, within, rfl, rfl, le⟩ := one
  obtain ⟨same, within', older, held', equal, rfl, le'⟩ := two
  obtain rfl := sameRow settled within' within equal
  exact ⟨newer, held, older, held', rfl, rfl, le'.trans le⟩

theorem chainBack (settled : Settled db) (links : ∀ link ∈ db.links, link.relation = "updates" → Back db.observations link.fromId link.toId)
    {a b : String} (chain : Relation.TransGen (Updates db) a b) : Back db.observations a b := by
  induction chain with
  | single one =>
    obtain ⟨link, mem, updates, rfl, rfl⟩ := one
    exact links link mem updates
  | tail _ last ih =>
    obtain ⟨link, mem, updates, rfl, rfl⟩ := last
    exact backTrans settled ih (links link mem updates)

theorem pointsBackOf (settled : Settled db)
    (links : ∀ link ∈ db.links, link.relation = "updates" → Back db.observations link.fromId link.toId) : PointsBack db := by
  have chains : ∀ newer ∈ db.observations, ∀ older ∈ db.observations, Relation.TransGen (Updates db) newer.id older.id →
      older.createdAt ≤ newer.createdAt := by
    intro newer held older held' chain
    obtain ⟨first, mem, last, mem', one, two, le⟩ := chainBack settled links chain
    rwa [sameRow settled mem held one, sameRow settled mem' held' two] at le
  refine ⟨links, chains, fun row held other held' there back => ?_, fun row held hides => ?_⟩
  · exact le_antisymm (chains other held' row held back) (chains row held other held' there)
  · obtain ⟨link, mem, same⟩ := List.mem_map.mp hides
    obtain ⟨mem, kind⟩ := List.mem_filter.mp mem
    rcases Bool.or_eq_true_iff.mp kind with updates | superseded
    · obtain ⟨newer, there, older, held', named, equal, le⟩ := links link mem (of_decide_eq_true updates)
      obtain rfl := sameRow settled held' held (equal.trans same)
      exact .inr ⟨newer, there, ⟨link, mem, of_decide_eq_true updates, named.symm, same⟩, le⟩
    · exact .inl ⟨link, mem, of_decide_eq_true superseded, same⟩

-- The observation of a call that stores one is new, and is the last row.
theorem storedRow {host : Host} {env : Ambient} {e : EventEnvelope} {d : Draft} {temporal : Temporal} {started : Db}
    {result : Db × Option String} (settled : Settled db) (fresh : Fresh d db) (events : started.events = db.events)
    (observations : started.observations = db.observations)
    (made : createObservation host env e d temporal (insertEvent env e d started) = .ok result) :
    ∃ row event, row.id = d.observationId ∧ row.createdAt = d.timestamp ∧ event.eventId = d.eventId ∧
      result.1.observations = db.observations ++ [row] ∧ result.1.events = db.events ++ [event] ∧
      ∀ old ∈ db.observations, old.id ≠ d.observationId := by
  have apart : ∀ old ∈ db.observations, old.id ≠ d.observationId := by
    intro old mem same
    obtain ⟨event, held, named⟩ := settled.recorded old mem
    have ids : "obs_" ++ event.eventId = "obs_" ++ d.eventId := named.symm.trans same
    exact (fresh event held).1 (String.toList_inj.mp (by simpa using congrArg String.toList ids))
  obtain ⟨stored, expiresAt, upserted⟩ := createObservationRows (by rwa [Fresh, events]) made
  rw [events] at stored
  rw [observations] at upserted
  refine ⟨observationRow env e d temporal expiresAt, _, rfl, rfl, rfl, ?_, stored, apart⟩
  unfold upsertObservation at upserted
  have none : db.observations.find? (fun old => old.id = (observationRow env e d temporal expiresAt).id) = none :=
    List.find?_eq_none.mpr fun old mem found => apart old mem (of_decide_eq_true found)
  rw [none] at upserted
  simp only at upserted
  split at upserted
  · cases upserted
  · exact (Except.ok.inj upserted).symm

end

-- A new observation that is earlier than a similar one among the rows it is compared with.
def Overtakes (host : Host) (env : Ambient) (e : EventEnvelope) (db : Db) : Prop :=
  ∃ project, Storing host env e db project ∧ ∃ row ∈ candidates (draft host env e project) db.observations,
    Similar host env (draft host env e project) row ∧ (draft host env e project).timestamp < row.createdAt

-- An update of a later row.
def Forward (db : Db) : Prop :=
  ∃ link ∈ db.links, link.relation = "updates" ∧ ∃ from' ∈ db.observations, ∃ to' ∈ db.observations,
    from'.id = link.fromId ∧ to'.id = link.toId ∧ from'.createdAt < to'.createdAt

section
variable {host : Host} {env : Ambient} {e : EventEnvelope} {db after : Db}

theorem steppedSettled (settled : Settled db) (stepped : Stepped host env e db after) : Settled after := by
  cases stepped with
  | kept observations links events refused =>
    refine ⟨observations ▸ settled.ids, fun row mem => ?_⟩
    obtain ⟨event, held, named⟩ := settled.recorded row (observations ▸ mem)
    obtain ⟨same, there, equal⟩ := events event held
    exact ⟨same, there, equal ▸ named⟩
  | stored storing events observations links made =>
    obtain ⟨row, event, own, _, eventOwn, rows, stored, apart⟩ := storedRow settled storing.fresh events observations made
    refine ⟨?_, fun held mem => ?_⟩
    · rw [rows, List.map_append, List.nodup_append]
      refine ⟨settled.ids, List.nodup_singleton _, ?_⟩
      rintro id mem other mem' rfl
      obtain ⟨old, held, rfl⟩ := List.mem_map.mp mem
      exact apart old held ((List.mem_singleton.mp mem').trans own)
    · rw [rows] at mem
      rw [stored]
      rcases List.mem_append.mp mem with old | new
      · obtain ⟨event', there, named⟩ := settled.recorded held old
        exact ⟨event', List.mem_append_left _ there, named⟩
      · refine ⟨event, List.mem_append_right _ List.mem_cons_self, ?_⟩
        rw [List.mem_singleton.mp new, own, eventOwn]
        rfl

theorem steppedGrows (settled : Settled db) (stepped : Stepped host env e db after) :
    (∀ row ∈ db.observations, row ∈ after.observations) ∧ ∀ link ∈ db.links, link ∈ after.links := by
  cases stepped with
  | kept observations links events refused => exact ⟨fun row mem => observations ▸ mem, fun link mem => links ▸ mem⟩
  | stored storing events observations links made =>
    obtain ⟨row, event, _, _, _, rows, _, _⟩ := storedRow settled storing.fresh events observations made
    obtain ⟨embedded, before, _, links'⟩ := createdLinks made
    refine ⟨fun old mem => rows ▸ List.mem_append_left _ mem, fun link mem => ?_⟩
    rw [links']
    exact enrichKeeps (by rw [before, insertEvent]; exact links ▸ mem)

theorem steppedBack (settled : Settled db) (stepped : Stepped host env e db after) (inOrder : ¬ Overtakes host env e db)
    (links : ∀ link ∈ db.links, link.relation = "updates" → Back db.observations link.fromId link.toId) :
    ∀ link ∈ after.links, link.relation = "updates" → Back after.observations link.fromId link.toId := by
  intro link mem updates
  have grows := steppedGrows settled stepped
  have old : link ∈ db.links → Back after.observations link.fromId link.toId := fun held => by
    obtain ⟨newer, there, older, there', same⟩ := links link held updates
    exact ⟨newer, grows.1 newer there, older, grows.1 older there', same⟩
  cases stepped with
  | kept observations same events refused => exact old (same ▸ mem)
  | @stored started project temporal result storing events observations same made =>
    obtain ⟨row, event, own, born, _, rows, _, apart⟩ := storedRow settled storing.fresh events observations made
    obtain ⟨embedded, before, shared, links'⟩ := createdLinks made
    rw [links'] at mem
    rcases enrichAdded updates mem with held | added
    · exact old (by rw [before, insertEvent] at held; exact same ▸ held)
    · obtain ⟨older, there, named, reached⟩ := added.target
      refine ⟨row, rows ▸ List.mem_append_right _ List.mem_cons_self, older, shared ▸ there, own.trans added.source.symm, named, ?_⟩
      rw [born]
      rcases reached with before | ⟨candidate, similar⟩
      · exact before
      · rw [shared, rows, candidatesNew _ own] at candidate
        exact not_lt.mp fun late => inOrder ⟨project, storing, older, candidate, similar, late⟩

theorem steppedForward (settled : Settled db) (stepped : Stepped host env e db after) (overtakes : Overtakes host env e db) : Forward after := by
  obtain ⟨project, storing, later, candidate, similar, late⟩ := overtakes
  cases stepped with
  | kept observations links events refused => exact absurd storing (refused project)
  | @stored started other temporal result storing' events observations links made =>
    obtain rfl := storingNamed storing.admitted.named storing'
    obtain ⟨row, event, own, born, _, rows, _, apart⟩ := storedRow settled storing.fresh events observations made
    obtain ⟨embedded, before, shared, links'⟩ := createdLinks made
    have inside : later ∈ candidates (draft host env e other) embedded.observations := by
      rw [shared, rows, candidatesNew _ own]
      exact candidate
    obtain ⟨link, mem, source, target, updates⟩ := enrichThere (e := e) inside similar
    have held : later ∈ db.observations := by
      have taken := List.mem_of_mem_take candidate
      rw [newestFirst, Tables.memOrderBy] at taken
      exact (List.mem_filter.mp taken).1
    exact ⟨link, links' ▸ mem, updates, row, rows ▸ List.mem_append_right _ List.mem_cons_self, later,
      rows ▸ List.mem_append_left _ held, own.trans source.symm, target.symm, born ▸ late⟩

theorem forwardGrows (grows : (∀ row ∈ db.observations, row ∈ after.observations) ∧ ∀ link ∈ db.links, link ∈ after.links)
    (forward : Forward db) : Forward after := by
  obtain ⟨link, mem, updates, source, held, target, held', same⟩ := forward
  exact ⟨link, grows.2 link mem, updates, source, grows.1 source held, target, grows.1 target held', same⟩

theorem notForward (settled : Settled db) (points : PointsBack db) : ¬ Forward db := by
  rintro ⟨link, mem, updates, source, held, target, held', one, two, late⟩
  obtain ⟨newer, there, older, there', named, named', le⟩ := points.links link mem updates
  obtain rfl := sameRow settled there held (named.trans one.symm)
  obtain rfl := sameRow settled there' held' (named'.trans two.symm)
  exact absurd late (not_lt_of_ge le)

end

structure Call where
  env : Ambient
  allowQueue : Bool
  event : EventEnvelope

def recordCall (host : Host) (db : Db) (call : Call) : Db := (recordEvent host call.env call.allowQueue call.event db).1
def recordAll (host : Host) (start : Db) (calls : List Call) : Db := Runs.run (recordCall host) start calls

section
variable {host : Host} {start : Db}

theorem forwardRun (settled : Settled start) (forward : Forward start) (calls : List Call) :
    Settled (recordAll host start calls) ∧ Forward (recordAll host start calls) := by
  refine @Runs.invariant _ _ (recordCall host) (fun db => Settled db ∧ Forward db) (fun db call both => ?_) start ⟨settled, forward⟩ calls
  have stepped : Stepped host call.env call.event db (recordCall host db call) := recordStepped call.allowQueue
  exact ⟨steppedSettled both.1 stepped, forwardGrows (steppedGrows both.1 stepped) both.2⟩

-- After any calls, whatever their order: the updates point back exactly when no call stored an observation that was
-- earlier than a similar one it was compared with.
theorem updatesPointBackExact (settled : Settled start) (points : PointsBack start) (calls : List Call) :
    PointsBack (recordAll host start calls) ↔
      Runs.Throughout (recordCall host) (fun db call => ¬ Overtakes host call.env call.event db) start calls := by
  induction calls generalizing start with
  | nil => exact iff_of_true points trivial
  | cons call rest ih =>
    have stepped : Stepped host call.env call.event start (recordCall host start call) := recordStepped call.allowQueue
    have next := steppedSettled settled stepped
    by_cases overtakes : Overtakes host call.env call.event start
    · have forward := @forwardRun host _ next (steppedForward settled stepped overtakes) rest
      exact iff_of_false (fun back => notForward forward.1 back forward.2) (fun all => all.1 overtakes)
    · have back := pointsBackOf next (steppedBack settled stepped overtakes points.links)
      exact (ih next back).trans ⟨fun all => ⟨overtakes, all⟩, fun all => all.2⟩

end

theorem emptySettled : Settled Db.empty := ⟨List.nodup_nil, fun _ mem => by cases mem⟩
theorem emptyPointsBack : PointsBack Db.empty := pointsBackOf emptySettled fun _ mem => by cases mem

def wordHost : Host := {plainHost with tokenize := fun _ => ["alpha"]}
def prompted (id prompt ts : String) : Call := ⟨plainAmbient, true, {plainEvent id "p" [("prompt", .str prompt)] with ts := some ts}⟩

theorem inOrderPointsBack : PointsBack (recordAll wordHost Db.empty
    [prompted "a" "alpha" "2026-01-01T00:00:00.000Z", prompted "b" "alpha!" "2026-01-02T00:00:00.000Z"]) := by
  refine (updatesPointBackExact emptySettled emptyPointsBack _).mpr ⟨?_, ?_, trivial⟩
  · rintro ⟨project, storing, row, candidate, _⟩
    cases candidate
  · rintro ⟨project, storing, row, candidate, _, late⟩
    obtain rfl : "p" = project := Except.ok.inj storing.admitted.named
    have dates : ∀ row ∈ candidates (draft wordHost plainAmbient (prompted "b" "alpha!" "2026-01-02T00:00:00.000Z").event "p")
        (recordCall wordHost Db.empty (prompted "a" "alpha" "2026-01-01T00:00:00.000Z")).observations,
        row.createdAt ≤ "2026-01-02T00:00:00.000Z" := by
      decide +kernel
    exact absurd late (not_lt_of_ge (dates row candidate))

-- The later event first, the earlier one from the history: the earlier row updates the later, which a search hides.
theorem backfillUpdatesLater :
    let db := recordAll wordHost Db.empty
      [prompted "a" "alpha" "2026-01-02T00:00:00.000Z", prompted "b" "alpha!" "2026-01-01T00:00:00.000Z"]
    db.observations.map (fun row => (row.id, row.createdAt)) =
        [("obs_a", "2026-01-02T00:00:00.000Z"), ("obs_b", "2026-01-01T00:00:00.000Z")] ∧
      db.links.map (fun link => (link.fromId, link.toId, link.relation)) = [("obs_b", "obs_a", "updates")] ∧
      Search.updatedIds db = ["obs_a"] := by
  decide +kernel

end HarnessMem.UpdateLinks
