import HarnessMem.Lib.Runs
import HarnessMem.Recorder

/-! Both dedupe layers over whole runs: event hashes, content hashes of live observations,
and the observation every accepted event points to. -/
namespace HarnessMem.Dedupe
open Recorder

def Fresh (d : Draft) (db : Db) : Prop :=
  ∀ old ∈ db.events, old.eventId ≠ d.eventId ∧ old.dedupeHash ≠ d.dedupeHash

theorem takenFresh {d : Draft} {db : Db} : db.events.any (taken d) = false ↔ Fresh d db := by
  simp [Fresh, taken, List.any_eq_false]

-- What the transaction can do to events and observations.
inductive Wrote (env : Ambient) (e : EventEnvelope) (d : Draft) (temporal : Temporal) (db : Db) :
    Db → Recorded → Prop where
  | duplicateEvent {after} (rows : db.SameRows after) : Wrote env e d temporal db after .duplicateEvent
  | duplicateContent {after} (id : String) (fresh : Fresh d db) (found : existingObservation d db = some id)
      (events : after.events = db.events ++ [{eventRow env e d with observationId := some id}])
      (observations : after.observations = db.observations) :
      Wrote env e d temporal db after (.duplicateContent id)
  | created {after warning} (payloadJson : String) (expiresAt : Option String) (fresh : Fresh d db)
      (missing : existingObservation d db = none)
      (events : after.events = db.events ++ [{eventRow env e d with payloadJson}])
      (observations : upsertObservation (observationRow env e d temporal expiresAt) db.observations =
        .ok after.observations) : Wrote env e d temporal db after (.created warning)

theorem linkExistingEvents {env : Ambient} {e : EventEnvelope} {d : Draft} {db : Db} (fresh : Fresh d db)
    (id : String) : (linkExisting d id (insertEvent env e d db)).events =
      db.events ++ [{eventRow env e d with observationId := some id}] :=
  Tables.updateInserted (fun old mem => by simpa using (fresh old mem).1) (by simp [eventRow])

theorem createObservationRows {host : Host} {env : Ambient} {e : EventEnvelope} {d : Draft}
    {temporal : Temporal} {db : Db} {result : Db × Option String} (fresh : Fresh d db)
    (ok : createObservation host env e d temporal (insertEvent env e d db) = .ok result) :
    result.1.events =
        db.events ++ [{eventRow env e d with payloadJson := (rewrittenPayload host e).getD d.redactedPayload}] ∧
      ∃ expiresAt,
        upsertObservation (observationRow env e d temporal expiresAt) db.observations = .ok result.1.observations := by
  unfold createObservation at ok
  obtain ⟨expiresAt, _, ok⟩ := Js.bindOk ok
  obtain ⟨observations, stored, ok⟩ := Js.bindOk ok
  obtain ⟨⟨embedded, degraded⟩, written, ok⟩ := Js.bindOk ok
  obtain rfl := Except.ok.inj ok
  have kept := Db.keptTrans (embedSame written).toKept
    (Db.keptTrans (enrichKept host env e d temporal embedded) (auditPrivacySame env e d _).toKept)
  obtain ⟨rows, events⟩ := storeProvenanceRows host env e d
    (storeTags env d "privacy" d.privacyTags (storeTags env d "tag" d.tags
      {insertEvent env e d db with observations}))
  have observed : (auditPrivacy env e d (enrich host env e d temporal embedded)).observations = observations :=
    kept.observations.trans rows
  refine ⟨(kept.events.trans events).trans ?_, expiresAt, by rw [observed]; exact stored⟩
  cases rewrittenPayload host e with
  | none => rfl
  | some payloadJson => exact Tables.updateInserted (fun old mem => by simpa using (fresh old mem).1) (by simp [eventRow])

theorem transactionWrote {host : Host} {env : Ambient} {e : EventEnvelope} {d : Draft} {temporal : Temporal}
    {db : Db} {result : Db × Recorded} (ok : transaction host env e d temporal db = .ok result) :
    Wrote env e d temporal db result.1 result.2 := by
  have session := ensureSessionSame env e d db
  unfold transaction at ok
  generalize ensureSession env e d db = started at ok session
  have sameFound : existingObservation d (insertEvent env e d started) = existingObservation d db := by
    simp only [existingObservation, insertEvent, session.observations]
  simp only at ok
  split at ok
  · cases ok
    exact .duplicateEvent session
  rename_i unused
  have fresh : Fresh d started := takenFresh.mp (by simpa using unused)
  have freshHere : Fresh d db := by rwa [Fresh, session.events] at fresh
  split at ok
  · rename_i id found
    cases ok
    refine .duplicateContent id freshHere (sameFound ▸ found) ?_ session.observations
    rw [linkExistingEvents fresh, session.events]
  · rename_i missing
    obtain ⟨created, made, rfl⟩ := Js.mapOk ok
    obtain ⟨events, expiresAt, observations⟩ := createObservationRows fresh made
    rw [session.events] at events
    rw [session.observations] at observations
    exact .created _ expiresAt freshHere (sameFound ▸ missing) events observations

def accepted : Outcome → Bool
  | .duplicateContent .. | .created .. => true
  | _ => false

-- A call either leaves the rows alone and is not accepted, or its transaction wrote them.
inductive Effect (host : Host) (env : Ambient) (e : EventEnvelope) (db : Db) : Db → Outcome → Prop where
  | refused {after outcome} (rows : db.SameRows after) (refusal : accepted outcome = false) :
      Effect host env e db after outcome
  | stored {after outcome recorded project temporal before}
      (named : env.normalizeProject e.project = .ok project) (rows : db.SameRows before)
      (wrote : Wrote env e (draft host env e project) temporal before after recorded)
      (new : recorded ≠ .duplicateEvent)
      (answered : outcome = answer env e (draft host env e project) temporal recorded) :
      Effect host env e db after outcome

-- The same call with the transaction it ran, before anything is read off its rows.
inductive Ran (host : Host) (env : Ambient) (e : EventEnvelope) (db : Db) : Db → Outcome → Prop where
  | refused {after outcome} (rows : db.SameRows after) (refusal : accepted outcome = false) :
      Ran host env e db after outcome
  | ran {after outcome recorded project temporal before}
      (named : env.normalizeProject e.project = .ok project) (rows : db.SameRows before)
      (ok : transaction host env e (draft host env e project) temporal before = .ok (after, recorded))
      (new : recorded ≠ .duplicateEvent)
      (answered : outcome = answer env e (draft host env e project) temporal recorded) :
      Ran host env e db after outcome

theorem writeRan {host : Host} {env : Ambient} {e : EventEnvelope} {project : String}
    {temporal : Temporal} {db before : Db} (named : env.normalizeProject e.project = .ok project)
    (rows : db.SameRows before) (allowQueue : Bool) :
    Ran host env e db (write host env allowQueue e (draft host env e project) temporal before).1
      (write host env allowQueue e (draft host env e project) temporal before).2 := by
  unfold write
  split
  · refine .refused (Db.sameTrans rows ?_) rfl
    split
    · exact ⟨⟨rfl, rfl, rfl⟩, rfl⟩
    · exact Db.sameRefl before
  · rename_i after recorded ok
    cases recorded with
    | duplicateEvent =>
      cases transactionWrote ok with
      | duplicateEvent same => exact .refused (Db.sameTrans rows same) rfl
    | duplicateContent id => exact .ran named rows ok (by simp) rfl
    | created warning => exact .ran named rows ok (by simp) rfl

theorem recordRan (host : Host) (env : Ambient) (allowQueue : Bool) (e : EventEnvelope) (db : Db) :
    Ran host env e db (recordEvent host env allowQueue e db).1 (recordEvent host env allowQueue e db).2 := by
  have same := Db.sameRefl db
  unfold recordEvent
  split
  · exact .refused same rfl
  split
  · exact .refused same rfl
  split
  · exact .refused same rfl
  rename_i project named
  simp only
  split
  · exact .refused same rfl
  split
  · exact .refused same rfl
  have stripped := auditStripSame host env e (draft host env e project) db
  split
  · exact .refused stripped rfl
  rename_i passed through
  have rows := Db.sameTrans stripped (gateSame through)
  split
  · exact .refused rows rfl
  · exact writeRan named rows allowQueue

theorem recordEffect (host : Host) (env : Ambient) (allowQueue : Bool) (e : EventEnvelope) (db : Db) :
    Effect host env e db (recordEvent host env allowQueue e db).1 (recordEvent host env allowQueue e db).2 := by
  cases recordRan host env allowQueue e db with
  | refused rows refusal => exact .refused rows refusal
  | ran named rows ok new answered => exact .stored named rows (transactionWrote ok) new answered

-- Both archiving paths: the given rows that are still live.
def archiveRow (now : String) (row : Observation) : Observation :=
  {row with archivedAt := some now, updatedAt := now}
def archive (now : String) (ids : List String) (db : Db) : Db :=
  {db with observations := Tables.update (fun row => ids.contains row.id && row.live) (archiveRow now) db.observations}

inductive Call where
  | record (env : Ambient) (allowQueue : Bool) (e : EventEnvelope)
  | archive (now : String) (ids : List String)

def step (host : Host) (db : Db) : Call → Db
  | .record env allowQueue e => (recordEvent host env allowQueue e db).1
  | .archive now ids => archive now ids db

def Clash (a b : Observation) : Prop :=
  a.live = true ∧ b.live = true ∧ a.contentDedupeHash ≠ none ∧ a.contentDedupeHash = b.contentDedupeHash

structure Sound (db : Db) : Prop where
  eventIds : (db.events.map Event.eventId).Nodup
  hashes : (db.events.map Event.dedupeHash).Nodup
  ids : (db.observations.map Observation.id).Nodup
  apart : db.observations.Pairwise (fun a b => ¬ Clash a b)
  linked : ∀ event ∈ db.events, ∃ row ∈ db.observations, event.observationId = some row.id
  owned : ∀ row ∈ db.observations, ∃ event ∈ db.events, row.id = "obs_" ++ event.eventId

theorem soundEmpty : Sound Db.empty :=
  ⟨.nil, .nil, .nil, .nil, by simp [Db.empty], by simp [Db.empty]⟩

theorem soundSame {a b : Db} (rows : a.SameRows b) (sound : Sound a) : Sound b where
  eventIds := by rw [rows.events]; exact sound.eventIds
  hashes := by rw [rows.events]; exact sound.hashes
  ids := by rw [rows.observations]; exact sound.ids
  apart := by rw [rows.observations]; exact sound.apart
  linked := by rw [rows.events, rows.observations]; exact sound.linked
  owned := by rw [rows.events, rows.observations]; exact sound.owned

theorem archiveSound (now : String) (ids : List String) {db : Db} (sound : Sound db) :
    Sound (archive now ids db) where
  eventIds := sound.eventIds
  hashes := sound.hashes
  ids := by
    have same : ∀ row, (archiveRow now row).id = row.id := fun _ => rfl
    simp only [archive, Tables.updateColumn Observation.id same]
    exact sound.ids
  apart := Tables.updatePairwise (fun a b _ _ clash => by simp [Clash, Observation.live, archiveRow] at clash)
    (fun a b _ _ clash => by simp [Clash, Observation.live, archiveRow] at clash) sound.apart
  linked := by
    intro event mem
    obtain ⟨row, held, target⟩ := sound.linked event mem
    refine ⟨_, Tables.memUpdate.mpr ⟨row, held, rfl⟩, ?_⟩
    split
    · exact target
    · exact target
  owned := Tables.updateAll (fun row _ own => own) sound.owned

-- The new event's id and hash are fresh, so both keys stay unique.
theorem insertKeys {d : Draft} {db after : Db} {row : Event}
    (sound : Sound db) (fresh : Fresh d db) (id : row.eventId = d.eventId) (hash : row.dedupeHash = d.dedupeHash)
    (events : after.events = db.events ++ [row]) :
    (after.events.map Event.eventId).Nodup ∧ (after.events.map Event.dedupeHash).Nodup := by
  rw [events, List.map_append, List.map_append]
  refine ⟨List.Nodup.append sound.eventIds (List.nodup_singleton _) ?_,
    List.Nodup.append sound.hashes (List.nodup_singleton _) ?_⟩
  · rw [List.map_singleton, List.disjoint_singleton, id]
    intro mem
    obtain ⟨old, held, same⟩ := List.mem_map.mp mem
    exact (fresh old held).1 same
  · rw [List.map_singleton, List.disjoint_singleton, hash]
    intro mem
    obtain ⟨old, held, same⟩ := List.mem_map.mp mem
    exact (fresh old held).2 same

theorem existingHeld {d : Draft} {db : Db} {id : String} (found : existingObservation d db = some id) :
    ∃ row ∈ db.observations, row.id = id ∧ row.live = true ∧ row.contentDedupeHash = d.contentDedupeHash := by
  unfold existingObservation truthy at found
  split at found
  · cases found
  rename_i hash given
  rw [Option.filter_eq_some_iff] at given found
  obtain ⟨row, first, rfl⟩ := Option.map_eq_some_iff.mp found.1
  have matched := List.find?_some first
  simp only [liveHash, Bool.and_eq_true, decide_eq_true_eq] at matched
  exact ⟨row, List.mem_of_find?_eq_some first, rfl, matched.2, matched.1.trans given.1.symm⟩

theorem unclaimedId {d : Draft} {db : Db} (sound : Sound db) (fresh : Fresh d db) :
    ∀ row ∈ db.observations, row.id ≠ d.observationId := by
  intro row held same
  obtain ⟨event, mem, own⟩ := sound.owned row held
  refine (fresh event mem).1 ?_
  have equal : "obs_" ++ event.eventId = "obs_" ++ d.eventId := own.symm.trans same
  simpa using equal

theorem upsertFresh {row : Observation} {rows after : List Observation}
    (unclaimed : ∀ old ∈ rows, old.id ≠ row.id) (ok : upsertObservation row rows = .ok after) :
    after = rows ++ [row] ∧ hashTaken row rows = false := by
  have none : rows.find? (fun old => old.id = row.id) = none :=
    List.find?_eq_none.mpr (fun old mem => by simpa using unclaimed old mem)
  simp only [upsertObservation, none] at ok
  split at ok
  · cases ok
  · rename_i free
    exact ⟨(Except.ok.inj ok).symm, by simpa using free⟩

theorem wroteSound {env : Ambient} {e : EventEnvelope} {d : Draft} {temporal : Temporal} {db after : Db}
    {recorded : Recorded} (wrote : Wrote env e d temporal db after recorded) (sound : Sound db) : Sound after := by
  cases wrote with
  | duplicateEvent rows => exact soundSame rows sound
  | duplicateContent id fresh found events observations =>
    obtain ⟨eventIds, hashes⟩ := insertKeys sound fresh rfl rfl events
    refine ⟨eventIds, hashes, by rw [observations]; exact sound.ids, by rw [observations]; exact sound.apart, ?_, ?_⟩
    · rw [events, observations]
      intro event mem
      rcases List.mem_append.mp mem with old | new
      · exact sound.linked event old
      · obtain ⟨row, held, same, _⟩ := existingHeld found
        rw [List.mem_singleton.mp new]
        exact ⟨row, held, by rw [same]⟩
    · rw [events, observations]
      intro row mem
      obtain ⟨event, held, own⟩ := sound.owned row mem
      exact ⟨event, List.mem_append_left _ held, own⟩
  | created payloadJson expiresAt fresh missing events stored =>
    obtain ⟨eventIds, hashes⟩ := insertKeys sound fresh rfl rfl events
    have unclaimed := unclaimedId sound fresh
    obtain ⟨observations, free⟩ := upsertFresh unclaimed stored
    refine ⟨eventIds, hashes, ?_, ?_, ?_, ?_⟩
    · rw [observations, List.map_append, List.map_singleton]
      refine List.Nodup.append sound.ids (List.nodup_singleton _) (List.disjoint_singleton.mpr ?_)
      intro mem
      obtain ⟨old, held, same⟩ := List.mem_map.mp mem
      exact unclaimed old held same
    · rw [observations]
      refine Tables.insertPairwise sound.apart (fun old mem clash => ?_)
      obtain ⟨live, _, hashed, same⟩ := clash
      refine absurd free ?_
      simp only [hashTaken, Bool.not_eq_false, Bool.and_eq_true, List.any_eq_true, decide_eq_true_eq]
      exact ⟨Option.isSome_iff_ne_none.mpr (same ▸ hashed), old, mem, ⟨unclaimed old mem, live⟩, same⟩
    · rw [events, observations]
      intro event mem
      rcases List.mem_append.mp mem with old | new
      · obtain ⟨row, held, target⟩ := sound.linked event old
        exact ⟨row, List.mem_append_left _ held, target⟩
      · rw [List.mem_singleton.mp new]
        exact ⟨_, List.mem_append_right _ (List.mem_singleton_self _), rfl⟩
    · rw [events, observations]
      intro row mem
      rcases List.mem_append.mp mem with old | new
      · obtain ⟨event, held, own⟩ := sound.owned row old
        exact ⟨event, List.mem_append_left _ held, own⟩
      · rw [List.mem_singleton.mp new]
        exact ⟨_, List.mem_append_right _ (List.mem_singleton_self _), rfl⟩

theorem effectSound {host : Host} {env : Ambient} {e : EventEnvelope} {db after : Db} {outcome : Outcome}
    (effect : Effect host env e db after outcome) (sound : Sound db) : Sound after := by
  cases effect with
  | refused rows => exact soundSame rows sound
  | stored _ rows wrote => exact wroteSound wrote (soundSame rows sound)

theorem stepSound (host : Host) (db : Db) (call : Call) (sound : Sound db) : Sound (step host db call) := by
  cases call with
  | record env allowQueue e => exact effectSound (recordEffect host env allowQueue e db) sound
  | archive now ids => exact archiveSound now ids sound

theorem runSound (host : Host) (calls : List Call) : Sound (Runs.run (step host) Db.empty calls) :=
  Runs.invariant (step host) (stepSound host) soundEmpty calls

-- Event hashes, once stored, are never lost.
def Keeps (before after : Db) : Prop :=
  ∀ hash ∈ before.events.map Event.dedupeHash, hash ∈ after.events.map Event.dedupeHash

theorem keepsSame {a b : Db} (rows : a.SameRows b) : Keeps a b := by
  intro hash mem
  rwa [rows.events]

theorem keepsInsert {a b : Db} {row : Event} (events : b.events = a.events ++ [row]) : Keeps a b := by
  intro hash mem
  rw [events, List.map_append]
  exact List.mem_append_left _ mem

theorem stepKeeps (host : Host) (db : Db) (call : Call) : Keeps db (step host db call) := by
  cases call with
  | archive now ids => exact fun _ mem => mem
  | record env allowQueue e =>
    cases recordEffect host env allowQueue e db with
    | refused rows => exact keepsSame rows
    | stored _ rows wrote =>
      refine fun hash mem => ?_
      have mem := keepsSame rows hash mem
      cases wrote with
      | duplicateEvent same => exact keepsSame same hash mem
      | duplicateContent id _ _ events => exact keepsInsert events hash mem
      | created _ _ _ _ events => exact keepsInsert events hash mem

theorem runKeeps (host : Host) (db : Db) (calls : List Call) : Keeps db (Runs.run (step host) db calls) :=
  Runs.monotone (step host) (fun _ _ mem => mem) (fun first second hash mem => second hash (first hash mem))
    (stepKeeps host) db calls

theorem freshUnknown {host : Host} {env : Ambient} {e : EventEnvelope} {project : String} {db : Db}
    (fresh : Fresh (draft host env e project) db) : dedupeHashOf host e ∉ db.events.map Event.dedupeHash := by
  intro mem
  obtain ⟨old, held, same⟩ := List.mem_map.mp mem
  exact (fresh old held).2 same

theorem acceptedStores {host : Host} {env : Ambient} {e : EventEnvelope} {db after : Db} {outcome : Outcome}
    (effect : Effect host env e db after outcome) (accept : accepted outcome = true) :
    dedupeHashOf host e ∈ after.events.map Event.dedupeHash := by
  cases effect with
  | refused _ refusal => rw [refusal] at accept; exact absurd accept (by decide)
  | stored _ rows wrote new =>
    cases wrote with
    | duplicateEvent => exact absurd rfl new
    | duplicateContent id _ _ events => simp [events, eventRow, draft]
    | created _ _ _ _ events => simp [events, eventRow, draft]

theorem replaySame {host : Host} {e : EventEnvelope} {db : Db}
    (known : dedupeHashOf host e ∈ db.events.map Event.dedupeHash) (env : Ambient) (allowQueue : Bool) :
    db.SameRows (recordEvent host env allowQueue e db).1 := by
  cases recordEffect host env allowQueue e db with
  | refused rows => exact rows
  | stored _ rows wrote new =>
    rw [← rows.events] at known
    cases wrote with
    | duplicateEvent => exact absurd rfl new
    | duplicateContent id fresh => exact absurd known (freshUnknown fresh)
    | created _ _ fresh => exact absurd known (freshUnknown fresh)

-- The event was taken in by one of the calls, whatever came before and after.
def Accepted (host : Host) (calls : List Call) (e : EventEnvelope) : Prop :=
  ∃ before env allowQueue after, calls = before ++ .record env allowQueue e :: after ∧
    accepted (recordEvent host env allowQueue e (Runs.run (step host) Db.empty before)).2 = true

theorem acceptedKnown {host : Host} {calls : List Call} {e : EventEnvelope} (taken : Accepted host calls e) :
    dedupeHashOf host e ∈ (Runs.run (step host) Db.empty calls).events.map Event.dedupeHash := by
  obtain ⟨before, env, allowQueue, after, rfl, accept⟩ := taken
  rw [Runs.runAppend, Runs.runCons]
  exact runKeeps host _ after _ (acceptedStores (recordEffect host env allowQueue e _) accept)

theorem oneLivePerHash {db : Db} (sound : Sound db) (hash : String) :
    (db.observations.filter (liveHash hash)).length ≤ 1 := by
  refine Tables.filterAtMostOne (sound.apart.imp (fun {a b} apart both => apart ?_))
  simp only [liveHash, Bool.and_eq_true, decide_eq_true_eq] at both
  obtain ⟨⟨hashA, liveA⟩, hashB, liveB⟩ := both
  exact ⟨liveA, liveB, by simp [hashA], hashA.trans hashB.symm⟩

theorem oneEventPerHash {db : Db} (sound : Sound db) {hash : String}
    (known : hash ∈ db.events.map Event.dedupeHash) :
    (db.events.filter (fun row => row.dedupeHash = hash)).length = 1 := by
  obtain ⟨row, held, rfl⟩ := List.mem_map.mp known
  exact Tables.filterExactlyOne sound.hashes held

theorem dedupeExact (host : Host) (calls : List Call) :
    let db := Runs.run (step host) Db.empty calls
    (∀ hash, (db.observations.filter (liveHash hash)).length ≤ 1) ∧
      (∀ e, Accepted host calls e →
        (db.events.filter (fun row => row.dedupeHash = dedupeHashOf host e)).length = 1) ∧
      (∀ event ∈ db.events, ∃ row ∈ db.observations, event.observationId = some row.id) ∧
      ∀ e, Accepted host calls e → ∀ env allowQueue, db.SameRows (recordEvent host env allowQueue e db).1 := by
  have sound := runSound host calls
  exact ⟨oneLivePerHash sound, fun e taken => oneEventPerHash sound (acceptedKnown taken), sound.linked,
    fun e taken => replaySame (acceptedKnown taken)⟩

-- The event's own observation, carrying the event's project and tenant.
def OwnRow (d : Draft) (db : Db) : Prop :=
  ∃ row ∈ db.observations, row.id = d.observationId ∧ row.eventId = some d.eventId ∧
    row.project = d.project ∧ row.userId = d.userId ∧ row.teamId = d.teamId

-- Some live observation, of whatever project and tenant, carries the content hash.
def HashHeld (d : Draft) (db : Db) : Prop :=
  d.contentDedupeHash ≠ none ∧
    ∃ row ∈ db.observations, row.live = true ∧ row.contentDedupeHash = d.contentDedupeHash

theorem heldSame {d : Draft} {a b : Db} (rows : a.SameRows b) : HashHeld d b ↔ HashHeld d a := by
  rw [HashHeld, HashHeld, rows.observations]

theorem unheldOfFree {d : Draft} {db : Db} {row : Observation} (sound : Sound db) (fresh : Fresh d db)
    (id : row.id = d.observationId) (hash : row.contentDedupeHash = d.contentDedupeHash)
    (free : hashTaken row db.observations = false) : ¬ HashHeld d db := by
  rintro ⟨hashed, old, held, live, same⟩
  refine absurd free ?_
  simp only [hashTaken, Bool.not_eq_false, Bool.and_eq_true, List.any_eq_true, decide_eq_true_eq, id, hash]
  exact ⟨Option.isSome_iff_ne_none.mpr hashed, old, held, ⟨unclaimedId sound fresh old held, live⟩, same⟩

theorem heldOfFound {d : Draft} {db : Db} {id : String} (found : existingObservation d db = some id) :
    HashHeld d db := by
  obtain ⟨row, held, _, live, hash⟩ := existingHeld found
  refine ⟨fun none => ?_, row, held, live, hash⟩
  simp [existingObservation, truthy, none] at found

theorem contentDedupeScope (host : Host) (calls : List Call) (env : Ambient) (allowQueue : Bool)
    (e : EventEnvelope) (project : String) (named : env.normalizeProject e.project = .ok project) :
    let db := Runs.run (step host) Db.empty calls
    let d := draft host env e project
    let after := (recordEvent host env allowQueue e db).1
    accepted (recordEvent host env allowQueue e db).2 = true →
      (OwnRow d after ↔ ¬ HashHeld d db) ∧
        (HashHeld d db → ∃ row ∈ db.observations, row.live = true ∧ row.contentDedupeHash = d.contentDedupeHash ∧
          ∃ event ∈ after.events, event.eventId = d.eventId ∧ event.observationId = some row.id) := by
  intro db d after accept
  have sound : Sound db := runSound host calls
  cases recordEffect host env allowQueue e db with
  | refused _ refusal => rw [refusal] at accept; exact absurd accept (by decide)
  | stored here rows wrote new =>
    obtain rfl := Except.ok.inj (named.symm.trans here)
    have sound := soundSame rows sound
    rw [← heldSame rows]
    cases wrote with
    | duplicateEvent => exact absurd rfl new
    | duplicateContent id fresh found events observations =>
      obtain ⟨row, held, same, live, hash⟩ := existingHeld found
      refine ⟨⟨fun own => ?_, fun unheld => absurd (heldOfFound found) unheld⟩, fun _ => ?_⟩
      · obtain ⟨mine, mem, claim, _⟩ := own
        rw [observations] at mem
        exact absurd claim (unclaimedId sound fresh mine mem)
      · refine ⟨row, by rwa [← rows.observations], live, hash, _,
          events ▸ List.mem_append_right _ (List.mem_singleton_self _), rfl, ?_⟩
        rw [same]
    | created payloadJson expiresAt fresh missing events stored =>
      obtain ⟨observations, free⟩ := upsertFresh (unclaimedId sound fresh) stored
      have unheld := unheldOfFree sound fresh rfl rfl free
      refine ⟨⟨fun _ => unheld, fun _ => ?_⟩, fun held => absurd held unheld⟩
      exact ⟨_, observations ▸ List.mem_append_right _ (List.mem_singleton_self _), rfl, rfl, rfl, rfl, rfl⟩

-- The same words in the same session, recorded for two projects: the second event has no row.
theorem contentDedupeScopeShared :
    let first := plainEvent "a" "alpha" [("prompt", .str "hi")]
    let second := plainEvent "b" "beta" [("prompt", .str "hi")]
    let db := Runs.run (step plainHost) Db.empty [.record plainAmbient true first]
    let d := draft plainHost plainAmbient second "beta"
    OwnRow d (recordEvent plainHost plainAmbient true second db).1 ↔ ¬ HashHeld d db :=
  (contentDedupeScope plainHost [.record plainAmbient true (plainEvent "a" "alpha" [("prompt", .str "hi")])]
    plainAmbient true (plainEvent "b" "beta" [("prompt", .str "hi")]) "beta" rfl (by decide +kernel)).1

theorem contentDedupeMerges :
    let first := recordEvent plainHost plainAmbient true (plainEvent "a" "alpha" [("prompt", .str "hi")]) Db.empty
    let second := recordEvent plainHost plainAmbient true (plainEvent "b" "beta" [("prompt", .str "hi")]) first.1
    second.1.events.map (fun row => (row.eventId, row.project, row.observationId)) =
        [("a", "alpha", some "obs_a"), ("b", "beta", some "obs_a")] ∧
      second.1.observations.map (fun row => (row.id, row.project)) = [("obs_a", "alpha")] := by
  decide +kernel

end HarnessMem.Dedupe
