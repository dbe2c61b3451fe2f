import HarnessMem.PrivateIngest

/-! The payload text of an event row over its whole life: the insert, the provenance step that
may write it again, and every later call. -/
namespace HarnessMem.PayloadRedaction
open Recorder Dedupe PrivateIngest Text

def plainText (e : EventEnvelope) : String := Json.stringify (.obj (payloadOf e))
def redacted (host : Host) (e : EventEnvelope) (text : String) : String :=
  redactContent text (normalizeTags host e.privacyTags)

-- The redacted payload, alone or with the derived provenance: added before redaction, or
-- after one that had nothing to remove.
inductive RedactedForm (host : Host) (e : EventEnvelope) : String → Prop where
  | alone : RedactedForm host e (redacted host e (plainText e))
  | extended {text} (derived : rewrittenPayload host e = some text) : RedactedForm host e (redacted host e text)
  | untouched {text} (derived : rewrittenPayload host e = some text)
      (clean : redacted host e (plainText e) = plainText e) : RedactedForm host e text

-- What the provenance step would write needs no redaction.
def Harmless (host : Host) (e : EventEnvelope) : Prop :=
  ∀ text, rewrittenPayload host e = some text →
    redacted host e (plainText e) = plainText e ∨ redacted host e text = text ∨ text = redacted host e (plainText e)

theorem harmlessIff (host : Host) (e : EventEnvelope) :
    RedactedForm host e ((rewrittenPayload host e).getD (redacted host e (plainText e))) ↔ Harmless host e := by
  unfold Harmless
  have cases : ∀ {stored}, RedactedForm host e stored → stored = redacted host e (plainText e) ∨
      ∃ text, rewrittenPayload host e = some text ∧
        (stored = redacted host e text ∨ redacted host e (plainText e) = plainText e) := by
    intro stored form
    cases form with
    | alone => exact .inl rfl
    | extended derived => exact .inr ⟨_, derived, .inl rfl⟩
    | untouched derived clean => exact .inr ⟨_, derived, .inr clean⟩
  have untouched := @RedactedForm.untouched host e
  have extended := @RedactedForm.extended host e
  generalize rewrittenPayload host e = step at cases untouched extended
  cases step with
  | none => exact ⟨fun _ _ written => (by cases written), fun _ => .alone⟩
  | some text =>
    rw [Option.getD_some]
    constructor
    · rintro form _ ⟨⟩
      rcases cases form with same | ⟨_, ⟨⟩, same | clean⟩
      · exact .inr (.inr same)
      · exact .inr (.inl same.symm)
      · exact .inl clean
    · intro harmless
      rcases harmless text rfl with clean | same | same
      · exact untouched rfl clean
      · exact same ▸ extended rfl
      · exact same ▸ .alone

theorem createdEvents {host : Host} {env : Ambient} {e : EventEnvelope} {d : Draft} {temporal : Temporal}
    {db after : Db} {warning : Option String}
    (ok : transaction host env e d temporal db = .ok (after, .created warning)) :
    after.events =
      db.events ++ [{eventRow env e d with payloadJson := (rewrittenPayload host e).getD d.redactedPayload}] := by
  have session := (ensureSessionSame env e d db).events
  unfold transaction at ok
  generalize ensureSession env e d db = started at ok session
  simp only at ok
  split at ok
  · cases ok
  rename_i unused
  have fresh : Fresh d started := takenFresh.mp (by simpa using unused)
  split at ok
  · cases ok
  · obtain ⟨created, made, same⟩ := Js.mapOk ok
    cases same
    rw [← session]
    exact (createObservationRows fresh made).1

-- One row is added for the event; only a new observation brings the provenance step with it.
theorem acceptedRow {host : Host} {env : Ambient} {allowQueue : Bool} {e : EventEnvelope} {project : String}
    {db : Db} (named : env.normalizeProject e.project = .ok project) (sound : Sound db)
    (accept : accepted (recordEvent host env allowQueue e db).2 = true) :
    ∃ row, (recordEvent host env allowQueue e db).1.events = db.events ++ [row] ∧ row.eventId = eventIdOf env e ∧
      (HashHeld (draft host env e project) db ∧ row.payloadJson = redacted host e (plainText e) ∨
        ¬ HashHeld (draft host env e project) db ∧
          row.payloadJson = (rewrittenPayload host e).getD (redacted host e (plainText e))) := by
  cases recordRan host env allowQueue e db with
  | refused _ refusal => rw [refusal] at accept; cases accept
  | @ran recorded _ temporal before here rows ok new _ =>
    obtain rfl := Except.ok.inj (named.symm.trans here)
    rw [← heldSame rows, ← rows.events]
    have sound := soundSame rows sound
    have wrote := transactionWrote ok
    cases recorded with
    | duplicateEvent => exact absurd rfl new
    | duplicateContent id =>
      cases wrote with
      | duplicateContent _ fresh found events => exact ⟨_, events, rfl, .inl ⟨heldOfFound found, rfl⟩⟩
    | created warning =>
      refine ⟨_, createdEvents ok, rfl, .inr ⟨?_, rfl⟩⟩
      cases wrote with
      | created _ _ fresh missing _ stored =>
        exact unheldOfFree sound fresh rfl rfl (upsertFresh (unclaimedId sound fresh) stored).2

-- The event table only grows: no later call rewrites a stored row.
def Grows (before after : Db) : Prop := before.events <+: after.events

theorem growsSame {a b : Db} (rows : a.SameRows b) : Grows a b := by
  unfold Grows
  exact rows.events ▸ List.prefix_refl _

theorem growsInsert {a b : Db} {row : Event} (events : b.events = a.events ++ [row]) : Grows a b := by
  rw [Grows, events]
  exact List.prefix_append _ _

theorem growsTrans {a b c : Db} (first : Grows a b) (second : Grows b c) : Grows a c := first.trans second

theorem stepGrows (host : Host) (db : Db) (call : Call) : Grows db (step host db call) := by
  cases call with
  | archive now ids => exact List.prefix_refl _
  | record env allowQueue e =>
    cases recordEffect host env allowQueue e db with
    | refused rows => exact growsSame rows
    | stored _ rows wrote =>
      refine growsTrans (growsSame rows) ?_
      cases wrote with
      | duplicateEvent same => exact growsSame same
      | duplicateContent _ _ _ events => exact growsInsert events
      | created _ _ _ _ events => exact growsInsert events

theorem runGrows (host : Host) (db : Db) (calls : List Call) : Grows db (Runs.run (step host) db calls) :=
  Runs.monotone (step host) (fun db => growsSame (Db.sameRefl db)) growsTrans (stepGrows host) db calls

-- Every row with the event's id, now and after any further calls, is in redacted form.
def StaysRedacted (host : Host) (env : Ambient) (e : EventEnvelope) (db : Db) : Prop :=
  ∀ later, ∀ row ∈ (Runs.run (step host) db later).events, row.eventId = eventIdOf env e → RedactedForm host e row.payloadJson

theorem redactionExact (host : Host) (calls : List Call) (env : Ambient) (allowQueue : Bool) (e : EventEnvelope)
    (project : String) (named : env.normalizeProject e.project = .ok project) :
    let db := Runs.run (step host) Db.empty calls
    accepted (recordEvent host env allowQueue e db).2 = true →
      (StaysRedacted host env e (recordEvent host env allowQueue e db).1 ↔
        HashHeld (draft host env e project) db ∨ Harmless host e) := by
  intro db accept
  have sound : Sound db := runSound host calls
  obtain ⟨row, events, id, text⟩ := acceptedRow named sound accept
  have soundAfter : Sound (recordEvent host env allowQueue e db).1 := stepSound host db (.record env allowQueue e) sound
  generalize (recordEvent host env allowQueue e db).1 = after at events soundAfter
  have held : row ∈ after.events := events ▸ List.mem_append_right _ (List.mem_singleton_self row)
  have only : StaysRedacted host env e after ↔ RedactedForm host e row.payloadJson := by
    refine ⟨fun stays => stays [] row held id, fun form later other mem same => ?_⟩
    have kept := (runGrows host after later).subset held
    have unique := (Runs.invariant (step host) (stepSound host) soundAfter later).eventIds
    rwa [Tables.keyUnique unique mem kept (same.trans id.symm)]
  rw [only]
  rcases text with ⟨linked, text⟩ | ⟨unlinked, text⟩
  · exact ⟨fun _ => .inl linked, fun _ => text ▸ .alone⟩
  · rw [text, harmlessIff]
    exact ⟨.inr, fun either => either.resolve_left unlinked⟩

def writtenFile (tags : List String) : EventEnvelope :=
  {plainEvent "a" "p" [("tool_name", .str "Write"), ("file_path", .str "a.md"), ("text", .str "token=abc")] with
    eventType := "tool_use", privacyTags := tags}

def restored : String := "\x7b\"tool_name\":\"Write\",\"file_path\":\"a.md\",\"text\":\"token=abc\",\"code_provenance\":" ++
  "\x7b\"file_path\":\"a.md\",\"action\":\"create\",\"language\":\"markdown\"\x7d\x7d"

theorem provenanceIs {found : Option Provenance.CodeProvenance} {path action : String} {modelId language : Option String}
    (fields : found.map (fun p => (p.filePath, p.action, p.modelId, p.language)) = some (path, action, modelId, language)) :
    found = some ⟨path, action, modelId, language⟩ := by
  obtain ⟨p, rfl, same⟩ := Option.map_eq_some_iff.mp fields
  cases same
  rfl

theorem writtenText : rewrittenPayload plainHost (writtenFile ["redact"]) = some restored := by
  have named : Provenance.extractCodeProvenance plainHost (payloadOf (writtenFile ["redact"])) =
      some ⟨"a.md", "create", none, some "markdown"⟩ := provenanceIs (by decide +kernel)
  unfold rewrittenPayload
  rw [if_pos (show (writtenFile ["redact"]).eventType = "tool_use" from rfl), named]
  decide +kernel

theorem writtenTaken : accepted (recordEvent plainHost plainAmbient true (writtenFile ["redact"]) Db.empty).2 = true := by
  decide +kernel

theorem writtenAnswer :
    (recordEvent plainHost plainAmbient true (writtenFile ["redact"]) Db.empty).1.events.map Event.payloadJson = [restored] := by
  obtain ⟨row, events, -, text⟩ := acceptedRow (rfl : plainAmbient.normalizeProject _ = .ok "p") soundEmpty writtenTaken
  have stored : row.payloadJson = restored := by
    rcases text with ⟨⟨_, _, mem, _⟩, _⟩ | ⟨_, text⟩
    · cases mem
    · rw [text, writtenText, Option.getD_some]
  rw [events, List.map_append, List.map_singleton, stored]
  rfl

theorem redactionExactWrite :
    StaysRedacted plainHost plainAmbient (writtenFile ["redact"])
        (recordEvent plainHost plainAmbient true (writtenFile ["redact"]) Db.empty).1 ↔
      HashHeld (draft plainHost plainAmbient (writtenFile ["redact"]) "p") Db.empty ∨ Harmless plainHost (writtenFile ["redact"]) :=
  redactionExact plainHost [] plainAmbient true (writtenFile ["redact"]) "p" rfl writtenTaken

-- The insert stores the redacted text; the provenance step puts the token back.
theorem tokenRestored :
    let e := writtenFile ["redact"]
    let answered := recordEvent plainHost plainAmbient true e Db.empty
    shouldRedact (normalizeTags plainHost e.privacyTags) = true ∧ accepted answered.2 = true ∧
      answered.1.events.map Event.payloadJson = [restored] ∧
      ¬ ∀ row ∈ answered.1.events, RedactedForm plainHost e row.payloadJson := by
  refine ⟨by decide +kernel, writtenTaken, writtenAnswer, fun all => ?_⟩
  have form : RedactedForm plainHost (writtenFile ["redact"]) restored := by
    obtain ⟨row, held, text⟩ := List.mem_map.mp (writtenAnswer ▸ List.mem_singleton_self restored)
    exact text ▸ all row held
  have := (harmlessIff plainHost (writtenFile ["redact"])).mp (by rw [writtenText]; exact form) restored writtenText
  revert this
  decide +kernel

end HarnessMem.PayloadRedaction
