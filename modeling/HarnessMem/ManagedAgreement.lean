import HarnessMem.Dedupe
import HarnessMem.PrivateIngest
import HarnessMem.Projector

/-! The observation `recordEvent` stores and the one the managed projector derives from the
replicated event. -/
namespace HarnessMem.ManagedAgreement
open Recorder Text

-- The event handed to replication, as the event store sees it.
def stored (copy : Recorder.StoredEvent) : Projector.StoredEvent :=
  ⟨copy.eventId, copy.platform, copy.project, copy.workspaceUid, copy.sessionId, copy.eventType, copy.ts, copy.payloadJson,
    copy.tagsJson, copy.privacyTagsJson, copy.dedupeHash, some copy.observationId, copy.correlationId,
    copy.temporal.eventTime, copy.temporal.observedAt, copy.temporal.validFrom, copy.temporal.validTo,
    copy.temporal.supersedes, copy.temporal.invalidatedAt, copy.createdAt⟩

-- Title, both contents and the privacy tags are the same on either side.
structure SameObservation (host : Host) (row : Observation) (copy : Recorder.StoredEvent) : Prop where
  derived : Projector.derive host (Projector.received (stored copy)).payloadJson =
    some ⟨row.title, row.content, row.contentRedacted⟩
  privacyTags : (Projector.received (stored copy)).privacyTagsJson = .text row.privacyTagsJson

def plainPayload (e : EventEnvelope) : String := Json.stringify (.obj (payloadOf e))
def field (e : EventEnvelope) (key : String) : Option String := Json.text? (Json.get (payloadOf e) key)

section
variable {host : Host} {env : Ambient} {e : EventEnvelope}

theorem stripShorter (text : List Char) : (PrivateBlocks.strip text).length ≤ text.length := by
  induction long : text.length using Nat.strongRecOn generalizing text with
  | ind n ih =>
    cases found : PrivateBlocks.afterBlock text with
    | some rest =>
      have shorter := PrivateBlocks.afterBlockShorter found
      have inside := ih rest.length (long ▸ shorter) rest rfl
      rw [PrivateBlocks.stripBlock found]
      omega
    | none =>
      cases text with
      | nil => exact Nat.zero_le _
      | cons c rest =>
        rw [List.length_cons] at long
        have inside := ih rest.length (by omega) rest rfl
        rw [PrivateBlocks.stripChar found, List.length_cons]
        omega

theorem stripTextShorter (s : String) : (stripPrivateBlocks s).toList.length ≤ s.toList.length := by
  rw [PrivateBlocks.stripPrivateBlocksScan, String.toList_ofList]
  exact stripShorter s.toList

-- A text that trimming and stripping leave as it was had nothing to trim and nothing to strip.
theorem keptIff (c : String) : stripPrivateBlocks (Js.trim c) = c ↔ Js.trim c = c ∧ stripPrivateBlocks c = c := by
  constructor
  · intro kept
    have short := stripTextShorter (Js.trim c)
    rw [kept] at short
    have same : Js.trim c = c := String.toList_inj.mp ((Js.trimInside c).sublist.eq_of_length_le short)
    exact ⟨same, by rw [same] at kept; exact kept⟩
  · rintro ⟨same, kept⟩
    rw [same, kept]

theorem quoteLonger (s : String) : s.toList.length < (Json.quote s).length := by
  have escaped : ∀ text : List Char, text.length ≤ (text.flatMap Json.escapeChar).length := by
    intro text
    induction text with
    | nil => simp
    | cons c rest ih =>
      have one : 1 ≤ (Json.escapeChar c).length := by
        unfold Json.escapeChar
        repeat' split
        all_goals simp
      rw [List.flatMap_cons, List.length_append, List.length_cons]
      omega
  have inside := escaped s.toList
  simp only [Json.quote, List.length_append, List.length_cons, List.length_nil]
  omega

theorem entryLonger {key : String} {value : Json} {entries : List (String × Json)} (mem : (key, value) ∈ entries) :
    (Json.print value).length ≤ (Json.printEntries entries).length := by
  induction entries with
  | nil => exact absurd mem List.not_mem_nil
  | cons entry rest ih =>
    obtain ⟨name, first⟩ := entry
    have here : (Json.print first).length ≤ (Json.printEntries ((name, first) :: rest)).length := by
      cases rest <;> simp only [Json.printEntries, List.length_append] <;> omega
    rcases List.mem_cons.mp mem with same | later
    · obtain ⟨rfl, rfl⟩ := Prod.mk.inj same
      exact here
    · have inside := ih later
      cases rest with
      | nil => exact absurd later List.not_mem_nil
      | cons next rest =>
        simp only [Json.printEntries, List.length_append] at inside ⊢
        omega

-- The payload's text is longer than any text in it.
theorem fieldShorter {key text : String} (found : field e key = some text) :
    text.toList.length < (plainPayload e).toList.length := by
  unfold field at found
  have get : Json.get (payloadOf e) key = some (.str text) := by
    unfold Json.text? at found
    split at found
    · rename_i value present
      rw [present, Option.some.inj found]
    · cases found
  obtain ⟨entry, inside, named⟩ := Option.map_eq_some_iff.mp get
  have mem : (entry.1, Json.str text) ∈ payloadOf e := by
    rw [← named]
    exact List.mem_of_find?_eq_some inside
  have whole := entryLonger mem
  have quoted := quoteLonger text
  rw [Json.print] at whole
  rw [plainPayload, Json.stringify, String.toList_ofList, Json.print]
  simp only [List.length_append]
  omega

theorem plainPresent (e : EventEnvelope) : plainPayload e ≠ "" := by
  intro empty
  have chars := congrArg String.toList empty
  rw [plainPayload, Json.stringify, String.toList_ofList, Json.print] at chars
  simp at chars

def localContent (host : Host) (e : EventEnvelope) : String :=
  stripPrivateBlocks (buildContent e (PrivateIngest.payloadText host e))

-- The redacted payload text parses, and its fields are those stored here.
def ReadsBack (host : Host) (e : EventEnvelope) : Prop :=
  ∃ payload, Projector.parseCell host (.text (PrivateIngest.payloadText host e)) = some payload ∧ payload ≠ .null ∧
    Projector.member payload "title" = some (buildTitle e) ∧
    (Projector.member payload "content").getD (Json.stringify payload) = localContent host e ∧
    (Projector.member payload "content_redacted").getD (localContent host e) =
      redactContent (localContent host e) (normalizeTags host e.privacyTags)

-- The same of an event whose tags ask for no redaction, in terms of its payload.
structure Unchanged (e : EventEnvelope) : Prop where
  title : ∃ t, field e "title" = some t ∧ (Js.trim t ≠ "" → Js.trim t = t) ∧ (Js.trim t = "" → buildTitle e = t)
  content : ∀ c, field e "content" = some c →
    (Js.trim c ≠ "" → Js.trim c = c ∧ stripPrivateBlocks c = c) ∧
      (Js.trim c = "" → stripPrivateBlocks (buildContent e (plainPayload e)) = c)
  noContent : field e "content" = none →
    trimmed (field e "prompt") = none ∧ trimmed (field e "command") = none ∧
      stripPrivateBlocks (plainPayload e) = plainPayload e
  redacted : ∀ r, field e "content_redacted" = some r → r = (field e "content").getD (plainPayload e)

theorem truthySome {s : String} (some_ : s ≠ "") : truthy (some s) = some s := by simp [truthy, Option.filter, some_]

theorem titleOf {t : String} (found : field e "title" = some t) (some_ : Js.trim t ≠ "") : buildTitle e = Js.trim t := by
  unfold field at found
  simp only [buildTitle, found, Option.map_some, truthySome some_]
  rfl

theorem titleIff : field e "title" = some (buildTitle e) ↔
    ∃ t, field e "title" = some t ∧ (Js.trim t ≠ "" → Js.trim t = t) ∧ (Js.trim t = "" → buildTitle e = t) := by
  constructor
  · intro same
    exact ⟨_, same, fun some_ => (titleOf same some_).symm, fun _ => rfl⟩
  · rintro ⟨t, found, whole, blank⟩
    by_cases empty : Js.trim t = ""
    · rw [found, blank empty]
    · rw [found, titleOf found empty, whole empty]

theorem contentOf {c : String} (found : field e "content" = some c) (some_ : Js.trim c ≠ "") (text : String) :
    buildContent e text = Js.trim c := by
  unfold field at found
  simp only [buildContent, found, trimmed, Option.map_some, truthySome some_]
  rfl

theorem trimmedSome {value : Option String} {t : String} (found : trimmed value = some t) :
    ∃ s, value = some s ∧ t = Js.trim s := by
  unfold trimmed truthy at found
  obtain ⟨inner, _⟩ := Option.filter_eq_some_iff.mp found
  obtain ⟨s, rfl, rfl⟩ := Option.map_eq_some_iff.mp inner
  exact ⟨s, rfl, rfl⟩

theorem strippedField {key q : String} (found : trimmed (field e key) = some q) :
    stripPrivateBlocks q ≠ plainPayload e := by
  obtain ⟨s, present, rfl⟩ := trimmedSome found
  intro same
  have short := stripTextShorter (Js.trim s)
  have trims := (Js.trimInside s).length_le
  have longer := fieldShorter present
  rw [same] at short
  omega

theorem noContentIff (none_ : field e "content" = none) :
    stripPrivateBlocks (buildContent e (plainPayload e)) = plainPayload e ↔
      trimmed (field e "prompt") = none ∧ trimmed (field e "command") = none ∧
        stripPrivateBlocks (plainPayload e) = plainPayload e := by
  have content : trimmed (field e "content") = none := by rw [none_]; rfl
  have unfolded : buildContent e (plainPayload e) =
      ((trimmed (field e "prompt")).orElse fun _ => (trimmed (field e "command")).orElse fun _ =>
        truthy (some (plainPayload e))).getD (slice (plainPayload e) 0 4000) := by
    unfold field at content
    simp only [buildContent, content, field, Option.orElse_none, plainPayload]
  rw [unfolded]
  have whole : truthy (some (plainPayload e)) = some (plainPayload e) := truthySome (plainPresent e)
  cases prompt : trimmed (field e "prompt") with
  | some q => simpa using strippedField prompt
  | none =>
    cases command : trimmed (field e "command") with
    | some q => simpa using strippedField command
    | none => simp [whole]

theorem derivedIff : Projector.derive host (.text (PrivateIngest.payloadText host e)) =
      some ⟨some (buildTitle e), localContent host e, redactContent (localContent host e) (normalizeTags host e.privacyTags)⟩ ↔
    ReadsBack host e := by
  unfold Projector.derive ReadsBack
  cases parsed : Projector.parseCell host (.text (PrivateIngest.payloadText host e)) with
  | none => simp
  | some payload =>
    cases payload with
    | null => simp
    | _ =>
      simp only [Option.some.injEq, Projector.Derived.mk.injEq, exists_eq_left', ne_eq, reduceCtorEq, not_false_eq_true, true_and]
      exact and_congr_right fun _ => and_congr_right fun content => by rw [content]

theorem contentIff : stripPrivateBlocks (buildContent e (plainPayload e)) = (field e "content").getD (plainPayload e) ↔
    (∀ c, field e "content" = some c →
      (Js.trim c ≠ "" → Js.trim c = c ∧ stripPrivateBlocks c = c) ∧
        (Js.trim c = "" → stripPrivateBlocks (buildContent e (plainPayload e)) = c)) ∧
      (field e "content" = none → trimmed (field e "prompt") = none ∧ trimmed (field e "command") = none ∧
        stripPrivateBlocks (plainPayload e) = plainPayload e) := by
  cases present : field e "content" with
  | none =>
    rw [Option.getD_none, noContentIff present]
    simp
  | some c =>
    rw [Option.getD_some]
    by_cases blank : Js.trim c = ""
    · simp [blank]
    · rw [contentOf present blank, keptIff c]
      simp [blank]

theorem unchangedIff (plain : shouldRedact (normalizeTags host e.privacyTags) = false)
    (parses : host.parseJson (plainPayload e) = some (.obj (payloadOf e))) : ReadsBack host e ↔ Unchanged e := by
  have text : PrivateIngest.payloadText host e = plainPayload e := by
    simp [PrivateIngest.payloadText, redactContent, plain, plainPayload]
  have read : Projector.parseCell host (.text (plainPayload e)) = some (.obj (payloadOf e)) := by
    rw [Projector.parseCell, if_neg (plainPresent e), parses]
  have member : ∀ key, Projector.member (.obj (payloadOf e)) key = field e key := fun _ => rfl
  have same : ∀ content, redactContent content (normalizeTags host e.privacyTags) = content := fun content => by
    simp [redactContent, plain]
  unfold ReadsBack localContent
  simp only [text, read, same, Option.some.injEq, exists_eq_left', member, ne_eq, reduceCtorEq, not_false_eq_true, true_and]
  constructor
  · rintro ⟨title, content, redacted⟩
    obtain ⟨given, without⟩ := contentIff.mp content.symm
    refine ⟨titleIff.mp title, given, without, fun r present => ?_⟩
    rw [present, Option.getD_some] at redacted
    exact redacted.trans content.symm
  · rintro ⟨title, given, without, redacted⟩
    have content := contentIff.mpr ⟨given, without⟩
    refine ⟨titleIff.mpr title, content.symm, ?_⟩
    cases present : field e "content_redacted" with
    | none => rfl
    | some r => exact (redacted r present).trans content.symm

-- Every row under the new observation's id carries what was drafted.
theorem upsertedRow {new row : Observation} {rows after : List Observation} (ok : upsertObservation new rows = .ok after)
    (mem : row ∈ after) (same : row.id = new.id) :
    row.title = new.title ∧ row.content = new.content ∧ row.contentRedacted = new.contentRedacted ∧
      row.privacyTagsJson = new.privacyTagsJson := by
  unfold upsertObservation at ok
  dsimp only at ok
  split at ok
  · split at ok
    · cases ok
    · cases ok
      obtain ⟨old, _, eq⟩ := Tables.memUpdate.mp mem
      by_cases here : old.id = new.id
      · rw [if_pos (decide_eq_true here)] at eq
        rw [eq]
        exact ⟨rfl, rfl, rfl, rfl⟩
      · rw [if_neg (by simpa using here)] at eq
        exact absurd (eq ▸ same) here
  · rename_i absent
    split at ok
    · cases ok
    · cases ok
      rcases List.mem_append.mp mem with old | new_
      · exact absurd same (by simpa using List.find?_eq_none.mp absent row old)
      · obtain rfl := List.mem_singleton.mp new_
        exact ⟨rfl, rfl, rfl, rfl⟩

theorem managedAgreesIff (host : Host) (env : Ambient) (allowQueue : Bool) (e : EventEnvelope) (db after : Db) (item : Created)
    (copy : Recorder.StoredEvent) (warning : Option String) (row : Observation)
    (recorded : recordEvent host env allowQueue e db = (after, .created item copy warning)) (mem : row ∈ after.observations)
    (same : row.id = copy.observationId) :
    (SameObservation host row copy ↔ ReadsBack host e) ∧
      (shouldRedact (normalizeTags host e.privacyTags) = false → host.parseJson (plainPayload e) = some (.obj (payloadOf e)) →
        (SameObservation host row copy ↔ Unchanged e)) := by
  have effect := Dedupe.recordEffect host env allowQueue e db
  rw [recorded] at effect
  suffices all : SameObservation host row copy ↔ ReadsBack host e from
    ⟨all, fun plain parses => all.trans (unchangedIff plain parses)⟩
  cases effect with
  | refused _ refusal => cases refusal
  | stored named rows wrote new answered =>
    rename_i result project temporal before
    cases result with
    | duplicateEvent => exact absurd rfl new
    | duplicateContent id => cases answered
    | created flag =>
      cases answered
      cases wrote with
      | created payloadJson expiresAt _ _ _ observations =>
        obtain ⟨title, content, redacted, tags⟩ := upsertedRow observations mem same
        have stripped : ∀ text, (stripPrivateBlocksAudited host text).1 = stripPrivateBlocks text := by
          intro text
          unfold stripPrivateBlocksAudited stripPrivateBlocks
          split <;> rfl
        have drafted : row.content = localContent host e := content.trans (stripped _)
        have redactedHere : row.contentRedacted = redactContent (localContent host e) (normalizeTags host e.privacyTags) := by
          rw [redacted]
          exact congrArg (redactContent · _) (stripped _)
        rw [← derivedIff]
        constructor
        · intro agree
          have derived := agree.derived
          rw [title, drafted, redactedHere] at derived
          exact derived
        · intro derived
          refine ⟨?_, congrArg Projector.Cell.text tags.symm⟩
          rw [title, drafted, redactedHere]
          exact derived

end
-- A host whose `JSON.parse` reads one payload back.
def readingHost (entries : List (String × Json)) : Host :=
  { plainHost with parseJson := fun s => if s = Json.stringify (.obj entries) then some (.obj entries) else none }

def titled : List (String × Json) := [("title", .str "t"), ("content", .str "x")]
def prompted : List (String × Json) := [("prompt", .str "hi")]

def recordedOnce (entries : List (String × Json)) : Db × Outcome :=
  recordEvent (readingHost entries) plainAmbient true (plainEvent "a" "alpha" entries) Db.empty

def copied : Outcome → Option (String × String)
  | .created _ copy _ => some (copy.observationId, copy.payloadJson)
  | _ => none

theorem titledUnchanged : Unchanged (plainEvent "a" "alpha" titled) where
  title := ⟨"t", rfl, fun _ => by decide, fun blank => absurd blank (by decide)⟩
  content c present := by
    obtain rfl : "x" = c := Option.some.inj present
    exact ⟨fun _ => by decide, fun blank => absurd blank (by decide)⟩
  noContent none := nomatch none
  redacted r present := nomatch present

theorem managedAgreesOnce : ∃ row ∈ (recordedOnce titled).1.observations, ∃ item copy warning,
    (recordedOnce titled).2 = .created item copy warning ∧ SameObservation (readingHost titled) row copy := by
  have rows : (recordedOnce titled).1.observations.map Observation.id = ["obs_a"] := by decide +kernel
  have answer : (copied (recordedOnce titled).2).map Prod.fst = some "obs_a" := by decide +kernel
  cases outcome : (recordedOnce titled).2 with
  | created item copy warning =>
    rw [outcome] at answer
    have named : copy.observationId = "obs_a" := Option.some.inj answer
    obtain ⟨row, mem, id⟩ : ∃ row ∈ (recordedOnce titled).1.observations, row.id = "obs_a" :=
      List.mem_map.mp (by rw [rows]; exact List.mem_cons_self)
    refine ⟨row, mem, item, copy, warning, rfl, ?_⟩
    have agree := managedAgreesIff (readingHost titled) plainAmbient true (plainEvent "a" "alpha" titled) Db.empty
      (recordedOnce titled).1 item copy warning row (Prod.ext rfl outcome) mem (id.trans named.symm)
    have reads : (readingHost titled).parseJson (plainPayload (plainEvent "a" "alpha" titled)) = some (.obj titled) := by
      simp [readingHost, plainPayload, plainEvent, payloadOf]
    exact (agree.2 rfl reads).mpr titledUnchanged
  | _ => rw [outcome] at answer; cases answer

-- A prompt is title and content here, and neither in the managed row.
theorem promptDisagrees :
    (recordedOnce prompted).1.observations.map (fun row => (row.title, row.content)) = [(some "hi", "hi")] ∧
      (copied (recordedOnce prompted).2).bind (fun copy =>
          (Projector.derive (readingHost prompted) (.text copy.2)).map (fun d => (d.title, d.content))) =
        some (none, "\x7b\"prompt\":\"hi\"\x7d") := by
  decide +kernel

end HarnessMem.ManagedAgreement
