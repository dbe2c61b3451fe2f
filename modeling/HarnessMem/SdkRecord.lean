import HarnessMem.Text

/-! `HarnessMemClient.record` and the record route: the body that the client sends, what the
validator says to it, and the event that the route takes from it. -/
namespace HarnessMem.SdkRecord
open Text

-- What `unknown` stands for, as far as `JSON.stringify` tells values apart.
inductive Value where
  | undefined
  | null
  | bool (value : Bool)
  | num (text : String)
  | notFinite
  | bigint
  | str (value : String)
  | arr (items : List Value)
  | obj (entries : List (String × Value))
  | toJSON (result : Value)

mutual
def encode : Value → Except String (Option Json)
  | .undefined => .ok none
  | .null => .ok (some .null)
  | .bool value => .ok (some (.bool value))
  | .num text => .ok (some (.num text))
  | .notFinite => .ok (some .null)
  | .bigint => .error "TypeError"
  | .str value => .ok (some (.str value))
  | .arr items => do return some (.arr (← encodeItems items))
  | .obj entries => do return some (.obj (← encodeEntries entries))
  | .toJSON result => encode result
def encodeItems : List Value → Except String (List Json)
  | [] => .ok []
  | item :: rest => do
    let first ← encode item
    let others ← encodeItems rest
    return first.getD .null :: others
def encodeEntries : List (String × Value) → Except String (List (String × Json))
  | [] => .ok []
  | (key, value) :: rest => do
    let first ← encode value
    let others ← encodeEntries rest
    return (first.map (fun json => (key, json))).toList ++ others
end

structure RecordEventInput where
  platform : Option String
  project : Option String
  sessionId : String
  eventType : Option String
  ts : Option String
  payload : List (String × Value)
  tags : Option (List String)
  privacyTags : Option (List String)
  correlationId : Option String

def given (key : String) (value : Option Value) : List (String × Value) := (value.map (fun value => (key, value))).toList
def strings (tags : List String) : Value := .arr (tags.map .str)

def inputFields (input : RecordEventInput) : List (String × Value) :=
  given "platform" (input.platform.map .str) ++ given "project" (input.project.map .str) ++
  given "session_id" (some (.str input.sessionId)) ++ given "event_type" (input.eventType.map .str) ++
  given "ts" (input.ts.map .str) ++ given "payload" (some (.obj input.payload)) ++
  given "tags" (input.tags.map strings) ++ given "privacy_tags" (input.privacyTags.map strings) ++
  given "correlation_id" (input.correlationId.map .str)

-- `JSON.stringify(input)`: the entries of the body's object.
def record (input : RecordEventInput) : Except String (List (String × Json)) := encodeEntries (inputFields input)

structure ValidationConfig where
  maxContentLength : Nat
  maxTitleLength : Nat
  maxTags : Nat
  maxTagLength : Nat
  maxProjectLength : Nat

def defaultConfig : ValidationConfig := ⟨100000, 500, 50, 100, 200⟩

def parseRequestJson : Json → List (String × Json)
  | .obj entries => entries
  | _ => []

-- The entries of a value that `typeof` calls an object; an array has none of those asked for.
def object? : Option Json → Option (List (String × Json))
  | some (.obj entries) => some entries
  | some (.arr _) => some []
  | _ => none

def longText (bound : Nat) : Json → Bool
  | .str text => bound < length text
  | _ => false

def contentErrors (config : ValidationConfig) (event : List (String × Json)) : List String :=
  if (object? (Json.get event "payload")).any (fun payload => (Json.get payload "content").any (longText config.maxContentLength)) then
    ["payload.content exceeds max length of " ++ toString config.maxContentLength] else []
def projectErrors (config : ValidationConfig) (event : List (String × Json)) : List String :=
  if (Json.get event "project").any (longText config.maxProjectLength) then
    ["event.project exceeds max length of " ++ toString config.maxProjectLength] else []
def countErrors (config : ValidationConfig) (field : String) (event : List (String × Json)) : List String :=
  match Json.get event field with
  | some (.arr tags) =>
    if config.maxTags < tags.length then ["event." ++ field ++ " exceeds max count of " ++ toString config.maxTags] else []
  | _ => []
def tagErrors (config : ValidationConfig) (event : List (String × Json)) : List String :=
  match Json.get event "tags" with
  | some (.arr tags) =>
    if tags.any (longText config.maxTagLength) then
      ["event.tags contains a tag exceeding max length of " ++ toString config.maxTagLength] else []
  | _ => []

def validateRecordEvent (config : ValidationConfig) (body : List (String × Json)) : List String :=
  match object? (Json.get body "event") with
  | none => ["event is required and must be an object"]
  | some event => contentErrors config event ++ projectErrors config event ++ countErrors config "tags" event ++
    tagErrors config event ++ countErrors config "privacy_tags" event

-- POST /v1/events/record: the text of a 400 answer, or the event that goes to `recordEventQueued`.
def recordRoute (config : ValidationConfig) (request : Json) : Except String (List (String × Json)) :=
  let body := parseRequestJson request
  match validateRecordEvent config body with
  | [] => .ok ((object? (Json.get body "event")).getD [])
  | errors => .error (String.intercalate "; " errors)

def eventFields : List String := ["platform", "project", "session_id", "event_type", "payload", "tags", "privacy_tags"]

-- The server takes an event with the fields that were given to the client.
def Reaches (config : ValidationConfig) (input : RecordEventInput) : Prop :=
  ∃ body event, record input = .ok body ∧ recordRoute config (.obj body) = .ok event ∧
    ∀ field ∈ eventFields, Json.get event field = Json.get body field

theorem encodeEntriesCons {key : String} {value : Value} {rest : List (String × Value)} {out : List (String × Json)}
    (encoded : encodeEntries ((key, value) :: rest) = .ok out) :
    ∃ first others, encode value = .ok first ∧ encodeEntries rest = .ok others ∧
      out = (first.map (fun json => (key, json))).toList ++ others := by
  rw [encodeEntries] at encoded
  cases here : encode value with
  | error e => rw [here] at encoded; cases encoded
  | ok first =>
    cases there : encodeEntries rest with
    | error e => rw [here, there] at encoded; cases encoded
    | ok others =>
      rw [here, there] at encoded
      exact ⟨first, others, rfl, rfl, (Except.ok.inj encoded).symm⟩

theorem encodeKeys {entries : List (String × Value)} {out : List (String × Json)} (encoded : encodeEntries entries = .ok out) :
    out.map Prod.fst ⊆ entries.map Prod.fst := by
  induction entries generalizing out with
  | nil =>
    rw [encodeEntries] at encoded
    obtain rfl := Except.ok.inj encoded
    exact List.Subset.refl _
  | cons entry rest ih =>
    obtain ⟨first, others, -, tail, rfl⟩ := encodeEntriesCons encoded
    rw [List.map_append, List.map_cons]
    refine List.append_subset.mpr ⟨?_, List.Subset.trans (ih tail) (List.subset_cons_self _ _)⟩
    cases first with
    | none => exact List.nil_subset _
    | some json => exact List.cons_subset.mpr ⟨List.mem_cons_self, List.nil_subset _⟩

def inputKeys : List String :=
  ["platform", "project", "session_id", "event_type", "ts", "payload", "tags", "privacy_tags", "correlation_id"]

theorem givenKeys (key : String) (value : Option Value) : (given key value).map Prod.fst ⊆ [key] := by
  cases value with
  | none => exact List.nil_subset _
  | some value => exact List.Subset.refl _

theorem fieldKeys (input : RecordEventInput) : (inputFields input).map Prod.fst ⊆ inputKeys := by
  intro key mem
  simp only [inputFields, List.map_append, List.mem_append] at mem
  rcases mem with (((((((mem | mem) | mem) | mem) | mem) | mem) | mem) | mem) | mem <;>
    · rw [List.mem_singleton.mp (givenKeys _ _ mem)]
      decide

theorem getAbsent {entries : List (String × Json)} {key : String} (absent : key ∉ entries.map Prod.fst) :
    Json.get entries key = none := by
  rw [Json.get, Option.map_eq_none_iff, List.find?_eq_none]
  exact fun entry mem same => absent (of_decide_eq_true same ▸ List.mem_map_of_mem mem)

theorem eventless {input : RecordEventInput} {body : List (String × Json)} (sent : record input = .ok body) :
    Json.get body "event" = none :=
  getAbsent fun mem => absurd (fieldKeys input (encodeKeys sent mem)) (by decide)

-- The client sends the input itself where the route asks for an object with the input under `event`.
theorem recordRejected (config : ValidationConfig) (input : RecordEventInput) :
    ¬ Reaches config input ∧ ∀ body, record input = .ok body →
      recordRoute config (.obj body) = .error "event is required and must be an object" := by
  have rejects : ∀ body, record input = .ok body →
      recordRoute config (.obj body) = .error "event is required and must be an object" := by
    intro body sent
    simp only [recordRoute, parseRequestJson, validateRecordEvent, eventless sent, object?]
    rfl
  refine ⟨?_, rejects⟩
  rintro ⟨body, event, sent, taken, -⟩
  rw [rejects body sent] at taken
  cases taken

def quickStart : RecordEventInput :=
  ⟨none, none, "session-123", none, none, [("prompt", .str "decided")], some ["decision"], none, none⟩
def quickStartBody : List (String × Json) := [("session_id", .str "session-123"),
  ("payload", .obj [("prompt", .str "decided")]), ("tags", .arr [.str "decision"])]

theorem quickStartAnswered :
    recordRoute defaultConfig (.obj quickStartBody) = .error "event is required and must be an object" :=
  (recordRejected defaultConfig quickStart).2 quickStartBody rfl

theorem quickStartRejected : ¬ Reaches defaultConfig quickStart := by
  rintro ⟨body, event, sent, taken, -⟩
  obtain rfl : body = quickStartBody := Except.ok.inj (sent.symm.trans rfl)
  cases taken

-- Under `event` the same body is taken as it is, unless one of its fields is past a limit.
structure Within (config : ValidationConfig) (event : List (String × Json)) : Prop where
  content : contentErrors config event = []
  project : projectErrors config event = []
  tags : countErrors config "tags" event = [] ∧ tagErrors config event = []
  privacyTags : countErrors config "privacy_tags" event = []

theorem wrappedTaken (config : ValidationConfig) (event : List (String × Json)) :
    recordRoute config (.obj [("event", .obj event)]) = .ok event ↔ Within config event := by
  have inside : object? (Json.get [("event", .obj event)] "event") = some event := rfl
  simp only [recordRoute, parseRequestJson, validateRecordEvent, inside, Option.getD_some]
  constructor
  · intro taken
    split at taken
    · rename_i none
      simp only [List.append_eq_nil_iff] at none
      obtain ⟨⟨⟨⟨content, project⟩, count⟩, tags⟩, privacy⟩ := none
      exact ⟨content, project, ⟨count, tags⟩, privacy⟩
    · cases taken
  · rintro ⟨content, project, ⟨count, tags⟩, privacy⟩
    rw [content, project, count, tags, privacy]
    rfl

end HarnessMem.SdkRecord
