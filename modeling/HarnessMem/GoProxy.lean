import HarnessMem.GoTools
import HarnessMem.Lib.Utf8
import HarnessMem.Recorder
import Mathlib.Data.List.Infix

/-! What the Go MCP server makes of the memory server's answers, and what the TypeScript client
makes of the same answers. -/
namespace HarnessMem.GoProxy
open Text GoTools

structure HttpResponse where
  status : Nat
  raw : List UInt8

-- The daemon is up or not; each request fails on the way or has a response.
structure World where
  daemon : Except String Unit
  answer : Nat → Except String HttpResponse

structure APIResponse where
  statusCode : Nat
  body : Option (List (String × Json))
  rawBody : List UInt8

-- Without a text of its own a result prints its content.
structure ToolResult where
  isError : Bool
  structuredContent : Json
  text : Option String
  citations : Option (List Json)

def errorResult (message : String) : ToolResult :=
  ⟨true, .obj [("ok", .bool false), ("error", .str message)], some message, none⟩

section
variable (host : Host)

def jsonOf (response : HttpResponse) : Option Json := host.parseJson (String.ofList (Utf8.decode response.raw))

-- Only an object fills the map; anything else leaves it nil.
def callAPI (response : HttpResponse) : APIResponse :=
  ⟨response.status, match jsonOf host response with
    | some (.obj entries) => some entries
    | _ => none, response.raw⟩

def mentions (text word : String) : Bool := decide (word.toList <:+: (host.toLowerCase text).toList)

def classifyError (message : String) : ToolResult :=
  let kind := if ["econnrefused", "health check failed", "failed"].any (mentions host message) then "daemon_unavailable"
    else if ["timeout", "timed out"].any (mentions host message) then "timeout"
    else "request_failed"
  errorResult ("Memory tool failed [" ++ kind ++ "]: " ++ message)
end

def present (value : Option Json) : Option Json :=
  match value with
  | some .null => none
  | other => other

def firstNonNil (values : List (Option Json)) : Json := (values.findSome? present).getD .null

def citation (item : Json) : Option Json :=
  match item with
  | .obj entries => some (.obj [("id", (Json.get entries "id").getD .null),
      ("source", firstNonNil [Json.get entries "platform", Json.get entries "source", some (.str "harness-mem")]),
      ("session_id", (Json.get entries "session_id").getD .null),
      ("timestamp", firstNonNil [Json.get entries "created_at", Json.get entries "timestamp"]),
      ("type", firstNonNil [Json.get entries "type", Json.get entries "event_type", some (.str "observation")])])
  | _ => none

def citationsOf (entries : List (String × Json)) : Option (List Json) :=
  match Json.get entries "items" with
  | some (.arr items) => if items.filterMap citation = [] then none else some (items.filterMap citation)
  | _ => none

def successResult (resp : APIResponse) (withCitations : Bool) : ToolResult :=
  match resp.body with
  | none => ⟨false, .obj [("ok", .bool true)], none, none⟩
  | some entries => ⟨false, .obj entries, none, if withCitations then citationsOf entries else none⟩

section
variable (host : Host) (world : World)

def bulkItem (n : Nat) : Json :=
  match world.answer n with
  | .error message => .obj [("ok", .bool false), ("error", .str message)]
  | .ok response => ((callAPI host response).body.map Json.obj).getD .null

-- Events that are no objects are passed over; `n` numbers the requests.
def bulkItems : Nat → List Json → List Json
  | _, [] => []
  | n, .obj _ :: rest => bulkItem host world n :: bulkItems (n + 1) rest
  | n, _ :: rest => bulkItems n rest

def bulkResult (items : List Json) : ToolResult :=
  ⟨false, .obj [("ok", .bool true), ("source", .str "core"), ("items", if items.isEmpty then .null else .arr items),
    ("meta", .obj [("count", .num (toString items.length)), ("latency_ms", .num "0"), ("filters", .obj []), ("ranking", .str "bulk_add_v1")])], none, none⟩

def runPlan : Plan → ToolResult
  | .refuse message => errorResult message
  | .call _ _ _ citations =>
    match world.answer 0 with
    | .error message => classifyError host message
    | .ok response => successResult (callAPI host response) citations
  | .bulk events => bulkResult (bulkItems host world 0 events)

def handleMemoryTool (go : Go) (name : String) (args : Args) : ToolResult :=
  match world.daemon with
  | .error message => classifyError host message
  | .ok _ => runPlan host world (planOf args go name)
end

/-! The TypeScript client. -/

def falsy : Json → Bool
  | .null => true
  | .bool value => !value
  | .num text => text = "0"
  | .str text => text = ""
  | _ => false

def field (key : String) : Json → Option Json
  | .obj entries => Json.get entries key
  | _ => none

def isFalse : Option Json → Bool
  | some (.bool value) => !value
  | _ => false

def HttpResponse.ok (response : HttpResponse) : Bool := decide (200 ≤ response.status) && decide (response.status ≤ 299)

-- `textOf` is `String(value)`.
def callMemoryApi (host : Host) (textOf : Json → String) (response : HttpResponse) : Except String Json :=
  match jsonOf host response with
  | none => .error ("Unexpected response from memory server: " ++ slice (String.ofList (Utf8.decode response.raw)) 0 200)
  | some parsed =>
    if falsy parsed || !response.ok || isFalse (field "ok" parsed) then
      .error (match field "error" parsed with
        | some value => if falsy value then "memory server returned HTTP " ++ toString response.status else textOf value
        | none => "memory server returned HTTP " ++ toString response.status)
    else .ok parsed

/-! What the tools owe. -/

-- A response that says the call succeeded.
def succeeded (host : Host) (response : HttpResponse) : Bool :=
  response.ok && match jsonOf host response with
    | some (.obj entries) => !isFalse (Json.get entries "ok")
    | _ => false

def Returns (host : Host) (textOf : Json → String) (response : HttpResponse) : Prop := ∃ value, callMemoryApi host textOf response = .ok value

def isObj : Json → Bool
  | .obj _ => true
  | _ => false

section
variable (host : Host) (textOf : Json → String) (world : World)

-- The item of a request whose own call succeeded.
def ownItem (n : Nat) : Option Json :=
  (world.answer n).toOption.bind fun response => if succeeded host response then (callAPI host response).body.map Json.obj else none

-- What the result of a plan has to say.
def HonestPlan (result : ToolResult) : Plan → Prop
  | .refuse _ => result.isError = true
  | .call _ _ _ _ => (∀ message, world.answer 0 = .error message → result.isError = true) ∧
      ∀ response, world.answer 0 = .ok response →
        (result.isError = false → succeeded host response = true) ∧ (result.isError = false ↔ Returns host textOf response)
  | .bulk events => result = bulkResult ((List.range (events.countP isObj)).filterMap (ownItem host world))

structure Honest (go : Go) (name : String) (args : Args) : Prop where
  down : world.daemon.isOk = false → (handleMemoryTool host world go name args).isError = true
  up : world.daemon.isOk = true → HonestPlan host textOf world (handleMemoryTool host world go name args) (planOf args go name)

-- What the memory server answers to the requests of a tool.
def AllSucceed : Plan → Prop
  | .refuse _ => True
  | .call _ _ _ _ => ∀ response, world.answer 0 = .ok response → succeeded host response = true
  | .bulk events => ∀ n < events.countP isObj, ∃ response, world.answer n = .ok response ∧ succeeded host response = true

variable {host textOf world}

theorem callNoError {method path : String} {body : Option Json} {citations : Bool} {response : HttpResponse} (answer : world.answer 0 = .ok response) :
    (runPlan host world (.call method path body citations)).isError = false := by
  rw [runPlan, answer]
  dsimp only
  unfold successResult
  split
  · rfl
  · rfl

theorem succeededObject {response : HttpResponse} (good : succeeded host response = true) :
    response.ok = true ∧ ∃ entries, jsonOf host response = some (.obj entries) ∧ isFalse (Json.get entries "ok") = false := by
  rw [succeeded, Bool.and_eq_true] at good
  obtain ⟨ok, object⟩ := good
  refine ⟨ok, ?_⟩
  split at object
  · rename_i entries parsed
    exact ⟨entries, parsed, by simpa using object⟩
  · cases object

theorem succeededReturns {response : HttpResponse} (good : succeeded host response = true) : Returns host textOf response := by
  obtain ⟨ok, entries, parsed, accepted⟩ := succeededObject good
  refine ⟨.obj entries, ?_⟩
  have shown : field "ok" (.obj entries) = Json.get entries "ok" := rfl
  rw [callMemoryApi, parsed]
  dsimp only
  rw [shown, ok, accepted]
  rfl

theorem bulkItemsMap (n : Nat) (events : List Json) :
    bulkItems host world n events = (List.range' n (events.countP isObj)).map (bulkItem host world) := by
  induction events generalizing n with
  | nil => rfl
  | cons event rest ih =>
    cases event with
    | obj entries =>
      rw [bulkItems, ih, List.countP_cons_of_pos rfl, List.range'_succ, List.map_cons]
    | null => rw [bulkItems, ih, List.countP_cons_of_neg Bool.false_ne_true]; simp
    | bool value => rw [bulkItems, ih, List.countP_cons_of_neg Bool.false_ne_true]; simp
    | num text => rw [bulkItems, ih, List.countP_cons_of_neg Bool.false_ne_true]; simp
    | str value => rw [bulkItems, ih, List.countP_cons_of_neg Bool.false_ne_true]; simp
    | arr items => rw [bulkItems, ih, List.countP_cons_of_neg Bool.false_ne_true]; simp

theorem ownItemSome {n : Nat} : (ownItem host world n).isSome = true ↔ ∃ response, world.answer n = .ok response ∧ succeeded host response = true := by
  constructor
  · intro some
    obtain ⟨item, found⟩ := Option.isSome_iff_exists.mp some
    obtain ⟨response, answered, found⟩ := Option.bind_eq_some_iff.mp found
    split at found
    · rename_i good
      cases answer : world.answer n with
      | error message =>
        rw [answer] at answered
        cases answered
      | ok other =>
        rw [answer] at answered
        obtain rfl := Option.some.inj answered
        exact ⟨other, rfl, good⟩
    · cases found
  · rintro ⟨response, answer, good⟩
    obtain ⟨_, entries, parsed, _⟩ := succeededObject good
    rw [ownItem, answer]
    simp [Except.toOption, good, callAPI, parsed]

theorem ownItemSame {n : Nat} {response : HttpResponse} (answer : world.answer n = .ok response) (good : succeeded host response = true) :
    ownItem host world n = some (bulkItem host world n) := by
  obtain ⟨_, entries, parsed, _⟩ := succeededObject good
  rw [ownItem, bulkItem, answer]
  simp [Except.toOption, good, callAPI, parsed]

theorem bulkInj {a b : List Json} (same : bulkResult a = bulkResult b) : a = b := by
  have items := congrArg (fun result => field "items" result.structuredContent) same
  have shown : ∀ items : List Json, field "items" (bulkResult items).structuredContent = some (if items.isEmpty then .null else .arr items) :=
    fun items => rfl
  rw [shown, shown, Option.some_inj] at items
  cases a with
  | nil =>
    cases b with
    | nil => rfl
    | cons first rest => cases items
  | cons first rest =>
    cases b with
    | nil => cases items
    | cons other others => exact Json.arr.inj items

theorem planHonest (plan : Plan) : HonestPlan host textOf world (runPlan host world plan) plan ↔ AllSucceed host world plan := by
  cases plan with
  | refuse message => exact iff_of_true rfl trivial
  | call method path body citations =>
    have fails : ∀ message, world.answer 0 = .error message → (runPlan host world (.call method path body citations)).isError = true := by
      intro message answer
      rw [runPlan, answer]
      rfl
    constructor
    · rintro ⟨_, honest⟩ response answer
      exact (honest response answer).1 (callNoError answer)
    · intro all
      refine ⟨fails, fun response answer => ?_⟩
      exact ⟨fun _ => all response answer, iff_of_true (callNoError answer) (succeededReturns (all response answer))⟩
  | bulk events =>
    rw [HonestPlan, AllSucceed, runPlan, bulkItemsMap, ← List.range_eq_range']
    constructor
    · intro same n below
      have long := congrArg List.length (bulkInj same)
      rw [List.length_map] at long
      have each := List.filterMap_length_eq_length.mp long.symm
      exact ownItemSome.mp (each n (List.mem_range.mpr below))
    · intro all
      rw [← List.filterMap_eq_map]
      refine congrArg bulkResult (List.filterMap_congr fun n mem => ?_)
      obtain ⟨response, answer, good⟩ := all n (List.mem_range.mp mem)
      exact (ownItemSame answer good).symm

variable (host textOf world) in
theorem proxyHonest (go : Go) (name : String) (args : Args) :
    Honest host textOf world go name args ↔ (world.daemon.isOk = true → AllSucceed host world (planOf args go name)) := by
  cases daemon : world.daemon with
  | error message =>
    have down : (handleMemoryTool host world go name args).isError = true := by
      rw [handleMemoryTool, daemon]
      rfl
    refine iff_of_true ⟨fun _ => down, fun up => ?_⟩ (fun up => by cases up)
    rw [daemon] at up
    cases up
  | ok ready =>
    have runs : handleMemoryTool host world go name args = runPlan host world (planOf args go name) := by rw [handleMemoryTool, daemon]
    constructor
    · intro honest _
      have held := honest.up (by rw [daemon]; rfl)
      rw [runs] at held
      exact (planHonest _).mp held
    · intro all
      refine ⟨fun down => ?_, fun _ => ?_⟩
      · rw [daemon] at down
        cases down
      · rw [runs]
        exact (planHonest _).mpr (all rfl)
end

def plainGo : Go := ⟨fun _ => 0, id, fun _ => "", fun _ => "p", .ok, id⟩

-- A memory server that answers every request with an empty 500.
def broken : World := ⟨.ok (), fun _ => .ok ⟨500, []⟩⟩

theorem proxyFails :
    (handleMemoryTool Recorder.plainHost broken plainGo "harness_mem_health" []).isError = false ∧
      ¬ Honest Recorder.plainHost (fun _ => "") broken plainGo "harness_mem_health" [] := by
  have plain : (handleMemoryTool Recorder.plainHost broken plainGo "harness_mem_health" []).isError = false := rfl
  refine ⟨plain, fun honest => ?_⟩
  have good := ((honest.up rfl).2 ⟨500, []⟩ rfl).1 plain
  cases good

end HarnessMem.GoProxy
