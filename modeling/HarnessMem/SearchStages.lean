import HarnessMem.SearchFilters
import HarnessMem.Lib.Tables

/-! The stages that add candidates to a search: full text, vectors, the latest interaction,
links, the entity graph and `file:` tokens; and the temporal-anchor search. -/
namespace HarnessMem.Search
open Js Text Recorder Visibility

structure Ranked where
  row : Observation
  final : ℚ

-- Full-text and vector indexes, tokenisation, collation and the floating-point scores. An
-- ordering moves its entries only, and the vector index answers with rows it is given.
structure Engine where
  fullText : List (String × Option String × String) → String → List String
  searchTokens : String → List String
  nearest : String → Nat → List (Vector × Observation) → List String
  nearestFrom : ∀ query limit rows, ∀ id ∈ nearest query limit rows, ∃ row ∈ rows, row.2.id = id
  bestFirst : Normalized → List String → List String
  bestFirstPerm : ∀ request ids, (bestFirst request ids).Perm ids
  rank : Normalized → List Observation → List Ranked
  rankPerm : ∀ request rows, ((rank request rows).map Ranked.row).Perm rows
  collate : String → String → Ordering
  dayDistance : String → String → Option ℚ

def add (ids : List String) (id : String) : List String := if id ∈ ids then ids else ids ++ [id]
def addAll (ids more : List String) : List String := more.foldl add ids

section
variable (host : Host) (settings : Settings) (engine : Engine)

def admitted (request : Normalized) (db : Db) : List Observation :=
  db.observations.filter (applyCommonFilters host settings request)

def mentions (tokens : List String) (row : Observation) : Bool :=
  tokens.any (fun token => includes (host.toLowerCase (row.title.getD "")) token ||
    includes (host.toLowerCase row.contentRedacted) token)

def lexicalSearch (request : Normalized) (internalLimit : Nat) (db : Db) : List String :=
  let rows := admitted host settings request db
  if settings.ftsEnabled then
    (((engine.fullText (db.observations.map Observation.ftsRow) request.query).filterMap
      (fun id => rows.find? (fun row => row.id = id))).take internalLimit).map Observation.id
  else
    let latest := (Tables.orderBy (fun a b => b.createdAt ≤ a.createdAt) rows).take (max (internalLimit * 4) 200)
    (latest.filter (mentions host (engine.searchTokens request.query))).map Observation.id

def vectorSearch (request : Normalized) (internalLimit : Nat) (db : Db) : List String :=
  if settings.vectorDisabled then []
  else
    let rows := admitted host settings request db
    engine.nearest request.query internalLimit
      (db.vectors.flatMap (fun v => (rows.filter (fun row => row.id = v.observationId)).map (fun row => (v, row))))

def genericRecent : Regex.Re := Regex.chain [.start,
  Regex.oneOf (["直近", "最近", "最後", "latest", "recent", "last"].map Regex.wordI),
  Regex.opt (Regex.chain [Regex.star space,
    Regex.oneOf (["を", "の", "について", "見て", "調べて", "教えて", "show", "check", "tell me"].map Regex.wordI),
    Regex.star TemporalState.dot]), .stop]
def latestInteractionCue : Regex.Re := .alt
  (TemporalState.said ["prompt", "response", "reply", "answer", "conversation", "thread", "exchange", "recent work",
    "latest work", "last work", "what happened recently", "what happened last"])
  (words ["プロンプト", "回答", "返答", "会話", "やり取り", "直近の作業", "最近の作業", "最後の作業"])
def isLatestInteractionIntent (query : String) : Bool :=
  let normalized := trim query
  normalized ≠ "" && TemporalState.cued [genericRecent, latestInteractionCue] normalized

def ignoredPrompts : List Regex.Re :=
  [Regex.chain [.start, Regex.wordI "# AGENTS.md instructions", .boundary]] ++
    ["<skill>", "<turn_aborted>", "Base directory for this skill:", "<command-message>", "<command-name>",
      "<command-args>", "<local-command-caveat>", "<local-command-stdout>", "<local-command-stderr>",
      "This session is being continued from a previous conversation that ran out of context."].map
      (fun opening => .seq .start (Regex.wordI opening))
def ignoredResponses : List Regex.Re :=
  [Regex.chain [.start, Regex.wordI "No response requested", Regex.opt (Regex.char '.'), .stop]]
def isIgnored (patterns : List Regex.Re) (text : String) : Bool :=
  trim text = "" || TemporalState.cued patterns (trim text)
def hasIgnoredVisibleTag (row : Observation) : Bool :=
  (parseArrayJson host row.tagsJson).any (fun tag => trim tag = "visibility_suppressed")

-- A row of the latest-interaction query with its event's type.
structure Turn where
  row : Observation
  eventType : String

def interactionContent (row : Observation) : String := slice row.contentRedacted 0 2000
def ignoredPrompt (row : Observation) : Bool :=
  hasIgnoredVisibleTag host row || isIgnored ignoredPrompts (interactionContent row) ||
    isIgnored ignoredPrompts (trim (row.title.getD "" ++ "\n" ++ interactionContent row))
def ignoredResponse (row : Observation) : Bool :=
  hasIgnoredVisibleTag host row || isIgnored ignoredResponses (interactionContent row)

structure Interaction where
  latestTurnAt : String
  sessionId : String
  prompt : Observation
  response : Option Observation

def turnOf (db : Db) (row : Observation) : Option Turn :=
  match db.events.find? (fun event => row.eventId = some event.eventId) with
  | none => none
  | some event =>
    if event.eventType = "user_prompt" ∨ event.eventType = "checkpoint" ∧ row.title = some "assistant_response" then
      some ⟨row, event.eventType⟩
    else none

def latestFilter (members : List String) (request : Normalized) (row : Observation) : Bool :=
  projectFilter members row.project && asked request.sessionId (fun session => row.sessionId = session) &&
    platformVisibilityFilter settings row && visibilityFilter host request.includePrivate row &&
    tenantFilter (trimmed request.userId) (trimmed request.teamId) row.userId row.teamId

def interactionRows (admits : Observation → Bool) (limit : Nat) (db : Db) : List Turn :=
  let rows := (db.observations.filter admits).filterMap (turnOf db)
  (Tables.orderBy (fun a b => b.row.createdAt < a.row.createdAt ∨
    a.row.createdAt = b.row.createdAt ∧ b.row.id ≤ a.row.id) rows).take (max 20 (min limit 1000))

def queryLatestInteractionObservations (members : List String) (request : Normalized) (limit : Nat) (db : Db) :
    List Turn :=
  interactionRows (latestFilter host settings members request) limit db

-- The prompt being answered, and the last prompt that was answered.
def followTurn (state : Option Observation × Option (Observation × Observation)) (turn : Turn) :
    Option Observation × Option (Observation × Observation) :=
  if turn.eventType = "user_prompt" then
    if ignoredPrompt host turn.row then state else (some turn.row, state.2)
  else if turn.row.title ≠ some "assistant_response" ∨ ignoredResponse host turn.row then state
  else match state.1 with
    | none => state
    | some prompt =>
      if engine.collate turn.row.createdAt prompt.createdAt = .lt then state else (state.1, some (prompt, turn.row))

def sessionInteraction (turns : List Turn) : Option Interaction :=
  let chronological := Tables.orderBy (fun a b : Turn => ((engine.collate a.row.createdAt b.row.createdAt).then
    (engine.collate a.row.id b.row.id)) ≠ .gt) turns
  match chronological.foldl (followTurn host engine) (none, none) with
  | (_, some (prompt, response)) => some ⟨response.createdAt, response.sessionId, prompt, some response⟩
  | (some prompt, none) => some ⟨prompt.createdAt, prompt.sessionId, prompt, none⟩
  | (none, none) => none

def collectLatestInteractionContexts (turns : List Turn) : List Interaction :=
  let sessions := (turns.map (fun turn => turn.row.sessionId)).eraseDups
  let contexts := sessions.filterMap (fun session =>
    sessionInteraction host engine (turns.filter (fun turn => turn.row.sessionId = session)))
  Tables.orderBy (fun a b : Interaction => ((engine.collate b.latestTurnAt a.latestTurnAt).then
    (engine.collate a.sessionId b.sessionId)) ≠ .gt) contexts

def selectLatestInteractionContext (turns : List Turn) : Option Interaction :=
  (collectLatestInteractionContexts host engine turns).head?

def getLatestInteractionContext (members : List String) (request : Normalized) (scanLimit : Nat) (db : Db) :
    Option Interaction :=
  if members = [] ∧ truthy request.sessionId = none then none
  else selectLatestInteractionContext host engine
    (queryLatestInteractionObservations host settings members request scanLimit db)

def linkRelations : List String :=
  ["shared_entity", "follows", "extends", "derives", "contradicts", "causes", "part_of", "updates", "superseded"]

structure Hop where
  link : Link
  id : String
  parent : String

-- `MAX(weight)` without `GROUP BY`: each direction yields one row, its heaviest link.
def heaviest (hops : List Hop) : Option Hop :=
  hops.foldl (fun best hop => match best with
    | none => some hop
    | some kept => if kept.link.weight < hop.link.weight then some hop else best) none

def hopsFrom (request : Normalized) (frontier : List String) (db : Db) : List Hop :=
  let rows := admitted host settings request db
  let links := db.links.filter (fun link => linkRelations.contains link.relation)
  let reached := fun hops : List Hop => hops.filter (fun hop =>
    frontier.contains hop.parent && rows.any (fun row => row.id = hop.id))
  (heaviest (reached (links.map (fun link => ⟨link, link.toId, link.fromId⟩)))).toList ++
    (heaviest (reached (links.map (fun link => ⟨link, link.fromId, link.toId⟩)))).toList

def scoreOf (scores : List (String × ℚ)) (id : String) : Option ℚ :=
  (scores.find? (fun entry => entry.1 = id)).map Prod.snd
def raiseScore (scores : List (String × ℚ)) (id : String) (score : ℚ) : List (String × ℚ) :=
  if (scoreOf scores id).getD 0 < score then scores.filter (fun entry => entry.1 ≠ id) ++ [(id, score)] else scores

structure Spread where
  graph : List (String × ℚ)
  frontier : List (String × ℚ)
  processed : List String

def followHop (depth : Nat) (from_ : Spread) (next : Spread) (hop : Hop) : Spread :=
  if hop.id = "" ∨ hop.link.fromId = "" ∨ hop.link.toId = "" ∨ hop.link.fromId = hop.link.toId then next
  else
    let penalty : ℚ := if hop.link.relation = "contradicts" then 1 / 2 else 1
    let score := (scoreOf from_.frontier hop.parent).getD 1 * hop.link.weight * (1 / 2) ^ (depth - 1) * penalty
    { next with
      graph := raiseScore next.graph hop.id score
      frontier := if from_.processed.contains hop.id then next.frontier else raiseScore next.frontier hop.id score }

def spread (request : Normalized) (db : Db) : Nat → Nat → Spread → Spread
  | 0, _, now => now
  | fuel + 1, depth, now =>
    if now.frontier = [] then now
    else
      let hops := hopsFrom host settings request (now.frontier.map Prod.fst) db
      let next := hops.foldl (followHop depth now) {now with frontier := []}
      spread request db fuel (depth + 1) {next with processed := now.processed ++ next.frontier.map Prod.fst}

def expandByLinks (topIds : List String) (request : Normalized) (db : Db) : List String :=
  let depth := min (max (settings.graphMaxHops.getD 4) 1) 5
  (spread host settings request db depth 1 ⟨[], topIds.map (fun id => (id, 1)), topIds⟩).graph.map Prod.fst

-- Breadth first over observations that share an entity; at most twenty are added.
structure Walk where
  frontier : List String
  seen : List String
  entities : List String
  added : Nat
  next : List String
  deriving DecidableEq, Repr

def visit (walk : Walk) (id : String) : Walk :=
  if id ∈ walk.seen ∨ 20 ≤ walk.added then walk
  else {walk with seen := walk.seen ++ [id], next := walk.next ++ [id], added := walk.added + 1}

def walkBatch (relations : List Relation) (walk : Walk) (batch : List String) : Walk :=
  if 20 ≤ walk.added then walk
  else
    let touching := relations.filter (fun relation => batch.contains relation.src || batch.contains relation.dst)
    let ids := (touching.map Relation.observationId).eraseDups.take (20 - walk.added + walk.frontier.length)
    ids.foldl visit walk

def batches (size : Nat) : Nat → List String → List (List String)
  | 0, _ => []
  | fuel + 1, ids => if ids = [] then [] else ids.take size :: batches size fuel (ids.drop size)

-- One hop, unless nothing new is mentioned on the frontier.
def hopOnce (relations : List Relation) (walk : Walk) : Option Walk :=
  if walk.frontier = [] ∨ 20 ≤ walk.added then none
  else
    let mentioned := walk.frontier.flatMap (fun id => (relations.filter (fun relation =>
      relation.observationId = id)).flatMap (fun relation => [relation.src, relation.dst]))
    let fresh := (mentioned.filter (fun entity => entity ∉ walk.entities)).eraseDups
    if fresh = [] then none
    else
      let began := {walk with entities := walk.entities ++ fresh, next := []}
      let reached := (batches 50 fresh.length fresh).foldl (walkBatch relations) began
      some {reached with frontier := reached.next}

def walkHops (relations : List Relation) : Nat → Walk → Walk
  | 0, walk => walk
  | hops + 1, walk =>
    match hopOnce relations walk with
    | none => walk
    | some reached => walkHops relations hops reached

def graphHops (depth : Number) : Nat :=
  match depth with
  | .posInf => 5
  | .fin q => ⌈min q 5⌉.toNat
  | _ => 0

def expandObservationsViaGraph (db : Db) (seeds : List String) (depth : Number) : List String :=
  (walkHops db.relations (graphHops depth) ⟨seeds, seeds, [], 0, []⟩).seen

-- Exact provenance tags first; a path nothing is tagged with is matched anywhere in a tag.
def taggedWith (path : String) (db : Db) : List String :=
  let provenance := db.tags.filter (fun tag => tag.tagType = "provenance")
  let exact := provenance.filter (fun tag => tag.tag = "file:" ++ path)
  let found := if exact = [] then provenance.filter (fun tag => like ("%" ++ path ++ "%") tag.tag) else exact
  found.map Tag.observationId

def extractFileFilterIds (query : String) (db : Db) : Option (List String) :=
  let paths := filePaths query
  if paths = [] then none else some (addAll [] (paths.flatMap (fun path => taggedWith path db)))

def temporalAnchor (row : Observation) : String :=
  (row.temporal.eventTime.orElse fun _ => row.temporal.validFrom.orElse fun _ => row.temporal.observedAt).getD
    row.createdAt

def anchorFilter (members : List String) (request : Normalized) (row : Observation) : Bool :=
  projectFilter members row.project && (request.includePrivate || row.privacyTagsJson = "[]")

def byAnchor (descending : Bool) (rows : List Observation) : List Observation :=
  if descending then Tables.orderBy (fun a b => temporalAnchor b ≤ temporalAnchor a) rows
  else Tables.orderBy (fun a b => temporalAnchor a ≤ temporalAnchor b) rows

def relevance (tokens : List String) (row : Observation) : Nat :=
  let text := host.toLowerCase (row.title.getD "") ++ " " ++ host.toLowerCase row.contentRedacted
  tokens.countP (fun token => includes text (host.toLowerCase token))

-- The rows on the asked side of the anchor's time, those that share a word with the query first.
def aroundAnchor (request : Normalized) (anchor : Anchor) (limit : Nat) (center : Observation)
    (rows : List Observation) : List Observation :=
  let time := temporalAnchor center
  let others := rows.filter (fun row => row.id ≠ center.id)
  let distance := fun row => engine.dayDistance (temporalAnchor row) time
  let side := match anchor.direction with
    | .asc => byAnchor false (others.filter (fun row => time < temporalAnchor row))
    | .desc => byAnchor true (others.filter (fun row => temporalAnchor row < time))
    | .around => Tables.orderBy (fun a b => (distance a).getD 0 ≤ (distance b).getD 0)
      (others.filter (fun row => (distance row).any (fun days => days ≤ 7)))
  let near := side.take (max (limit * 3) 30)
  let score := relevance host (engine.searchTokens request.query)
  let later := fun a b => if anchor.direction = .desc then engine.collate (temporalAnchor b) (temporalAnchor a)
    else engine.collate (temporalAnchor a) (temporalAnchor b)
  let relevant := Tables.orderBy (fun a b => (later a b).then (compare (score b) (score a)) ≠ .gt)
    (near.filter (fun row => 0 < score row))
  let rest := Tables.orderBy (fun a b => later a b ≠ .gt) (near.filter (fun row => score row = 0))
  (relevant ++ rest).take limit

def anchorMembers (request : Normalized) : Except String (List String) :=
  match request.projectMembers with
  | some members => .ok members
  | none => resolveProjectMembers settings request.project

def temporalAnchorSearch (request : Normalized) (anchor : Anchor) (limit : Nat) (db : Db) :
    Option (List Observation) :=
  match anchorMembers settings request with
  | .error _ => none
  | .ok members =>
    let asked := {request with query := anchor.referenceText}
    let found := addAll (vectorSearch host settings engine asked 20 db) (lexicalSearch host settings engine asked 20 db)
    let rows := db.observations.filter (anchorFilter members request)
    match (engine.bestFirst asked found).head? with
    | none => some ((byAnchor (anchor.direction = .desc) rows).take limit)
    | some anchorId =>
      match db.observations.find? (fun row => row.id = anchorId) with
      | none => none
      | some center => some (aroundAnchor host engine request anchor limit center rows)

end
end HarnessMem.Search
