import HarnessMem.Envelope
import HarnessMem.Lib.Tables
import HarnessMem.Nuggets

/-! What `recordEvent` derives from a stored observation: vectors, entities, relations, links
and nuggets. Apart from the vector these steps are best effort: a failure keeps what the
statements before it wrote. -/
namespace HarnessMem.Recorder
open Js Text

def upsertVectorRow (rows : List Vector) (row : Vector) : List Vector :=
  let same := fun old : Vector => old.observationId = row.observationId && old.model = row.model
  if rows.any same then
    Tables.update same (fun old => {old with
      dimension := row.dimension, vectorJson := row.vectorJson, updatedAt := row.updatedAt}) rows
  else rows ++ [row]

def vectorVariants (env : Ambient) (content : String) : Except EmbeddingFailure (List (String × String)) :=
  match env.passageEmbeddings with
  | some plan => plan content
  | none => (env.embedContent content).map (fun vector => [(env.vectorModel, vector)])

def upsertVector (env : Ambient) (observationId content createdAt : String) (db : Db) :
    Except EmbeddingFailure Db :=
  if env.vectorDisabled then .ok db
  else do
    let variants ← vectorVariants env content
    let rows := variants.map (fun (model, vector) =>
      (⟨observationId, model, env.vectorDimension, vector, createdAt, env.clock 5⟩ : Vector))
    return {db with vectors := rows.foldl upsertVectorRow db.vectors}

def isRetryableWriteEmbeddingFailure (host : Host) (failure : EmbeddingFailure) : Bool :=
  let lowered := host.toLowerCase failure.message
  let code := host.toLowerCase (failure.code.getD "")
  let permanentFailure := code = "init_failed" || code = "inference_failed" ||
    hasAny ["failed to initialize", "failed to load", "inference failed"] lowered
  let coldStartFailure := code = "prime_required" || code = "warming" ||
    includes lowered "requires async prime before sync embed" ||
    (includes lowered "local onnx model" && includes lowered "warming up")
  let looksLikeEmbeddingFailure := failure.name = some "EmbeddingReadinessError" ||
    hasAny ["write embedding is unavailable", "write embedding is not ready"] lowered
  !permanentFailure && looksLikeEmbeddingFailure && coldStartFailure && failure.retryable ≠ some false

-- Ids grow by one; a name and type already known keeps its row.
def insertEntity (createdAt : String) (rows : List Entity) (e : ExtractedEntity) : List Entity :=
  if rows.any (fun old => old.name = e.name && old.entityType = e.type) then rows
  else rows ++ [⟨rows.foldl (fun top row => max top row.id) 0 + 1, e.name, e.type, createdAt⟩]

def linkEntity (observationId createdAt : String) (rows : List ObservationEntity) (id : Nat) :
    List ObservationEntity :=
  if rows.any (fun old => old.observationId = observationId && old.entityId = id) then rows
  else rows ++ [⟨observationId, id, createdAt⟩]

def extractAndStoreEntities (observationId content createdAt : String) (db : Db) : Db :=
  let found := extractEntities content
  let entities := found.foldl (insertEntity createdAt) db.entities
  let stored := entities.filter (fun row => found.contains ⟨row.name, row.entityType⟩)
  {db with
    entities
    observationEntities := (stored.map Entity.id).foldl (linkEntity observationId createdAt) db.observationEntities}

def extractAndStoreGraphRelations (host : Host) (observationId content : String) (tags : List String)
    (createdAt : String) (temporal : Temporal) (db : Db) : Db :=
  let found := extractEntitiesAndRelations host content tags
  let strength : ℚ := if 1 < found.1.length then 1 / found.1.length else 1
  {db with relations := db.relations ++ found.2.map (fun (src, dst) =>
    ⟨src, dst, "co-occurs", strength, observationId, temporal, createdAt⟩)}

-- `INSERT OR IGNORE`: one link for each pair and relation.
def insertLink (rows : List Link) (row : Link) : List Link :=
  if rows.any (fun old => old.fromId = row.fromId && old.toId = row.toId && old.relation = row.relation)
  then rows else rows ++ [row]
def addLinks (new : List Link) (db : Db) : Db := {db with links := new.foldl insertLink db.links}

theorem insertLinksFrom {new links : List Link} {link : Link} (mem : link ∈ new.foldl insertLink links) : link ∈ links ∨ link ∈ new := by
  induction new generalizing links with
  | nil => exact .inl mem
  | cons first rest ih =>
    rcases ih mem with before | later
    · unfold insertLink at before
      split at before
      · exact .inl before
      · rcases List.mem_append.mp before with old | here
        · exact .inl old
        · exact .inr (List.mem_singleton.mp here ▸ List.mem_cons_self)
    · exact .inr (List.mem_cons_of_mem _ later)

def newestFirst (rows : List Observation) : List Observation :=
  Tables.orderBy (fun a b => b.createdAt ≤ a.createdAt) rows

def contradictsKeywords : List String := ["however", "but", "instead", "contrary", "矛盾", "しかし"]
def causesKeywords : List String :=
  ["because", "therefore", "caused by", "results in", "なぜなら", "その結果"]
def partOfKeywords : List String := ["part of", "belongs to", "component of", "の一部", "に含まれる"]

def longWords (host : Host) (title : String) : List String :=
  (Regex.split (Regex.plus space) (host.toLowerCase title)).filter (fun w => 2 < length w)

def linkRelation (host : Host) (previous current : Observation) : String :=
  let content := host.toLowerCase current.contentRedacted
  if hasAny contradictsKeywords content then "contradicts"
  else if hasAny causesKeywords content then "causes"
  else if hasAny partOfKeywords content then "part_of"
  else match truthy current.title, truthy previous.title with
    | some currTitle, some prevTitle =>
      let prevWords := (longWords host prevTitle).dedup
      let currWords := longWords host currTitle
      let overlap := (currWords.filter (fun w => prevWords.contains w)).length
      let similarity : ℚ := overlap / max prevWords.length currWords.length
      if prevWords = [] ∨ currWords = [] then "follows"
      else if 6 / 10 ≤ similarity then "updates"
      else if 3 / 10 ≤ similarity then "extends"
      else "follows"
    | _, _ => "follows"

def previousInSession (observationId sessionId createdAt : String) (db : Db) : Option Observation :=
  (newestFirst (db.observations.filter (fun row =>
    row.sessionId = sessionId && row.id ≠ observationId && row.createdAt ≤ createdAt))).head?

def sharing (observationId : String) (db : Db) : List (String × String) :=
  let shared := db.observationEntities.flatMap (fun mine =>
    if mine.observationId = observationId then
      db.observationEntities.flatMap (fun other =>
        if other.entityId = mine.entityId ∧ other.observationId ≠ observationId then
          (db.entities.filter (fun e => e.id = mine.entityId)).map (fun e => (other.observationId, e.entityType))
        else [])
    else [])
  shared.dedup

def entityTypeWeight (fallback : ℚ) (entityType : String) : ℚ :=
  if entityType = "file" then 8 / 10 else if entityType = "package" then 9 / 10
  else if entityType = "symbol" then 7 / 10 else if entityType = "url" then 6 / 10 else fallback

def autoLinkObservation (host : Host) (observationId sessionId createdAt : String) (db : Db) : Db :=
  let followed := match previousInSession observationId sessionId createdAt db with
    | none => db
    | some previous =>
      let relation := match db.observations.find? (fun row => row.id = observationId) with
        | some current => linkRelation host previous current
        | none => "follows"
      addLinks [⟨observationId, previous.id, relation, 1, createdAt⟩] db
  let shared := (Tables.orderBy (fun a b => a.1 ≤ b.1) (sharing observationId db)).take 20
  addLinks (shared.map (fun (id, entityType) =>
    ⟨observationId, id, "shared_entity", entityTypeWeight (7 / 10) entityType, createdAt⟩)) followed

def jaccard (a b : List String) : ℚ :=
  let common := (a.filter (fun token => b.contains token)).length
  let union := a.length + b.length - common
  if 0 < union then common / union else 0

def autoSupersedes (host : Host) (env : Ambient) (observationId project observationType content : String)
    (createdAt : String) (db : Db) : Db :=
  let newTokens := (host.tokenize content).dedup
  if newTokens = [] then db
  else
    let candidates := (newestFirst (db.observations.filter (fun row =>
      row.project = project && row.observationType = observationType && row.id ≠ observationId))).take 50
    addLinks (candidates.filterMap (fun candidate =>
      let tokens := (host.tokenize candidate.contentRedacted).dedup
      if tokens = [] ∨ jaccard newTokens tokens < env.jaccardThreshold then none
      else some ⟨observationId, candidate.id, "updates", jaccard newTokens tokens, createdAt⟩)) db

-- All three strategies of the optional linker; the vectors are compared by the host.
def runAutoLinker (host : Host) (observationId sessionId createdAt : String) (db : Db) : Db :=
  let byEntity := ((Tables.orderBy (fun a b => b.1 ≤ a.1) (sharing observationId db)).take 10).map
    (fun (id, entityType) =>
      (⟨observationId, id, "shared_entity", entityTypeWeight (6 / 10) entityType, createdAt⟩ : Link))
  let byTime := (previousInSession observationId sessionId createdAt db).toList.map
    (fun previous => (⟨observationId, previous.id, "follows", 8 / 10, createdAt⟩ : Link))
  let byMeaning := match db.vectors.find? (fun row => row.observationId = observationId) with
    | none => []
    | some own =>
      let others := (Tables.orderBy (fun (a b : Vector) => b.observationId ≤ a.observationId)
        (db.vectors.filter (fun row => row.observationId ≠ observationId))).take 100
      (others.filter (fun row => host.similar own.vectorJson row.vectorJson)).map
        (fun row => (⟨observationId, row.observationId, "extends", 5 / 10, createdAt⟩ : Link))
  addLinks (byEntity ++ byTime ++ byMeaning) db

def insertNugget (rows : List NuggetRow) (row : NuggetRow) : List NuggetRow :=
  if rows.any (fun old => old.nuggetId = row.nuggetId ||
    (old.observationId = row.observationId && old.seq = row.seq)) then rows
  else rows ++ [row]

def upsertNuggetVector (rows : List NuggetVector) (row : NuggetVector) : List NuggetVector :=
  let same := fun old : NuggetVector => old.nuggetId = row.nuggetId && old.model = row.model
  if rows.any same then
    Tables.update same (fun old => {old with vectorJson := row.vectorJson, updatedAt := row.updatedAt}) rows
  else rows ++ [row]

-- The first failure ends the loop: the embedding, or a vector whose nugget was not inserted.
def insertNuggetsFrom (env : Ambient) (observationId createdAt : String) : List Nuggets.Nugget → Db → Db
  | [], db => db
  | nugget :: rest, db =>
    let id := env.nuggetId nugget.seq
    let nuggets := insertNugget db.nuggets
      ⟨id, observationId, nugget.seq, nugget.content, nugget.contentHash, createdAt⟩
    match env.embedContent nugget.content with
    | .error _ => {db with nuggets}
    | .ok vector =>
      if nuggets.any (fun row => row.nuggetId = id) then
        let row : NuggetVector :=
          ⟨id, observationId, env.vectorModel, env.vectorDimension, vector, createdAt, env.clock 6⟩
        insertNuggetsFrom env observationId createdAt rest
          {db with nuggets, nuggetVectors := upsertNuggetVector db.nuggetVectors row}
      else {db with nuggets}

def insertNuggets (host : Host) (env : Ambient) (observationId content createdAt : String) (db : Db) : Db :=
  if env.vectorDisabled then db
  else insertNuggetsFrom env observationId createdAt (Nuggets.splitIntoNuggets host content) db

theorem addLinksSame (new : List Link) (db : Db) : db.SameRows (addLinks new db) := ⟨⟨rfl, rfl, rfl⟩, rfl⟩

theorem upsertVectorSame {env : Ambient} {observationId content createdAt : String} {db after : Db}
    (ok : upsertVector env observationId content createdAt db = .ok after) : db.SameRows after := by
  unfold upsertVector at ok
  split at ok
  · cases ok
    exact Db.sameRefl db
  · cases variants : vectorVariants env content with
    | error failure => rw [variants] at ok; cases ok
    | ok found =>
      rw [variants] at ok
      cases ok
      exact ⟨⟨rfl, rfl, rfl⟩, rfl⟩

theorem autoLinkSame (host : Host) (observationId sessionId createdAt : String) (db : Db) :
    db.SameRows (autoLinkObservation host observationId sessionId createdAt db) := by
  unfold autoLinkObservation
  simp only
  split
  · exact addLinksSame _ _
  · exact Db.sameTrans (addLinksSame _ _) (addLinksSame _ _)

theorem autoSupersedesSame (host : Host) (env : Ambient) (observationId project kind content createdAt : String)
    (db : Db) : db.SameRows (autoSupersedes host env observationId project kind content createdAt db) := by
  unfold autoSupersedes
  simp only
  split
  · exact Db.sameRefl db
  · exact addLinksSame _ _

theorem runAutoLinkerSame (host : Host) (observationId sessionId createdAt : String) (db : Db) :
    db.SameRows (runAutoLinker host observationId sessionId createdAt db) := by
  unfold runAutoLinker
  exact addLinksSame _ _

theorem minedSame (observationId content createdAt : String) (db : Db) :
    db.SameRows (extractAndStoreEntities observationId content createdAt db) := by
  unfold extractAndStoreEntities
  exact ⟨⟨rfl, rfl, rfl⟩, rfl⟩

theorem relatedSame (host : Host) (observationId content : String) (tags : List String)
    (createdAt : String) (temporal : Temporal) (db : Db) :
    db.SameRows (extractAndStoreGraphRelations host observationId content tags createdAt temporal db) := by
  unfold extractAndStoreGraphRelations
  exact ⟨⟨rfl, rfl, rfl⟩, rfl⟩

theorem insertNuggetsKept (host : Host) (env : Ambient) (observationId content createdAt : String) (db : Db) :
    db.Kept (insertNuggets host env observationId content createdAt db) := by
  unfold insertNuggets
  split
  · exact Db.keptRefl db
  generalize Nuggets.splitIntoNuggets host content = nuggets
  induction nuggets generalizing db with
  | nil => exact Db.keptRefl db
  | cons nugget rest ih =>
    simp only [insertNuggetsFrom]
    split
    · exact ⟨rfl, rfl, rfl⟩
    · split
      · exact ⟨(ih _).events, (ih _).observations, (ih _).tags⟩
      · exact ⟨rfl, rfl, rfl⟩

end HarnessMem.Recorder
