import HarnessMem.Feed
import HarnessMem.Lib.KeyedList
import HarnessMem.Lib.KeyedMerge
import HarnessMem.Lib.LineStream
import HarnessMem.Lib.Runs

/-! The feed list of the web client: pages asked for and answered in any order, live items in between,
and a cache for each selection. -/
namespace HarnessMem.FeedClient
open Js Recorder

structure FeedItem where
  id : String
  eventId : Option String
  platform : Option String
  project : Option String
  canonicalProject : Option String
  sessionId : Option String
  eventType : Option String
  cardType : Option String
  title : Option String
  content : Option String
  summary : Option String
  createdAt : Option String
  tags : Option (List String)
  privacyTags : Option (List String)
  deriving DecidableEq, Repr

def filled (value : Option String) : Bool := value.any (fun s => trim s ≠ "")
def takeString (primary secondary : Option String) : Option String :=
  if filled primary then primary else if filled secondary then secondary else primary.orElse (fun _ => secondary)

def mergeStringArray (primary secondary : Option (List String)) : List String :=
  KeyedMerge.mergeAll id (fun held _ => held) ((primary.getD [] ++ secondary.getD []).filter (fun value => value ≠ "")) []

def mergeFeedItem (primary secondary : FeedItem) : FeedItem where
  id := if primary.id ≠ "" then primary.id else secondary.id
  eventId := takeString primary.eventId secondary.eventId
  platform := takeString primary.platform secondary.platform
  project := takeString primary.project secondary.project
  canonicalProject := takeString primary.canonicalProject secondary.canonicalProject
  sessionId := takeString primary.sessionId secondary.sessionId
  eventType := takeString primary.eventType secondary.eventType
  cardType := takeString primary.cardType secondary.cardType
  title := takeString primary.title secondary.title
  content := takeString primary.content secondary.content
  summary := takeString primary.summary secondary.summary
  createdAt := takeString primary.createdAt secondary.createdAt
  tags := some (mergeStringArray primary.tags secondary.tags)
  privacyTags := some (mergeStringArray primary.privacyTags secondary.privacyTags)

def mergeFeedItems (current incoming : List FeedItem) (prepend : Bool) : List FeedItem :=
  let order := if prepend then incoming ++ current else current ++ incoming
  KeyedMerge.mergeAll FeedItem.id mergeFeedItem (order.filter (fun item => item.id ≠ "")) []

-- `value.trim().replace(/\\/g, "/").replace(/\/+$/, "")`
def normalizeProjectKey (value : String) : String :=
  String.ofList (((((trim value).toList.map (fun c => if c = '\\' then '/' else c)).reverse).dropWhile (fun c => c = '/')).reverse)

def startsWith (value start : String) : Bool := start.toList.isPrefixOf value.toList

def projectMatchesSelection (selectedProject : String) (itemProject : Option String) : Bool :=
  if selectedProject = "__all__" then true
  else match truthy itemProject with
    | none => false
    | some itemProject =>
      let selected := normalizeProjectKey selectedProject
      let item := normalizeProjectKey itemProject
      if selected = "" || item = "" then false
      else item = selected || startsWith item (selected ++ "/") || startsWith selected (item ++ "/")

def resolvedProjectKey (item : FeedItem) : Option String := if filled item.canonicalProject then item.canonicalProject else item.project

structure FeedOptions where
  enabled : Bool
  project : String
  includePrivate : Bool
  limit : Nat
  deriving DecidableEq, Repr

def buildFeedCacheKey (project : String) (includePrivate : Bool) (limit : Nat) : String :=
  (if includePrivate then "private" else "public") ++ ":" ++ toString limit ++ ":" ++
    (if project = "__all__" then "__all__" else normalizeProjectKey project)
def FeedOptions.cacheKey (options : FeedOptions) : String := buildFeedCacheKey options.project options.includePrivate options.limit

structure FeedCacheEntry where
  key : String
  rawItems : List FeedItem
  cursor : Option String
  hasMore : Bool
  deriving DecidableEq, Repr

-- A request as it was sent, with what its answer will be held against.
structure Request where
  id : Nat
  options : FeedOptions
  nextCursor : Option String
  append : Bool
  aborted : Bool
  deriving DecidableEq, Repr

structure Client where
  options : FeedOptions
  rawItems : List FeedItem
  cursor : Option String
  hasMore : Bool
  controller : Option Nat
  requestId : Nat
  sent : List Request
  feedCache : List FeedCacheEntry
  deriving DecidableEq, Repr

structure Page where
  items : List FeedItem
  nextCursor : Option String
  deriving DecidableEq, Repr

section
variable (client : Client)

def seedEntry : Option FeedCacheEntry :=
  let options := client.options
  if options.project = "__all__" then none
  else (KeyedList.get FeedCacheEntry.key (buildFeedCacheKey "__all__" options.includePrivate options.limit) client.feedCache).bind fun source =>
    let rawItems := source.rawItems.filter (fun item => projectMatchesSelection options.project (resolvedProjectKey item))
    if rawItems = [] then none else some ⟨options.cacheKey, rawItems, none, false⟩

-- `controllerRef.current.abort()`
def abort : Client := {client with
  controller := none
  sent := client.sent.map (fun request => if client.controller = some request.id then {request with aborted := true} else request)}

def send (nextCursor : Option String) (append : Bool) : Client :=
  let aborted := abort client
  {aborted with
    controller := some (client.requestId + 1)
    requestId := client.requestId + 1
    sent := aborted.sent ++ [⟨client.requestId + 1, client.options, nextCursor, append, false⟩]}

-- A further page waits for the request in flight, a first page cuts it off.
def fetchPage (nextCursor : Option String) (append : Bool) : Client :=
  if (truthy nextCursor).isSome && client.controller.isSome then client else send client nextCursor append

-- `applyCacheEntry`
def applyCacheEntry (rawItems : List FeedItem) (cursor : Option String) (hasMore : Bool) : Client := {client with rawItems, cursor, hasMore}

-- The effect of a new selection, or of a refresh, after the cleanup of the one before.
def select (options : FeedOptions) : Client :=
  let cleaned := {abort client with options}
  if options.enabled = false then applyCacheEntry cleaned [] none true
  else match KeyedList.get FeedCacheEntry.key options.cacheKey cleaned.feedCache with
    | some entry => fetchPage (applyCacheEntry cleaned entry.rawItems entry.cursor entry.hasMore) none false
    | none =>
      match seedEntry cleaned with
      | some seeded => fetchPage (applyCacheEntry cleaned seeded.rawItems seeded.cursor seeded.hasMore) none false
      | none => fetchPage (applyCacheEntry cleaned [] none true) none false

def loadMore : Client :=
  if client.hasMore = false || (truthy client.cursor).isNone || client.controller.isSome then client else fetchPage client client.cursor true

def stored (key : String) (rawItems : List FeedItem) (cursor : Option String) (hasMore : Bool) : Client := {client with
  rawItems, cursor, hasMore
  feedCache := KeyedList.put FeedCacheEntry.key ⟨key, rawItems, cursor, hasMore⟩ client.feedCache}

-- `controllerRef.current === controller`
def settle (id : Nat) : Client := {client with
  controller := if client.controller = some id then none else client.controller
  sent := client.sent.filter (fun request => request.id ≠ id)}

-- An answer that was cut off, or overtaken by a later request, is dropped.
def respond (id : Nat) (answer : Option Page) : Client :=
  match client.sent.find? (fun request => request.id = id) with
  | none => client
  | some request =>
    match answer with
    | none => settle client id
    | some page =>
      if request.aborted || request.id ≠ client.requestId then settle client id
      else
        let rawItems := mergeFeedItems (if request.append then client.rawItems else []) page.items false
        settle (stored client request.options.cacheKey rawItems page.nextCursor (truthy page.nextCursor).isSome) id

def isPrivateItem (item : FeedItem) : Bool := (item.privacyTags.getD []).any (fun tag => tag = "private" || tag = "sensitive")

def prependLiveItem (item : FeedItem) : Client :=
  if item.id = "" then client
  else if !projectMatchesSelection client.options.project (resolvedProjectKey item) then client
  else if !client.options.includePrivate && isPrivateItem item then client
  else stored client client.options.cacheKey (mergeFeedItems client.rawItems [item] true) client.cursor client.hasMore
end

inductive Move where
  | select (options : FeedOptions)
  | loadMore
  | respond (id : Nat) (answer : Option Page)
  | live (item : FeedItem)

def step (client : Client) : Move → Client
  | .select options => select client options
  | .loadMore => loadMore client
  | .respond id answer => respond client id answer
  | .live item => prependLiveItem client item

def initial : Client := ⟨⟨false, "__all__", false, 40⟩, [], none, true, none, 0, [], []⟩

-- Every request but the one in flight is cut off, and that one is the last sent, for the selection shown.
structure InFlight (client : Client) : Prop where
  current : ∀ request ∈ client.sent, request.aborted = false → client.controller = some request.id ∧ request.options = client.options
  latest : ∀ id, client.controller = some id → id = client.requestId
  known : ∀ request ∈ client.sent, request.id ≤ client.requestId
  unique : (client.sent.map Request.id).Nodup

theorem abortAll {client : Client} (inFlight : InFlight client) : ∀ request ∈ (abort client).sent, request.aborted = true := by
  intro request mem
  obtain ⟨old, held, rfl⟩ := List.mem_map.mp mem
  split
  · rfl
  · rename_i other
    by_contra live
    exact other (inFlight.current old held (Bool.eq_false_of_not_eq_true live)).1

theorem abortIds (client : Client) : (abort client).sent.map Request.id = client.sent.map Request.id := by
  unfold abort
  rw [List.map_map]
  refine List.map_congr_left fun request _ => ?_
  rw [Function.comp_apply]
  split <;> rfl

theorem abortKnown {client : Client} (inFlight : InFlight client) : ∀ request ∈ (abort client).sent, request.id ≤ client.requestId := by
  intro request mem
  have id : request.id ∈ client.sent.map Request.id := abortIds client ▸ List.mem_map_of_mem mem
  obtain ⟨old, held, same⟩ := List.mem_map.mp id
  exact same ▸ inFlight.known old held

theorem cleanedInFlight {client : Client} (inFlight : InFlight client) (options : FeedOptions) : InFlight {abort client with options} where
  current := fun request mem live => absurd (abortAll inFlight request mem) (by simp [live])
  latest := fun id flies => by cases flies
  known := abortKnown inFlight
  unique := (abortIds client).symm ▸ inFlight.unique

theorem sendInFlight {client : Client} (inFlight : InFlight client) (nextCursor : Option String) (append : Bool) :
    InFlight (send client nextCursor append) where
  current := by
    intro request mem live
    rcases List.mem_append.mp mem with old | new
    · exact absurd (abortAll inFlight request old) (by simp [live])
    · rw [List.mem_singleton.mp new]
      exact ⟨rfl, rfl⟩
  latest := fun id flies => (Option.some.inj flies).symm
  known := by
    intro request mem
    rcases List.mem_append.mp mem with old | new
    · exact (abortKnown inFlight request old).trans (Nat.le_succ _)
    · rw [List.mem_singleton.mp new]
      exact Nat.le_refl _
  unique := by
    unfold send
    simp only
    rw [List.map_append, abortIds]
    refine inFlight.unique.append (List.nodup_singleton _) (List.disjoint_singleton.mpr fun mem => ?_)
    obtain ⟨old, held, same⟩ := List.mem_map.mp mem
    have small := inFlight.known old held
    simp only at same
    omega

theorem fetchInFlight {client : Client} (inFlight : InFlight client) (nextCursor : Option String) (append : Bool) :
    InFlight (fetchPage client nextCursor append) := by
  unfold fetchPage
  split
  · exact inFlight
  · exact sendInFlight inFlight nextCursor append

-- The list, the cursor and the cache play no part.
theorem inFlightOf {client other : Client} (inFlight : InFlight client) (sent : other.sent = client.sent) (controller : other.controller = client.controller)
    (options : other.options = client.options) (requestId : other.requestId = client.requestId) : InFlight other where
  current := by
    rw [sent, controller, options]
    exact inFlight.current
  latest := by
    rw [controller, requestId]
    exact inFlight.latest
  known := by
    rw [sent, requestId]
    exact inFlight.known
  unique := by
    rw [sent]
    exact inFlight.unique

theorem settleInFlight {client : Client} (inFlight : InFlight client) (id : Nat) : InFlight (settle client id) where
  current := by
    intro request mem live
    obtain ⟨held, other⟩ := List.mem_filter.mp mem
    obtain ⟨current, options⟩ := inFlight.current request held live
    have apart : request.id ≠ id := by simpa using other
    refine ⟨?_, options⟩
    show (if client.controller = some id then none else client.controller) = some request.id
    rw [current, if_neg (fun same => apart (Option.some.inj same))]
  latest := by
    intro other flies
    have old : (if client.controller = some id then none else client.controller) = some other := flies
    split at old
    · cases old
    · exact inFlight.latest other old
  known := fun request mem => inFlight.known request (List.mem_of_mem_filter mem)
  unique := inFlight.unique.sublist (List.filter_sublist.map _)

theorem stepInFlight (client : Client) (move : Move) (inFlight : InFlight client) : InFlight (step client move) := by
  cases move with
  | select options =>
    have cleaned := cleanedInFlight inFlight options
    have applied : ∀ rawItems cursor hasMore, InFlight (applyCacheEntry {abort client with options} rawItems cursor hasMore) :=
      fun _ _ _ => inFlightOf cleaned rfl rfl rfl rfl
    show InFlight (select client options)
    unfold select
    simp only
    split
    · exact applied _ _ _
    split
    · exact fetchInFlight (applied _ _ _) _ _
    split
    · exact fetchInFlight (applied _ _ _) _ _
    · exact fetchInFlight (applied _ _ _) _ _
  | loadMore =>
    show InFlight (loadMore client)
    unfold loadMore
    split
    · exact inFlight
    · exact fetchInFlight inFlight _ _
  | respond id answer =>
    show InFlight (respond client id answer)
    unfold respond
    split
    · exact inFlight
    rename_i request _
    cases answer with
    | none => exact settleInFlight inFlight id
    | some page =>
      simp only
      split
      · exact settleInFlight inFlight id
      · have kept : InFlight (stored client request.options.cacheKey (mergeFeedItems (if request.append then client.rawItems else []) page.items false)
            page.nextCursor (truthy page.nextCursor).isSome) := inFlightOf inFlight rfl rfl rfl rfl
        exact settleInFlight kept id
  | live item =>
    show InFlight (prependLiveItem client item)
    unfold prependLiveItem
    split
    · exact inFlight
    split
    · exact inFlight
    split
    · exact inFlight
    · exact inFlightOf inFlight rfl rfl rfl rfl

theorem initialInFlight : InFlight initial := ⟨by simp [initial], by simp [initial], by simp [initial], List.nodup_nil⟩

-- What each cached list and the one shown are allowed to hold, by the key of the selection.
structure Contained (Fits : String → FeedItem → Prop) (client : Client) : Prop where
  shown : ∀ item ∈ client.rawItems, Fits client.options.cacheKey item
  cached : ∀ entry ∈ client.feedCache, ∀ item ∈ entry.rawItems, Fits entry.key item

structure Closed (Fits : String → FeedItem → Prop) : Prop where
  merged : ∀ key a b, Fits key a → Fits key b → Fits key (mergeFeedItem a b)
  seeded : ∀ (options : FeedOptions) item, options.project ≠ "__all__" →
    Fits (buildFeedCacheKey "__all__" options.includePrivate options.limit) item →
    projectMatchesSelection options.project (resolvedProjectKey item) = true → Fits options.cacheKey item
  live : ∀ (options : FeedOptions) item, projectMatchesSelection options.project (resolvedProjectKey item) = true →
    (options.includePrivate = false → isPrivateItem item = false) → Fits options.cacheKey item

def Answered (Fits : String → FeedItem → Prop) (client : Client) : Move → Prop
  | .respond id (some page) => ∀ request ∈ client.sent, request.id = id → ∀ item ∈ page.items, Fits request.options.cacheKey item
  | _ => True

theorem mergedForall {P : FeedItem → Prop} (merged : ∀ a b, P a → P b → P (mergeFeedItem a b)) {current incoming : List FeedItem} (prepend : Bool)
    (olds : ∀ item ∈ current, P item) (news : ∀ item ∈ incoming, P item) : ∀ item ∈ mergeFeedItems current incoming prepend, P item := by
  refine KeyedMerge.mergeAllForall merged (fun item mem => ?_) (fun item mem => by cases mem)
  have held := List.mem_of_mem_filter mem
  cases prepend with
  | true => exact (List.mem_append.mp held).elim (news item) (olds item)
  | false => exact (List.mem_append.mp held).elim (olds item) (news item)

section
variable {Fits : String → FeedItem → Prop}

theorem storedContained {client : Client} (contained : Contained Fits client) {rawItems : List FeedItem} (cursor : Option String) (hasMore : Bool)
    (fits : ∀ item ∈ rawItems, Fits client.options.cacheKey item) : Contained Fits (stored client client.options.cacheKey rawItems cursor hasMore) where
  shown := fits
  cached := by
    intro entry mem
    rcases KeyedList.memPut mem with rfl | old
    · exact fits
    · exact contained.cached entry old

theorem fetchContained {client : Client} (contained : Contained Fits client) (nextCursor : Option String) (append : Bool) :
    Contained Fits (fetchPage client nextCursor append) := by
  unfold fetchPage
  split
  · exact contained
  · exact ⟨contained.shown, contained.cached⟩

theorem seedOf {client : Client} {seeded : FeedCacheEntry} (found : seedEntry client = some seeded) {item : FeedItem} (mem : item ∈ seeded.rawItems) :
    client.options.project ≠ "__all__" ∧ ∃ source, KeyedList.get FeedCacheEntry.key
      (buildFeedCacheKey "__all__" client.options.includePrivate client.options.limit) client.feedCache = some source ∧
      item ∈ source.rawItems ∧ projectMatchesSelection client.options.project (resolvedProjectKey item) = true := by
  unfold seedEntry at found
  simp only at found
  split at found
  · cases found
  rename_i narrow
  obtain ⟨source, all, kept⟩ := Option.bind_eq_some_iff.mp found
  split at kept
  · cases kept
  · obtain rfl := Option.some.inj kept
    obtain ⟨held, matches_⟩ := List.mem_filter.mp mem
    exact ⟨narrow, source, all, held, matches_⟩

theorem seedCursor {client : Client} {seeded : FeedCacheEntry} (found : seedEntry client = some seeded) : seeded.cursor = none := by
  unfold seedEntry at found
  simp only at found
  split at found
  · cases found
  obtain ⟨source, _, kept⟩ := Option.bind_eq_some_iff.mp found
  split at kept
  · cases kept
  · exact Option.some.inj kept ▸ rfl

theorem stepContained (closed : Closed Fits) {client : Client} {move : Move} (inFlight : InFlight client) (answered : Answered Fits client move)
    (contained : Contained Fits client) : Contained Fits (step client move) := by
  cases move with
  | select options =>
    have applied : ∀ rawItems cursor hasMore, (∀ item ∈ rawItems, Fits options.cacheKey item) →
        Contained Fits (applyCacheEntry {abort client with options} rawItems cursor hasMore) :=
      fun _ _ _ fits => ⟨fits, contained.cached⟩
    show Contained Fits (select client options)
    unfold select
    simp only
    split
    · exact applied _ _ _ (fun item mem => by cases mem)
    split
    · rename_i entry found
      obtain ⟨mem, key⟩ := KeyedList.getMem found
      exact fetchContained (applied _ _ _ fun item held => key ▸ contained.cached entry mem item held) _ _
    split
    · rename_i seeded found
      refine fetchContained (applied _ _ _ fun item held => ?_) _ _
      obtain ⟨narrow, source, all, mem, matches_⟩ := seedOf found held
      obtain ⟨listed, key⟩ := KeyedList.getMem all
      exact closed.seeded options item narrow (key ▸ contained.cached source listed item mem) matches_
    · exact fetchContained (applied _ _ _ (fun item mem => by cases mem)) _ _
  | loadMore =>
    show Contained Fits (loadMore client)
    unfold loadMore
    split
    · exact contained
    · exact fetchContained contained _ _
  | respond id answer =>
    show Contained Fits (respond client id answer)
    unfold respond
    split
    · exact contained
    rename_i request found
    have sent := List.mem_of_find?_eq_some found
    have own : request.id = id := of_decide_eq_true (List.find?_some (p := fun request : Request => decide (request.id = id)) found)
    have settled : ∀ other : Client, Contained Fits other → Contained Fits (settle other id) := fun _ held => ⟨held.shown, held.cached⟩
    cases answer with
    | none => exact settled client contained
    | some page =>
      simp only
      split
      · exact settled client contained
      rename_i live
      rw [Bool.or_eq_true, not_or, Bool.not_eq_true] at live
      -- The answer taken is that of the request in flight, which is for the selection shown.
      rw [(inFlight.current request sent live.1).2]
      refine settled _ (storedContained contained _ _ (mergedForall (closed.merged _) false (fun item mem => ?_) fun item mem => ?_))
      · split at mem
        · exact contained.shown item mem
        · cases mem
      · exact (inFlight.current request sent live.1).2 ▸ answered request sent own item mem
  | live item =>
    show Contained Fits (prependLiveItem client item)
    unfold prependLiveItem
    split
    · exact contained
    split
    · exact contained
    rename_i matches_
    split
    · exact contained
    rename_i open_
    refine storedContained contained _ _ (mergedForall (closed.merged _) true contained.shown fun other mem => ?_)
    rw [List.mem_singleton.mp mem]
    refine closed.live _ item (by simpa using matches_) fun hidden => ?_
    simpa [hidden] using open_

theorem runContained (closed : Closed Fits) {moves : List Move} {client : Client} (inFlight : InFlight client) (contained : Contained Fits client)
    (answered : Runs.Throughout step (Answered Fits) client moves) : Contained Fits (Runs.run step client moves) := by
  induction moves generalizing client with
  | nil => exact contained
  | cons move rest ih => exact ih (stepInFlight client move inFlight) (stepContained closed inFlight answered.1 contained) answered.2

end

-- The server's side: the request as it arrives, and the items of its answer. `base` is what the caller's identity sets.
section
variable (host : Host) (canonicalizeProject : String → String) (base : Readers.FeedRequest) (Times : Feed.Moment → Prop)

def serverRequest (options : FeedOptions) : Readers.FeedRequest := {base with
  project := if options.project = "__all__" then none else truthy (some options.project)
  projectMembers := none
  type := none
  includePrivate := options.includePrivate
  includeArchived := false
  memoryType := none}

def feedItem (db : Db) (row : Observation) : FeedItem :=
  let eventType := (truthy (Readers.eventType db row)).getD "unknown"
  { id := row.id
    eventId := row.eventId
    platform := some row.platform
    project := some row.project
    canonicalProject := some (canonicalizeProject row.project)
    sessionId := some row.sessionId
    eventType := some eventType
    cardType := some (if eventType = "session_end" then "session_summary" else eventType)
    title := some ((truthy row.title).getD eventType)
    content := some (Text.slice row.contentRedacted 0 1200)
    summary := none
    createdAt := some row.createdAt
    tags := some (Visibility.parseArrayJson host row.tagsJson)
    privacyTags := some (Visibility.parseArrayJson host row.privacyTagsJson) }

-- What the server may answer to a request, with its tables as they are at one of its moments.
def Answers (request : Request) (page : Page) : Prop := ∃ m answer, Times m ∧ m.limit = .fin request.options.limit ∧
  Feed.pageAt host (serverRequest base request.options) request.nextCursor m = .ok answer ∧
  page = ⟨answer.rows.map (feedItem host canonicalizeProject m.db), answer.nextCursor⟩

def Served (client : Client) : Move → Prop
  | .respond id (some page) => ∀ request ∈ client.sent, request.id = id → Answers host canonicalizeProject base Times request page
  | _ => True

end

theorem stringArrayForall {P : String → Prop} {primary secondary : Option (List String)} (first : ∀ value ∈ primary.getD [], P value)
    (second : ∀ value ∈ secondary.getD [], P value) : ∀ value ∈ mergeStringArray primary secondary, P value := by
  refine KeyedMerge.mergeAllForall (fun _ _ held _ => held) (fun value mem => ?_) (fun value mem => by cases mem)
  exact (List.mem_append.mp (List.mem_of_mem_filter mem)).elim (first value) (second value)

theorem privateOf {item : FeedItem} : isPrivateItem item = false ↔ ∀ tag ∈ item.privacyTags.getD [], tag ≠ "private" ∧ tag ≠ "sensitive" := by
  simp [isPrivateItem]

theorem mergedPublic {a b : FeedItem} (first : isPrivateItem a = false) (second : isPrivateItem b = false) :
    isPrivateItem (mergeFeedItem a b) = false :=
  privateOf.mpr (stringArrayForall (privateOf.mp first) (privateOf.mp second))

theorem publicKey (project : String) (includePrivate : Bool) (limit : Nat) :
    startsWith (buildFeedCacheKey project includePrivate limit) "public:" = !includePrivate := by
  unfold startsWith buildFeedCacheKey
  simp only [String.toList_append]
  cases includePrivate <;> rfl

def Public (key : String) (item : FeedItem) : Prop := startsWith key "public:" = true → isPrivateItem item = false

theorem publicClosed : Closed Public where
  merged := fun _ _ _ first second is => mergedPublic (first is) (second is)
  seeded := fun options item _ all _ is => all (by rw [publicKey]; rwa [FeedOptions.cacheKey, publicKey] at is)
  live := fun options item _ hidden is => hidden (by rw [FeedOptions.cacheKey, publicKey] at is; simpa using is)

section
variable {host : Host} {canonicalizeProject : String → String} {base : Readers.FeedRequest} {Times : Feed.Moment → Prop}

theorem pageRow {settings : Search.Settings} {access : Option Readers.AccessFilter} {request : Readers.FeedRequest} {cursor : Option String}
    {db : Db} {page : Feed.FeedPage} (answer : Feed.feedPage host settings access request cursor db = .ok page) {row : Observation}
    (mem : row ∈ page.rows) : row ∈ db.observations ∧ Visibility.visibilityFilter host request.includePrivate row = true := by
  cases on : settings.retrievalEnabled with
  | false =>
    rw [Feed.feedPage, if_pos on] at answer
    obtain rfl := Except.ok.inj answer
    cases mem
  | true =>
    obtain ⟨members, _, same, _⟩ := Feed.feedPageOk host settings access on answer
    rw [show page.rows = _ from congrArg Prod.fst same] at mem
    obtain ⟨held, kept⟩ := List.mem_filter.mp (Keyset.pageMem mem).1
    simp only [Readers.feedFilter, Bool.and_eq_true] at kept
    tauto

theorem visibleTags {row : Observation} (visible : Visibility.visibilityFilter host false row = true) :
    ∀ tag ∈ Visibility.parseArrayJson host row.privacyTagsJson, tag ≠ "private" ∧ tag ≠ "sensitive" := by
  unfold Visibility.visibilityFilter at visible
  unfold Visibility.parseArrayJson
  rw [Bool.false_or] at visible
  split
  · exact fun tag mem => by cases mem
  cases parsed : host.parseJson row.privacyTagsJson with
  | none => exact fun tag mem => by cases mem
  | some value =>
    rw [parsed] at visible
    cases value with
    | arr items =>
      intro tag mem
      obtain ⟨item, held, is⟩ := List.mem_filterMap.mp mem
      have plain : ∀ item ∈ items, Visibility.hiddenText item = false := by simpa [Visibility.values] using visible
      have open_ := plain item held
      cases item with
      | str text =>
        obtain rfl := Option.some.inj is
        refine ⟨fun same => ?_, fun same => ?_⟩
        · rw [same] at open_
          exact absurd open_ (by decide +kernel)
        · rw [same] at open_
          exact absurd open_ (by decide +kernel)
      | _ => cases is
    | _ => exact fun tag mem => by cases mem

theorem answersPublic {request : Request} {page : Page} (answers : Answers host canonicalizeProject base Times request page)
    (hidden : request.options.includePrivate = false) : ∀ item ∈ page.items, isPrivateItem item = false := by
  obtain ⟨m, answer, _, _, ok, rfl⟩ := answers
  intro item mem
  obtain ⟨row, held, rfl⟩ := List.mem_map.mp mem
  have visible := (pageRow ok held).2
  exact privateOf.mpr (visibleTags (hidden ▸ visible))

theorem servedPublic {client : Client} {move : Move} (served : Served host canonicalizeProject base Times client move) :
    Answered Public client move := by
  cases move with
  | respond id answer =>
    cases answer with
    | none => trivial
    | some page => exact fun request sent own item mem is =>
        answersPublic (served request sent own) (by rw [FeedOptions.cacheKey, publicKey] at is; simpa using is) item mem
  | _ => trivial

-- Whatever the order the answers come in, a list shown or cached without private memories has none.
theorem publicOnly {moves : List Move} (served : Runs.Throughout step (Served host canonicalizeProject base Times) initial moves) :
    ((Runs.run step initial moves).options.includePrivate = false → ∀ item ∈ (Runs.run step initial moves).rawItems, isPrivateItem item = false) ∧
    ∀ entry ∈ (Runs.run step initial moves).feedCache, startsWith entry.key "public:" = true → ∀ item ∈ entry.rawItems, isPrivateItem item = false := by
  have empty : Contained Public initial := ⟨by simp [initial], by simp [initial]⟩
  have contained := runContained publicClosed initialInFlight empty (Runs.throughoutImp step (fun _ _ _ => servedPublic) served)
  refine ⟨fun hidden item mem => contained.shown item mem ?_, fun entry mem is item held => contained.cached entry mem item held is⟩
  rw [FeedOptions.cacheKey, publicKey, hidden]
  rfl

def tagHost : Host := {plainHost with parseJson := fun text => some (.arr (if text = "[]" then [] else [.str "private"]))}
def tagged (id privacyTagsJson : String) : Observation := {Feed.dated id "2026" with privacyTagsJson := privacyTagsJson}
def taggedMoment : Feed.Moment where
  settings := Search.plainSettings
  access := none
  db := {Db.empty with observations := [tagged "a" "[]", tagged "b" "[\"private\"]"]}
  limit := .fin 40
  keyed := by decide
def everything (includePrivate : Bool) (limit : Nat) : FeedOptions := ⟨true, "__all__", includePrivate, limit⟩

def pageRows (includePrivate : Bool) : List Observation :=
  if includePrivate then [tagged "b" "[\"private\"]", tagged "a" "[]"] else [tagged "a" "[]"]
def pageOf (includePrivate : Bool) : Page := ⟨(pageRows includePrivate).map (feedItem tagHost id taggedMoment.db), none⟩

deriving instance DecidableEq for Feed.FeedPage

def overtaken : List Move :=
  [.select (everything true 40), .select (everything false 40), .respond 1 (some (pageOf true)), .respond 2 (some (pageOf false))]

theorem publicOvertaken : (∀ item ∈ (Runs.run step initial overtaken).rawItems, isPrivateItem item = false) ∧
    (Runs.run step initial overtaken).rawItems.map FeedItem.id = ["a"] := by
  have page : ∀ includePrivate, Feed.pageAt tagHost (serverRequest Feed.openRequest (everything includePrivate 40)) none taggedMoment =
      .ok ⟨pageRows includePrivate, false, none⟩ := by
    intro includePrivate
    cases includePrivate <;> decide +kernel
  have answers : ∀ place includePrivate cut, Answers tagHost id Feed.openRequest (fun m => m = taggedMoment)
      ⟨place, everything includePrivate 40, none, false, cut⟩ (pageOf includePrivate) :=
    fun _ includePrivate _ => ⟨taggedMoment, _, rfl, rfl, page includePrivate, rfl⟩
  have served : Runs.Throughout step (Served tagHost id Feed.openRequest (fun m => m = taggedMoment)) initial overtaken := by
    refine ⟨trivial, trivial, fun request sent own => ?_, fun request sent own => ?_, trivial⟩
    · have asked : request ∈ [⟨1, everything true 40, none, false, true⟩, (⟨2, everything false 40, none, false, false⟩ : Request)] := sent
      rcases List.mem_pair.mp asked with rfl | rfl
      · exact answers _ _ _
      · cases own
    · have asked : request ∈ [(⟨2, everything false 40, none, false, false⟩ : Request)] := sent
      rw [List.mem_singleton.mp asked]
      exact answers _ _ _
  exact ⟨(publicOnly served).1 rfl, by decide⟩

-- A traversal that has come to `cursor`, over some of the server's moments: the rows of its pages so far.
def Reached (host : Host) (Times : Feed.Moment → Prop) (request : Readers.FeedRequest) (cursor : Option String) (visited : List Observation) : Prop :=
  ∃ moments, (∀ m ∈ moments, Times m) ∧ ∀ more, Feed.follow host request none (moments ++ more) =
    (Feed.follow host request cursor more).map fun later => (visited ++ later.1, later.2)

theorem reachedStart (request : Readers.FeedRequest) : Reached host Times request none [] :=
  ⟨[], List.forall_mem_nil _, fun more => by simp⟩

section
variable {request : Readers.FeedRequest} {cursor : Option String} {visited : List Observation} {m : Feed.Moment} {page : Feed.FeedPage}

theorem reachedNext (reached : Reached host Times request cursor visited) (at_ : Times m)
    (answer : Feed.pageAt host request cursor m = .ok page) {next : String} (goes : page.nextCursor = some next) :
    Reached host Times request (some next) (visited ++ page.rows) := by
  obtain ⟨moments, times, follows⟩ := reached
  refine ⟨moments ++ [m], fun other mem => ?_, fun more => ?_⟩
  · rcases List.mem_append.mp mem with old | new
    · exact times other old
    · exact List.mem_singleton.mp new ▸ at_
  · rw [List.append_assoc, List.singleton_append, follows, Feed.follow, answer]
    simp only [goes, Option.map_map, Function.comp_def, List.append_assoc]

theorem reachedEnd (reached : Reached host Times request cursor visited) (at_ : Times m)
    (answer : Feed.pageAt host request cursor m = .ok page) (ends : page.nextCursor = none) :
    ∃ moments, (∀ m ∈ moments, Times m) ∧ Feed.follow host request none moments = some (visited ++ page.rows, page.hasMore) := by
  obtain ⟨moments, times, follows⟩ := reached
  refine ⟨moments ++ [m], fun other mem => ?_, ?_⟩
  · rcases List.mem_append.mp mem with old | new
    · exact times other old
    · exact List.mem_singleton.mp new ▸ at_
  · rw [follows, Feed.follow, answer]
    simp [ends]
end

-- A list with a cursor holds the rows of a traversal up to it.
def Listed (host : Host) (base : Readers.FeedRequest) (Times : Feed.Moment → Prop) (options : FeedOptions) (rawItems : List FeedItem)
    (cursor : Option String) : Prop :=
  ∃ visited, Reached host Times (serverRequest base options) cursor visited ∧ ∀ row ∈ visited, row.id ≠ "" → row.id ∈ rawItems.map FeedItem.id

theorem mergedKey (held item : FeedItem) (same : held.id = item.id) : (mergeFeedItem held item).id = held.id := by
  unfold mergeFeedItem
  split
  · rfl
  · exact same.symm

theorem mergedKeys {k : String} {current incoming : List FeedItem} {prepend : Bool} :
    k ∈ (mergeFeedItems current incoming prepend).map FeedItem.id ↔ k ≠ "" ∧ (k ∈ current.map FeedItem.id ∨ k ∈ incoming.map FeedItem.id) := by
  have order : k ∈ ((if prepend then incoming ++ current else current ++ incoming).filter (fun item => item.id ≠ "")).map FeedItem.id ↔
      k ≠ "" ∧ (k ∈ current.map FeedItem.id ∨ k ∈ incoming.map FeedItem.id) := by
    cases prepend <;> simp only [List.mem_map, List.mem_filter, List.mem_append, Bool.false_eq_true, if_true, if_false] <;> grind
  unfold mergeFeedItems
  rw [KeyedMerge.memMergeAllKeys mergedKey, List.map_nil, ← order]
  simp

theorem listedOf {options other : FeedOptions} {rawItems wider : List FeedItem} {cursor : Option String}
    (listed : Listed host base Times options rawItems cursor) (same : serverRequest base other = serverRequest base options)
    (grown : ∀ k ≠ "", k ∈ rawItems.map FeedItem.id → k ∈ wider.map FeedItem.id) : Listed host base Times other wider cursor := by
  obtain ⟨visited, reached, all⟩ := listed
  exact ⟨visited, same ▸ reached, fun row mem named => grown row.id named (all row mem named)⟩

-- What is shown and cached, and what the request in flight asks for, while projects are selected from `Selected`.
structure Paged (host : Host) (base : Readers.FeedRequest) (Times : Feed.Moment → Prop) (Selected : FeedOptions → Prop) (client : Client) : Prop where
  shown : ∀ next, client.cursor = some next → Selected client.options ∧ Listed host base Times client.options client.rawItems (some next)
  cached : ∀ entry ∈ client.feedCache, ∀ next, entry.cursor = some next → ∀ options, Selected options → options.cacheKey = entry.key →
    Listed host base Times options entry.rawItems (some next)
  asked : ∀ request ∈ client.sent, request.aborted = false → Selected request.options ∧
    if request.append then request.nextCursor.isSome ∧ request.nextCursor = client.cursor else request.nextCursor = none

def Spelled (Selected : FeedOptions → Prop) : Prop :=
  ∀ a b, Selected a → Selected b → normalizeProjectKey a.project = normalizeProjectKey b.project → a.project = b.project

theorem keyProject (project : String) : (if project = "__all__" then "__all__" else normalizeProjectKey project) = normalizeProjectKey project := by
  split
  · rename_i all
    rw [all]
    decide
  · rfl

theorem keyRequest {Selected : FeedOptions → Prop} (spelled : Spelled Selected) {a b : FeedOptions} (first : Selected a) (second : Selected b)
    (same : a.cacheKey = b.cacheKey) : serverRequest base a = serverRequest base b := by
  have word : ∀ is : Bool, ':' ∉ (if is then "private" else "public").toList := by decide
  have digits : ∀ n : Nat, ':' ∉ (toString n).toList := by
    intro n mem
    rw [show (toString n).toList = Nat.toDigits 10 n by simp] at mem
    exact absurd (Nat.isDigit_of_mem_toDigits (by decide) (by decide) mem) (by decide)
  have chars := congrArg String.toList same
  simp only [FeedOptions.cacheKey, buildFeedCacheKey, String.toList_append, List.append_assoc, keyProject] at chars
  obtain ⟨kind, rest⟩ := LineStream.fieldEnds ':' (word a.includePrivate) (word b.includePrivate) chars
  obtain ⟨_, keys⟩ := LineStream.fieldEnds ':' (digits a.limit) (digits b.limit) rest
  have private_ : a.includePrivate = b.includePrivate := by
    cases left : a.includePrivate <;> cases right : b.includePrivate
    · rfl
    · rw [left, right] at kind
      exact absurd kind (by decide)
    · rw [left, right] at kind
      exact absurd kind (by decide)
    · rfl
  rw [serverRequest, serverRequest, private_, spelled a b first second (String.toList_inj.mp keys)]

section
variable {Selected : FeedOptions → Prop} (spelled : Spelled Selected) {client : Client}

theorem sendPaged (inFlight : InFlight client) (paged : Paged host base Times Selected client) {nextCursor : Option String} {append : Bool}
    (selected : Selected client.options)
    (asks : if append then nextCursor.isSome ∧ nextCursor = client.cursor else nextCursor = none) :
    Paged host base Times Selected (send client nextCursor append) where
  shown := paged.shown
  cached := paged.cached
  asked := by
    intro request mem live
    rcases List.mem_append.mp mem with old | new
    · exact absurd (abortAll inFlight request old) (by simp [live])
    · rw [List.mem_singleton.mp new]
      exact ⟨selected, asks⟩

theorem freshPaged (inFlight : InFlight client) (paged : Paged host base Times Selected client) (selected : Selected client.options) :
    Paged host base Times Selected (fetchPage client none false) := sendPaged inFlight paged selected rfl

theorem settlePaged (paged : Paged host base Times Selected client) (id : Nat) : Paged host base Times Selected (settle client id) where
  shown := paged.shown
  cached := paged.cached
  asked := fun request mem => paged.asked request (List.mem_of_mem_filter mem)

include spelled in
theorem storedPaged (paged : Paged host base Times Selected client) {rawItems : List FeedItem} {cursor : Option String} (hasMore : Bool)
    (listed : ∀ next, cursor = some next → Selected client.options ∧ Listed host base Times client.options rawItems (some next))
    (asked : ∀ request ∈ client.sent, request.aborted = false → Selected request.options ∧
      if request.append then request.nextCursor.isSome ∧ request.nextCursor = cursor else request.nextCursor = none) :
    Paged host base Times Selected (stored client client.options.cacheKey rawItems cursor hasMore) where
  shown := listed
  cached := by
    intro entry mem next goes options selected key
    rcases KeyedList.memPut mem with rfl | old
    · obtain ⟨own, holds⟩ := listed next goes
      exact listedOf holds (keyRequest spelled selected own key) (fun _ _ held => held)
    · exact paged.cached entry old next goes options selected key
  asked := asked

-- Once the request in flight is answered, none is.
theorem settledCut (inFlight : InFlight client) {request other : Request} (sent : request ∈ client.sent) (live : request.aborted = false)
    (mem : other ∈ (settle client request.id).sent) : other.aborted = true := by
  obtain ⟨held, apart⟩ := List.mem_filter.mp mem
  by_contra flies
  have same := (inFlight.current request sent live).1.symm.trans (inFlight.current other held (Bool.eq_false_of_not_eq_true flies)).1
  exact absurd (Option.some.inj same).symm (by simpa using apart)

-- What the request in flight asks for goes on where the list that its answer is joined to ends.
theorem askedListed (inFlight : InFlight client) (paged : Paged host base Times Selected client) {request : Request} (sent : request ∈ client.sent)
    (live : request.aborted = false) :
    Listed host base Times request.options (if request.append then client.rawItems else []) request.nextCursor := by
  have asks := (paged.asked request sent live).2
  split at asks
  · rename_i append
    obtain ⟨next, goes⟩ := Option.isSome_iff_exists.mp asks.1
    rw [if_pos append, (inFlight.current request sent live).2, goes]
    exact (paged.shown next (asks.2 ▸ goes)).2
  · rw [asks]
    exact ⟨[], reachedStart _, List.forall_mem_nil _⟩

theorem answeredListed (inFlight : InFlight client) (paged : Paged host base Times Selected client) {request : Request} (sent : request ∈ client.sent)
    (live : request.aborted = false) {page : Page} (answers : Answers host canonicalizeProject base Times request page) :
    (∀ next, page.nextCursor = some next → Listed host base Times request.options
      (mergeFeedItems (if request.append then client.rawItems else []) page.items false) (some next)) := by
  obtain ⟨m, answer, at_, _, ok, rfl⟩ := answers
  intro next goes
  obtain ⟨visited, reached, held⟩ := askedListed inFlight paged sent live
  refine ⟨_, reachedNext reached at_ ok goes, fun row mem named => mergedKeys.mpr ⟨named, ?_⟩⟩
  rcases List.mem_append.mp mem with old | new
  · exact .inl (held row old named)
  · exact .inr (List.mem_map.mpr ⟨_, List.mem_map_of_mem new, rfl⟩)

def Move.From (Selected : FeedOptions → Prop) : Move → Prop
  | .select options => Selected options
  | _ => True

include spelled in
theorem stepPaged {move : Move} (inFlight : InFlight client) (from_ : move.From Selected)
    (served : Served host canonicalizeProject base Times client move) (paged : Paged host base Times Selected client) :
    Paged host base Times Selected (step client move) := by
  cases move with
  | select options =>
    have cleaned := cleanedInFlight inFlight options
    have applied : ∀ rawItems cursor hasMore, (∀ next, cursor = some next → Listed host base Times options rawItems (some next)) →
        Paged host base Times Selected (applyCacheEntry {abort client with options} rawItems cursor hasMore) := by
      intro rawItems cursor hasMore listed
      refine ⟨fun next goes => ⟨from_, listed next goes⟩, paged.cached, fun request mem live => ?_⟩
      exact absurd (abortAll inFlight request mem) (by simp [live])
    have fresh : ∀ rawItems cursor hasMore, (∀ next, cursor = some next → Listed host base Times options rawItems (some next)) →
        Paged host base Times Selected (fetchPage (applyCacheEntry {abort client with options} rawItems cursor hasMore) none false) :=
      fun rawItems cursor hasMore listed =>
        freshPaged (inFlightOf cleaned rfl rfl rfl rfl) (applied rawItems cursor hasMore listed) from_
    show Paged host base Times Selected (select client options)
    unfold select
    simp only
    split
    · exact applied _ _ _ (fun next goes => by cases goes)
    split
    · rename_i entry found
      obtain ⟨mem, key⟩ := KeyedList.getMem found
      exact fresh _ _ _ fun next goes => paged.cached entry mem next goes options from_ key.symm
    split
    · rename_i seeded found
      exact fresh _ _ _ fun next goes => absurd (seedCursor found) (by simp [goes])
    · exact fresh _ _ _ (fun next goes => by cases goes)
  | loadMore =>
    show Paged host base Times Selected (loadMore client)
    unfold loadMore
    split
    · exact paged
    rename_i ready
    rw [Bool.or_eq_true, Bool.or_eq_true, not_or, not_or] at ready
    obtain ⟨⟨_, more⟩, idle⟩ := ready
    have sends : fetchPage client client.cursor true = send client client.cursor true := if_neg (by simp [idle])
    obtain ⟨next, goes⟩ : ∃ next, client.cursor = some next := by
      cases goes : client.cursor with
      | none => exact absurd (by rw [goes]; rfl) more
      | some next => exact ⟨next, rfl⟩
    rw [sends]
    exact sendPaged inFlight paged (paged.shown next goes).1 ⟨goes ▸ rfl, rfl⟩
  | respond id answer =>
    show Paged host base Times Selected (respond client id answer)
    unfold respond
    split
    · exact paged
    rename_i request found
    have sent := List.mem_of_find?_eq_some found
    have own : request.id = id := of_decide_eq_true (List.find?_some (p := fun request : Request => decide (request.id = id)) found)
    cases answer with
    | none => exact settlePaged paged id
    | some page =>
      simp only
      split
      · exact settlePaged paged id
      rename_i live
      rw [Bool.or_eq_true, not_or, Bool.not_eq_true] at live
      have shown := (inFlight.current request sent live.1).2
      have listed := answeredListed inFlight paged sent live.1 (served request sent own)
      subst own
      rw [shown] at listed ⊢
      exact storedPaged spelled (settlePaged paged request.id) _
        (fun next goes => ⟨shown ▸ (paged.asked request sent live.1).1, listed next goes⟩)
        (fun other mem flies => absurd (settledCut inFlight sent live.1 mem) (by simp [flies]))
  | live item =>
    show Paged host base Times Selected (prependLiveItem client item)
    unfold prependLiveItem
    split
    · exact paged
    split
    · exact paged
    split
    · exact paged
    refine storedPaged spelled paged _ (fun next goes => ?_) paged.asked
    obtain ⟨own, listed⟩ := paged.shown next goes
    exact ⟨own, listedOf listed rfl fun k named held => mergedKeys.mpr ⟨named, .inl held⟩⟩
end

theorem mergedOnce {k : String} {current incoming : List FeedItem} {prepend : Bool} (named : k ≠ "")
    (held : k ∈ current.map FeedItem.id ∨ k ∈ incoming.map FeedItem.id) :
    (mergeFeedItems current incoming prepend).countP (fun item => item.id == k) = 1 := by
  have none : (([] : List FeedItem).map FeedItem.id).Nodup := List.nodup_nil
  have unique : ((mergeFeedItems current incoming prepend).map FeedItem.id).Nodup := KeyedMerge.mergeAllUnique mergedKey none _
  have counted := List.count_eq_one_of_mem unique (mergedKeys.mpr ⟨named, held⟩)
  rwa [List.count, List.countP_map] at counted

def Move.isSelect : Move → Bool
  | .select _ => true
  | _ => false

-- A list read to its end, with no request under way, that has one item of the given id.
structure Whole (id : String) (client : Client) : Prop where
  cut : ∀ request ∈ client.sent, request.aborted = true
  ended : client.hasMore = false
  once : client.rawItems.countP (fun item => item.id == id) = 1

theorem settleWhole {id : String} {client : Client} (whole : Whole id client) (other : Nat) : Whole id (settle client other) where
  cut := fun request mem => whole.cut request (List.mem_of_mem_filter mem)
  ended := whole.ended
  once := whole.once

theorem stepWhole {id : String} (named : id ≠ "") (client : Client) (move : Move) (stays : move.isSelect = false) (whole : Whole id client) :
    Whole id (step client move) := by
  cases move with
  | select options => cases stays
  | loadMore =>
    show Whole id (loadMore client)
    rw [loadMore, if_pos (by simp [whole.ended])]
    exact whole
  | respond other answer =>
    show Whole id (respond client other answer)
    unfold respond
    split
    · exact whole
    rename_i request found
    have cut := whole.cut request (List.mem_of_find?_eq_some found)
    cases answer with
    | none => exact settleWhole whole other
    | some page =>
      simp only
      rw [if_pos (by simp [cut])]
      exact settleWhole whole other
  | live item =>
    show Whole id (prependLiveItem client item)
    unfold prependLiveItem
    split
    · exact whole
    split
    · exact whole
    split
    · exact whole
    · obtain ⟨held, mem, same⟩ := List.countP_pos_iff.mp (Nat.lt_of_lt_of_eq Nat.zero_lt_one whole.once.symm)
      exact ⟨whole.cut, whole.ended, mergedOnce named (.inl (List.mem_map.mpr ⟨held, mem, eq_of_beq same⟩))⟩

-- What the traversal relies on: the server answers, and a row's place is one that a cursor can name.
structure Ready (host : Host) (Times : Feed.Moment → Prop) : Prop where
  enabled : ∀ m, Times m → m.settings.retrievalEnabled = true
  placed : ∀ m, Times m → ∀ row ∈ m.db.observations, row.id ≠ "" ∧ row.createdAt ≠ ""
  reads : ∀ m, Times m → ∀ row ∈ m.db.observations, Feed.Reads host ⟨row.createdAt, row.id⟩

section
variable {Selected : FeedOptions → Prop} (spelled : Spelled Selected) (ready : Ready host Times)

include ready in
theorem respondWhole {client : Client} (inFlight : InFlight client) (paged : Paged host base Times Selected client) {request : Request}
    (sent : request ∈ client.sent) (live : request.aborted = false) {page : Page}
    (answers : Answers host canonicalizeProject base Times request page) (last : page.nextCursor = none) {id createdAt : String}
    (there : ∀ m, Times m → ∃ row, Feed.Meets host (serverRequest base client.options) m row ∧ row.id = id ∧ row.createdAt = createdAt) :
    Whole id (respond client request.id (some page)) := by
  obtain ⟨m, answer, at_, _, ok, rfl⟩ := answers
  obtain ⟨flies, shown⟩ := inFlight.current request sent live
  obtain ⟨visited, reached, held⟩ := askedListed inFlight paged sent live
  obtain ⟨moments, times, done⟩ := reachedEnd reached at_ ok last
  have whole : answer.hasMore = false := by
    by_contra more
    obtain ⟨row, ends, blank⟩ := Feed.pageCursor ok (Bool.eq_true_of_not_eq_false more) last
    obtain ⟨id, date⟩ := ready.placed m at_ row (pageRow ok (List.mem_of_getLast? ends)).1
    exact blank.elim date id
  rw [whole] at done
  have complete := Feed.followComplete (fun m mem => ready.reads m (times m mem)) (fun m mem => ready.enabled m (times m mem)) done
  have once := complete.once id createdAt fun m mem => shown ▸ there m (times m mem)
  obtain ⟨row, mem, same⟩ := List.countP_pos_iff.mp (Nat.lt_of_lt_of_eq Nat.zero_lt_one once.symm)
  have named : id ≠ "" := by
    obtain ⟨row, ⟨members, _, meets⟩, rfl, _⟩ := there m at_
    exact (ready.placed m at_ row (Feed.matchingMem meets)).1
  have listed : id ∈ (if request.append then client.rawItems else []).map FeedItem.id ∨
      id ∈ (answer.rows.map (feedItem host canonicalizeProject m.db)).map FeedItem.id := by
    obtain rfl := eq_of_beq same
    exact (List.mem_append.mp mem).imp (fun old => held row old named) (fun new => List.mem_map.mpr ⟨_, List.mem_map_of_mem new, rfl⟩)
  have found : client.sent.find? (fun other => other.id = request.id) = some request := by
    have some : (client.sent.find? (fun other => other.id = request.id)).isSome := by
      rw [List.find?_isSome]
      exact ⟨request, sent, decide_eq_true rfl⟩
    obtain ⟨other, found⟩ := Option.isSome_iff_exists.mp some
    have same := of_decide_eq_true (List.find?_some (p := fun other : Request => decide (other.id = request.id)) found)
    rw [found, List.inj_on_of_nodup_map inFlight.unique (List.mem_of_find?_eq_some found) sent same]
  rw [respond, found]
  simp only
  rw [if_neg (by simp [live, inFlight.latest request.id flies])]
  exact ⟨fun other mem => settledCut inFlight sent live mem, by rw [show answer.nextCursor = none from last]; rfl, mergedOnce named listed⟩

include spelled in
theorem runPaged {moves : List Move} {client : Client} (inFlight : InFlight client) (paged : Paged host base Times Selected client)
    (selected : ∀ move ∈ moves, move.From Selected) (served : Runs.Throughout step (Served host canonicalizeProject base Times) client moves) :
    InFlight (Runs.run step client moves) ∧ Paged host base Times Selected (Runs.run step client moves) := by
  induction moves generalizing client with
  | nil => exact ⟨inFlight, paged⟩
  | cons move rest ih =>
    obtain ⟨own, later⟩ := List.forall_mem_cons.mp selected
    exact ih (stepInFlight client move inFlight) (stepPaged spelled inFlight own served.1 paged) later served.2

-- A list read to its last page has each memory that met the selection all along, once, and keeps it until the next selection.
include spelled ready in
theorem listComplete {before after : List Move} {request : Request} {page : Page}
    (selected : ∀ move ∈ before, move.From Selected) (served : Runs.Throughout step (Served host canonicalizeProject base Times) initial before)
    (sent : request ∈ (Runs.run step initial before).sent) (live : request.aborted = false)
    (answers : Answers host canonicalizeProject base Times request page) (last : page.nextCursor = none)
    (stays : ∀ move ∈ after, move.isSelect = false) {id createdAt : String}
    (there : ∀ m, Times m → ∃ row, Feed.Meets host (serverRequest base (Runs.run step initial before).options) m row ∧
      row.id = id ∧ row.createdAt = createdAt) :
    (Runs.run step initial (before ++ .respond request.id (some page) :: after)).rawItems.countP (fun item => item.id == id) = 1 := by
  have empty : Paged host base Times Selected initial := ⟨by simp [initial], by simp [initial], by simp [initial]⟩
  obtain ⟨inFlight, paged⟩ := runPaged spelled initialInFlight empty selected served
  have whole := respondWhole ready inFlight paged sent live answers last there
  have named : id ≠ "" := by
    obtain ⟨m, _, at_, _⟩ := answers
    obtain ⟨row, ⟨members, _, meets⟩, rfl, _⟩ := there m at_
    exact (ready.placed m at_ row (Feed.matchingMem meets)).1
  rw [Runs.runAppend, Runs.runCons]
  exact (Runs.invariantOn step (stepWhole named) whole after stays).once
end

end

def secondPage : Request := ⟨2, everything true 1, some (Feed.encodeFeedCursor ⟨"2026", "b"⟩), true, false⟩
def twoRows : Feed.Moment := Feed.moment true (.fin 1) "2026"
def lineOf (id : String) : FeedItem := feedItem Feed.cursorHost (fun project => project) twoRows.db (Feed.dated id "2026")
def firstRead : List Move :=
  [.select (everything true 1), .respond 1 (some ⟨[lineOf "b"], some (Feed.encodeFeedCursor ⟨"2026", "b"⟩)⟩), .live (lineOf "c"), .loadMore]


theorem listTwoPages : (Runs.run step initial (firstRead ++ .respond 2 (some ⟨[lineOf "a"], none⟩) :: [.live (lineOf "b"), .loadMore])).rawItems.countP
    (fun item => item.id == "b") = 1 := by
  have ready : Ready Feed.cursorHost (fun m => m = twoRows) := by
    have rows : ∀ row ∈ twoRows.db.observations, row = Feed.dated "a" "2026" ∨ row = Feed.dated "b" "2026" := fun row mem => List.mem_pair.mp mem
    refine ⟨fun m is => is ▸ rfl, fun m is row mem => ?_, fun m is row mem => ?_⟩
    · subst is
      rcases rows row mem with rfl | rfl <;> exact ⟨by decide, by decide⟩
    · subst is
      rcases rows row mem with rfl | rfl <;> rfl
  have spelled : Spelled (fun options => options.project = "__all__") := fun a b first second _ => first.trans second.symm
  have served : Runs.Throughout step (Served Feed.cursorHost (fun project => project) Feed.openRequest (fun m => m = twoRows)) initial firstRead := by
    refine ⟨trivial, fun request sent own => ?_, trivial, trivial, trivial⟩
    have asked : request ∈ [(⟨1, everything true 1, none, false, false⟩ : Request)] := sent
    rw [List.mem_singleton.mp asked]
    exact ⟨twoRows, ⟨[Feed.dated "b" "2026"], true, _⟩, rfl, by decide, rfl, rfl⟩
  have sent : secondPage ∈ (Runs.run step initial firstRead).sent := by decide
  have answers : Answers Feed.cursorHost (fun project => project) Feed.openRequest (fun m => m = twoRows) secondPage ⟨[lineOf "a"], none⟩ :=
    ⟨twoRows, ⟨[Feed.dated "a" "2026"], false, none⟩, rfl, by decide, rfl, rfl⟩
  have there : ∀ m, m = twoRows → ∃ row, Feed.Meets Feed.cursorHost (serverRequest Feed.openRequest (Runs.run step initial firstRead).options) m row ∧
      row.id = "b" ∧ row.createdAt = "2026" := by
    rintro m rfl
    exact ⟨Feed.dated "b" "2026", ⟨[], rfl, List.mem_filter.mpr ⟨List.mem_cons_of_mem _ List.mem_cons_self, rfl⟩⟩, rfl, rfl⟩
  have selected : ∀ move ∈ firstRead, move.From (fun options => options.project = "__all__") := by
    simp [firstRead, Move.From, everything]
  exact listComplete spelled ready selected served sent rfl answers rfl (by simp [Move.isSelect]) there

end HarnessMem.FeedClient
