import HarnessMem.Lib.Breadth
import HarnessMem.Lib.KeyedList
import HarnessMem.Readers
import HarnessMem.Search

/-! The two readers of the link graph against the distances in it: the links around one observation, and the subgraph
around an entity. -/
namespace HarnessMem.GraphReads
open Breadth KeyedList Readers Recorder Search Visibility

structure GetLinksRequest where
  observationId : String
  relation : Option String
  depth : Option Int
  userId : Option String
  teamId : Option String

-- `ORDER BY created_at DESC` leaves open what comes first of the same time.
def linkRows (scan : Tables.Scan Link) (relation : Option String) (db : Db) (frontier : List String) : List Link :=
  Tables.orderBy (fun a b : Link => b.createdAt ≤ a.createdAt) (scan.arrange (db.links.filter (fun link =>
    frontier.contains link.fromId && (truthy relation).all (fun relation => link.relation = relation))))

def linkHops (scan : Tables.Scan Link) (relation : Option String) (db : Db) : Nat → Found String → List Link
  | 0, _ => []
  | left + 1, found =>
    if found.fresh = [] then []
    else
      let rows := linkRows scan relation db found.fresh
      rows ++ linkHops scan relation db left ((rows.map Link.toId).foldl discover ⟨found.visited, []⟩)

def linkDepth (request : GetLinksRequest) : Nat := (min (max (request.depth.getD 1) 1) 5).toNat

def ownedId (request : GetLinksRequest) (db : Db) (id : String) : Bool :=
  db.observations.any (fun row => row.id = id && tenantFilter request.userId request.teamId row.userId row.teamId)

def getLinks (scan : Tables.Scan Link) (request : GetLinksRequest) (db : Db) : Except String (List Link) :=
  if request.observationId = "" then .error "observation_id is required"
  else
    let allRows := linkHops scan request.relation db (linkDepth request) ⟨[request.observationId], [request.observationId]⟩
    match truthy request.userId with
    | none => .ok allRows
    | some _ => .ok (allRows.filter (fun link => ownedId request db link.fromId && ownedId request db link.toId))

-- A link that the request's relation lets through, and one from here to there.
def Lets (relation : Option String) (link : Link) : Prop := ∀ only ∈ truthy relation, link.relation = only
def Linked (relation : Option String) (db : Db) (a b : String) : Prop := ∃ link ∈ db.links, Lets relation link ∧ link.fromId = a ∧ link.toId = b

-- Both ends are rows of the caller's, where the caller is one user.
def Shown (request : GetLinksRequest) (db : Db) (link : Link) : Prop :=
  truthy request.userId = none ∨ ownedId request db link.fromId = true ∧ ownedId request db link.toId = true

section
variable {scan : Tables.Scan Link} {relation : Option String} {db : Db} {start : String → Prop} {n : Nat} {found : Found String}

theorem memLinkRows {frontier : List String} {link : Link} :
    link ∈ linkRows scan relation db frontier ↔ link ∈ db.links ∧ link.fromId ∈ frontier ∧ Lets relation link := by
  simp [linkRows, Lets, Option.all_eq_true]

open Classical in
theorem countLinkRows (frontier : List String) (link : Link) : (linkRows scan relation db frontier).count link =
    if Lets relation link ∧ link.fromId ∈ frontier then db.links.count link else 0 := by
  split
  · rename_i fits
    unfold linkRows Tables.orderBy
    rw [((List.perm_insertionSort _ _).trans (scan.perm _)).count_eq, List.count_filter]
    simpa [Lets, Option.all_eq_true] using fits.symm
  · rename_i other
    exact List.count_eq_zero.mpr fun mem => other ⟨(memLinkRows.mp mem).2.2, (memLinkRows.mp mem).2.1⟩

theorem linkRowsNext (layered : Layered start (Linked relation db) n found) (y : String) :
    y ∈ (linkRows scan relation db found.fresh).map Link.toId ↔ ∃ x, Exactly start (Linked relation db) n x ∧ Linked relation db x y := by
  simp only [List.mem_map, memLinkRows, layered.fresh]
  constructor
  · rintro ⟨link, ⟨mem, near, lets⟩, rfl⟩
    exact ⟨link.fromId, near, link, mem, lets, rfl, rfl⟩
  · rintro ⟨x, near, link, mem, lets, rfl, rfl⟩
    exact ⟨link, ⟨mem, near, lets⟩, rfl⟩

open Classical in
-- Each link comes in the round of its source, and in no other.
theorem linkHopsExact (scan : Tables.Scan Link) (layered : Layered start (Linked relation db) n found) (left : Nat) (link : Link) :
    (linkHops scan relation db left found).count link =
      if Lets relation link ∧ ∃ m, n ≤ m ∧ m < n + left ∧ Exactly start (Linked relation db) m link.fromId then db.links.count link
      else 0 := by
  induction left generalizing n found with
  | zero =>
    rw [if_neg]
    · rfl
    · rintro ⟨-, m, least, less, -⟩
      omega
  | succ left ih =>
    rw [linkHops]
    split
    · rename_i none
      rw [if_neg]
      · rfl
      · rintro ⟨-, m, least, -, exactly⟩
        have empty : ∀ x, ¬ Exactly start (Linked relation db) n x := fun x near => by
          have mem := (layered.fresh x).mpr near
          rw [none] at mem
          cases mem
        obtain rfl | more := Nat.eq_or_lt_of_le least
        · exact empty _ exactly
        · exact exactly.fresh n more (layersEnd empty exactly.within)
    · rw [List.count_append, ih (layeredNext layered fun y _ => linkRowsNext layered y), countLinkRows]
      simp only [layered.fresh]
      by_cases lets : Lets relation link
      · by_cases here : Exactly start (Linked relation db) n link.fromId
        · have later : ¬ ∃ m, n + 1 ≤ m ∧ m < n + 1 + left ∧ Exactly start (Linked relation db) m link.fromId := by
            rintro ⟨m, more, -, exactly⟩
            have := exactlyUnique here exactly
            omega
          rw [if_pos ⟨lets, here⟩, if_neg (fun both => later both.2), if_pos ⟨lets, n, le_rfl, by omega, here⟩, Nat.add_zero]
        · rw [if_neg (fun both => here both.2), Nat.zero_add]
          refine if_congr (and_congr_right fun _ => exists_congr fun m => ?_) rfl rfl
          constructor
          · rintro ⟨least, less, exactly⟩
            exact ⟨by omega, by omega, exactly⟩
          · rintro ⟨least, less, exactly⟩
            refine ⟨Nat.lt_of_le_of_ne least ?_, by omega, exactly⟩
            rintro rfl
            exact here exactly
      · rw [if_neg (fun both => lets both.1), if_neg (fun both => lets both.1), if_neg (fun both => lets both.1)]

end

open Classical in
theorem linksExact (scan : Tables.Scan Link) (request : GetLinksRequest) (db : Db) (given : request.observationId ≠ "") :
    ∃ rows, getLinks scan request db = .ok rows ∧ ∀ link, rows.count link =
      if Lets request.relation link ∧ Shown request db link ∧
          Within (· ∈ [request.observationId]) (Linked request.relation db) (linkDepth request - 1) link.fromId then db.links.count link
      else 0 := by
  have some_ : 0 < linkDepth request := by
    unfold linkDepth
    omega
  have near : ∀ id, (∃ m, 0 ≤ m ∧ m < 0 + linkDepth request ∧ Exactly (· ∈ [request.observationId]) (Linked request.relation db) m id) ↔
      Within (· ∈ [request.observationId]) (Linked request.relation db) (linkDepth request - 1) id := by
    intro id
    rw [withinExactly]
    refine exists_congr fun m => ⟨fun all => ⟨by omega, all.2.2⟩, fun all => ⟨by omega, by omega, all.2⟩⟩
  have first : Layered (· ∈ [request.observationId]) (Linked request.relation db) 0 ⟨[request.observationId], [request.observationId]⟩ := layeredStart
  have counted : ∀ link, _ := linkHopsExact scan first (linkDepth request)
  simp only [near] at counted
  simp only [getLinks, if_neg given]
  cases user : truthy request.userId with
  | none =>
    refine ⟨_, rfl, fun link => ?_⟩
    simp [counted, Shown, user]
  | some id =>
    refine ⟨_, rfl, fun link => ?_⟩
    by_cases shown : ownedId request db link.fromId = true ∧ ownedId request db link.toId = true
    · rw [List.count_filter (by simp [shown]), counted]
      simp [Shown, shown]
    · rw [if_neg (by simp [Shown, user, shown]), List.count_eq_zero]
      intro mem
      have kept := (List.mem_filter.mp mem).2
      rw [Bool.and_eq_true] at kept
      exact shown kept

-- `b` is linked from `a`, and `c` from `b`.
def threeRows : Db := {Db.empty with
  observations := [plainRow "a" "p" "u", plainRow "b" "p" "v", plainRow "c" "p" "u"]
  entities := [⟨1, "lean", "tool", "t"⟩]
  observationEntities := [⟨"a", 1, "t"⟩]
  links := [⟨"a", "b", "follows", 1, "t"⟩, ⟨"b", "c", "follows", 1, "t"⟩] }

open Classical in
theorem linksExactTwo : ∃ rows, getLinks Tables.inOrder ⟨"a", none, some 2, none, none⟩ threeRows = .ok rows ∧ ∀ link, rows.count link =
    if Lets none link ∧ Shown ⟨"a", none, some 2, none, none⟩ threeRows link ∧
        Within (· ∈ ["a"]) (Linked none threeRows) 1 link.fromId then threeRows.links.count link
    else 0 := linksExact Tables.inOrder ⟨"a", none, some 2, none, none⟩ threeRows (by decide)

-- Either way along a link.
def Touches (links : List Link) (a b : String) : Prop :=
  ∃ link ∈ links, link.fromId = a ∧ link.toId = b ∨ link.toId = a ∧ link.fromId = b

def edgeOf (link : Link) : Edge := ⟨link.fromId, link.toId, link.relation, link.weight⟩
def ends (edge : Edge) : String × String := (edge.source, edge.target)
-- Of several links from here to there the one stored first is drawn.
def firstEdge (links : List Link) (a b : String) : Option Edge := get ends (a, b) (links.map edgeOf)

def Reach.found (reach : Reach) : Found String := ⟨reach.visited, reach.next⟩
def touching (links : List Link) (next : List String) : List Link :=
  links.filter (fun link => next.contains link.fromId || next.contains link.toId)
def bothEnds (links : List Link) : List String := links.flatMap (fun link => [link.fromId, link.toId])

section
variable {limit : Int} {links : List Link} {reach : Reach}

-- What following a link does before its ends are entered.
def draw (reach : Reach) (link : Link) : Reach :=
  if reach.edges.any (fun edge => edge.source = link.fromId && edge.target = link.toId) then reach
  else {reach with edges := reach.edges ++ [edgeOf link]}

theorem followDraw (limit : Int) (reach : Reach) (link : Link) :
    followLink limit reach link = reachNode limit (reachNode limit (draw reach link) link.fromId) link.toId := rfl

theorem drawFound (reach : Reach) (link : Link) : Reach.found (draw reach link) = Reach.found reach := by
  unfold draw
  split <;> rfl

theorem nodeEdges (limit : Int) (reach : Reach) (id : String) : (reachNode limit reach id).edges = reach.edges := by
  unfold reachNode
  split <;> rfl

theorem followEdges (limit : Int) (reach : Reach) (link : Link) :
    (followLink limit reach link).edges = enrol ends reach.edges (edgeOf link) := by
  have same : reach.edges.any (fun edge => edge.source = link.fromId && edge.target = link.toId) = true ↔
      ends (edgeOf link) ∈ reach.edges.map ends := by
    simp [List.any_eq_true, ends, edgeOf, Prod.ext_iff]
  rw [followDraw, nodeEdges, nodeEdges, enrol, draw]
  simp only [same]
  split <;> rfl

theorem followsEdges (limit : Int) (rows : List Link) (reach : Reach) :
    (rows.foldl (followLink limit) reach).edges = (rows.map edgeOf).foldl (enrol ends) reach.edges := by
  induction rows generalizing reach with
  | nil => rfl
  | cons link rest ih => rw [List.foldl_cons, ih, followEdges, List.map_cons, List.foldl_cons]

-- Whether a link is touched depends on its ends only.
theorem touchedEdge (links : List Link) (next : List String) (a b : String) :
    get ends (a, b) ((touching links next).map edgeOf) = if a ∈ next ∨ b ∈ next then firstEdge links a b else none := by
  unfold firstEdge touching
  induction links with
  | nil => simp [KeyedList.get]
  | cons link rest ih =>
    by_cases here : ends (edgeOf link) = (a, b)
    · obtain ⟨rfl, rfl⟩ : link.fromId = a ∧ link.toId = b := Prod.mk.inj here
      by_cases near : link.fromId ∈ next ∨ link.toId ∈ next
      · rw [if_pos near, List.filter_cons_of_pos (by simpa using near)]
        simp [KeyedList.get, ends, edgeOf]
      · rw [if_neg near, List.filter_cons_of_neg (by simpa using near), ih, if_neg near]
    · have skip : get ends (a, b) ((link :: rest).map edgeOf) = get ends (a, b) (rest.map edgeOf) := by
        rw [List.map_cons, KeyedList.get, List.find?_cons_of_neg (by simpa using here), KeyedList.get]
      rw [skip, ← ih, List.filter_cons]
      split
      · rw [List.map_cons, KeyedList.get, List.find?_cons_of_neg (by simpa using here), KeyedList.get]
      · rfl

theorem roundEdges (limit : Int) (links : List Link) (reach : Reach) (a b : String) :
    get ends (a, b) ((touching links reach.next).foldl (followLink limit) {reach with next := []}).edges =
      (get ends (a, b) reach.edges).or (if a ∈ reach.next ∨ b ∈ reach.next then firstEdge links a b else none) := by
  rw [followsEdges, getEnrolledAll, touchedEdge]

theorem roundDistinct (limit : Int) (rows : List Link) (distinct : (reach.edges.map ends).Nodup) :
    ((rows.foldl (followLink limit) reach).edges.map ends).Nodup := by
  rw [followsEdges]
  exact enrolAllUnique distinct _

-- What a walk never loses: each id once, no more of them than the limit, and all of them within so many links.
structure Walked (seeds : List String) (links : List Link) (limit : Int) (n : Nat) (reach : Reach) : Prop where
  once : reach.visited.Nodup
  few : (reach.visited.length : Int) ≤ max limit seeds.length
  near : ∀ id ∈ reach.visited, Within (· ∈ seeds) (Touches links) n id
  next : ∀ id ∈ reach.next, id ∈ reach.visited

variable {seeds : List String} {n : Nat}

theorem nodeWalked (walked : Walked seeds links limit n reach) {id : String} (near : Within (· ∈ seeds) (Touches links) n id) :
    Walked seeds links limit n (reachNode limit reach id) := by
  unfold reachNode
  split
  · exact walked
  · rename_i room
    rw [not_or] at room
    constructor
    · exact walked.once.append (List.nodup_singleton id) (List.disjoint_singleton.mpr room.1)
    · rw [List.length_append, List.length_singleton]
      push_cast
      omega
    · intro other mem
      rcases List.mem_append.mp mem with old | new
      · exact walked.near other old
      · rwa [List.mem_singleton.mp new]
    · intro other mem
      rcases List.mem_append.mp mem with old | new
      · exact List.mem_append_left _ (walked.next other old)
      · exact List.mem_append_right _ new

theorem drawWalked (link : Link) (walked : Walked seeds links limit n reach) : Walked seeds links limit n (draw reach link) := by
  unfold draw
  split
  · exact walked
  · exact ⟨walked.once, walked.few, walked.near, walked.next⟩

theorem rowsWalked {rows : List Link} (walked : Walked seeds links limit n reach)
    (near : ∀ link ∈ rows, Within (· ∈ seeds) (Touches links) n link.fromId ∧ Within (· ∈ seeds) (Touches links) n link.toId) :
    Walked seeds links limit n (rows.foldl (followLink limit) reach) := by
  induction rows generalizing reach with
  | nil => exact walked
  | cons link rest ih =>
    obtain ⟨source, target⟩ := near link List.mem_cons_self
    rw [List.foldl_cons]
    exact ih (nodeWalked (nodeWalked (drawWalked link walked) source) target) fun other mem => near other (List.mem_cons_of_mem _ mem)

-- One round takes the walk one link further.
theorem roundWalked (walked : Walked seeds links limit n reach) : Walked seeds links limit (n + 1)
    ((touching links reach.next).foldl (followLink limit) {reach with next := []}) := by
  refine rowsWalked ⟨walked.once, walked.few, fun id mem => withinMono (Nat.le_succ n) (walked.near id mem), by simp⟩ fun link mem => ?_
  obtain ⟨held, touched⟩ := List.mem_filter.mp mem
  simp only [Bool.or_eq_true, List.contains_iff_mem] at touched
  rcases touched with source | target
  · have near := walked.near _ (walked.next _ source)
    exact ⟨withinMono (Nat.le_succ n) near, .next near ⟨link, held, .inl ⟨rfl, rfl⟩⟩⟩
  · have near := walked.near _ (walked.next _ target)
    exact ⟨.next near ⟨link, held, .inr ⟨rfl, rfl⟩⟩, withinMono (Nat.le_succ n) near⟩

theorem expandRound (limit : Int) (links : List Link) (left : Nat) (reach : Reach) : expand limit links (left + 1) reach =
    if reach.next = [] ∨ limit ≤ reach.visited.length then reach
    else expand limit links left ((touching links reach.next).foldl (followLink limit) {reach with next := []}) := rfl

theorem expandWalked (left : Nat) (walked : Walked seeds links limit n reach) :
    Walked seeds links limit (n + left) (expand limit links left reach) := by
  induction left generalizing n reach with
  | zero => exact walked
  | succ left ih =>
    rw [expandRound]
    split
    · exact ⟨walked.once, walked.few, fun id mem => withinMono (Nat.le_add_right n _) (walked.near id mem), walked.next⟩
    · rw [show n + (left + 1) = n + 1 + left by omega]
      exact ih (roundWalked walked)

-- Edges are drawn once for two ends, as stored first.
def Drawn (links : List Link) (edges : List Edge) : Prop :=
  (edges.map ends).Nodup ∧ ∀ a b edge, get ends (a, b) edges = some edge → firstEdge links a b = some edge

theorem expandDrawn (left : Nat) (drawn : Drawn links reach.edges) : Drawn links (expand limit links left reach).edges := by
  induction left generalizing reach with
  | zero => exact drawn
  | succ left ih =>
    rw [expandRound]
    split
    · exact drawn
    · refine ih ⟨roundDistinct limit _ drawn.1, fun a b edge found => ?_⟩
      rw [roundEdges] at found
      cases old : get ends (a, b) reach.edges with
      | some first =>
        rw [old] at found
        exact drawn.2 a b edge (old.trans found)
      | none =>
        rw [old, Option.none_or] at found
        split at found
        · exact found
        · cases found

-- Fewer ids are within reach than the limit would stop at.
def Room (seeds : List String) (links : List Link) (limit : Int) (depth : Nat) : Prop :=
  0 < limit ∧ AtMost (limit.toNat - 1) (Within (· ∈ seeds) (Touches links) depth)

variable {depth : Nat}

theorem walkedRoom (room : Room seeds links limit depth) (walked : Walked seeds links limit depth reach) :
    (reach.visited.length : Int) < limit := by
  have few := atMostList room.2 walked.once walked.near
  have positive := room.1
  omega

theorem walkedMono {m : Nat} (le : m ≤ n) (walked : Walked seeds links limit m reach) : Walked seeds links limit n reach :=
  ⟨walked.once, walked.few, fun id mem => withinMono le (walked.near id mem), walked.next⟩

theorem nodeFree (room : Room seeds links limit depth) (walked : Walked seeds links limit depth reach) (id : String) :
    Reach.found (reachNode limit reach id) = discover (Reach.found reach) id := by
  have short := walkedRoom room walked
  have open_ : ¬ limit ≤ reach.visited.length := by omega
  unfold reachNode discover Reach.found
  simp only [open_, or_false]
  split <;> rfl

theorem rowsFree {rows : List Link} (room : Room seeds links limit depth) (walked : Walked seeds links limit depth reach)
    (near : ∀ link ∈ rows, Within (· ∈ seeds) (Touches links) depth link.fromId ∧ Within (· ∈ seeds) (Touches links) depth link.toId) :
    Reach.found (rows.foldl (followLink limit) reach) = (bothEnds rows).foldl discover (Reach.found reach) := by
  induction rows generalizing reach with
  | nil => rfl
  | cons link rest ih =>
    obtain ⟨source, target⟩ := near link List.mem_cons_self
    have drawn := drawWalked link walked
    have first := nodeWalked drawn source
    rw [List.foldl_cons, followDraw, ih (nodeWalked first target) fun other mem => near other (List.mem_cons_of_mem _ mem), nodeFree room first,
      nodeFree room drawn, drawFound]
    rfl

theorem roundFree (room : Room seeds links limit depth) (less : n < depth) (walked : Walked seeds links limit n reach)
    (layered : Layered (· ∈ seeds) (Touches links) n (Reach.found reach)) : Layered (· ∈ seeds) (Touches links) (n + 1)
      (Reach.found ((touching links reach.next).foldl (followLink limit) {reach with next := []})) := by
  have touched : ∀ link ∈ touching links reach.next, link ∈ links ∧ (link.fromId ∈ reach.next ∨ link.toId ∈ reach.next) := by
    simp [touching]
  have near : ∀ link ∈ touching links reach.next,
      Within (· ∈ seeds) (Touches links) depth link.fromId ∧ Within (· ∈ seeds) (Touches links) depth link.toId := by
    intro link mem
    obtain ⟨held, source | target⟩ := touched link mem
    · have here := walked.near _ (walked.next _ source)
      exact ⟨withinMono (by omega) here, withinMono (by omega) (.next here ⟨link, held, .inl ⟨rfl, rfl⟩⟩)⟩
    · have here := walked.near _ (walked.next _ target)
      exact ⟨withinMono (by omega) (.next here ⟨link, held, .inr ⟨rfl, rfl⟩⟩), withinMono (by omega) here⟩
  have started : Walked seeds links limit depth {reach with next := []} :=
    walkedMono (Nat.le_of_lt less) ⟨walked.once, walked.few, walked.near, by simp⟩
  rw [rowsFree room started near]
  refine layeredNext layered fun y new => ?_
  have ahead : ∀ x, x ∈ reach.next ↔ Exactly (· ∈ seeds) (Touches links) n x := layered.fresh
  simp only [bothEnds, List.mem_flatMap, List.mem_cons, List.not_mem_nil, or_false]
  constructor
  · rintro ⟨link, mem, rfl | rfl⟩
    · obtain ⟨held, source | target⟩ := touched link mem
      · exact absurd ((ahead _).mp source).within new
      · exact ⟨link.toId, (ahead _).mp target, link, held, .inr ⟨rfl, rfl⟩⟩
    · obtain ⟨held, source | target⟩ := touched link mem
      · exact ⟨link.fromId, (ahead _).mp source, link, held, .inl ⟨rfl, rfl⟩⟩
      · exact absurd ((ahead _).mp target).within new
  · rintro ⟨x, exactly, link, held, ⟨rfl, rfl⟩ | ⟨rfl, rfl⟩⟩
    · exact ⟨link, List.mem_filter.mpr ⟨held, by simp [(ahead _).mpr exactly]⟩, .inr rfl⟩
    · exact ⟨link, List.mem_filter.mpr ⟨held, by simp [(ahead _).mpr exactly]⟩, .inl rfl⟩

open Classical in
-- With room left the walk comes to everything within the depth, and draws every link that touches a round's ids.
theorem expandFree (room : Room seeds links limit depth) (left : Nat) (all : n + left = depth) (walked : Walked seeds links limit n reach)
    (layered : Layered (· ∈ seeds) (Touches links) n (Reach.found reach)) :
    (∀ x, x ∈ (expand limit links left reach).visited ↔ Within (· ∈ seeds) (Touches links) depth x) ∧
      ∀ a b, get ends (a, b) (expand limit links left reach).edges = (get ends (a, b) reach.edges).or
        (if ∃ m, n ≤ m ∧ m < depth ∧ (Exactly (· ∈ seeds) (Touches links) m a ∨ Exactly (· ∈ seeds) (Touches links) m b)
          then firstEdge links a b else none) := by
  induction left generalizing n reach with
  | zero =>
    obtain rfl : n = depth := by omega
    refine ⟨layered.visited, fun a b => ?_⟩
    rw [if_neg]
    · simp [expand]
    · rintro ⟨m, least, less, -⟩
      omega
  | succ left ih =>
    have short := walkedRoom room (walkedMono (show n ≤ depth by omega) walked)
    rw [expandRound]
    by_cases none : reach.next = []
    · rw [if_pos (.inl none)]
      have empty : ∀ x, ¬ Exactly (· ∈ seeds) (Touches links) n x := fun x exactly => by
        have mem : x ∈ reach.next := (layered.fresh x).mpr exactly
        rw [none] at mem
        cases mem
      have over_ : ∀ m, n ≤ m → ∀ x, ¬ Exactly (· ∈ seeds) (Touches links) m x := by
        intro m least x exactly
        obtain rfl | more := Nat.eq_or_lt_of_le least
        · exact empty x exactly
        · exact exactly.fresh n more (layersEnd empty exactly.within)
      refine ⟨fun x => (layered.visited x).trans ⟨withinMono (by omega), layersEnd empty⟩, fun a b => ?_⟩
      rw [if_neg, Option.or_none]
      rintro ⟨m, least, -, first | second⟩
      · exact over_ m least a first
      · exact over_ m least b second
    · rw [if_neg (by simp only [none, false_or]; omega)]
      obtain ⟨visited, edges⟩ := ih (by omega) (roundWalked walked) (roundFree room (by omega) walked layered)
      refine ⟨visited, fun a b => ?_⟩
      have ahead : ∀ x, x ∈ reach.next ↔ Exactly (· ∈ seeds) (Touches links) n x := layered.fresh
      rw [edges, roundEdges, Option.or_assoc]
      congr 1
      simp only [ahead]
      by_cases here : Exactly (· ∈ seeds) (Touches links) n a ∨ Exactly (· ∈ seeds) (Touches links) n b
      · have now : ∃ m, n ≤ m ∧ m < depth ∧ (Exactly (· ∈ seeds) (Touches links) m a ∨ Exactly (· ∈ seeds) (Touches links) m b) :=
          ⟨n, le_rfl, by omega, here⟩
        rw [if_pos here, if_pos now]
        cases firstEdge links a b with
        | none => simp
        | some edge => rfl
      · rw [if_neg here, Option.none_or]
        refine if_congr (exists_congr fun m => ?_) rfl rfl
        constructor
        · rintro ⟨least, less, near⟩
          exact ⟨by omega, less, near⟩
        · rintro ⟨least, less, near⟩
          refine ⟨Nat.lt_of_le_of_ne least ?_, less, near⟩
          rintro rfl
          exact here near

end

def depthOf (request : SubgraphRequest) : Nat := min request.depth 5
def permitted (request : SubgraphRequest) (row : Observation) : Bool := tenantFilter request.userId request.teamId row.userId row.teamId

section
variable (request : SubgraphRequest) (seeds : List String) (db : Db) (g : Subgraph)

-- Of any subgraph that is answered.
structure Sound : Prop where
  nodes : ∀ node ∈ g.nodes, ∃ row ∈ db.observations, node = subgraphNode db row ∧ permitted request row = true ∧
    Within (· ∈ seeds) (Touches db.links) (depthOf request) row.id
  few : 0 ≤ nodeLimit request → (g.nodes.length : Int) ≤ nodeLimit request
  edges : ∀ edge ∈ g.edges, edge.source ∈ g.nodes.map Node.id ∧ edge.target ∈ g.nodes.map Node.id ∧
    firstEdge db.links edge.source edge.target = some edge
  once : (g.edges.map ends).Nodup

open Classical in
-- Of one that the limit does not cut off.
structure Whole : Prop where
  nodes : g.nodes = (db.observations.filter (fun row =>
    Within (· ∈ seeds) (Touches db.links) (depthOf request) row.id ∧ permitted request row = true)).map (subgraphNode db)
  edges : ∀ a b, get ends (a, b) g.edges =
    if a ∈ g.nodes.map Node.id ∧ b ∈ g.nodes.map Node.id ∧
        ∃ m < depthOf request, Within (· ∈ seeds) (Touches db.links) m a ∨ Within (· ∈ seeds) (Touches db.links) m b
      then firstEdge db.links a b else none

variable {request seeds db g}

variable (request) in
theorem seedsHeld (members : List String) (keyed : (db.observations.map Observation.id).Nodup) : (seedIds request members db).Nodup ∧
    (0 ≤ nodeLimit request → ((seedIds request members db).length : Int) ≤ nodeLimit request) := by
  have rows : ∀ named, ((seedRows request members named db).map Observation.id).Nodup ∧
      (0 ≤ nodeLimit request → ((seedRows request members named db).length : Int) ≤ nodeLimit request) := by
    intro named
    unfold seedRows limited
    constructor
    · split
      · exact keyed.sublist (List.filter_sublist.map _)
      · exact keyed.sublist (((List.take_sublist _ _).trans List.filter_sublist).map _)
    · intro positive
      rw [if_neg (by omega)]
      have := List.length_take_le (min 50 (nodeLimit request)).toNat (db.observations.filter (fun row =>
        (entityNames db row.id).any named && projectFilter members row.project && tenantFilter request.userId request.teamId row.userId row.teamId))
      omega
  simp only [seedIds, List.length_map]
  split
  · exact rows _
  · exact rows _

theorem expandNone (limit : Int) (links : List Link) (depth : Nat) : expand limit links depth ⟨[], [], []⟩ = ⟨[], [], []⟩ := by
  cases depth <;> rfl

variable (request db) in
-- What the walk came to, and the two filters after it.
def answerOf (reach : Reach) : Subgraph :=
  let rows := db.observations.filter (fun row => reach.visited.contains row.id && permitted request row)
  ⟨rows.map (subgraphNode db), reach.edges.filter (fun edge =>
    (rows.map Observation.id).contains edge.source && (rows.map Observation.id).contains edge.target)⟩

theorem subgraphAnswer (settings : Settings) {members : List String} (resolved : resolveProjectMembers settings request.project = .ok members) :
    getSubgraph settings request db = .ok (answerOf request db
      (expand (nodeLimit request) db.links (depthOf request) ⟨seedIds request members db, seedIds request members db, []⟩)) := by
  unfold getSubgraph answerOf
  rw [resolved]
  simp only [Except.map]
  split
  · rename_i none
    simp [none, expandNone]
  · rfl

theorem getFilter {edges : List Edge} {kept : Edge → Bool} {a b : String} {P : Prop} [Decidable P]
    (same : ∀ edge, ends edge = (a, b) → (kept edge = true ↔ P)) :
    get ends (a, b) (edges.filter kept) = if P then get ends (a, b) edges else none := by
  rw [KeyedList.get, List.find?_filter, KeyedList.get]
  by_cases holds : P
  · rw [if_pos holds]
    congr 1
    funext edge
    by_cases here : ends edge = (a, b)
    · simp [here, (same edge here).mpr holds]
    · simp [here]
  · rw [if_neg holds]
    refine List.find?_eq_none.mpr fun edge _ found => ?_
    simp only [decide_eq_true_eq] at found
    exact holds ((same edge found.2).mp found.1)

theorem answerIds (reach : Reach) : (answerOf request db reach).nodes.map Node.id =
    (db.observations.filter (fun row => reach.visited.contains row.id && permitted request row)).map Observation.id := by
  unfold answerOf
  rw [List.map_map]
  rfl

theorem answerIdsMem {reach : Reach} {id : String} : id ∈ (answerOf request db reach).nodes.map Node.id ↔
    ∃ row ∈ db.observations, row.id = id ∧ id ∈ reach.visited ∧ permitted request row = true := by
  rw [answerIds]
  simp only [List.mem_map, List.mem_filter, Bool.and_eq_true, List.contains_iff_mem]
  constructor
  · rintro ⟨row, ⟨held, near, own⟩, rfl⟩
    exact ⟨row, held, rfl, near, own⟩
  · rintro ⟨row, held, rfl, near, own⟩
    exact ⟨row, ⟨held, near, own⟩, rfl⟩

theorem answerEdges (reach : Reach) : (answerOf request db reach).edges = reach.edges.filter (fun edge =>
    ((answerOf request db reach).nodes.map Node.id).contains edge.source && ((answerOf request db reach).nodes.map Node.id).contains edge.target) := by
  rw [answerIds]
  rfl

theorem answerSound {reach : Reach} (keyed : (db.observations.map Observation.id).Nodup)
    (fits : 0 ≤ nodeLimit request → (seeds.length : Int) ≤ nodeLimit request)
    (walked : Walked seeds db.links (nodeLimit request) (depthOf request) reach) (drawn : Drawn db.links reach.edges) :
    Sound request seeds db (answerOf request db reach) := by
  constructor
  · intro node mem
    obtain ⟨row, kept, rfl⟩ := List.mem_map.mp mem
    obtain ⟨held, both⟩ := List.mem_filter.mp kept
    rw [Bool.and_eq_true, List.contains_iff_mem] at both
    exact ⟨row, held, rfl, both.2, walked.near _ both.1⟩
  · intro positive
    have once : ((answerOf request db reach).nodes.map Node.id).Nodup := by
      rw [answerIds]
      exact keyed.sublist (List.filter_sublist.map _)
    have inside : (answerOf request db reach).nodes.map Node.id ⊆ reach.visited := fun id mem => by
      obtain ⟨_, _, _, near, _⟩ := answerIdsMem.mp mem
      exact near
    have fewer := (List.subperm_of_subset once inside).length_le
    rw [List.length_map] at fewer
    have few := walked.few
    have started := fits positive
    omega
  · intro edge mem
    rw [answerEdges] at mem
    obtain ⟨held, both⟩ := List.mem_filter.mp mem
    rw [Bool.and_eq_true, List.contains_iff_mem, List.contains_iff_mem] at both
    have found : get ends (edge.source, edge.target) reach.edges = some edge := by
      cases first : get ends (edge.source, edge.target) reach.edges with
      | none => exact absurd rfl (getNone.mp first edge held)
      | some other =>
        obtain ⟨mem', same⟩ := getMem first
        rw [Tables.keyUnique drawn.1 held mem' same.symm]
    exact ⟨both.1, both.2, drawn.2 _ _ edge found⟩
  · rw [answerEdges]
    exact drawn.1.sublist (List.filter_sublist.map _)

theorem answerWhole {reach : Reach} (visited : ∀ x, x ∈ reach.visited ↔ Within (· ∈ seeds) (Touches db.links) (depthOf request) x)
    (edges : ∀ a b, get ends (a, b) reach.edges = open Classical in
      if ∃ m < depthOf request, Within (· ∈ seeds) (Touches db.links) m a ∨ Within (· ∈ seeds) (Touches db.links) m b
        then firstEdge db.links a b else none) : Whole request seeds db (answerOf request db reach) := by
  classical
  constructor
  · refine congrArg (List.map (subgraphNode db)) (List.filter_congr fun row _ => ?_)
    rw [Bool.eq_iff_iff, Bool.and_eq_true, List.contains_iff_mem, visited, decide_eq_true_iff]
  · intro a b
    have kept : ∀ edge, ends edge = (a, b) → ((((answerOf request db reach).nodes.map Node.id).contains edge.source &&
        ((answerOf request db reach).nodes.map Node.id).contains edge.target) = true ↔
          a ∈ (answerOf request db reach).nodes.map Node.id ∧ b ∈ (answerOf request db reach).nodes.map Node.id) := by
      intro edge here
      obtain ⟨rfl, rfl⟩ : edge.source = a ∧ edge.target = b := Prod.mk.inj here
      rw [Bool.and_eq_true, List.contains_iff_mem, List.contains_iff_mem]
    rw [answerEdges, getFilter kept, edges]
    by_cases known : a ∈ (answerOf request db reach).nodes.map Node.id ∧ b ∈ (answerOf request db reach).nodes.map Node.id
    · simp only [known, true_and, if_true]
    · rw [if_neg known, if_neg fun all => known ⟨all.1, all.2.1⟩]

end

def around : SubgraphRequest := ⟨"lean", 1, none, none, none, none⟩

theorem roomAround : Room (seedIds around [] threeRows) threeRows.links (nodeLimit around) (depthOf around) := by
  refine ⟨by decide, atMostOf ["a", "b"] (by decide) fun x near => ?_⟩
  have seeds : seedIds around [] threeRows = ["a"] := by decide
  rw [seeds, show depthOf around = 0 + 1 from rfl, withinNext, withinZero] at near
  rcases near with here | ⟨y, from_, link, mem, goes⟩
  · exact List.mem_cons.mpr (.inl (List.mem_singleton.mp here))
  · rw [withinZero, List.mem_singleton] at from_
    subst from_
    rcases List.mem_cons.mp mem with rfl | mem
    · rcases goes with ⟨-, rfl⟩ | ⟨none, -⟩
      · decide
      · exact absurd none (by decide)
    · obtain rfl := List.mem_singleton.mp mem
      rcases goes with ⟨none, -⟩ | ⟨none, -⟩
      · exact absurd none (by decide)
      · exact absurd none (by decide)

end HarnessMem.GraphReads
