import HarnessMem.Consolidation
import HarnessMem.Lib.Chains
import HarnessMem.Lib.Runs
import HarnessMem.Visibility

/-! `detectContradictions`: near duplicates of one concept that an adjudicator finds contradictory, and
the `superseded` links of any number of calls. -/
namespace HarnessMem.ContradictionDetector
open Js Text Recorder Visibility

structure GroupRow where
  project : String
  concept : String
  observationId : String
  content : String
  createdAt : String
  deriving DecidableEq

structure ContradictionInput where
  observationId : String
  content : String
  createdAt : String
  deriving DecidableEq

structure AdjudicatorVerdict where
  contradiction : Bool
  confidence : ℚ

structure Options where
  jaccardThreshold : Option ℚ
  maxPairsPerGroup : Option Number
  minConfidence : Option ℚ
  adjudicator : Option (ContradictionInput → ContradictionInput → AdjudicatorVerdict)
  project : Option String

-- One call: what it is asked for, when, and the order the database gives the joined rows in.
structure Call where
  options : Options
  now : String
  linkedAt : String
  rows : Tables.Scan GroupRow

structure ContradictionPair where
  olderId : String
  newerId : String
  project : String
  concept : String
  jaccard : ℚ
  deriving DecidableEq

structure ContradictionDetectorResult where
  scannedGroups : Nat
  candidatePairs : Nat
  contradictions : List ContradictionPair
  linksCreated : Nat
  jaccardThreshold : ℚ
  minConfidence : ℚ

def Options.threshold (options : Options) : ℚ := options.jaccardThreshold.getD (9 / 10)
def Options.floor (options : Options) : ℚ := options.minConfidence.getD (7 / 10)
def Options.adjudicate (options : Options) : ContradictionInput → ContradictionInput → AdjudicatorVerdict :=
  options.adjudicator.getD (fun _ _ => ⟨false, 0⟩)

-- `Math.max(bound, n)` and `slice(0, n)`.
def atLeast (bound : ℚ) : Number → Number
  | .fin q => .fin (max bound q)
  | .negInf => .fin bound
  | other => other
def sliceTo {Row : Type} (last : Number) (rows : List Row) : List Row :=
  match last with
  | .fin q => rows.take (truncate q).toNat
  | .posInf => rows
  | _ => []
def doubled : Number → Number
  | .fin q => .fin (q * 2)
  | other => other
def Options.maxPairs (options : Options) : Number := atLeast 1 (options.maxPairsPerGroup.getD (.fin 50))

-- /[\s,.;:!?()\[\]{}"'`<>=\/\\+*\-]+/u
def separator (c : Char) : Bool := isSpace c || [',', '.', ';', ':', '!', '?', '(', ')', '[', ']', Char.ofNat 123, Char.ofNat 125,
  '"', Char.ofNat 39, Char.ofNat 96, '<', '>', '=', '/', '\\', '+', '*', '-'].contains c
def tokenize (host : Host) (text : String) : List String :=
  ((((Regex.split (Regex.plus (.set separator)) (host.toLowerCase text)).map trim).filter (fun t => 2 ≤ length t))).dedup

-- The active rows with a tag of some types.
def tagged (now : String) (types : List String) (project : Option String) (db : Db) : List GroupRow :=
  (db.observations.filter (fun o => o.live && expiredFilter now o && (truthy project).all (fun name => o.project = name))).flatMap
    (fun o => (db.tags.filter (fun t => t.observationId = o.id && types.contains t.tagType)).map (fun t =>
      ⟨o.project, t.tag, o.id, o.contentRedacted, o.createdAt⟩))

def GroupRow.key (row : GroupRow) : String := row.project ++ "::" ++ row.concept

def loadConceptGroups (call : Call) (db : Db) : List (List GroupRow) :=
  let conceptRows := call.rows.arrange (tagged call.now ["concept"] call.options.project db)
  let legacyRows := call.rows.arrange (tagged call.now ["topic", "category"] call.options.project db)
  let obsHasConcept := conceptRows.map GroupRow.observationId
  let rows := conceptRows ++ legacyRows.filter (fun row => row.observationId ∉ obsHasConcept)
  (rows.map GroupRow.key).eraseDups.map (fun key => rows.filter (fun row => row.key = key))

section
variable (host : Host)

-- `Date.parse(created_at) || 0`
def instant (createdAt : String) : Int := (host.parseDate createdAt).getD 0
-- `Date.parse(a) <= Date.parse(b)`, false when either is not a date.
def notAfter (a b : String) : Bool :=
  match host.parseDate a, host.parseDate b with
  | some x, some y => x ≤ y
  | _, _ => false

def GroupRow.tokens (row : GroupRow) : List String := tokenize host row.content
def GroupRow.instant (row : GroupRow) : Int := ContradictionDetector.instant host row.createdAt

-- The newest rows of a group.
def window (options : Options) (rows : List GroupRow) : List GroupRow :=
  sliceTo (atLeast 2 (doubled options.maxPairs)) (Tables.orderBy (fun x y : GroupRow => y.instant host ≤ x.instant host) rows)

def pairs {Row : Type} : List Row → List (Row × Row)
  | [] => []
  | first :: rest => rest.map (fun second => (first, second)) ++ pairs rest

def similar (options : Options) (pair : GroupRow × GroupRow) : Bool :=
  options.threshold ≤ jaccard (pair.1.tokens host) (pair.2.tokens host)
def newerTs (pair : GroupRow × GroupRow) : Int := max (pair.1.instant host) (pair.2.instant host)

def groupPairs (options : Options) (rows : List GroupRow) : List (GroupRow × GroupRow) :=
  sliceTo options.maxPairs (Tables.orderBy (fun x y => newerTs host y ≤ newerTs host x)
    ((pairs (window host options rows)).filter (similar host options)))

-- The older row first.
def oriented (pair : GroupRow × GroupRow) : GroupRow × GroupRow :=
  if notAfter host pair.1.createdAt pair.2.createdAt then pair else (pair.2, pair.1)

def pairKey (a b : String) : String := if less a b then a ++ "|" ++ b else b ++ "|" ++ a

structure Pending where
  seenPairs : List String
  pending : List ContradictionPair

def note (concept : String) (now : Pending) (pair : GroupRow × GroupRow) : Pending :=
  let key := pairKey pair.1.observationId pair.2.observationId
  if key ∈ now.seenPairs then now
  else
    let ordered := oriented host pair
    ⟨now.seenPairs ++ [key], now.pending ++ [⟨ordered.1.observationId, ordered.2.observationId, ordered.1.project, concept,
      jaccard (pair.1.tokens host) (pair.2.tokens host)⟩]⟩

def scanGroup (options : Options) (now : Pending) (rows : List GroupRow) : Pending :=
  if rows.length < 2 then now
  else (groupPairs host options rows).foldl (note host ((rows.head?.map GroupRow.concept).getD "")) now

def pendingPairs (call : Call) (db : Db) : Pending := (loadConceptGroups call db).foldl (scanGroup host call.options) ⟨[], []⟩

def inputOf (id : String) (row : Observation) : ContradictionInput := ⟨id, row.contentRedacted, row.createdAt⟩

def confirmed (options : Options) (db : Db) (pair : ContradictionPair) : Bool :=
  match db.observations.find? (fun row => row.id = pair.olderId), db.observations.find? (fun row => row.id = pair.newerId) with
  | some older, some newer =>
    let verdict := options.adjudicate (inputOf pair.olderId older) (inputOf pair.newerId newer)
    verdict.contradiction && options.floor ≤ verdict.confidence
  | _, _ => false

def supersededLink (linkedAt : String) (pair : ContradictionPair) : Link := ⟨pair.newerId, pair.olderId, "superseded", 1, linkedAt⟩

def detectContradictions (call : Call) (db : Db) : Db × ContradictionDetectorResult :=
  let found := pendingPairs host call db
  let contradictions := found.pending.filter (confirmed call.options db)
  let links := (contradictions.map (supersededLink call.linkedAt)).foldl insertLink db.links
  ({db with links := links}, ⟨((loadConceptGroups call db).filter (fun rows => 2 ≤ rows.length)).length, found.pending.length,
    contradictions, links.length - db.links.length, call.options.threshold, call.options.floor⟩)
end

-- One step along the `superseded` links.
def Superseded (links : List Link) (a b : String) : Prop :=
  ∃ link ∈ links, link.relation = "superseded" ∧ link.fromId = a ∧ link.toId = b

-- From the newer to the older of two observations of one project.
def Downward (host : Host) (rows : List Observation) (a b : String) : Prop :=
  ∃ newer ∈ rows, ∃ older ∈ rows, newer.id = a ∧ older.id = b ∧ a ≠ b ∧ newer.project = older.project ∧
    instant host older.createdAt < instant host newer.createdAt

-- The adjudicator's word on two rows as they are stored.
def contradicted (host : Host) (options : Options) (a b : GroupRow) : Bool :=
  let pair := oriented host (a, b)
  let verdict := options.adjudicate ⟨pair.1.observationId, pair.1.content, pair.1.createdAt⟩
    ⟨pair.2.observationId, pair.2.content, pair.2.createdAt⟩
  verdict.contradiction && options.floor ≤ verdict.confidence

-- Two observations of one project, with different instants of creation.
structure Apart (host : Host) (a b : GroupRow) : Prop where
  ids : a.observationId ≠ b.observationId
  project : a.project = b.project
  instants : a.instant host ≠ b.instant host

-- Among the newest rows of a group, no two that are alike and contradictory are one observation, of two projects, or of one instant.
def Call.Sound (host : Host) (db : Db) (call : Call) : Prop :=
  ∀ rows ∈ loadConceptGroups call db, (window host call.options rows).Pairwise (fun a b =>
    similar host call.options (a, b) = true → contradicted host call.options a b = true → Apart host a b)

-- A row that was joined from an observation and one of its tags.
def Joined (rows : List Observation) (row : GroupRow) : Prop :=
  ∃ o ∈ rows, row.project = o.project ∧ row.observationId = o.id ∧ row.content = o.contentRedacted ∧ row.createdAt = o.createdAt

section
variable {host : Host} {db : Db} {call : Call}

theorem taggedJoined {now : String} {types : List String} {project : Option String} {row : GroupRow}
    (mem : row ∈ tagged now types project db) : Joined db.observations row := by
  obtain ⟨o, held, inside⟩ := List.mem_flatMap.mp mem
  obtain ⟨t, -, rfl⟩ := List.mem_map.mp inside
  exact ⟨o, List.mem_of_mem_filter held, rfl, rfl, rfl, rfl⟩

theorem groupJoined {rows : List GroupRow} (group : rows ∈ loadConceptGroups call db) {row : GroupRow} (mem : row ∈ rows) :
    Joined db.observations row := by
  obtain ⟨key, -, rfl⟩ := List.mem_map.mp group
  rcases List.mem_append.mp (List.mem_of_mem_filter mem) with concept | legacy
  · exact taggedJoined ((Tables.Scan.mem _).mp concept)
  · exact taggedJoined ((Tables.Scan.mem _).mp (List.mem_of_mem_filter legacy))

theorem sliceSublist {Row : Type} (last : Number) (rows : List Row) : (sliceTo last rows).Sublist rows := by
  cases last with
  | fin q => exact List.take_sublist _ _
  | posInf => exact List.Sublist.refl rows
  | nan => exact List.nil_sublist rows
  | negInf => exact List.nil_sublist rows

theorem pairsWise {Row : Type} {R : Row → Row → Prop} {rows : List Row} (all : rows.Pairwise R) {pair : Row × Row}
    (mem : pair ∈ pairs rows) : pair.1 ∈ rows ∧ pair.2 ∈ rows ∧ R pair.1 pair.2 := by
  induction rows with
  | nil => exact absurd mem List.not_mem_nil
  | cons first rest ih =>
    obtain ⟨head, tail⟩ := List.pairwise_cons.mp all
    rcases List.mem_append.mp mem with here | later
    · obtain ⟨second, held, rfl⟩ := List.mem_map.mp here
      exact ⟨List.mem_cons_self, List.mem_cons_of_mem _ held, head second held⟩
    · obtain ⟨one, two, related⟩ := ih tail later
      exact ⟨List.mem_cons_of_mem _ one, List.mem_cons_of_mem _ two, related⟩

variable (host) in
theorem windowSorted (options : Options) (rows : List GroupRow) :
    (window host options rows).Pairwise (fun x y => y.instant host ≤ x.instant host) := by
  have total : Std.Total (fun x y : GroupRow => y.instant host ≤ x.instant host) := ⟨fun _ _ => le_total _ _⟩
  have trans : IsTrans GroupRow (fun x y => y.instant host ≤ x.instant host) := ⟨fun _ _ _ one two => two.trans one⟩
  exact (List.pairwise_insertionSort _ rows).sublist (sliceSublist _ _)

-- Of two rows with different instants the window has the newer one first, and the link starts there.
theorem orientedNewer {a b : GroupRow} (sorted : b.instant host ≤ a.instant host) (apart : a.instant host ≠ b.instant host) :
    oriented host (a, b) = (b, a) := by
  have less : instant host b.createdAt < instant host a.createdAt := lt_of_le_of_ne sorted (fun same => apart same.symm)
  have not : notAfter host a.createdAt b.createdAt = false := by
    unfold notAfter
    unfold instant at less
    cases first : host.parseDate a.createdAt with
    | none => rfl
    | some x =>
      cases second : host.parseDate b.createdAt with
      | none => rfl
      | some y =>
        rw [first, second] at less
        exact decide_eq_false (not_le.mpr less)
  rw [oriented, not]
  rfl

-- Every pending pair is two rows of one window that are alike.
def Compared (host : Host) (call : Call) (db : Db) (pair : ContradictionPair) : Prop :=
  ∃ rows ∈ loadConceptGroups call db, ∃ a b, (a, b) ∈ pairs (window host call.options rows) ∧ similar host call.options (a, b) = true ∧
    pair.olderId = (oriented host (a, b)).1.observationId ∧ pair.newerId = (oriented host (a, b)).2.observationId

theorem notesCompared {rows : List GroupRow} (group : rows ∈ loadConceptGroups call db) {concept : String}
    {chosen : List (GroupRow × GroupRow)} (all : ∀ pair ∈ chosen, pair ∈ groupPairs host call.options rows) {now : Pending}
    (before : ∀ pair ∈ now.pending, Compared host call db pair) :
    ∀ pair ∈ (chosen.foldl (note host concept) now).pending, Compared host call db pair := by
  induction chosen generalizing now with
  | nil => exact before
  | cons pair rest ih =>
    refine ih (fun later mem => all later (List.mem_cons_of_mem _ mem)) ?_
    unfold note
    dsimp only
    split
    · exact before
    · intro other mem
      rcases List.mem_append.mp mem with held | new
      · exact before other held
      · obtain rfl := List.mem_singleton.mp new
        have picked := (sliceSublist _ _).subset (all pair List.mem_cons_self)
        rw [Tables.memOrderBy] at picked
        obtain ⟨inside, alike⟩ := List.mem_filter.mp picked
        exact ⟨rows, group, pair.1, pair.2, inside, alike, rfl, rfl⟩

variable (host call db) in
theorem pendingCompared : ∀ pair ∈ (pendingPairs host call db).pending, Compared host call db pair := by
  have scanned : ∀ (groups : List (List GroupRow)), (∀ rows ∈ groups, rows ∈ loadConceptGroups call db) → ∀ now : Pending,
      (∀ pair ∈ now.pending, Compared host call db pair) →
      ∀ pair ∈ (groups.foldl (scanGroup host call.options) now).pending, Compared host call db pair := by
    intro groups inside
    induction groups with
    | nil => exact fun now before => before
    | cons rows rest ih =>
      intro now before
      refine ih (fun later mem => inside later (List.mem_cons_of_mem _ mem)) _ ?_
      unfold scanGroup
      split
      · exact before
      · exact notesCompared (inside rows List.mem_cons_self) (fun _ mem => mem) before
  exact scanned _ (fun _ mem => mem) ⟨[], []⟩ (fun _ mem => absurd mem List.not_mem_nil)

theorem foundRow (keyed : (db.observations.map Observation.id).Nodup) {row : GroupRow} {o : Observation} (held : o ∈ db.observations)
    (same : row.observationId = o.id) : db.observations.find? (fun other => other.id = row.observationId) = some o := by
  cases found : db.observations.find? (fun other => other.id = row.observationId) with
  | none => exact absurd (List.find?_eq_none.mp found o held) (by simp [same])
  | some other =>
    have is : other.id = row.observationId := by simpa using List.find?_some found
    rw [Tables.keyUnique keyed (List.mem_of_find?_eq_some found) held (is.trans same)]

-- The adjudicator is asked about the rows as they are stored.
theorem confirmedContradicted (keyed : (db.observations.map Observation.id).Nodup) {pair : ContradictionPair} {a b : GroupRow}
    (first : Joined db.observations a) (second : Joined db.observations b)
    (older : pair.olderId = (oriented host (a, b)).1.observationId) (newer : pair.newerId = (oriented host (a, b)).2.observationId)
    (sure : confirmed call.options db pair = true) : contradicted host call.options a b = true := by
  have both : Joined db.observations (oriented host (a, b)).1 ∧ Joined db.observations (oriented host (a, b)).2 := by
    unfold oriented
    split
    · exact ⟨first, second⟩
    · exact ⟨second, first⟩
  obtain ⟨⟨o, oHeld, -, oId, oContent, oCreated⟩, n, nHeld, -, nId, nContent, nCreated⟩ := both
  unfold confirmed at sure
  rw [older, newer, foundRow keyed oHeld oId, foundRow keyed nHeld nId] at sure
  unfold contradicted
  dsimp only
  rw [oContent, oCreated, nContent, nCreated]
  exact sure

theorem pairDownward (keyed : (db.observations.map Observation.id).Nodup) (sound : call.Sound host db) {pair : ContradictionPair}
    (compared : Compared host call db pair) (sure : confirmed call.options db pair = true) :
    Downward host db.observations pair.newerId pair.olderId := by
  obtain ⟨rows, group, a, b, inside, alike, older, newer⟩ := compared
  obtain ⟨aHeld, bHeld, sorted, fine⟩ := pairsWise ((windowSorted host call.options rows).and (sound rows group)) inside
  have joined : ∀ row ∈ window host call.options rows, Joined db.observations row := by
    intro row held
    have sub := (sliceSublist _ _).subset held
    rw [Tables.memOrderBy] at sub
    exact groupJoined group sub
  have apart := fine alike (confirmedContradicted keyed (joined a aHeld) (joined b bHeld) older newer sure)
  rw [orientedNewer sorted apart.instants] at older newer
  obtain ⟨n, nHeld, nProject, nId, -, nCreated⟩ := joined a aHeld
  obtain ⟨o, oHeld, oProject, oId, -, oCreated⟩ := joined b bHeld
  refine ⟨n, nHeld, o, oHeld, (newer.trans nId).symm, (older.trans oId).symm, ?_, ?_, ?_⟩
  · rw [newer, older]
    exact apart.ids
  · rw [← nProject, ← oProject]
    exact apart.project
  · rw [← nCreated, ← oCreated]
    exact lt_of_le_of_ne sorted (fun same => apart.instants same.symm)

theorem downwardAcyclic {rows : List Observation} (keyed : (rows.map Observation.id).Nodup) {links : List Link}
    (down : ∀ a b, Superseded links a b → Downward host rows a b) : Chains.Acyclic (Superseded links) := by
  have height : ∀ row ∈ rows, (rows.find? (fun other => other.id = row.id)).map Observation.createdAt = some row.createdAt := by
    intro row held
    cases found : rows.find? (fun other => other.id = row.id) with
    | none => exact absurd (List.find?_eq_none.mp found row held) (by simp)
    | some other =>
      have is : other.id = row.id := by simpa using List.find?_some found
      rw [Tables.keyUnique keyed (List.mem_of_find?_eq_some found) held is]
      rfl
  refine Chains.acyclicDown (fun id => instant host (((rows.find? (fun other => other.id = id)).map Observation.createdAt).getD ""))
    (fun a b edge => ?_)
  obtain ⟨newer, newerHeld, older, olderHeld, rfl, rfl, -, -, less⟩ := down a b edge
  rw [height newer newerHeld, height older olderHeld]
  exact less
end

abbrev step (host : Host) (db : Db) (call : Call) : Db := (detectContradictions host call db).1

-- Over any number of calls every link goes from a newer to an older observation of its project, so none leads back.
theorem supersededDown {host : Host} {db : Db} (keyed : (db.observations.map Observation.id).Nodup)
    (before : ∀ a b, Superseded db.links a b → Downward host db.observations a b) {calls : List Call}
    (sound : ∀ call ∈ calls, call.Sound host db) :
    (∀ a b, Superseded (Runs.run (step host) db calls).links a b → Downward host db.observations a b) ∧
      Chains.Acyclic (Superseded (Runs.run (step host) db calls).links) := by
  have kept : ∀ now call, Call.Sound host db call →
      (now.observations = db.observations ∧ now.tags = db.tags ∧ ∀ a b, Superseded now.links a b → Downward host db.observations a b) →
      (step host now call).observations = db.observations ∧ (step host now call).tags = db.tags ∧
        ∀ a b, Superseded (step host now call).links a b → Downward host db.observations a b := by
    rintro now call fine ⟨rows, tags, down⟩
    refine ⟨rows, tags, ?_⟩
    rintro a b ⟨link, mem, is, rfl, rfl⟩
    rcases insertLinksFrom mem with old | new
    · exact down _ _ ⟨link, old, is, rfl, rfl⟩
    · obtain ⟨pair, held, rfl⟩ := List.mem_map.mp new
      obtain ⟨pending, sure⟩ := List.mem_filter.mp held
      have same : Call.Sound host now call := by
        unfold Call.Sound loadConceptGroups tagged at fine ⊢
        rwa [rows, tags]
      rw [← rows] at keyed ⊢
      exact pairDownward keyed same (pendingCompared host now call pair pending) sure
  have all := Runs.invariantOn (step host) kept ⟨rfl, rfl, before⟩ calls sound
  exact ⟨all.2.2, downwardAcyclic keyed all.2.2⟩

def noted (id createdAt : String) : Observation :=
  {Consolidation.plainObservation id "s" "use sqlite storage" with createdAt := createdAt}
def agreeing : Call :=
  ⟨⟨none, none, none, some (fun _ _ => ⟨true, 1⟩), none⟩, "2026-01-03", "2026-01-03", Tables.inOrder⟩

def datingHost : Host := {plainHost with parseDate := fun text => if text = "2026-01-01" then some 1 else some 2}
def dated : Db :=
  {Db.empty with
    observations := [noted "a" "2026-01-01", noted "b" "2026-01-02"]
    tags := [⟨"a", "storage", "concept", ""⟩, ⟨"b", "storage", "concept", ""⟩]}

theorem supersededDownDated :
    (∀ a b, Superseded (Runs.run (step datingHost) dated [agreeing, agreeing]).links a b → Downward datingHost dated.observations a b) ∧
      Chains.Acyclic (Superseded (Runs.run (step datingHost) dated [agreeing, agreeing]).links) := by
  have groups : loadConceptGroups agreeing dated =
      [[⟨"p", "storage", "a", "use sqlite storage", "2026-01-01"⟩, ⟨"p", "storage", "b", "use sqlite storage", "2026-01-02"⟩]] := by
    decide +kernel
  have newest : window datingHost agreeing.options
      [⟨"p", "storage", "a", "use sqlite storage", "2026-01-01"⟩, ⟨"p", "storage", "b", "use sqlite storage", "2026-01-02"⟩] =
      [⟨"p", "storage", "b", "use sqlite storage", "2026-01-02"⟩, ⟨"p", "storage", "a", "use sqlite storage", "2026-01-01"⟩] := by
    decide +kernel
  have sound : agreeing.Sound datingHost dated := by
    intro rows group
    rw [groups] at group
    obtain rfl := List.mem_singleton.mp group
    rw [newest]
    refine List.pairwise_pair.mpr (fun _ _ => ⟨by decide, rfl, by decide +kernel⟩)
  refine supersededDown (by decide) ?_ (List.forall_mem_cons.mpr ⟨sound, List.forall_mem_cons.mpr ⟨sound, by simp⟩⟩)
  rintro a b ⟨link, mem, -⟩
  exact absurd mem List.not_mem_nil

-- One observation that is tagged twice with the same text, as its topic and as its category.
def twiceTagged : Db :=
  {Db.empty with
    observations := [noted "a" "2026-01-01"]
    tags := [⟨"a", "storage", "topic", ""⟩, ⟨"a", "storage", "category", ""⟩]}

theorem supersededItself : ¬ Chains.Acyclic (Superseded (Runs.run (step datingHost) twiceTagged [agreeing]).links) := by
  have links : (Runs.run (step datingHost) twiceTagged [agreeing]).links = [⟨"a", "a", "superseded", 1, "2026-01-03"⟩] := by
    decide +kernel
  intro acyclic
  refine acyclic "a" (.single ⟨⟨"a", "a", "superseded", 1, "2026-01-03"⟩, ?_, rfl, rfl, rfl⟩)
  rw [links]
  exact List.mem_singleton_self _

end HarnessMem.ContradictionDetector
