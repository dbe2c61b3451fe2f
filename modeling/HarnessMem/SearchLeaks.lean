import HarnessMem.SearchScope

/-! A database for every stage that lets an unfiltered row in, on which that row comes back. -/
namespace HarnessMem.Search
open Js Text Recorder Visibility

-- Every row matches, and the named one ranks first by far.
def favoring (id : String) : Engine where
  fullText := fun index _ => index.map Prod.fst
  searchTokens := fun _ => [""]
  nearest := fun _ _ _ => []
  nearestFrom := fun _ _ _ _ mem => absurd mem List.not_mem_nil
  bestFirst := fun _ ids => ids
  bestFirstPerm := fun _ ids => .refl ids
  rank := fun _ rows => (rows.filter (fun row => row.id = id)).map (fun row => ⟨row, 4⟩) ++
    (rows.filter (fun row => !decide (row.id = id))).map (fun row => ⟨row, 1⟩)
  rankPerm := fun _ rows => by
    rw [List.map_append, List.map_map, List.map_map]
    change (List.map (fun row => row) _ ++ List.map (fun row => row) _).Perm rows
    rw [List.map_id', List.map_id']
    exact List.filter_append_perm (fun row => decide (row.id = id)) rows
  collate := compare
  dayDistance := fun _ _ => none

-- A row with the same scope and nothing else of its own.
def stub (id : String) (row : Observation) : Observation :=
  {row with id, eventId := some id, title := none, contentRedacted := "x", tagsJson := ""}

def prompted (id : String) : Event :=
  ⟨id, "", "", "", "user_prompt", "", "", "", "", "", none, none, "", none, ""⟩

def sharing (ids : List String) : List Relation :=
  ids.map (fun id => ⟨"x", "x", "co-occurs", 1, id, ⟨none, none, none, none, none, none⟩, ""⟩)

theorem visitSeen {walk : Walk} {id other : String} (mem : other ∈ walk.seen) : other ∈ (visit walk id).seen := by
  unfold visit
  split
  · exact mem
  · exact List.mem_append_left _ mem

theorem visitsSeen {ids : List String} {walk : Walk} {other : String} (mem : other ∈ walk.seen) :
    other ∈ (ids.foldl visit walk).seen := by
  induction ids generalizing walk with
  | nil => exact mem
  | cons id rest ih => exact ih (visitSeen mem)

theorem batchesSeen {relations : List Relation} {chunks : List (List String)} {walk : Walk} {other : String}
    (mem : other ∈ walk.seen) : other ∈ (chunks.foldl (walkBatch relations) walk).seen := by
  induction chunks generalizing walk with
  | nil => exact mem
  | cons batch rest ih =>
    refine ih ?_
    unfold walkBatch
    split
    · exact mem
    · exact visitsSeen mem

theorem walkSeen {relations : List Relation} {n : Nat} {walk : Walk} {other : String} (mem : other ∈ walk.seen) :
    other ∈ (walkHops relations n walk).seen := by
  induction n generalizing walk with
  | zero => exact mem
  | succ n ih =>
    unfold walkHops
    split
    · exact mem
    · rename_i reached hop
      refine ih ?_
      unfold hopOnce at hop
      simp only at hop
      split at hop
      · cases hop
      · split at hop
        · cases hop
        · obtain rfl := Option.some.inj hop
          exact batchesSeen mem

theorem sharedReached {db : Db} (shared : db.relations = sharing ["s", "b"]) {depth : Number} (deep : depth.positive = true) :
    "b" ∈ expandObservationsViaGraph db ["s"] depth := by
  obtain ⟨n, hops⟩ : ∃ n, graphHops depth = n + 1 := by
    refine Nat.exists_eq_succ_of_ne_zero (Nat.ne_of_gt ?_)
    cases depth with
    | nan => cases deep
    | negInf => cases deep
    | posInf => decide
    | fin q =>
      have above : 0 < q := of_decide_eq_true deep
      exact Int.pos_iff_toNat_pos.mp (Int.ceil_pos.mpr (lt_min above (by norm_num)))
  have first : hopOnce (sharing ["s", "b"]) ⟨["s"], ["s"], [], 0, []⟩ =
      some ⟨["b"], ["s", "b"], ["x"], 1, ["b"]⟩ := by decide
  rw [expandObservationsViaGraph, hops, shared, walkHops, first]
  exact walkSeen (by simp)

section
variable {host : Host} {settings : Settings} {request : SearchRequest} {normal : Normalized} {db : Db}

theorem limitPositive (request : SearchRequest) : 0 < searchLimit request := by
  unfold searchLimit clampLimit
  split
  · exact Int.pos_iff_toNat_pos.mp (lt_of_lt_of_le Int.one_pos (le_max_left _ _))
  · decide

theorem limitsPositive (request : SearchRequest) : 0 < internalLimit request := by
  have := limitPositive request
  unfold internalLimit
  split <;> omega

-- The row far ahead of the others stays ahead when superseded rows lose half their score.
theorem settledFront {superseded : List String} {row : Observation} {rest : List Ranked}
    (included : superseded = [] ∨ request.includeSuperseded = true)
    (behind : ∀ entry ∈ rest, entry = ⟨row, 4⟩ ∨ entry.final = 1) :
    ∃ front tail, settle (favoring row.id) request superseded (⟨row, 4⟩ :: rest) = front :: tail ∧ front.row = row := by
  unfold settle
  by_cases none : superseded = []
  · exact ⟨_, _, if_pos none, rfl⟩
  · have kept : ¬ request.includeSuperseded = false := by simp [included.resolve_left none]
    rw [if_neg none, if_neg kept, List.map_cons, Tables.orderByFront]
    · exact ⟨_, _, rfl, by split <;> rfl⟩
    · intro other mem
      obtain ⟨entry, held, rfl⟩ := List.mem_map.mp mem
      rcases behind entry held with rfl | low
      · refine .inr ⟨rfl, ?_⟩
        simp [favoring]
      · refine .inl ?_
        have most : (if entry.row.id ∈ superseded then {entry with final := entry.final * (1 / 2)} else entry).final ≤ 1 := by
          split
          · change entry.final * (1 / 2) ≤ 1
            rw [low]
            norm_num
          · exact le_of_eq low
        refine lt_of_le_of_lt most ?_
        split
        · change (1 : ℚ) < 4 * (1 / 2)
          norm_num
        · change (1 : ℚ) < 4
          norm_num

-- A candidate that passes the check is the first item, where superseded rows are left in.
theorem favoredReturned {row : Observation} (included : db.links = [] ∨ request.includeSuperseded = true)
    (mem : row ∈ survivors host settings (favoring row.id) request normal db)
    (keyed : (db.observations.map Observation.id).Nodup) :
    row ∈ (rankedItems host settings (favoring row.id) request normal db).map Item.row := by
  obtain ⟨n, limit⟩ : ∃ n, searchLimit request = n + 1 :=
    Nat.exists_eq_succ_of_ne_zero (Nat.ne_of_gt (limitPositive request))
  have within : ∀ other ∈ survivors host settings (favoring row.id) request normal db, other ∈ db.observations :=
    fun other found => (survivorHeld found).2.1
  unfold rankedItems
  simp only [limit]
  generalize survivors host settings (favoring row.id) request normal db = rows at mem within
  have favored : row ∈ rows.filter (fun other => other.id = row.id) := by simp [mem]
  have same : ∀ other ∈ rows.filter (fun other => other.id = row.id), other = row := by
    intro other found
    obtain ⟨held, named⟩ := List.mem_filter.mp found
    exact Tables.keyUnique keyed (within other held) (within row mem) (of_decide_eq_true named)
  obtain ⟨others, ranked, behind⟩ : ∃ others, (favoring row.id).rank normal rows = ⟨row, 4⟩ :: others ∧
      ∀ entry ∈ others, entry = ⟨row, 4⟩ ∨ entry.final = 1 := by
    obtain ⟨first, rest, front⟩ := List.exists_cons_of_ne_nil (List.ne_nil_of_mem favored)
    obtain rfl := same first (front ▸ List.mem_cons_self)
    refine ⟨rest.map (fun other => ⟨other, 4⟩) ++
      (rows.filter (fun other => !decide (other.id = first.id))).map (fun other => ⟨other, 1⟩), ?_, ?_⟩
    · change (rows.filter (fun other => other.id = first.id)).map _ ++ _ = _
      rw [front]
      rfl
    · intro entry found
      rcases List.mem_append.mp found with near | far
      · obtain ⟨other, held, rfl⟩ := List.mem_map.mp near
        exact .inl (by rw [same other (front ▸ List.mem_cons_of_mem _ held)])
      · obtain ⟨other, _, rfl⟩ := List.mem_map.mp far
        exact .inr rfl
  have left : ∀ ids, TemporalState.loadSupersededObservationIds db ids = [] ∨ request.includeSuperseded = true :=
    fun ids => included.imp_left (fun none => by simp [TemporalState.loadSupersededObservationIds, none])
  rw [ranked]
  obtain ⟨head, tail, settled, front⟩ := settledFront (left ((⟨row, 4⟩ :: others : List Ranked).map (fun entry => entry.row.id))) behind
  rw [settled]
  simp [front]

def scene (rows : List Observation) (events : List Event) (tags : List Tag) (relations : List Relation) : Db :=
  {Db.empty with observations := rows, events, tags, relations}

-- On a database of one row that misses the filters, whatever an anchor search finds misses them too.
theorem aloneAnchored {engine : Engine} {row : Observation} {events : List Event} {tags : List Tag}
    {relations : List Relation} (misses : applyCommonFilters host settings normal row = false) :
    ∀ other ∈ anchorRows host settings engine request normal (scene [row] events tags relations),
      applyCommonFilters host settings normal other = false := by
  intro other mem
  obtain ⟨_, _, held, _⟩ := anchorRowHeld mem
  rw [List.mem_singleton.mp held]
  exact misses

theorem fileCandidate {engine : Engine} {path id : String} (given : path ∈ filePaths request.query)
    (tagged : id ∈ taggedWith path db) : id ∈ candidateIds host settings engine request normal db := by
  have some : filePaths request.query ≠ [] := List.ne_nil_of_mem given
  unfold candidateIds
  extract_lets linked expanded
  rw [extractFileFilterIds, if_neg some]
  exact memAddAll.mpr (.inr (memAddAll.mpr (.inr (List.mem_flatMap.mpr ⟨path, given, tagged⟩))))

theorem linkedFound {engine : Engine} {id : String} (found : id ∈ lexicalSearch host settings engine normal
    (internalLimit request) db ∨ id ∈ latestIds host settings engine request normal db) :
    id ∈ linkedIds host settings engine request normal db := by
  unfold linkedIds
  extract_lets hits seeded
  have seed : id ∈ seeded := by
    rcases found with lexical | latest
    · exact memAddAll.mpr (.inl (memAddAll.mpr (.inl (memAddAll.mpr (.inr lexical)))))
    · exact memAddAll.mpr (.inr latest)
  split
  · exact memAddAll.mpr (.inl seed)
  · exact seed

-- Without a `file:` token no later stage drops what the first ones found.
theorem linkedCandidate {engine : Engine} {id : String} (paths : filePaths request.query = [])
    (found : id ∈ linkedIds host settings engine request normal db) :
    id ∈ candidateIds host settings engine request normal db := by
  unfold candidateIds
  extract_lets linked expanded
  rw [extractFileFilterIds, if_pos paths]
  change id ∈ expanded
  unfold expanded
  split
  · exact memAddAll.mpr (.inl found)
  · exact found

theorem addNodup {ids more : List String} (distinct : ids.Nodup) : (addAll ids more).Nodup := by
  unfold addAll
  induction more generalizing ids with
  | nil => exact distinct
  | cons first rest ih =>
    refine ih ?_
    unfold add
    split
    · exact distinct
    · rename_i new
      exact List.Nodup.append distinct (List.nodup_singleton _) (List.disjoint_singleton.mpr new)

theorem linkedNodup {engine : Engine} : (linkedIds host settings engine request normal db).Nodup := by
  unfold linkedIds
  extract_lets hits seeded
  have seeds : seeded.Nodup := addNodup (addNodup (addNodup List.nodup_nil))
  split
  · exact addNodup seeds
  · exact seeds

-- An observation that shares an entity with a found one is found too.
theorem graphCandidate {engine : Engine} (paths : filePaths request.query = [])
    (deep : request.graphDepth.positive = true) (shared : db.relations = sharing ["s", "b"])
    (rows : ∀ row ∈ db.observations, row.id = "s" ∨ row.id = "b")
    (found : "s" ∈ linkedIds host settings engine request normal db) :
    "b" ∈ candidateIds host settings engine request normal db := by
  by_cases both : "b" ∈ linkedIds host settings engine request normal db
  · exact linkedCandidate paths both
  have only : ∀ id ∈ linkedIds host settings engine request normal db, id = "s" := by
    intro id mem
    have row : ∃ row ∈ db.observations, row.id = id := by
      rcases linkedSource mem with ⟨row, held, same, _⟩ | ⟨_, row, held, same, _⟩
      · exact ⟨row, held, same⟩
      · exact ⟨row, held, same⟩
    obtain ⟨row, held, rfl⟩ := row
    exact (rows row held).resolve_right (fun same => both (same ▸ mem))
  have alone : linkedIds host settings engine request normal db = ["s"] := by
    have repeated := List.eq_replicate_of_mem only
    have distinct : (linkedIds host settings engine request normal db).Nodup := linkedNodup
    rw [repeated, List.nodup_replicate] at distinct
    have some := List.length_pos_of_mem found
    rw [repeated, show (linkedIds host settings engine request normal db).length = 1 by omega]
    rfl
  unfold candidateIds
  extract_lets linked expanded
  rw [extractFileFilterIds, if_pos paths]
  change "b" ∈ expanded
  unfold expanded linked
  rw [alone, if_pos ⟨deep, List.cons_ne_nil _ _⟩]
  exact memAddAll.mpr (.inr (sharedReached shared deep))

theorem stubPrompt (id : String) (row : Observation) : ignoredPrompt host (stub id row) = false := by
  have plain : isIgnored ignoredPrompts (slice "x" 0 2000) = false := by decide
  have titled : isIgnored ignoredPrompts (trim ("" ++ "\n" ++ slice "x" 0 2000)) = false := by decide
  have untagged : hasIgnoredVisibleTag host (stub id row) = false := by simp [hasIgnoredVisibleTag, parseArrayJson, stub]
  rw [ignoredPrompt, untagged]
  change (false || isIgnored ignoredPrompts (slice "x" 0 2000) ||
    isIgnored ignoredPrompts (trim ("" ++ "\n" ++ slice "x" 0 2000))) = false
  rw [plain, titled]
  rfl

-- The only prompt among the rows is the latest interaction.
theorem promptLatest {engine : Engine} {row : Observation} {rest : List Observation} {tags : List Tag}
    {relations : List Relation} (wanted : Asked request normal) (latest : latestRow host settings normal row)
    (others : ∀ other ∈ rest, other.eventId ≠ some "s") :
    "s" ∈ latestIds host settings engine request normal (scene (stub "s" row :: rest) [prompted "s"] tags relations) := by
  have mine : turnOf (scene (stub "s" row :: rest) [prompted "s"] tags relations) (stub "s" row) =
      some ⟨stub "s" row, "user_prompt"⟩ := by
    simp [turnOf, scene, stub, prompted]
  have theirs : ∀ other ∈ rest, turnOf (scene (stub "s" row :: rest) [prompted "s"] tags relations) other = none := by
    intro other mem
    have apart : ¬ other.eventId = some "s" := others other mem
    simp [turnOf, scene, prompted, apart]
  have turns : queryLatestInteractionObservations host settings (normal.projectMembers.getD []) normal 400
      (scene (stub "s" row :: rest) [prompted "s"] tags relations) = [⟨stub "s" row, "user_prompt"⟩] := by
    have kept : (stub "s" row :: rest).filter (latestFilter host settings (normal.projectMembers.getD []) normal) =
        stub "s" row :: rest.filter (latestFilter host settings (normal.projectMembers.getD []) normal) :=
      List.filter_cons_of_pos latest
    have none : (rest.filter (latestFilter host settings (normal.projectMembers.getD []) normal)).filterMap
        (turnOf (scene (stub "s" row :: rest) [prompted "s"] tags relations)) = [] :=
      List.filterMap_eq_nil_iff.mpr (fun other mem => theirs other (List.mem_of_mem_filter mem))
    unfold queryLatestInteractionObservations interactionRows
    simp only
    change List.take _ (Tables.orderBy _ (List.filterMap _ ((stub "s" row :: rest).filter _))) = _
    rw [kept, List.filterMap_cons, mine]
    simp only [none]
    rfl
  have context : selectLatestInteractionContext host engine [⟨stub "s" row, "user_prompt"⟩] =
      some ⟨row.createdAt, row.sessionId, stub "s" row, none⟩ := by
    have one : sessionInteraction host engine [⟨stub "s" row, "user_prompt"⟩] =
        some ⟨row.createdAt, row.sessionId, stub "s" row, none⟩ := by
      simp only [sessionInteraction, Tables.orderBy, List.insertionSort, List.foldr_cons, List.foldr_nil,
        List.orderedInsert, List.foldl_cons, List.foldl_nil, followTurn, if_true, stubPrompt, Bool.false_eq_true, if_false]
      rfl
    have alone : [(stub "s" row).sessionId].eraseDups = [row.sessionId] := by
      rw [List.eraseDups_cons]
      rfl
    have mine : [(⟨stub "s" row, "user_prompt"⟩ : Turn)].filter (fun turn => turn.row.sessionId = row.sessionId) =
        [⟨stub "s" row, "user_prompt"⟩] := by simp [stub]
    unfold selectLatestInteractionContext collectLatestInteractionContexts
    simp only [List.map_cons, List.map_nil, alone, List.filterMap_cons, List.filterMap_nil, mine, one]
    rfl
  obtain ⟨intent, somewhere⟩ := wanted
  unfold latestIds
  rw [if_neg (by simp [intent]), getLatestInteractionContext, if_neg somewhere, turns, context]
  simp [stub]

theorem lexicalNone {engine : Engine} {limit : Nat}
    (none : ∀ row ∈ db.observations, applyCommonFilters host settings normal row = false) :
    lexicalSearch host settings engine normal limit db = [] := by
  refine List.eq_nil_iff_forall_not_mem.mpr (fun id found => ?_)
  obtain ⟨row, held, _, meets⟩ := lexicalAdmitted found
  rw [none row held] at meets
  cases meets

theorem vectorNone {id : String} {limit : Nat} :
    vectorSearch host settings (favoring id) normal limit db = [] := by
  unfold vectorSearch
  split <;> rfl

theorem includesEmpty (s : String) : includes s "" = true := by
  have empty : "".toList = [] := by decide
  unfold includes
  rw [empty]
  cases s.toList with
  | nil => rfl
  | cons c rest => simp [List.tails]

-- Of two rows of which only the first meets the filters, full text finds the first.
theorem lexicalFirst {a b : Observation} {events : List Event} {tags : List Tag} {relations : List Relation} {id : String}
    {limit : Nat} (some : 0 < limit) (meets : applyCommonFilters host settings normal a = true)
    (misses : applyCommonFilters host settings normal b = false) :
    lexicalSearch host settings (favoring id) normal limit (scene [stub "s" a, stub "b" b] events tags relations) = ["s"] := by
  obtain ⟨n, rfl⟩ : ∃ n, limit = n + 1 := Nat.exists_eq_succ_of_ne_zero (Nat.ne_of_gt some)
  have rows : admitted host settings normal (scene [stub "s" a, stub "b" b] events tags relations) = [stub "s" a] := by
    have none : [stub "b" b].filter (applyCommonFilters host settings normal) = [] :=
      List.filter_cons_of_neg (ne_true_of_eq_false misses)
    refine (List.filter_cons_of_pos (a := stub "s" a) meets).trans ?_
    rw [none]
  have mentioned : mentions host [""] (stub "s" a) = true := by simp [mentions, includesEmpty]
  unfold lexicalSearch
  rw [rows]
  simp only
  split
  · simp [favoring, scene, Observation.ftsRow, stub]
  · obtain ⟨m, wide⟩ : ∃ m, max ((n + 1) * 4) 200 = m + 1 := Nat.exists_eq_succ_of_ne_zero (by omega)
    rw [wide, Tables.orderByOne, List.take_succ_cons, List.take_nil]
    change (List.filter (mentions host [""]) [stub "s" a]).map Observation.id = ["s"]
    rw [List.filter_cons_of_pos mentioned]
    rfl

-- An anchor search that can find the first row centres on it, and so does not return it.
theorem pairAnchored {a b : Observation} {events : List Event} {tags : List Tag} {relations : List Relation}
    {id : String} (misses : applyCommonFilters host settings normal b = false) :
    ∀ other ∈ anchorRows host settings (favoring id) request normal (scene [stub "s" a, stub "b" b] events tags relations),
      applyCommonFilters host settings normal other = false := by
  intro other mem
  obtain ⟨anchor, routed, held, _⟩ := anchorRowHeld mem
  have pair : other = stub "s" a ∨ other = stub "b" b := by simpa [scene] using held
  rcases pair with rfl | rfl
  · rw [← Bool.not_eq_true]
    intro meets
    have asked : applyCommonFilters host settings {normal with query := anchor.referenceText} a = true := meets
    have others : applyCommonFilters host settings {normal with query := anchor.referenceText} b = false := misses
    unfold anchorRows temporalAnchorSearch at mem
    rw [routed] at mem
    have most : (0 : Nat) < 20 := by decide
    have center : (scene [stub "s" a, stub "b" b] events tags relations).observations.find?
        (fun row => decide (row.id = "s")) = some (stub "s" a) := by simp [scene, stub]
    have head : ((favoring id).bestFirst {normal with query := anchor.referenceText} (addAll [] ["s"])).head? =
        some "s" := rfl
    simp only [vectorNone, lexicalFirst most asked others] at mem
    split at mem
    · cases mem
    · rw [head] at mem
      simp only [center, Option.getD_some] at mem
      exact absurd rfl (aroundHeld mem).2
  · exact misses

theorem candidateReturned (on : settings.retrievalEnabled = true) (asked : trim request.query ≠ "")
    (ok : normalizeRequest settings request = .ok normal) {row : Observation}
    (keyed : (db.observations.map Observation.id).Nodup) (included : db.links = [] ∨ request.includeSuperseded = true)
    (held : row ∈ db.observations) (named : row.id ≠ "") (kept : keptCandidate host settings normal db row = true)
    (hit : row.id ∈ candidateIds host settings (favoring row.id) request normal db)
    (quiet : anchorRows host settings (favoring row.id) request normal db = []) :
    ∃ response, search host settings (favoring row.id) request db = .ok response ∧ row ∈ response.rows := by
  have live := kept
  rw [keptCandidate, postCheck, Bool.and_eq_true, Bool.and_eq_true, Bool.and_eq_true] at live
  have survives : row ∈ survivors host settings (favoring row.id) request normal db :=
    List.mem_filter.mpr ⟨List.mem_filterMap.mpr ⟨row.id, hit, loadUnique keyed held named live.2.1.1⟩, kept⟩
  refine ⟨_, searchRun on asked ok, ?_⟩
  rw [if_neg (not_not_intro quiet)]
  exact favoredReturned included survives keyed

theorem keptUnlinked {row : Observation} (unlinked : db.links = []) (checked : postCheck host settings normal row = true) :
    keptCandidate host settings normal db row = true := by
  simp [keptCandidate, updatedIds, unlinked, checked]

-- An engine no text matches in.
def silent : Engine := {favoring "b" with fullText := fun _ _ => [], searchTokens := fun _ => []}

theorem silentAnchored {anchor : Anchor} {row : Observation} (only : db.observations = [row])
    (routed : settings.route request.query request.questionKind = some anchor) {members : List String}
    (resolved : anchorMembers settings normal = .ok members) (kept : anchorFilter members normal row = true) :
    anchorRows host settings silent request normal db = [row] := by
  obtain ⟨n, limit⟩ : ∃ n, searchLimit request = n + 1 :=
    Nat.exists_eq_succ_of_ne_zero (Nat.ne_of_gt (limitPositive request))
  have lexical : ∀ query many, lexicalSearch host settings silent query many db = [] := by
    intro query many
    unfold lexicalSearch
    simp only
    split
    · simp [silent]
    · simp [silent, mentions]
  have vector : ∀ query many, vectorSearch host settings silent query many db = [] := by
    intro query many
    unfold vectorSearch
    split <;> rfl
  have rows : db.observations.filter (anchorFilter members normal) = [row] := by
    rw [only]
    exact List.filter_cons_of_pos kept
  unfold anchorRows temporalAnchorSearch
  rw [routed, resolved]
  simp only [lexical, vector, rows, limit]
  change (byAnchor _ [row]).take (n + 1) = _
  unfold byAnchor
  split <;> simp

end

section
variable {host : Host} {settings : Settings} {request : SearchRequest} {normal : Normalized}
variable (sound : Scoped host settings request) (on : settings.retrievalEnabled = true)
  (asked : trim request.query ≠ "") (ok : normalizeRequest settings request = .ok normal)
include sound on asked ok

theorem scopedCandidate (db : Db) (row : Observation) (keyed : (db.observations.map Observation.id).Nodup) (unlinked : db.links = [])
    (held : row ∈ db.observations) (named : row.id ≠ "") (checked : postCheck host settings normal row = true)
    (hit : row.id ∈ candidateIds host settings (favoring row.id) request normal db)
    (anchored : ∀ other ∈ anchorRows host settings (favoring row.id) request normal db,
      applyCommonFilters host settings normal other = false) :
    applyCommonFilters host settings normal row = true := by
  by_cases quiet : anchorRows host settings (favoring row.id) request normal db = []
  · obtain ⟨response, ran, mem⟩ := candidateReturned on asked ok keyed (.inl unlinked) held named
      (keptUnlinked unlinked checked) hit quiet
    exact sound _ db normal response keyed ok ran row mem
  · obtain ⟨first, mem⟩ := List.exists_mem_of_ne_nil _ quiet
    have meets := sound (favoring row.id) db normal _ keyed ok (searchRun on asked ok) first
      (by rw [if_pos quiet]; exact mem)
    rw [anchored first mem] at meets
    cases meets

theorem fileGuarded (paths : filePaths request.query ≠ []) (row : Observation)
    (checked : postCheck host settings normal row = true) : applyCommonFilters host settings normal row = true := by
  by_contra misses
  rw [Bool.not_eq_true] at misses
  obtain ⟨path, given⟩ := List.exists_mem_of_ne_nil _ paths
  have tagged : "b" ∈ taggedWith path (scene [stub "b" row] [] [⟨"b", "file:" ++ path, "provenance", ""⟩] []) := by
    simp [taggedWith, scene]
  have meets := scopedCandidate sound on asked ok (scene [stub "b" row] [] [⟨"b", "file:" ++ path, "provenance", ""⟩] [])
    (stub "b" row) (List.nodup_singleton _) rfl List.mem_cons_self (by simp [stub]) checked
    (fileCandidate given tagged) (aloneAnchored misses)
  exact absurd meets (ne_true_of_eq_false misses)

theorem latestGuarded (paths : filePaths request.query = []) (wanted : Asked request normal) (row : Observation)
    (latest : latestRow host settings normal row) (checked : postCheck host settings normal row = true) :
    applyCommonFilters host settings normal row = true := by
  by_contra misses
  rw [Bool.not_eq_true] at misses
  have meets := scopedCandidate sound on asked ok (scene [stub "s" row] [prompted "s"] [] []) (stub "s" row)
    (List.nodup_singleton _) rfl List.mem_cons_self (by simp [stub]) checked
    (linkedCandidate paths (linkedFound (.inr (promptLatest wanted latest (fun _ mem => absurd mem List.not_mem_nil)))))
    (aloneAnchored misses)
  exact absurd meets (ne_true_of_eq_false misses)

theorem anchorGuarded (anchor : Anchor) (routed : settings.route request.query request.questionKind = some anchor)
    (members : List String) (resolved : anchorMembers settings normal = .ok members) (row : Observation)
    (kept : anchorFilter members normal row = true) : applyCommonFilters host settings normal row = true := by
  by_contra misses
  rw [Bool.not_eq_true] at misses
  obtain ⟨n, limit⟩ : ∃ n, searchLimit request = n + 1 :=
    Nat.exists_eq_succ_of_ne_zero (Nat.ne_of_gt (limitPositive request))
  have none : ∀ other ∈ (scene [stub "b" row] [] [] []).observations,
      applyCommonFilters host settings {normal with query := anchor.referenceText} other = false := by
    intro other mem
    rw [List.mem_singleton.mp mem]
    exact misses
  have only : (scene [stub "b" row] [] [] []).observations.filter (anchorFilter members normal) = [stub "b" row] :=
    List.filter_cons_of_pos kept
  have found : anchorRows host settings (favoring "b") request normal (scene [stub "b" row] [] [] []) =
      [stub "b" row] := by
    unfold anchorRows temporalAnchorSearch
    rw [routed, resolved]
    simp only [vectorNone, lexicalNone none, only, limit]
    change (byAnchor _ [stub "b" row]).take (n + 1) = _
    unfold byAnchor
    split <;> simp
  have meets := sound (favoring "b") (scene [stub "b" row] [] [] []) normal _ (List.nodup_singleton _) ok
    (searchRun on asked ok) (stub "b" row) (by rw [found]; exact List.mem_cons_self)
  exact absurd meets (ne_true_of_eq_false misses)

theorem graphGuarded (paths : filePaths request.query = []) (deep : request.graphDepth.positive = true)
    (seeded : ∃ seed, applyCommonFilters host settings normal seed = true ∨
      Asked request normal ∧ latestRow host settings normal seed) (row : Observation)
    (checked : postCheck host settings normal row = true) : applyCommonFilters host settings normal row = true := by
  by_contra misses
  rw [Bool.not_eq_true] at misses
  obtain ⟨seed, start⟩ := seeded
  have many : 0 < internalLimit request := limitsPositive request
  have found : "s" ∈ linkedIds host settings (favoring "b") request normal
      (scene [stub "s" seed, stub "b" row] [prompted "s"] [] (sharing ["s", "b"])) := by
    rcases start with meets | ⟨wanted, latest⟩
    · exact linkedFound (.inl (by rw [lexicalFirst many meets misses]; exact List.mem_cons_self))
    · exact linkedFound (.inr (promptLatest wanted latest (by simp [stub])))
  have meets := scopedCandidate sound on asked ok
    (scene [stub "s" seed, stub "b" row] [prompted "s"] [] (sharing ["s", "b"])) (stub "b" row)
    (by simp [scene, stub]) rfl (List.mem_cons_of_mem _ List.mem_cons_self) (by simp [stub]) checked
    (graphCandidate paths deep rfl (by simp [scene, stub]) found) (pairAnchored misses)
  exact absurd meets (ne_true_of_eq_false misses)

end

end HarnessMem.Search
