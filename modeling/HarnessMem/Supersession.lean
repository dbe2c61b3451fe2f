import HarnessMem.ResumePack
import HarnessMem.SearchLeaks

/-! What the readers make of a superseding link. Explicit links say `supersedes`, contradiction
detection writes `superseded`, and each reader asks for one of the two only. -/
namespace HarnessMem.Supersession
open Js Text Recorder Visibility TemporalState Search Readers ResumePack

def SupersededBy (relation : String) (db : Db) (row : Observation) : Prop :=
  ∃ link ∈ db.links, link.relation = relation ∧ link.toId = row.id

structure Stored (db : Db) (row : Observation) : Prop where
  keyed : (db.observations.map Observation.id).Nodup
  held : row ∈ db.observations
  named : row.id ≠ ""

-- The `temporal_state` of every returned item; the items of an anchor search carry none.
def states : Response → List (Observation × Option State)
  | .disabled | .queryRequired => []
  | .anchored rows => rows.map (·, none)
  | .ranked items => items.map (fun item => (item.row, some item.state))

def items : Response → List Item
  | .ranked items => items
  | _ => []

structure SearchHonours (host : Host) (settings : Settings) (engine : Engine) (request : SearchRequest) (normal : Normalized)
    (db : Db) (row : Observation) (response : Response) : Prop where
  dropped : request.includeSuperseded = false ∨ request.excludeUpdated = true → row ∉ response.rows
  reported : ∀ state, (row, state) ∈ states response → state = some .superseded
  demoted : ∀ item ∈ items response, item.row = row → ∃ entry ∈ engine.rank normal (survivors host settings engine request normal db),
    entry.row = row ∧ item.final = entry.final * (1 / 2)

-- Every reader honours a link of this relation, in every database.
structure Honoured (host : Host) (settings : Settings) (config : Config) (request : SearchRequest) (relation : String) :
    Prop where
  search : ∀ engine db normal response row, Stored db row → SupersededBy relation db row →
    normalizeRequest settings request = .ok normal → search host settings engine request db = .ok response →
      SearchHonours host settings engine request normal db row response
  timeline : ∀ request db entries row, Stored db row → SupersededBy relation db row →
    timeline host settings request db = some entries → ∀ entry ∈ entries, entry.id = row.id → entry.state = some .superseded
  resume : ∀ engine request db pack row, Stored db row → SupersededBy relation db row →
    resumePack host settings engine config request db = .ok (.full pack) →
      ∀ item ∈ pack.items, item.row = row → item.state = .superseded

-- Some database makes the search return a row as a candidate.
def Returnable (host : Host) (settings : Settings) (request : SearchRequest) (normal : Normalized) : Prop :=
  ∃ row, postCheck host settings normal row = true ∧
    (filePaths request.query ≠ [] ∨ filePaths request.query = [] ∧
      (applyCommonFilters host settings normal row = true ∨ Asked request normal ∧ latestRow host settings normal row ∨
        request.graphDepth.positive = true ∧ ∃ seed, applyCommonFilters host settings normal seed = true ∨
          Asked request normal ∧ latestRow host settings normal seed))

-- The search does not look around a temporal anchor, and does not rely on `exclude_updated`.
structure LinkAware (host : Host) (settings : Settings) (request : SearchRequest) (normal : Normalized) : Prop where
  route : ∀ anchor members, settings.route request.query request.questionKind = some anchor →
    anchorMembers settings normal ≠ .ok members
  excluded : request.excludeUpdated = true → request.includeSuperseded = true → ¬ Returnable host settings request normal

section
variable {host : Host} {settings : Settings} {engine : Engine} {config : Config} {request : SearchRequest}
  {normal : Normalized} {db : Db} {row : Observation}

theorem loadedSuperseded {ids : List String} (linked : SupersededBy "supersedes" db row) (named : row.id ≠ "")
    (asked : row.id ∈ ids) : row.id ∈ loadSupersededObservationIds db ids := by
  obtain ⟨link, held, relation, target⟩ := linked
  unfold loadSupersededObservationIds
  simp only [List.mem_filter, List.mem_map]
  exact ⟨⟨link, ⟨held, by simp [relation, target, asked]⟩, target⟩, by simpa using named⟩

theorem settledEntry {superseded : List String} {ranked : List Ranked} {entry : Ranked}
    (mem : entry ∈ settle engine request superseded ranked) (stale : entry.row.id ∈ superseded) :
    request.includeSuperseded = true ∧ ∃ old ∈ ranked, old.row = entry.row ∧ entry.final = old.final * (1 / 2) := by
  unfold settle at mem
  rw [if_neg (List.ne_nil_of_mem stale)] at mem
  split at mem
  · have kept := (List.mem_filter.mp mem).2
    simp [stale] at kept
  · rename_i included
    refine ⟨by simpa using included, ?_⟩
    obtain ⟨old, held, rfl⟩ := List.mem_map.mp ((Tables.memOrderBy _).mp mem)
    by_cases halved : old.row.id ∈ superseded
    · rw [if_pos halved]
      exact ⟨old, held, rfl, rfl⟩
    · rw [if_neg halved] at stale
      exact absurd stale halved

theorem survivorReturnable (mem : row ∈ survivors host settings engine request normal db)
    (keyed : (db.observations.map Observation.id).Nodup) : Returnable host settings request normal := by
  obtain ⟨candidate, held, checked⟩ := survivorHeld mem
  refine ⟨row, checked, ?_⟩
  cases candidateSource candidate with
  | filtered other =>
    obtain ⟨other, found, same, meets⟩ := other
    obtain rfl := Tables.keyUnique keyed found held same
    by_cases paths : filePaths request.query = []
    · exact .inr ⟨paths, .inl meets⟩
    · exact .inl paths
  | latest paths asked other =>
    obtain ⟨other, found, same, latest⟩ := other
    obtain rfl := Tables.keyUnique keyed found held same
    exact .inr ⟨paths, .inr (.inl ⟨asked, latest⟩)⟩
  | graph paths deep seed => exact .inr ⟨paths, .inr (.inr ⟨deep, seed⟩)⟩
  | file paths => exact .inl paths

theorem unanchored (aware : LinkAware host settings request normal) :
    anchorRows host settings engine request normal db = [] := by
  refine List.eq_nil_iff_forall_not_mem.mpr (fun row mem => ?_)
  obtain ⟨anchor, routed, _, members, resolved, _⟩ := anchorRowHeld mem
  exact aware.route anchor members routed resolved

-- What a ranked item of a superseded row has been through.
theorem supersededItem {item : Item} (linked : SupersededBy "supersedes" db item.row) (named : item.row.id ≠ "")
    (mem : item ∈ rankedItems host settings engine request normal db) :
    request.includeSuperseded = true ∧ item.state = .superseded ∧
      ∃ entry ∈ engine.rank normal (survivors host settings engine request normal db),
        entry.row = item.row ∧ item.final = entry.final * (1 / 2) := by
  unfold rankedItems at mem
  obtain ⟨entry, held, rfl⟩ := List.mem_map.mp mem
  have settled := List.mem_of_mem_take held
  obtain ⟨old, ranked, same⟩ := settledHeld settled
  have stale : entry.row.id ∈ loadSupersededObservationIds db
      ((engine.rank normal (survivors host settings engine request normal db)).map (fun entry => entry.row.id)) :=
    loadedSuperseded linked named (List.mem_map.mpr ⟨old, ranked, by rw [same]⟩)
  obtain ⟨included, halved⟩ := settledEntry settled stale
  exact ⟨included, supersededState.mpr (.inl ⟨named, stale⟩), halved⟩

-- A link-aware search answers with ranked items, if it runs at all.
theorem rankedResponse (aware : settings.retrievalEnabled = true → trim request.query ≠ "" →
      LinkAware host settings request normal) (ok : normalizeRequest settings request = .ok normal) {response : Response}
    (ran : search host settings engine request db = .ok response) :
    response = .disabled ∨ response = .queryRequired ∨
      response = .ranked (rankedItems host settings engine request normal db) ∧ LinkAware host settings request normal := by
  by_cases on : settings.retrievalEnabled = true
  · by_cases asked : trim request.query = ""
    · simp only [search, on, asked, Bool.true_eq_false, if_false, if_true] at ran
      exact .inr (.inl (Except.ok.inj ran).symm)
    · rw [searchRun on asked ok, unanchored (aware on asked), if_neg (not_not_intro rfl)] at ran
      exact .inr (.inr ⟨(Except.ok.inj ran).symm, aware on asked⟩)
  · rw [Bool.not_eq_true] at on
    simp only [search, on, if_true] at ran
    exact .inl (Except.ok.inj ran).symm

theorem supersedesSearch (aware : settings.retrievalEnabled = true → trim request.query ≠ "" →
      LinkAware host settings request normal) {response : Response}
    (stored : Stored db row) (linked : SupersededBy "supersedes" db row) (ok : normalizeRequest settings request = .ok normal)
    (ran : search host settings engine request db = .ok response) :
    SearchHonours host settings engine request normal db row response := by
  rcases rankedResponse aware ok ran with rfl | rfl | ⟨rfl, aware⟩
  · exact ⟨fun _ => List.not_mem_nil, fun _ mem => absurd mem List.not_mem_nil, fun _ mem => absurd mem List.not_mem_nil⟩
  · exact ⟨fun _ => List.not_mem_nil, fun _ mem => absurd mem List.not_mem_nil, fun _ mem => absurd mem List.not_mem_nil⟩
  · have through : ∀ item ∈ rankedItems host settings engine request normal db, item.row = row →
        request.includeSuperseded = true ∧ item.state = .superseded ∧
          ∃ entry ∈ engine.rank normal (survivors host settings engine request normal db),
            entry.row = row ∧ item.final = entry.final * (1 / 2) := by
      rintro item mem rfl
      exact supersededItem linked stored.named mem
    refine ⟨fun flags mem => ?_, fun state mem => ?_, fun item mem same => (through item mem same).2.2⟩
    · obtain ⟨item, held, same⟩ := List.mem_map.mp mem
      have included := (through item held same).1
      rcases flags with left | excluded
      · rw [included] at left
        cases left
      · exact aware.excluded excluded included (survivorReturnable (itemSurvives held) stored.keyed)
    · obtain ⟨item, held, pair⟩ := List.mem_map.mp mem
      obtain ⟨same, rfl⟩ := Prod.mk.inj pair
      rw [(through item held same).2.1]

-- The timeline's rows are stored rows, its centre among them.
theorem timelineHeld {request : TimelineRequest} {center other : Observation}
    (found : timelineCenter host request db = some center) (mem : other ∈ timelineRows host settings request db center) :
    other ∈ db.observations := by
  have middle : center ∈ db.observations := List.mem_of_find?_eq_some (Option.filter_eq_some_iff.mp found).1
  unfold timelineRows at mem
  simp only [List.mem_append, List.mem_reverse, List.mem_singleton] at mem
  rcases mem with (before | rfl) | after
  · exact List.mem_of_mem_filter (List.mem_of_mem_filter ((Tables.memOrderBy _).mp (List.mem_of_mem_take before)))
  · exact middle
  · exact List.mem_of_mem_filter (List.mem_of_mem_filter ((Tables.memOrderBy _).mp (List.mem_of_mem_take after)))

theorem supersedesTimeline {request : TimelineRequest} {entries : List Entry} (stored : Stored db row)
    (linked : SupersededBy "supersedes" db row) (shown : timeline host settings request db = some entries) :
    ∀ entry ∈ entries, entry.id = row.id → entry.state = some .superseded := by
  intro entry mem same
  unfold timeline at shown
  obtain ⟨center, found, rfl⟩ := Option.map_eq_some_iff.mp shown
  simp only at mem
  obtain ⟨other, inside, rfl⟩ := List.mem_map.mp mem
  obtain rfl := Tables.keyUnique stored.keyed (timelineHeld found inside) stored.held same
  have asked : other.id ∈ ((timelineRows host settings request db center).map Observation.id).filter (fun id => id ≠ "") :=
    List.mem_filter.mpr ⟨List.mem_map_of_mem inside, by simpa using stored.named⟩
  exact congrArg some (supersededState.mpr (.inl ⟨stored.named, loadedSuperseded linked stored.named asked⟩))

-- Every item of the pack is one of its rows, with the state the loaded links give it.
theorem packedRows {budget : Number} {summaryTokens : Nat} {supersededIds : List String} {rows : List Observation} :
    ∀ {packed : List PackItem × Nat},
      (∀ item ∈ packed.1, item.state = temporalState host settings.now none supersededIds item.row) →
      ∀ item ∈ (rows.foldl (packItem host settings config budget summaryTokens supersededIds) packed).1,
        item.state = temporalState host settings.now none supersededIds item.row ∧ (item ∈ packed.1 ∨ item.row ∈ rows) := by
  induction rows with
  | nil => exact fun states item mem => ⟨states item mem, .inl mem⟩
  | cons row rest ih =>
    intro packed states item mem
    have next : ∀ item ∈ (packItem host settings config budget summaryTokens supersededIds packed row).1,
        item.state = temporalState host settings.now none supersededIds item.row ∧ (item ∈ packed.1 ∨ item.row = row) := by
      intro item mem
      unfold packItem at mem
      simp only at mem
      split at mem
      · rcases List.mem_append.mp mem with old | new
        · exact ⟨states item old, .inl old⟩
        · rw [List.mem_singleton.mp new]
          exact ⟨rfl, .inr rfl⟩
      · rcases List.mem_append.mp mem with old | new
        · exact ⟨states item old, .inl old⟩
        · rw [List.mem_singleton.mp new]
          exact ⟨rfl, .inr rfl⟩
    obtain ⟨state, found⟩ := ih (fun item mem => (next item mem).1) item mem
    refine ⟨state, ?_⟩
    rcases found with early | late
    · rcases (next item early).2 with old | same
      · exact .inl old
      · exact .inr (same ▸ List.mem_cons_self)
    · exact .inr (List.mem_cons_of_mem _ late)

theorem supersedesItems {request : ResumePackRequest} {members : List String} {summary : Option LatestSummary}
    (named : row.id ≠ "") (linked : SupersededBy "supersedes" db row) :
    ∀ item ∈ packItems host settings config members request summary db, item.row = row → item.state = .superseded := by
  rintro item mem rfl
  unfold packItems at mem
  extract_lets rows ranked supersededIds summaryTokens packed at mem
  have inside : item ∈ packed := by
    rcases List.mem_append.mp mem with detailed | compact
    · exact List.mem_of_mem_filter detailed
    · exact List.mem_of_mem_filter compact
  obtain ⟨state, either⟩ := packedRows (fun _ none => absurd none List.not_mem_nil) item inside
  have ranked : item.row ∈ ranked := either.resolve_left List.not_mem_nil
  obtain ⟨pair, scored, same⟩ := List.mem_map.mp ranked
  obtain ⟨other, held, rfl⟩ := List.mem_map.mp ((config.byScorePerm _).mem_iff.mp scored)
  have found : item.row ∈ rows := same ▸ held
  rw [state]
  exact supersededState.mpr (.inl ⟨named, loadedSuperseded linked named
    (List.mem_filter.mpr ⟨List.mem_map_of_mem found, by simpa using named⟩)⟩)

theorem resumeFull {request : ResumePackRequest} {pack : Pack}
    (ran : resumePack host settings engine config request db = .ok (.full pack)) :
    ∃ members normal, membersOf settings request.projectMembers (some request.project) = .ok members ∧
      pack = fullPack host settings engine config members request normal db := by
  unfold resumePack at ran
  split at ran
  · cases ran
  · split at ran
    · cases ran
    · obtain ⟨normal, _, ran⟩ := bindOk ran
      obtain ⟨members, named, ran⟩ := bindOk ran
      split at ran
      · cases ran
      · split at ran
        · cases ran
        · cases ran
          exact ⟨members, normal, named, rfl⟩

theorem supersedesHonoured (aware : ∀ normal, normalizeRequest settings request = .ok normal →
      settings.retrievalEnabled = true → trim request.query ≠ "" → LinkAware host settings request normal) :
    Honoured host settings config request "supersedes" := by
  refine ⟨fun engine db normal response row stored linked ok ran => supersedesSearch (aware normal ok) stored linked ok ran,
    fun request db entries row stored linked shown => supersedesTimeline stored linked shown, ?_⟩
  intro engine request db pack row stored linked ran item mem same
  obtain ⟨members, normal, _, rfl⟩ := resumeFull ran
  exact supersedesItems stored.named linked item mem same

-- The same tables with one `supersedes` link, to the named row.
def marked (id : String) (db : Db) : Db := {db with links := [⟨"a", id, "supersedes", 1, ""⟩]}

theorem markedHops {id : String} {frontier : List String} (unlinked : db.links = []) :
    hopsFrom host settings normal frontier (marked id db) = hopsFrom host settings normal frontier db := by
  have same : admitted host settings normal (marked id db) = admitted host settings normal db := rfl
  have none : (marked id db).links.filter (fun link => linkRelations.contains link.relation) = [] := by
    simp [marked, linkRelations]
  unfold hopsFrom
  simp only [same, none, unlinked, List.filter_nil]

theorem markedSpread {id : String} (unlinked : db.links = []) {fuel : Nat} : ∀ {depth : Nat} {now : Spread},
    spread host settings normal (marked id db) fuel depth now = spread host settings normal db fuel depth now := by
  induction fuel with
  | zero => exact rfl
  | succ fuel ih =>
    intro depth now
    unfold spread
    simp only [markedHops unlinked, ih]

-- A link that no link expansion follows changes no search's candidates.
theorem markedCandidates {id : String} (unlinked : db.links = []) :
    candidateIds host settings engine request normal (marked id db) = candidateIds host settings engine request normal db := by
  have links : ∀ ids, expandByLinks host settings ids normal (marked id db) = expandByLinks host settings ids normal db := by
    intro ids
    unfold expandByLinks
    simp only [markedSpread unlinked]
  have linked : linkedIds host settings engine request normal (marked id db) =
      linkedIds host settings engine request normal db := by
    unfold linkedIds
    simp only [links]
    rfl
  unfold candidateIds
  simp only [linked]
  rfl

theorem lexicalAlone {a : Observation} {events : List Event} {tags : List Tag} {relations : List Relation} {id : String}
    {limit : Nat} (some : 0 < limit) (meets : applyCommonFilters host settings normal a = true) :
    lexicalSearch host settings (favoring id) normal limit (scene [stub "s" a] events tags relations) = ["s"] := by
  obtain ⟨n, rfl⟩ : ∃ n, limit = n + 1 := Nat.exists_eq_succ_of_ne_zero (Nat.ne_of_gt some)
  have rows : admitted host settings normal (scene [stub "s" a] events tags relations) = [stub "s" a] :=
    List.filter_cons_of_pos (a := stub "s" a) meets
  have mentioned : mentions host [""] (stub "s" a) = true := by simp [mentions, includesEmpty]
  unfold lexicalSearch
  rw [rows]
  simp only
  split
  · simp [favoring, scene, Observation.ftsRow, stub]
  · obtain ⟨m, wide⟩ : ∃ m, max ((n + 1) * 4) 200 = m + 1 := Nat.exists_eq_succ_of_ne_zero (by omega)
    rw [wide, Tables.orderByOne, List.take_succ_cons, List.take_nil]
    change (List.filter (mentions host [""]) [stub "s" a]).map Observation.id = ["s"]
    rw [List.filter_cons_of_pos mentioned]
    rfl

-- A database on which the search has the row as a candidate, and nothing is linked.
structure Found (host : Host) (settings : Settings) (request : SearchRequest) (normal : Normalized) (db : Db)
    (row : Observation) : Prop extends Stored db row where
  unlinked : db.links = []
  checked : postCheck host settings normal row = true
  candidate : row.id ∈ candidateIds host settings (favoring row.id) request normal db

theorem returnableFound (returnable : Returnable host settings request normal) :
    ∃ db row, Found host settings request normal db row := by
  have many : 0 < internalLimit request := limitsPositive request
  have filtered : ∀ row, filePaths request.query = [] → postCheck host settings normal row = true →
      applyCommonFilters host settings normal row = true → ∃ db row, Found host settings request normal db row := by
    intro row paths checked meets
    refine ⟨scene [stub "s" row] [] [] [], stub "s" row, ⟨List.nodup_singleton _, List.mem_cons_self, by simp [stub]⟩,
      rfl, checked, ?_⟩
    exact linkedCandidate paths (linkedFound (.inl (by rw [lexicalAlone many meets]; exact List.mem_cons_self)))
  obtain ⟨row, checked, paths | ⟨paths, meets | ⟨asked, latest⟩ | ⟨deep, seed, start⟩⟩⟩ := returnable
  · obtain ⟨path, given⟩ := List.exists_mem_of_ne_nil _ paths
    refine ⟨scene [stub "b" row] [] [⟨"b", "file:" ++ path, "provenance", ""⟩] [], stub "b" row,
      ⟨List.nodup_singleton _, List.mem_cons_self, by simp [stub]⟩, rfl, checked, ?_⟩
    exact fileCandidate given (by simp [taggedWith, scene, stub])
  · exact filtered row paths checked meets
  · refine ⟨scene [stub "s" row] [prompted "s"] [] [], stub "s" row,
      ⟨List.nodup_singleton _, List.mem_cons_self, by simp [stub]⟩, rfl, checked, ?_⟩
    exact linkedCandidate paths (linkedFound (.inr (promptLatest asked latest (fun _ mem => absurd mem List.not_mem_nil))))
  · by_cases meets : applyCommonFilters host settings normal row = true
    · exact filtered row paths checked meets
    · rw [Bool.not_eq_true] at meets
      refine ⟨scene [stub "s" seed, stub "b" row] [prompted "s"] [] (sharing ["s", "b"]), stub "b" row,
        ⟨by simp [scene, stub], List.mem_cons_of_mem _ List.mem_cons_self, by simp [stub]⟩, rfl, checked, ?_⟩
      refine graphCandidate paths deep rfl (by simp [scene, stub]) ?_
      rcases start with first | ⟨wanted, latest⟩
      · exact linkedFound (.inl (by rw [lexicalFirst many first meets]; exact List.mem_cons_self))
      · exact linkedFound (.inr (promptLatest wanted latest (by simp [stub])))

theorem honouredAware (on : settings.retrievalEnabled = true) (asked : trim request.query ≠ "")
    (ok : normalizeRequest settings request = .ok normal) (honoured : Honoured host settings config request "supersedes") :
    LinkAware host settings request normal := by
  have unrouted : ∀ anchor members, settings.route request.query request.questionKind = some anchor →
      anchorMembers settings normal ≠ .ok members := by
    intro anchor members routed resolved
    obtain ⟨project, inside⟩ : ∃ project, projectFilter members project = true := by
      cases members with
      | nil => exact ⟨"", rfl⟩
      | cons first rest => exact ⟨first, by simp [projectFilter]⟩
    have kept : anchorFilter members normal (plainRow "b" project "") = true := by
      simp [anchorFilter, plainRow, inside]
    have rows : anchorRows host settings silent request normal (marked "b" (scene [plainRow "b" project ""] [] [] [])) =
        [plainRow "b" project ""] := silentAnchored rfl routed resolved kept
    have linked : SupersededBy "supersedes" (marked "b" (scene [plainRow "b" project ""] [] [] [])) (plainRow "b" project "") :=
      ⟨_, List.mem_cons_self, rfl, rfl⟩
    have stored : Stored (marked "b" (scene [plainRow "b" project ""] [] [] [])) (plainRow "b" project "") :=
      ⟨List.nodup_singleton _, List.mem_cons_self, by simp [plainRow]⟩
    have shown := honoured.search silent _ normal _ _ stored linked ok (searchRun on asked ok)
    rw [rows] at shown
    have state := shown.reported none (by rw [if_pos (List.cons_ne_nil _ _)]; exact List.mem_cons_self)
    cases state
  refine ⟨unrouted, fun excluded included returnable => ?_⟩
  obtain ⟨db, row, found⟩ := returnableFound returnable
  have quiet : anchorRows host settings (favoring row.id) request normal (marked row.id db) = [] := by
    refine List.eq_nil_iff_forall_not_mem.mpr (fun other mem => ?_)
    obtain ⟨anchor, routed, _, members, resolved, _⟩ := anchorRowHeld mem
    exact unrouted anchor members routed resolved
  have kept : keptCandidate host settings normal (marked row.id db) row = true := by
    have notUpdated : updatedIds (marked row.id db) = [] := by simp [updatedIds, marked]
    simp [keptCandidate, notUpdated, found.checked]
  have stored : Stored (marked row.id db) row := ⟨found.keyed, found.held, found.named⟩
  have candidate : row.id ∈ candidateIds host settings (favoring row.id) request normal (marked row.id db) := by
    rw [markedCandidates found.unlinked]
    exact found.candidate
  obtain ⟨response, ran, mem⟩ := candidateReturned on asked ok stored.keyed (.inr included) stored.held stored.named kept
    candidate quiet
  have shown := honoured.search (favoring row.id) (marked row.id db) normal response row stored
    ⟨_, List.mem_cons_self, rfl, rfl⟩ ok ran
  exact shown.dropped (.inr excluded) mem

-- The timeline around a row that contradiction detection superseded.
theorem contradictedUnreported (lowers : ∀ s : String, (∀ c ∈ s.toList, c.toNat < 128) → host.toLowerCase s = s.toLower) :
    ¬ Honoured host settings config request "superseded" := by
  intro honoured
  have text : host.toLowerCase " " = " " := by
    have blank : ∀ c ∈ " ".toList, c.toNat < 128 := fun c mem => by
      obtain rfl := List.mem_singleton.mp mem
      decide
    rw [lowers " " blank]
    decide +kernel
  have quiet : markedSuperseded host (plainRow "b" "p" "") = false := by
    have silent : cued [noLongerCue, japaneseNoLonger] " " = false := by decide
    unfold markedSuperseded observationTemporalText
    change (false || cued [noLongerCue, japaneseNoLonger] (host.toLowerCase " ")) = false
    rw [text, silent]
    rfl
  let db : Db := {Db.empty with observations := [plainRow "b" "p" ""], links := [⟨"a", "b", "superseded", 1, ""⟩]}
  have shown : timeline host settings ⟨"b", .nan, .nan, true, false, none, none⟩ db =
      some [timelineEntry host settings [] (plainRow "b" "p" "")] := by
    have center : timelineCenter host ⟨"b", .nan, .nan, true, false, none, none⟩ db = some (plainRow "b" "p" "") := by
      simp [timelineCenter, db, plainRow, tenantFilter, truthy]
    have rows : timelineRows host settings ⟨"b", .nan, .nan, true, false, none, none⟩ db (plainRow "b" "p" "") =
        [plainRow "b" "p" ""] := by
      have before : ∀ request, (db.observations.filter (besideFilter host settings request (plainRow "b" "p" ""))).filter
          (fun row => row.createdAt < (plainRow "b" "p" "").createdAt) = [] := by
        intro request
        refine List.filter_eq_nil_iff.mpr (fun row mem => ?_)
        rw [List.mem_singleton.mp (List.mem_of_mem_filter mem)]
        simp
      have after : ∀ request, (db.observations.filter (besideFilter host settings request (plainRow "b" "p" ""))).filter
          (fun row => (plainRow "b" "p" "").createdAt < row.createdAt) = [] := by
        intro request
        refine List.filter_eq_nil_iff.mpr (fun row mem => ?_)
        rw [List.mem_singleton.mp (List.mem_of_mem_filter mem)]
        simp
      unfold timelineRows
      simp only [before, after]
      simp [Tables.orderBy]
    unfold timeline
    rw [center, Option.map_some, rows]
    rfl
  have state := honoured.timeline _ db _ (plainRow "b" "p" "") ⟨List.nodup_singleton _, List.mem_cons_self, by simp [plainRow]⟩
    ⟨_, List.mem_cons_self, rfl, rfl⟩ shown _ List.mem_cons_self rfl
  rcases supersededState.mp (Option.some.inj state) with listed | marked
  · exact absurd listed.2 List.not_mem_nil
  · rw [quiet] at marked
    cases marked

end

def plainConfig : Config where
  injectionEnabled := true
  resumePackMaxTokens := none
  envMaxTokens := .nan
  canonicalizeProject := id
  clock := ⟨"2026-01-01T00:00:00.000Z", "2026-01-02T00:00:00.000Z", fun _ => "2025-10-01T00:00:00.000Z"⟩
  byScore := id
  byScorePerm := fun rows => .refl rows

end HarnessMem.Supersession
