import HarnessMem.SearchSources

/-! Which search requests can only return rows that meet their common filters. A row that one
of the unfiltered stages lets in is shown to come back from a database made for it. -/
namespace HarnessMem.Search
open Js Text Recorder Visibility

-- Every row the search returns meets the filters of the request.
def Scoped (host : Host) (settings : Settings) (request : SearchRequest) : Prop :=
  ∀ engine db normal response, (db.observations.map Observation.id).Nodup →
    normalizeRequest settings request = .ok normal → search host settings engine request db = .ok response →
    ∀ row ∈ response.rows, applyCommonFilters host settings normal row = true

-- The latest interaction is looked up for the query, and there is somewhere to look.
def Asked (request : SearchRequest) (normal : Normalized) : Prop :=
  (truthy request.asOf = none ∧ isLatestInteractionIntent request.query = true) ∧
    ¬ (normal.projectMembers.getD [] = [] ∧ truthy normal.sessionId = none)

def latestRow (host : Host) (settings : Settings) (normal : Normalized) (row : Observation) : Prop :=
  latestFilter host settings (normal.projectMembers.getD []) normal row = true

-- For each stage that adds rows unfiltered: what it lets in meets the filters anyway.
structure Guarded (host : Host) (settings : Settings) (request : SearchRequest) (normal : Normalized) : Prop where
  anchor : ∀ anchor, settings.route request.query request.questionKind = some anchor →
    ∀ members, anchorMembers settings normal = .ok members →
      ∀ row, anchorFilter members normal row = true → applyCommonFilters host settings normal row = true
  file : filePaths request.query ≠ [] →
    ∀ row, postCheck host settings normal row = true → applyCommonFilters host settings normal row = true
  graph : filePaths request.query = [] → request.graphDepth.positive = true →
    (∃ seed, applyCommonFilters host settings normal seed = true ∨
      Asked request normal ∧ latestRow host settings normal seed) →
    ∀ row, postCheck host settings normal row = true → applyCommonFilters host settings normal row = true
  latest : filePaths request.query = [] → Asked request normal → ∀ row, latestRow host settings normal row →
    postCheck host settings normal row = true → applyCommonFilters host settings normal row = true

section
variable {host : Host} {settings : Settings} {engine : Engine} {request : SearchRequest} {normal : Normalized} {db : Db}

theorem searchRun (on : settings.retrievalEnabled = true) (asked : trim request.query ≠ "")
    (ok : normalizeRequest settings request = .ok normal) :
    search host settings engine request db =
      .ok (if anchorRows host settings engine request normal db ≠ [] then
        .anchored (anchorRows host settings engine request normal db)
      else .ranked (rankedItems host settings engine request normal db)) := by
  unfold search
  simp only [on, asked, ok, Bool.true_eq_false, if_false, bind, Except.bind, pure, Except.pure]
  split <;> rfl

theorem settledHeld {superseded : List String} {ranked : List Ranked} {entry : Ranked}
    (mem : entry ∈ settle engine request superseded ranked) : ∃ old ∈ ranked, old.row = entry.row := by
  unfold settle at mem
  split at mem
  · exact ⟨entry, mem, rfl⟩
  · split at mem
    · exact ⟨entry, List.mem_of_mem_filter mem, rfl⟩
    · obtain ⟨old, held, rfl⟩ := List.mem_map.mp ((Tables.memOrderBy _).mp mem)
      exact ⟨old, held, by split <;> rfl⟩

theorem itemSurvives {item : Item} (mem : item ∈ rankedItems host settings engine request normal db) :
    item.row ∈ survivors host settings engine request normal db := by
  unfold rankedItems at mem
  obtain ⟨entry, held, rfl⟩ := List.mem_map.mp mem
  obtain ⟨old, ranked, same⟩ := settledHeld (List.mem_of_mem_take held)
  exact same ▸ (engine.rankPerm normal _).mem_iff.mp (List.mem_map_of_mem ranked)

theorem survivorHeld {row : Observation} (mem : row ∈ survivors host settings engine request normal db) :
    row.id ∈ candidateIds host settings engine request normal db ∧ row ∈ db.observations ∧
      postCheck host settings normal row = true := by
  obtain ⟨loaded, kept⟩ := List.mem_filter.mp mem
  obtain ⟨id, candidate, found⟩ := List.mem_filterMap.mp loaded
  obtain ⟨held, rfl, _⟩ := loadedRow found
  rw [keptCandidate, Bool.and_eq_true] at kept
  exact ⟨candidate, held, kept.2⟩

theorem latestAsked {id : String} (found : id ∈ latestIds host settings engine request normal db) :
    Asked request normal ∧ ∃ row ∈ db.observations, row.id = id ∧ latestRow host settings normal row := by
  obtain ⟨intent, row⟩ := latestHeld found
  refine ⟨⟨intent, fun nowhere => ?_⟩, row⟩
  unfold latestIds at found
  split at found
  · cases found
  · rw [getLatestInteractionContext, if_pos nowhere] at found
    cases found

-- What brought a candidate in.
inductive Source (host : Host) (settings : Settings) (request : SearchRequest) (normal : Normalized) (db : Db)
    (id : String) : Prop where
  | filtered (row : Admitted host settings normal db id)
  | latest (paths : filePaths request.query = []) (asked : Asked request normal)
      (row : ∃ row ∈ db.observations, row.id = id ∧ latestRow host settings normal row)
  | graph (paths : filePaths request.query = []) (deep : request.graphDepth.positive = true)
      (seed : ∃ seed, applyCommonFilters host settings normal seed = true ∨
        Asked request normal ∧ latestRow host settings normal seed)
  | file (paths : filePaths request.query ≠ [])

theorem linkedSource {id : String} (found : id ∈ linkedIds host settings engine request normal db) :
    Admitted host settings normal db id ∨ Asked request normal ∧
      ∃ row ∈ db.observations, row.id = id ∧ latestRow host settings normal row := by
  unfold linkedIds at found
  extract_lets hits seeded at found
  have fromHits : ∀ other ∈ hits, Admitted host settings normal db other := by
    intro other mem
    rcases memAddAll.mp mem with lexical | vector
    · rcases memAddAll.mp lexical with none | lexical
      · cases none
      · exact lexicalAdmitted lexical
    · exact vectorAdmitted vector
  have fromSeeds : ∀ other ∈ seeded, Admitted host settings normal db other ∨ Asked request normal ∧
      ∃ row ∈ db.observations, row.id = other ∧ latestRow host settings normal row := by
    intro other mem
    rcases memAddAll.mp mem with hit | latest
    · exact .inl (fromHits other hit)
    · exact .inr (latestAsked latest)
  split at found
  · rcases memAddAll.mp found with seed | link
    · exact fromSeeds id seed
    · exact .inl (linksAdmitted link)
  · exact fromSeeds id found

theorem candidateSource {id : String} (found : id ∈ candidateIds host settings engine request normal db) :
    Source host settings request normal db id := by
  by_cases paths : filePaths request.query = []
  · unfold candidateIds at found
    extract_lets linked expanded at found
    rw [extractFileFilterIds, if_pos paths] at found
    change id ∈ expanded at found
    unfold expanded at found
    split at found
    · rename_i deep
      obtain ⟨first, mem⟩ := List.exists_mem_of_ne_nil _ deep.2
      refine .graph paths deep.1 ?_
      rcases linkedSource mem with ⟨row, _, _, meets⟩ | ⟨asked, row, _, _, latest⟩
      · exact ⟨row, .inl meets⟩
      · exact ⟨row, .inr ⟨asked, latest⟩⟩
    · rcases linkedSource found with row | ⟨asked, row⟩
      · exact .filtered row
      · exact .latest paths asked row
  · exact .file paths

theorem guardedFilters (guarded : Guarded host settings request normal)
    (keyed : (db.observations.map Observation.id).Nodup) {row : Observation}
    (mem : row ∈ survivors host settings engine request normal db) :
    applyCommonFilters host settings normal row = true := by
  obtain ⟨candidate, held, checked⟩ := survivorHeld mem
  cases candidateSource candidate with
  | filtered other =>
    obtain ⟨other, mem, same, meets⟩ := other
    exact Tables.keyUnique keyed mem held same ▸ meets
  | latest paths asked other =>
    obtain ⟨other, mem, same, latest⟩ := other
    obtain rfl := Tables.keyUnique keyed mem held same
    exact guarded.latest paths asked other latest checked
  | graph paths deep seed => exact guarded.graph paths deep seed row checked
  | file paths => exact guarded.file paths row checked

theorem anchorRowHeld {row : Observation} (mem : row ∈ anchorRows host settings engine request normal db) :
    ∃ anchor, settings.route request.query request.questionKind = some anchor ∧ row ∈ db.observations ∧
      ∃ members, anchorMembers settings normal = .ok members ∧ anchorFilter members normal row = true := by
  unfold anchorRows at mem
  split at mem
  · cases mem
  · rename_i anchor routed
    cases found : temporalAnchorSearch host settings engine normal anchor (searchLimit request) db with
    | none =>
      rw [found] at mem
      cases mem
    | some rows =>
      rw [found, Option.getD_some] at mem
      exact ⟨anchor, routed, anchoredHeld found mem⟩

theorem returnedOn {response : Response} {row : Observation} (ran : search host settings engine request db = .ok response)
    (mem : row ∈ response.rows) : settings.retrievalEnabled = true ∧ trim request.query ≠ "" := by
  by_cases on : settings.retrievalEnabled = true
  · refine ⟨on, fun blank => ?_⟩
    simp only [search, on, blank, Bool.true_eq_false, if_false, if_true] at ran
    obtain rfl := Except.ok.inj ran
    cases mem
  · rw [Bool.not_eq_true] at on
    simp only [search, on, if_true] at ran
    obtain rfl := Except.ok.inj ran
    cases mem

-- A returned row was found by the anchor search, or survived as a candidate.
theorem returnedRow {response : Response} {row : Observation} (ok : normalizeRequest settings request = .ok normal)
    (ran : search host settings engine request db = .ok response) (mem : row ∈ response.rows) :
    (∃ anchor, settings.route request.query request.questionKind = some anchor ∧ row ∈ db.observations ∧
      ∃ members, anchorMembers settings normal = .ok members ∧ anchorFilter members normal row = true) ∨
      row ∈ survivors host settings engine request normal db := by
  obtain ⟨on, asked⟩ := returnedOn ran mem
  rw [searchRun on asked ok] at ran
  obtain rfl := Except.ok.inj ran
  split at mem
  · exact .inl (anchorRowHeld mem)
  · obtain ⟨item, held, rfl⟩ := List.mem_map.mp mem
    exact .inr (itemSurvives held)

theorem guardedScoped (guarded : ∀ normal, normalizeRequest settings request = .ok normal →
    settings.retrievalEnabled = true → trim request.query ≠ "" → Guarded host settings request normal) :
    Scoped host settings request := by
  intro engine db normal response keyed ok ran row mem
  obtain ⟨on, asked⟩ := returnedOn ran mem
  have safe := guarded normal ok on asked
  rcases returnedRow ok ran mem with ⟨anchor, routed, _, members, resolved, kept⟩ | survives
  · exact safe.anchor anchor routed members resolved row kept
  · exact guardedFilters safe keyed survives

end
end HarnessMem.Search
