import HarnessMem.SearchLeaks

/-! The project scope of a strict search, applied once to the SQL stages as a member list and
once to every loaded row as a single name. -/
namespace HarnessMem.Search
open Js Text Recorder Visibility

-- The projects a name stands for.
def Member (settings : Settings) (selection project : String) : Prop :=
  ∃ members, resolveProjectMembers settings (some selection) = .ok members ∧ project ∈ members

def scopeProject (request : SearchRequest) : Option String := request.scope.bind Scope.project

structure ProjectScoped (host : Host) (settings : Settings) (request : SearchRequest) (normal : Normalized) : Prop where
  -- What the SQL stages find among the members of the project passes the later check.
  kept : ∀ name, truthy request.project = some name → ∀ row, projectClause normal row = true →
    Member settings name row.project → boundaryCheck normal row = true
  -- With an explicit scope, both project conditions admit the rows of its members.
  found : ∀ name, truthy (scopeProject request) = some name → ∀ row, Member settings name row.project →
    projectClause normal row = true ∧ boundaryCheck normal row = true
  -- And the search returns no other rows.
  only : ∀ name, truthy (scopeProject request) = some name → ∀ engine db response,
    (db.observations.map Observation.id).Nodup → search host settings engine request db = .ok response →
      ∀ row ∈ response.rows, Member settings name row.project

-- The selection is a single name.
def Single (settings : Settings) (selection name : String) : Prop :=
  ∀ project, Member settings selection project ↔ project = name

-- No stage adds rows that the project clause was not asked about.
structure Clausal (host : Host) (settings : Settings) (request : SearchRequest) (normal : Normalized) : Prop where
  route : settings.route request.query request.questionKind = none
  paths : filePaths request.query = []
  latest : ∀ row, Asked request normal → latestRow host settings normal row → postCheck host settings normal row = false
  graph : request.graphDepth.positive = true → ∀ seed, ¬ (applyCommonFilters host settings normal seed = true ∨
    Asked request normal ∧ latestRow host settings normal seed)

-- The request's project, and its scope where it has one, stand for the one name that loaded
-- rows are checked against; a scope alone is only checked in the clause.
structure OneProject (host : Host) (settings : Settings) (request : SearchRequest) (normal : Normalized) : Prop where
  both : ∀ name, truthy request.project = some name → ∀ project, settings.normalizeProject name = .ok project →
    Single settings name project ∧ ∀ scope, truthy (scopeProject request) = some scope → Single settings scope project
  scope : ∀ name, truthy request.project = none → truthy (scopeProject request) = some name →
    (∀ project, settings.normalizeProject name = .ok project → Single settings name project) ∧
      Clausal host settings request normal

section
variable {host : Host} {settings : Settings} {request : SearchRequest} {normal : Normalized}

theorem truthySome {value : Option String} {s : String} (given : truthy value = some s) : value = some s ∧ s ≠ "" := by
  unfold truthy at given
  rw [Option.filter_eq_some_iff] at given
  exact ⟨given.1, by simpa using given.2⟩

theorem truthyOf {s : String} (named : s ≠ "") : truthy (some s) = some s := by simp [truthy, named]

theorem normalizeIfSome {project : Option String} {name : String} {result : Option String}
    (given : truthy project = some name) (ok : normalizeIf settings project = .ok result) :
    ∃ normal, settings.normalizeProject name = .ok normal ∧ result = some normal := by
  rw [normalizeIf, given] at ok
  obtain ⟨normal, named, rfl⟩ := mapOk ok
  exact ⟨normal, named, rfl⟩

theorem normalizeIfNone {project result : Option String} (none : truthy project = none)
    (ok : normalizeIf settings project = .ok result) : result = project := by
  rw [normalizeIf, none] at ok
  exact (Except.ok.inj ok).symm

-- A name's members are never an empty list.
theorem membersSome {selection normal : String} (named : settings.normalizeProject selection = .ok normal)
    {members : List String} (resolved : resolveProjectMembers settings (some selection) = .ok members) : members ≠ [] := by
  have filled : trimmed (some selection) = some (trim selection) := by
    simp [trimmed, truthy, (settings.normalNamed _ _ named).1]
  simp only [resolveProjectMembers, filled] at resolved
  split at resolved
  · rw [named] at resolved
    obtain rfl := Except.ok.inj resolved
    exact List.cons_ne_nil _ _
  · rename_i some
    obtain rfl := Except.ok.inj resolved
    obtain ⟨first, mem⟩ := List.exists_mem_of_ne_nil _ some
    exact List.ne_nil_of_mem (List.mem_eraseDups.mpr mem)

theorem membersResolve {selection normal : String} (named : settings.normalizeProject selection = .ok normal) :
    ∃ members, resolveProjectMembers settings (some selection) = .ok members := by
  unfold resolveProjectMembers
  split
  · simp only
    rename_i name _ same
    obtain rfl := Option.some.inj same
    split
    · exact ⟨[normal], by rw [named]; rfl⟩
    · exact ⟨_, rfl⟩
  · exact ⟨[], rfl⟩

-- A selection whose members are all one name has that name as its single member.
theorem singleOf {selection normal name : String} (named : settings.normalizeProject selection = .ok normal)
    (all : ∀ project, Member settings selection project → project = name) : Single settings selection name := by
  obtain ⟨members, resolved⟩ := membersResolve named
  obtain ⟨first, mem⟩ := List.exists_mem_of_ne_nil _ (membersSome named resolved)
  refine fun project => ⟨all project, fun same => ?_⟩
  subst same
  obtain rfl := all first ⟨members, resolved, mem⟩
  exact ⟨members, resolved, mem⟩

-- The parts of the normal form that the two project conditions read.
structure Read (settings : Settings) (request : SearchRequest) (normal : Normalized) : Prop where
  strict : normal.strictProject = request.strictProject
  project : normalizeIf settings request.project = .ok normal.project
  members : (if (truthy request.project).isSome ∧ request.strictProject then
    (resolveProjectMembers settings request.project).map some else .ok none) = .ok normal.projectMembers
  scope : ∃ project, normalizeIf settings (scopeProject request) = .ok project ∧
    normal.scope = request.scope.map (fun scope => {scope with project})

theorem normalRead (ok : normalizeRequest settings request = .ok normal) : Read settings request normal := by
  unfold normalizeRequest at ok
  obtain ⟨project, named, ok⟩ := bindOk ok
  split at ok
  · rename_i selected
    obtain ⟨members, resolved, ok⟩ := bindOk ok
    obtain ⟨scope, within, ok⟩ := bindOk ok
    obtain rfl := Except.ok.inj ok
    exact ⟨rfl, named, (if_pos selected).trans resolved, scope, within, rfl⟩
  · rename_i unselected
    obtain ⟨members, resolved, ok⟩ := bindOk ok
    obtain ⟨scope, within, ok⟩ := bindOk ok
    obtain rfl := Except.ok.inj ok
    exact ⟨rfl, named, (if_neg unselected).trans resolved, scope, within, rfl⟩

theorem scopeNormal {name : String} (ok : normalizeRequest settings request = .ok normal)
    (given : truthy (scopeProject request) = some name) : ∃ project, settings.normalizeProject name = .ok project := by
  obtain ⟨_, within, _⟩ := (normalRead ok).scope
  obtain ⟨project, named, _⟩ := normalizeIfSome given within
  exact ⟨project, named⟩

-- A request that names a project, and the rows its two conditions admit.
structure Named (settings : Settings) (normal : Normalized) (name project : String) : Prop where
  normalizes : settings.normalizeProject name = .ok project
  clause : ∀ row : Observation, Member settings name row.project → projectClause normal row = true
  boundary : ∀ row, boundaryCheck normal row = true ↔ row.project = project
  anchor : ∀ members, anchorMembers settings normal = .ok members → ∀ row : Observation,
    projectFilter members row.project = true → Member settings name row.project

theorem namedRead {name : String} (ok : normalizeRequest settings request = .ok normal) (strict : request.strictProject = true)
    (given : truthy request.project = some name) : ∃ project, Named settings normal name project := by
  have read := normalRead ok
  obtain ⟨project, named, same⟩ := normalizeIfSome given read.project
  have members := read.members
  rw [if_pos ⟨by rw [given]; rfl, strict⟩, (truthySome given).1] at members
  obtain ⟨members, resolved, same'⟩ := mapOk members
  have found := same'.symm
  have filled := truthyOf (settings.normalNamed _ _ named).2
  refine ⟨project, named, fun row mem => ?_, fun row => ?_, fun others anchored row kept => ?_⟩
  · obtain ⟨others, same, mem⟩ := mem
    obtain rfl := Except.ok.inj (resolved.symm.trans same)
    unfold projectClause asked
    split
    · simp [projectFilter, found, mem]
    · simp
  · simp [boundaryCheck, read.strict, strict, same, asked, filled]
  · rw [anchorMembers, found] at anchored
    obtain rfl := Except.ok.inj anchored
    refine ⟨members, resolved, ?_⟩
    simpa [projectFilter, membersSome named resolved] using kept

-- A request that names none but has a scope: only the clause is asked, and an anchor search
-- is not confined at all.
structure Unnamed (settings : Settings) (normal : Normalized) (name project : String) : Prop where
  normalizes : settings.normalizeProject name = .ok project
  clause : ∀ row, projectClause normal row = true ↔ row.project = project
  boundary : ∀ row, boundaryCheck normal row = true
  members : normal.projectMembers = none
  anchor : anchorMembers settings normal = .ok []

theorem unnamedRead {name : String} (ok : normalizeRequest settings request = .ok normal) (strict : request.strictProject = true)
    (none : truthy request.project = none) (given : truthy (scopeProject request) = some name) :
    ∃ project, Unnamed settings normal name project := by
  have read := normalRead ok
  have same := normalizeIfNone none read.project
  have members := read.members
  rw [if_neg (by rw [none]; simp)] at members
  have members := (Except.ok.inj members).symm
  obtain ⟨_, within, scope⟩ := read.scope
  obtain ⟨project, named, rfl⟩ := normalizeIfSome given within
  have filled := truthyOf (settings.normalNamed _ _ named).2
  obtain ⟨outer, there⟩ : ∃ outer, request.scope = some outer := by
    cases there : request.scope with
    | none =>
      rw [scopeProject, there] at given
      cases given
    | some outer => exact ⟨outer, rfl⟩
  refine ⟨project, named, fun row => ?_, fun row => ?_, members, ?_⟩
  · simp [projectClause, read.strict, strict, effectiveProject, scope, there, asked, filled, members, projectFilter]
  · simp [boundaryCheck, same, asked, none]
  · rw [anchorMembers, members]
    have blank : trimmed normal.project = Option.none := by
      rw [same, trimmed]
      cases blank : request.project with
      | none => rfl
      | some text =>
        have empty : text = "" := by
          rw [blank] at none
          simpa [truthy, Option.filter_eq_none_iff] using none
        rw [empty]
        decide
    simp only [resolveProjectMembers, blank]

theorem oneProjectScoped (ok : normalizeRequest settings request = .ok normal) (strict : request.strictProject = true)
    (one : OneProject host settings request normal) : ProjectScoped host settings request normal := by
  cases given : truthy request.project with
  | some name =>
    obtain ⟨project, read⟩ := namedRead ok strict given
    obtain ⟨single, scopes⟩ := one.both name given project read.normalizes
    have mine : Member settings name project := (single project).mpr rfl
    refine ⟨fun other same row _ mem => ?_, fun scope within row mem => ?_,
      fun scope within engine db response keyed ran row mem => ?_⟩
    · obtain rfl := Option.some.inj (given.symm.trans same)
      exact (read.boundary row).mpr ((single _).mp mem)
    · have same : row.project = project := (scopes scope within _).mp mem
      exact ⟨read.clause row (same ▸ mine), (read.boundary row).mpr same⟩
    · refine (scopes scope within _).mpr ?_
      rcases returnedRow ok ran mem with ⟨_, _, _, members, resolved, kept⟩ | survives
      · rw [anchorFilter, Bool.and_eq_true] at kept
        exact (single _).mp (read.anchor members resolved row kept.1)
      · obtain ⟨_, _, checked⟩ := survivorHeld survives
        rw [postCheck, Bool.and_eq_true, Bool.and_eq_true] at checked
        exact (read.boundary row).mp checked.1.2
  | none =>
    refine ⟨fun other same => ?_, fun scope within row mem => ?_,
      fun scope within engine db response keyed ran row mem => ?_⟩
    · rw [given] at same
      cases same
    · obtain ⟨project, read⟩ := unnamedRead ok strict given within
      have same : row.project = project := ((one.scope scope given within).1 project read.normalizes _).mp mem
      exact ⟨(read.clause row).mpr same, read.boundary row⟩
    · obtain ⟨project, read⟩ := unnamedRead ok strict given within
      obtain ⟨single, clausal⟩ := one.scope scope given within
      refine (single project read.normalizes _).mpr ?_
      rcases returnedRow ok ran mem with ⟨anchor, routed, _⟩ | survives
      · rw [clausal.route] at routed
        cases routed
      · obtain ⟨candidate, held, checked⟩ := survivorHeld survives
        cases candidateSource candidate with
        | filtered other =>
          obtain ⟨other, mem, same, meets⟩ := other
          obtain rfl := Tables.keyUnique keyed mem held same
          rw [applyCommonFilters, Bool.and_eq_true] at meets
          exact (read.clause _).mp meets.1
        | latest _ asked other =>
          obtain ⟨other, mem, same, latest⟩ := other
          obtain rfl := Tables.keyUnique keyed mem held same
          rw [clausal.latest _ asked latest] at checked
          cases checked
        | graph _ deep seed =>
          obtain ⟨seed, start⟩ := seed
          exact absurd start (clausal.graph deep seed)
        | file paths => exact absurd clausal.paths paths

-- A row of another project that passes every check on loaded rows.
def outsider (project : String) : Observation := {plainRow "b" (project ++ "x") "" with privacyTagsJson := ""}

theorem outsiderChecked {project : String} (boundary : ∀ row, boundaryCheck normal row = true) :
    postCheck host settings normal (outsider project) = true := by
  simp [postCheck, boundary, archivedFilter, expiredFilter, Observation.live, outsider, plainRow, parseArrayJson,
    hasPrivateVisibilityTag]

theorem otherProject (project : String) : project ++ "x" ≠ project := by
  intro same
  have lengths := congrArg String.length same
  rw [String.length_append] at lengths
  have one : "x".length = 1 := rfl
  omega

theorem scopeClausal {name : String} (on : settings.retrievalEnabled = true) (asked : trim request.query ≠ "")
    (ok : normalizeRequest settings request = .ok normal) (strict : request.strictProject = true)
    (none : truthy request.project = none) (given : truthy (scopeProject request) = some name)
    (scope : ProjectScoped host settings request normal) :
    (∀ project, settings.normalizeProject name = .ok project → Single settings name project) ∧
      Clausal host settings request normal := by
  obtain ⟨project, read⟩ := unnamedRead ok strict none given
  have single : Single settings name project := singleOf read.normalizes
    (fun other mem => (read.clause (plainRow "b" other "")).mp (scope.found name given (plainRow "b" other "") mem).1)
  have confined : ∀ engine db response, (db.observations.map Observation.id).Nodup →
      search host settings engine request db = .ok response → ∀ row ∈ response.rows, row.project = project :=
    fun engine db response keyed ran row mem => (single _).mp (scope.only name given engine db response keyed ran row mem)
  have unrouted : settings.route request.query request.questionKind = Option.none := by
    cases routed : settings.route request.query request.questionKind with
    | none => rfl
    | some anchor =>
      have kept : anchorFilter [] normal (plainRow "b" (project ++ "x") "") = true := by
        simp [anchorFilter, projectFilter, plainRow]
      have rows : anchorRows host settings silent request normal (scene [plainRow "b" (project ++ "x") ""] [] [] []) =
          [plainRow "b" (project ++ "x") ""] := silentAnchored rfl routed read.anchor kept
      have mem := confined silent (scene [plainRow "b" (project ++ "x") ""] [] [] []) _ (List.nodup_singleton _)
        (searchRun on asked ok) (plainRow "b" (project ++ "x") "") (by rw [rows]; exact List.mem_cons_self)
      exact absurd mem (otherProject project)
  have quiet : ∀ engine db, anchorRows host settings engine request normal db = [] := by
    intro engine db
    unfold anchorRows
    rw [unrouted]
  -- Whatever candidate passes the check comes back, so its project is the scope's.
  have candidate : ∀ (db : Db) (row : Observation), (db.observations.map Observation.id).Nodup → db.links = [] →
      row ∈ db.observations → row.id ≠ "" → postCheck host settings normal row = true →
      row.id ∈ candidateIds host settings (favoring row.id) request normal db → row.project = project := by
    intro db row keyed unlinked held named checked hit
    obtain ⟨response, ran, mem⟩ := candidateReturned on asked ok keyed (.inl unlinked) held named
      (keptUnlinked unlinked checked) hit (quiet _ _)
    exact confined _ db response keyed ran row mem
  have elsewhere : (outsider project).project ≠ project := otherProject project
  have checked : postCheck host settings normal (outsider project) = true := outsiderChecked read.boundary
  have paths : filePaths request.query = [] := by
    by_contra some
    obtain ⟨path, mem⟩ := List.exists_mem_of_ne_nil _ some
    refine elsewhere (candidate (scene [outsider project] [] [⟨"b", "file:" ++ path, "provenance", ""⟩] []) _
      (List.nodup_singleton _) rfl List.mem_cons_self (by simp [outsider, plainRow]) checked ?_)
    exact fileCandidate mem (by simp [taggedWith, scene, outsider, plainRow])
  refine ⟨fun other named => ?_, unrouted, paths, fun row wanted latest => ?_, fun deep seed start => ?_⟩
  · obtain rfl := Except.ok.inj (read.normalizes.symm.trans named)
    exact single
  · by_contra passes
    rw [Bool.not_eq_false] at passes
    have moved : latestRow host settings normal {row with project := project ++ "x"} := by
      unfold latestRow latestFilter at latest ⊢
      rw [read.members] at latest ⊢
      exact latest
    have checked : postCheck host settings normal (stub "s" {row with project := project ++ "x"}) = true := by
      rw [postCheck, Bool.and_eq_true, Bool.and_eq_true] at passes ⊢
      exact ⟨⟨passes.1.1, read.boundary _⟩, passes.2⟩
    refine elsewhere (candidate (scene [stub "s" {row with project := project ++ "x"}] [prompted "s"] [] [])
      (stub "s" {row with project := project ++ "x"}) (List.nodup_singleton _) rfl List.mem_cons_self
      (by simp [stub]) checked ?_)
    exact linkedCandidate paths (linkedFound (.inr (promptLatest wanted moved (fun _ mem => absurd mem List.not_mem_nil))))
  · have misses : applyCommonFilters host settings normal (outsider project) = false := by
      rw [applyCommonFilters, Bool.and_eq_false_iff]
      exact .inl (by rw [← Bool.not_eq_true, read.clause]; exact elsewhere)
    have many : 0 < internalLimit request := limitsPositive request
    have found : "s" ∈ linkedIds host settings (favoring "b") request normal
        (scene [stub "s" seed, stub "b" (outsider project)] [prompted "s"] [] (sharing ["s", "b"])) := by
      rcases start with meets | ⟨wanted, latest⟩
      · exact linkedFound (.inl (by rw [lexicalFirst many meets misses]; exact List.mem_cons_self))
      · exact linkedFound (.inr (promptLatest wanted latest (by simp [stub])))
    refine elsewhere (candidate
      (scene [stub "s" seed, stub "b" (outsider project)] [prompted "s"] [] (sharing ["s", "b"]))
      (stub "b" (outsider project)) (by simp [scene, stub]) rfl (List.mem_cons_of_mem _ List.mem_cons_self)
      (by simp [stub]) checked ?_)
    exact graphCandidate paths deep rfl (by simp [scene, stub]) found

theorem scopedOneProject (on : settings.retrievalEnabled = true) (asked : trim request.query ≠ "")
    (ok : normalizeRequest settings request = .ok normal) (strict : request.strictProject = true)
    (scope : ProjectScoped host settings request normal) : OneProject host settings request normal := by
  refine ⟨fun name given project named => ?_, fun name none given => scopeClausal on asked ok strict none given scope⟩
  obtain ⟨other, read⟩ := namedRead ok strict given
  obtain rfl := Except.ok.inj (named.symm.trans read.normalizes)
  refine ⟨singleOf named (fun member mem => ?_), fun selection within => ?_⟩
  · have row : Member settings name (plainRow "b" member "").project := mem
    exact (read.boundary (plainRow "b" member "")).mp (scope.kept name given _ (read.clause _ row) row)
  · obtain ⟨_, normalizes⟩ := scopeNormal ok within
    exact singleOf normalizes (fun member mem =>
      (read.boundary (plainRow "b" member "")).mp (scope.found selection within (plainRow "b" member "") mem).2)

end
-- Plain settings, with one selection that stands for two worktrees.
def worktreeSettings : Settings := {plainSettings with
  expandProjectSelection := fun project => if project = "app" then ["/v/app", "/w/app"] else [project]}

end HarnessMem.Search
