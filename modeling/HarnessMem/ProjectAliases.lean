import HarnessMem.Lib.AliasChains
import HarnessMem.Lib.KeyedList
import HarnessMem.ProjectScopes
import HarnessMem.Visibility

/-! `migrateLegacyProjectAliases`: which stored project names stand for which others, and every row renamed after them. -/
namespace HarnessMem.ProjectAliases
open AliasChains Consolidation Js KeyedList PosixPath ProjectNames ProjectScopes Recorder Visibility

structure MetaRow where
  key : String
  value : String
  updatedAt : String
  deriving DecidableEq, Repr

structure Memory where
  store : Store
  metaRows : List MetaRow

-- The core, the process around it, the orders two statements leave open, and the clock as each row is written.
structure Surroundings where
  core : Core
  host : Host
  cwd : String
  home : String
  distinct : Tables.Scan String
  grouped : Tables.Scan String
  nowIso : String → String

def isAbsoluteProjectPath (project : String) : Bool :=
  let normalized := normalizePathLike (trim project)
  startsWith normalized "/" || startsWithDrive normalized

def projectBasenameKey (lower : String → String) (project : String) : String :=
  let normalized := normalizePathLike (trim project)
  lower ((truthy (some (basename normalized))).getD normalized)

-- A `Set` of names, and a `Map` of them under keys.
def enlist (name : String) (names : List String) : List String := if name ∈ names then names else names ++ [name]
abbrev Sets := List (String × List String)
def under (key : String) (sets : Sets) : List String := ((get Prod.fst key sets).map Prod.snd).getD []
def enlistUnder (key name : String) (sets : Sets) : Sets := put Prod.fst (key, enlist name (under key sets)) sets

structure Gathered where
  aliasMap : List (String × String)
  absoluteProjectsByBasename : Sets
  variantsByLower : Sets
  observedAbsoluteProjects : List String

def storedNames (store : Store) : List String :=
  store.db.sessions.map Session.project ++ store.db.events.map Event.project ++ store.db.observations.map Observation.project ++
    store.db.facts.map Fact.project ++ store.queue.map QueueRow.project

section
variable (s : Surroundings)

def distinctProjects (store : Store) : List String :=
  s.distinct.arrange ((storedNames store).eraseDups.filter (fun project => sqlTrim project ≠ ""))

-- `COUNT(*)` for each project; names that trim to the same leave the last count.
def projectWeights (store : Store) : List (String × Nat) :=
  let projects := store.db.observations.map Observation.project
  putAll Prod.fst (((s.grouped.arrange projects.eraseDups).map (fun project => (trim project, projects.count project))).filter
    (fun row => row.1 ≠ "")) []

def registerAbsoluteCandidate (project : String) (g : Gathered) : Gathered :=
  if isAbsoluteProjectPath project then
    { g with
      observedAbsoluteProjects := enlist project g.observedAbsoluteProjects
      absoluteProjectsByBasename := enlistUnder (projectBasenameKey s.core.lower project) project g.absoluteProjectsByBasename }
  else g

def variantKey (name : String) : String := s.core.lower (normalizePathLike name)

def registerName (original : String) (g : Gathered) : Gathered :=
  let g := {g with variantsByLower := enlistUnder (variantKey s original) original g.variantsByLower}
  registerAbsoluteCandidate s original (match normalizeProjectInput s.core original with
    | .ok normalized =>
      let g := registerAbsoluteCandidate s normalized g
      if normalized ≠ "" ∧ normalized ≠ original then {g with aliasMap := put Prod.fst (original, normalized) g.aliasMap} else g
    | .error _ => g)

def originals (store : Store) : List String := ((distinctProjects s store).map trim).filter (fun original => original ≠ "")

def gathered (store : Store) : Gathered := (originals s store).foldl (fun g original => registerName s original g) ⟨[], [], [], []⟩

-- A name without a path joins the one absolute project with that last name.
def adopt (g : Gathered) (aliasMap : List (String × String)) (original : String) : List (String × String) :=
  if isAbsoluteProjectPath original then aliasMap
  else
    let normalized := normalizePathLike original
    if includesSlash normalized then aliasMap
    else match under (s.core.lower normalized) g.absoluteProjectsByBasename with
      | [target] => if target ≠ "" ∧ target ≠ original then put Prod.fst (original, target) aliasMap else aliasMap
      | _ => aliasMap

section
variable (weights : List (String × Nat))

def weightOf (name : String) : Nat := ((get Prod.fst name weights).map Prod.snd).getD 0
def rank (lhs rhs : String) : Ordering :=
  (compare (weightOf weights rhs) (weightOf weights lhs)).then
    ((compare (isAbsoluteProjectPath rhs).toNat (isAbsoluteProjectPath lhs).toNat).then (s.core.localeCompare lhs rhs))

def chooseCanonicalVariant (variants : List String) : String :=
  (truthy (Tables.orderBy (fun lhs rhs => rank s weights lhs rhs ≠ .gt) variants).head?).getD (variants.head?.getD "")

def mergeVariants (aliasMap : List (String × String)) (variants : List String) : List (String × String) :=
  if variants.length ≤ 1 then aliasMap
  else
    let canonical := chooseCanonicalVariant s weights variants
    (variants.filter (fun variant => variant ≠ canonical)).foldl (fun map variant => put Prod.fst (variant, canonical) map) aliasMap

end

def aliasMap (store : Store) : List (String × String) :=
  let g := gathered s store
  (g.variantsByLower.map Prod.snd).foldl (mergeVariants s (projectWeights s store)) ((originals s store).foldl (adopt s g) g.aliasMap)

-- `aliasMap.get(target) || target`
def aliasOf (map : List (String × String)) (target : String) : Option String :=
  (get Prod.fst target map).map (fun entry => (truthy (some entry.2)).getD target)

def resolvedAliasMap (store : Store) : List (String × String) :=
  resolved (aliasOf (aliasMap s store)) ((aliasMap s store).map Prod.fst)

end

def renameProject (pair : String × String) (store : Store) : Store :=
  { store with
    db := { store.db with
      sessions := Tables.update (fun row => row.project = pair.1) (fun row => {row with project := pair.2}) store.db.sessions
      events := Tables.update (fun row => row.project = pair.1) (fun row => {row with project := pair.2}) store.db.events
      observations := Tables.update (fun row => row.project = pair.1) (fun row => {row with project := pair.2}) store.db.observations
      facts := Tables.update (fun row => row.project = pair.1) (fun row => {row with project := pair.2}) store.db.facts }
    queue := Tables.update (fun row => row.project = pair.1) (fun row => {row with project := pair.2}) store.queue }

-- What a saved rollout context becomes, if its project has a new name.
def mappedContext (host : Host) (aliases : List (String × String)) (row : MetaRow) : Option String :=
  if !like "codex_rollout_context:%" row.key || trim row.value = "" then none
  else match host.parseJson row.value with
    | some (.obj parsed) =>
      let currentProject := trim ((Json.text? (Json.get parsed "project")).getD "")
      if currentProject = "" then none
      else match get Prod.fst currentProject aliases with
        | some (_, mappedProject) =>
          if mappedProject = "" ∨ mappedProject = currentProject then none
          else some (Json.stringify (.obj (Json.put parsed "project" (.str mappedProject))))
        | none => none
    | _ => none

section
variable (s : Surroundings)

def rewriteContexts (aliases : List (String × String)) (rows : List MetaRow) : List MetaRow :=
  rows.foldl (fun table row =>
    match mappedContext s.host aliases row with
    | some value => Tables.update (fun other => other.key = row.key) (fun other => {other with value, updatedAt := s.nowIso row.key}) table
    | none => table) rows

def migrateLegacyProjectAliases (m : Memory) : Memory :=
  let aliases := resolvedAliasMap s m.store
  if aliases = [] then m
  else ⟨aliases.foldl (fun store pair => renameProject pair store) m.store, rewriteContexts s aliases m.metaRows⟩

-- The roots the names found are looked up under from then on.
def resolveHomePath (inputPath : String) : String :=
  match inputPath.toList with
  | '~' :: rest => resolve s.cwd (s.home ++ "/" ++ String.ofList rest)
  | _ => resolve s.cwd inputPath

def enlistAbsolute (name : String) (merged : List String) : List String := if isAbsoluteProjectPath name then enlist name merged else merged
def extendRoot (merged : List String) (candidate : String) : List String :=
  if trim candidate = "" then merged
  else
    let absoluteCandidate := normalizePathLike (resolveHomePath s (trim candidate))
    let merged := enlistAbsolute absoluteCandidate merged
    match normalizeProjectName s.core.disk s.core.lower merged absoluteCandidate with
    | .ok normalized => enlistAbsolute normalized merged
    | .error _ => merged -- the name to fall back on is in already

-- The roots are a set already.
def extendProjectNormalizationRoots (candidates : List String) : List String :=
  let roots := s.core.projectNormalizationRoots
  let merged := candidates.foldl (extendRoot s) roots
  if merged.length = roots.length then roots else merged

def migratedRoots (m : Memory) : List String := extendProjectNormalizationRoots s (gathered s m.store).observedAbsoluteProjects

-- The store with each project renamed, and nothing else changed.
def renamedStore (rename : String → String) (store : Store) : Store :=
  { store with
    db := { store.db with
      sessions := store.db.sessions.map (fun row => {row with project := rename row.project})
      events := store.db.events.map (fun row => {row with project := rename row.project})
      observations := store.db.observations.map (fun row => {row with project := rename row.project})
      facts := store.db.facts.map (fun row => {row with project := rename row.project}) }
    queue := store.queue.map (fun row => {row with project := rename row.project}) }

-- What a row's context writes to the row under its key.
def contextFrom (aliases : List (String × String)) (row other : MetaRow) : MetaRow :=
  match mappedContext s.host aliases row with
  | some value => {other with value, updatedAt := s.nowIso row.key}
  | none => other
def renamedContext (aliases : List (String × String)) (row : MetaRow) : MetaRow := contextFrom s aliases row row

-- The name the others that differ from it in case only are merged into.
def canonicalOf (store : Store) (key : String) : String :=
  chooseCanonicalVariant s (projectWeights s store) (under key (gathered s store).variantsByLower)

end

theorem aliasWithin {map : List (String × String)} (name : String) : (aliasOf map name).isSome = true ↔ name ∈ map.map Prod.fst := by
  unfold aliasOf
  rw [Option.isSome_map, ← Option.ne_none_iff_isSome, ne_eq, getNone]
  simp

theorem renamedFold (aliases : List (String × String)) (store : Store) :
    aliases.foldl (fun store pair => renameProject pair store) store =
      { store with
        db := { store.db with
          sessions := renameAll Session.project (fun row name => {row with project := name}) aliases store.db.sessions
          events := renameAll Event.project (fun row name => {row with project := name}) aliases store.db.events
          observations := renameAll Observation.project (fun row name => {row with project := name}) aliases store.db.observations
          facts := renameAll Fact.project (fun row name => {row with project := name}) aliases store.db.facts }
        queue := renameAll QueueRow.project (fun row name => {row with project := name}) aliases store.queue } := by
  induction aliases generalizing store with
  | nil => rfl
  | cons pair rest ih =>
    rw [List.foldl_cons, ih]
    rfl

theorem renamedAtOnce {aliases : List (String × String)} (settled : Settled aliases) (store : Store) :
    aliases.foldl (fun store pair => renameProject pair store) store = renamedStore (renameOf aliases) store := by
  rw [renamedFold]
  have sessions : Column Session.project (fun row name => {row with project := name}) := ⟨fun _ _ => rfl, fun _ => rfl, fun _ _ _ => rfl⟩
  have events : Column Event.project (fun row name => {row with project := name}) := ⟨fun _ _ => rfl, fun _ => rfl, fun _ _ _ => rfl⟩
  have observations : Column Observation.project (fun row name => {row with project := name}) :=
    ⟨fun _ _ => rfl, fun _ => rfl, fun _ _ _ => rfl⟩
  have facts : Column Fact.project (fun row name => {row with project := name}) := ⟨fun _ _ => rfl, fun _ => rfl, fun _ _ _ => rfl⟩
  have queue : Column QueueRow.project (fun row name => {row with project := name}) := ⟨fun _ _ => rfl, fun _ => rfl, fun _ _ _ => rfl⟩
  rw [renameAtOnce sessions settled, renameAtOnce events settled, renameAtOnce observations settled, renameAtOnce facts settled,
    renameAtOnce queue settled]
  rfl

theorem storedRenamed (rename : String → String) (store : Store) :
    storedNames (renamedStore rename store) = (storedNames store).map rename := by
  simp [storedNames, renamedStore, Function.comp_def]

theorem contextNone {host : Host} (row : MetaRow) : mappedContext host [] row = none := by
  unfold mappedContext
  split
  · rfl
  · split
    · simp [KeyedList.get]
    · rfl

theorem sameKey (s : Surroundings) (aliases : List (String × String)) (row other : MetaRow) :
    (contextFrom s aliases row other).key = other.key := by
  unfold contextFrom
  split <;> rfl

theorem rewriteEach (s : Surroundings) (aliases : List (String × String)) {rows : List MetaRow} (keyed : (rows.map MetaRow.key).Nodup) :
    rewriteContexts s aliases rows = rows.map (renamedContext s aliases) := by
  refine Eq.trans ?_ (Tables.updateEach (sameKey s aliases) keyed)
  rw [rewriteContexts]
  congr 1
  funext table row
  unfold contextFrom
  cases mappedContext s.host aliases row with
  | some value => rfl
  | none => simp [Tables.update]

section
variable (s : Surroundings) (store : Store)

-- A name without a path next to the absolute one it belongs to.
def plainSurroundings : Surroundings :=
  ⟨⟨⟨fun _ => none, fun _ => false, fun _ => none, fun _ => none⟩, id, [], compare⟩,
    ⟨id, id, fun _ => none, fun _ => none, fun _ => .nan, fun _ => [], fun _ _ => false⟩, "/", "/home", Tables.inOrder, Tables.inOrder, id⟩
def unmerged : Memory :=
  ⟨⟨Db.empty, [⟨1, "app", "s", "r", "pending", "t", none, none, none⟩, ⟨2, "/w/app", "s", "r", "pending", "t", none, none, none⟩]⟩,
    [⟨"codex_rollout_context:a", "{}", "t"⟩]⟩

theorem enlistMem {name other : String} {names : List String} : other ∈ enlist name names ↔ other ∈ names ∨ other = name := by
  unfold enlist
  split
  · rename_i held
    exact ⟨.inl, fun mem => mem.elim id fun same => same ▸ held⟩
  · simp

theorem underEnlisted (key name k : String) (sets : Sets) :
    under k (enlistUnder key name sets) = if key = k then enlist name (under key sets) else under k sets := by
  rw [under, enlistUnder, getPut]
  by_cases here : key = k
  · simp [here]
  · simp [here, under]

theorem absoluteKeeps (name : String) (names : List String) : names <+: enlistAbsolute name names := by
  unfold enlistAbsolute enlist
  split
  · split
    · exact List.prefix_refl names
    · exact List.prefix_append names [name]
  · exact List.prefix_refl names

-- What was looked up before still is, and first.
theorem rootsKept (m : Memory) : s.core.projectNormalizationRoots <+: migratedRoots s m := by
  have one : ∀ (merged : List String) (candidate : String), merged <+: extendRoot s merged candidate := by
    intro merged candidate
    simp only [extendRoot]
    split
    · exact List.prefix_refl merged
    · split
      · exact (absoluteKeeps _ merged).trans (absoluteKeeps _ _)
      · exact absoluteKeeps _ merged
  have all : ∀ candidates merged : List String, merged <+: candidates.foldl (extendRoot s) merged := by
    intro candidates
    induction candidates with
    | nil => exact List.prefix_refl
    | cons candidate rest ih => exact fun merged => (one merged candidate).trans (ih _)
  simp only [migratedRoots, extendProjectNormalizationRoots]
  split
  · exact List.prefix_refl _
  · exact all _ _

theorem registerVariants (project : String) (g : Gathered) : (registerAbsoluteCandidate s project g).variantsByLower = g.variantsByLower := by
  unfold registerAbsoluteCandidate
  split <;> rfl

theorem namedVariants (original : String) (g : Gathered) :
    (registerName s original g).variantsByLower = enlistUnder (variantKey s original) original g.variantsByLower := by
  simp only [registerName]
  rw [registerVariants]
  cases normalizeProjectInput s.core original with
  | error _ => rfl
  | ok normalized =>
    dsimp only
    split <;> rw [registerVariants]

-- The sets by key are the originals with that key.
theorem variantsHeld (names : List String) (g : Gathered) (unique : (g.variantsByLower.map Prod.fst).Nodup) :
    ((names.foldl (fun g original => registerName s original g) g).variantsByLower.map Prod.fst).Nodup ∧
      ∀ k v, v ∈ under k (names.foldl (fun g original => registerName s original g) g).variantsByLower ↔
        v ∈ under k g.variantsByLower ∨ v ∈ names ∧ variantKey s v = k := by
  induction names generalizing g with
  | nil => exact ⟨unique, fun k v => by simp⟩
  | cons original rest ih =>
    have unique' : ((registerName s original g).variantsByLower.map Prod.fst).Nodup := by
      rw [namedVariants, enlistUnder]
      exact putUnique unique _
    obtain ⟨distinct, members⟩ := ih _ unique'
    rw [List.foldl_cons]
    refine ⟨distinct, fun k v => ?_⟩
    rw [members, namedVariants, underEnlisted, List.mem_cons]
    by_cases here : variantKey s original = k
    · rw [if_pos here, enlistMem, here]
      constructor
      · rintro ((held | rfl) | later)
        · exact .inl held
        · exact .inr ⟨.inl rfl, here⟩
        · exact .inr ⟨.inr later.1, later.2⟩
      · rintro (held | ⟨rfl | later, same⟩)
        · exact .inl (.inl held)
        · exact .inl (.inr rfl)
        · exact .inr ⟨later, same⟩
    · rw [if_neg here]
      refine or_congr_right (and_congr_left fun same => (or_iff_right ?_).symm)
      rintro rfl
      exact here same

theorem canonicalHeld (weights : List (String × Nat)) {variants : List String} (some_ : variants ≠ []) (named : ∀ v ∈ variants, v ≠ "") :
    chooseCanonicalVariant s weights variants ∈ variants := by
  unfold chooseCanonicalVariant
  cases first : (Tables.orderBy (fun lhs rhs => rank s weights lhs rhs ≠ .gt) variants).head? with
  | none => exact absurd (Tables.orderByEmpty.mp (List.head?_eq_none_iff.mp first)) some_
  | some v =>
    have mem : v ∈ variants := (Tables.memOrderBy _).mp (List.mem_of_mem_head? first)
    rw [truthySome (named v mem)]
    exact mem

theorem aliasedEach (names : List String) (canonical v : String) (map : List (String × String)) :
    get Prod.fst v (names.foldl (fun map variant => put Prod.fst (variant, canonical) map) map) =
      if v ∈ names then some (v, canonical) else get Prod.fst v map := by
  induction names generalizing map with
  | nil => rfl
  | cons name rest ih =>
    rw [List.foldl_cons, ih, getPut]
    by_cases later : v ∈ rest
    · rw [if_pos later, if_pos (List.mem_cons_of_mem _ later)]
    · rw [if_neg later]
      by_cases here : name = v
      · simp [here]
      · simp [here, later, Ne.symm here]

theorem mergedOne (weights : List (String × Nat)) {variants : List String} (named : ∀ v ∈ variants, v ≠ "") (map : List (String × String))
    (v : String) : get Prod.fst v (mergeVariants s weights map variants) =
      if v ∈ variants ∧ v ≠ chooseCanonicalVariant s weights variants then some (v, chooseCanonicalVariant s weights variants)
      else get Prod.fst v map := by
  simp only [mergeVariants]
  split
  · rename_i short
    refine (if_neg fun moved => moved.2 ?_).symm
    have held := canonicalHeld s weights (List.ne_nil_of_mem moved.1) named
    obtain ⟨only, rfl⟩ := List.length_eq_one_iff.mp (le_antisymm short (List.length_pos_of_mem moved.1))
    rw [List.mem_singleton.mp moved.1, List.mem_singleton.mp held]
  · rw [aliasedEach]
    simp

theorem entryUnder {sets : Sets} (unique : (sets.map Prod.fst).Nodup) {entry : String × List String} (mem : entry ∈ sets) :
    under entry.1 sets = entry.2 := by
  unfold under
  cases found : get Prod.fst entry.1 sets with
  | none => exact absurd rfl (getNone.mp found entry mem)
  | some other =>
    obtain ⟨held, same⟩ := getMem found
    rw [Tables.keyUnique unique held mem same]
    rfl

theorem underEntry {sets : Sets} {k v : String} (mem : v ∈ under k sets) : (k, under k sets) ∈ sets := by
  unfold under at mem ⊢
  cases found : get Prod.fst k sets with
  | none =>
    rw [found] at mem
    cases mem
  | some entry =>
    obtain ⟨held, rfl⟩ := getMem found
    exact held

-- The last of the alias rules: a name goes to its canonical variant, whatever the others said.
theorem mergedGroup (weights : List (String × Nat)) {sets : Sets} (map : List (String × String)) {v k : String}
    (unique : (sets.map Prod.fst).Nodup) (named : ∀ entry ∈ sets, ∀ v ∈ entry.2, v ≠ "")
    (apart : ∀ entry ∈ sets, v ∈ entry.2 → entry.1 = k) (mem : v ∈ under k sets) (moves : v ≠ chooseCanonicalVariant s weights (under k sets)) :
    get Prod.fst v ((sets.map Prod.snd).foldl (mergeVariants s weights) map) = some (v, chooseCanonicalVariant s weights (under k sets)) := by
  obtain ⟨before, after, split⟩ := List.append_of_mem (underEntry mem)
  have later : ∀ entry ∈ after, v ∉ entry.2 := by
    intro entry held inside
    rw [split, List.map_append, List.map_cons] at unique
    have same := apart entry (split ▸ List.mem_append_right _ (List.mem_cons_of_mem _ held)) inside
    exact (List.nodup_cons.mp (List.nodup_append.mp unique).2.1).1 (List.mem_map.mpr ⟨entry, held, same⟩)
  have kept : ∀ (rest : Sets) (map : List (String × String)), (∀ entry ∈ rest, v ∉ entry.2) → (∀ entry ∈ rest, ∀ v ∈ entry.2, v ≠ "") →
      get Prod.fst v ((rest.map Prod.snd).foldl (mergeVariants s weights) map) = get Prod.fst v map := by
    intro rest
    induction rest with
    | nil => exact fun map _ _ => rfl
    | cons entry rest ih =>
      intro map out named
      rw [List.map_cons, List.foldl_cons, ih _ (fun e m => out e (List.mem_cons_of_mem _ m)) (fun e m => named e (List.mem_cons_of_mem _ m)),
        mergedOne s weights (named entry List.mem_cons_self), if_neg fun moved => out entry List.mem_cons_self moved.1]
  have named' : ∀ entry ∈ before ++ (k, under k sets) :: after, ∀ v ∈ entry.2, v ≠ "" := split ▸ named
  generalize chosen : under k sets = variants at *
  rw [split, List.map_append, List.map_cons, List.foldl_append, List.foldl_cons,
    kept after _ later fun entry held => named' entry (List.mem_append_right _ (List.mem_cons_of_mem _ held)),
    mergedOne s weights (named' _ (List.mem_append_right _ List.mem_cons_self)), if_pos ⟨mem, moves⟩]

theorem originalNamed {v : String} (mem : v ∈ originals s store) : v ≠ "" := by
  simpa using (List.mem_filter.mp mem).2

theorem variantsUnder (k v : String) : v ∈ under k (gathered s store).variantsByLower ↔ v ∈ originals s store ∧ variantKey s v = k := by
  rw [gathered, (variantsHeld s (originals s store) ⟨[], [], [], []⟩ List.nodup_nil).2]
  simp [under, KeyedList.get]

theorem aliasOfVariant {v : String} (mem : v ∈ originals s store) (moves : v ≠ canonicalOf s store (variantKey s v)) :
    aliasOf (aliasMap s store) v = some (canonicalOf s store (variantKey s v)) := by
  have unique := (variantsHeld s (originals s store) ⟨[], [], [], []⟩ List.nodup_nil).1
  rw [← gathered] at unique
  have within : ∀ entry ∈ (gathered s store).variantsByLower, ∀ v ∈ entry.2, v ∈ originals s store ∧ variantKey s v = entry.1 :=
    fun entry held v inside => (variantsUnder s store entry.1 v).mp (by rwa [entryUnder unique held])
  have inside := (variantsUnder s store (variantKey s v) v).mpr ⟨mem, rfl⟩
  have found := mergedGroup s (projectWeights s store) ((originals s store).foldl (adopt s (gathered s store)) (gathered s store).aliasMap)
    unique (fun entry held v inside => originalNamed s store (within entry held v inside).1)
    (fun entry held inside => (within entry held v inside).2.symm) inside moves
  have held : canonicalOf s store (variantKey s v) ∈ under (variantKey s v) (gathered s store).variantsByLower :=
    canonicalHeld s (projectWeights s store) (List.ne_nil_of_mem inside)
      fun v mem => originalNamed s store ((variantsUnder s store _ v).mp mem).1
  have some_ := originalNamed s store ((variantsUnder s store _ _).mp held).1
  change get Prod.fst v (aliasMap s store) = some (v, canonicalOf s store (variantKey s v)) at found
  rw [aliasOf, found, Option.map_some, truthySome some_]
  rfl

end
end HarnessMem.ProjectAliases
