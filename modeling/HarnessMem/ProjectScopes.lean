import HarnessMem.Consolidation
import HarnessMem.ProjectNames
import HarnessMem.Lib.Tables

/-! Project selections: the names one stands for, and the test of one name against one. -/
namespace HarnessMem.ProjectScopes
open Js Recorder PosixPath ProjectNames

inductive Scope where | observations | sessions
  deriving DecidableEq

-- What the core knows besides the tables.
structure Core where
  disk : Disk
  lower : String → String
  projectNormalizationRoots : List String
  localeCompare : String → String → Ordering

section
variable (core : Core)

def normalizeProjectInput (project : String) : Except String String :=
  normalizeProjectName core.disk core.lower core.projectNormalizationRoots project

def includesScope (project : String) : Bool := (before "::".toList project.toList).isSome
-- What stands before the first `::`, unless that is at the start.
def scopeOf (project : String) : Option String :=
  match before "::".toList project.toList with
  | some (c :: scope) => some (String.ofList (c :: scope))
  | _ => none

def canonicalUnscoped (trimmed : String) : String :=
  let normalized := normalizePathLike trimmed
  if includesSlash normalized || startsWithDrive normalized then
    let resolved := realpathOrNormalized core.disk normalized
    match truthy (resolveDirectGitWorkspaceRoot core.disk resolved) with
    | some directGitRoot => (truthy (some (basename (normalizePathLike directGitRoot)))).getD directGitRoot
    | none => (truthy (some (basename resolved))).getD resolved
  else normalized

-- What stands before the first `::` has no other `::` in it.
def canonicalizeProjectName (project : String) : String :=
  let trimmed := trim project
  if trimmed = "" then ""
  else match scopeOf trimmed with
    | some scope => if trim scope = "" then "" else canonicalUnscoped core (trim scope)
    | none => canonicalUnscoped core trimmed

def isExplicitRawProjectSelection (project : String) : Bool :=
  let normalized := normalizePathLike (trim project)
  if normalized = "" then false else includesSlash normalized || includesScope normalized || startsWithDrive normalized

-- SQLite's `TRIM` takes spaces off, nothing else.
def sqlTrim (text : String) : String :=
  String.ofList ((((text.toList.dropWhile (fun c => c = ' ')).reverse).dropWhile (fun c => c = ' ')).reverse)

def storedProjects (db : Db) : Scope → List String
  | .observations => db.observations.map Observation.project
  | .sessions => db.sessions.map Session.project ++ db.observations.map Observation.project

def loadDistinctProjects (db : Db) (scope : Scope) : List String :=
  (((storedProjects db scope).filter (fun project => sqlTrim project ≠ "")).eraseDups.map trim).filter (fun project => project ≠ "")

def expandProjectSelection (db : Db) (project : String) (scope : Scope) : List String :=
  let trimmed := trim project
  if trimmed = "" then []
  else if isExplicitRawProjectSelection trimmed then
    if includesScope trimmed then [normalizePathLike trimmed]
    else match normalizeProjectInput core trimmed with
      | .ok normalized => [normalized]
      | .error _ => [normalizeExplicitProjectPath core.disk trimmed]
  else
    let canonical := canonicalizeProjectName core trimmed
    let members := Tables.orderBy (fun lhs rhs => core.localeCompare lhs rhs ≠ .gt)
      ((loadDistinctProjects db scope).filter (fun candidate => canonicalizeProjectName core candidate = canonical))
    if 0 < members.length then members
    else match normalizeProjectInput core trimmed with
      | .ok normalized => [normalized]
      | .error _ => [normalizePathLike trimmed]

def projectMatchesSelection (selection project : String) : Bool :=
  let selected := trim selection
  let candidate := trim project
  if selected = "" ∨ candidate = "" then false
  else if isExplicitRawProjectSelection selected then
    if includesScope selected then normalizePathLike selected = normalizePathLike candidate
    else normalizeExplicitProjectPath core.disk selected = normalizeExplicitProjectPath core.disk candidate
  else canonicalizeProjectName core selected = canonicalizeProjectName core candidate

-- A stored name that is the form of itself.
def Formed (project : String) : Prop := Tidy project ∧ normalizeExplicitProjectPath core.disk project = project

-- The rows a read finds by the selection's names are those its test accepts.
def Agree (db : Db) (selection : String) (scope : Scope) (row : Observation) : Prop :=
  row.project ∈ expandProjectSelection core db selection scope ↔ projectMatchesSelection core selection row.project = true

-- The name `recordEvent` would store for the selection.
def recordedAs (selection : String) : String :=
  settled core.disk core.lower core.projectNormalizationRoots (normalizePathLike (trim selection))

-- Where the two are sure to agree: at a scope, at a plain name that some stored project answers to, and at a
-- path that preferred roots do not move; elsewhere on all rows but those of the two names the selection has.
def Sure (db : Db) (selection : String) (scope : Scope) (row : Observation) : Prop :=
  if isExplicitRawProjectSelection (trim selection) then
    includesScope (trim selection) = true ∨ recordedAs core selection = normalizeExplicitProjectPath core.disk (trim selection) ∨
      row.project ≠ recordedAs core selection ∧ row.project ≠ normalizeExplicitProjectPath core.disk (trim selection)
  else trim selection = "" ∨
    (∃ other ∈ loadDistinctProjects db scope, canonicalizeProjectName core other = canonicalizeProjectName core (trim selection)) ∨
    row.project ≠ recordedAs core selection

variable {core} {db : Db} {selection : String} {scope : Scope} {row : Observation}

theorem beforeNone {token text : List Char} : before token text = none ↔ ¬ token <:+: text := by
  induction text with
  | nil =>
    unfold before
    rw [List.infix_nil]
    split
    · rename_i empty
      simp [empty]
    · rename_i some
      simp [some]
  | cons c rest ih =>
    unfold before
    rw [List.infix_cons_iff, not_or]
    split
    · rename_i starts
      simp [List.isPrefixOf_iff_prefix.mp starts]
    · rename_i other
      rw [Option.map_eq_none_iff, ih]
      exact (and_iff_right (fun starts => other (List.isPrefixOf_iff_prefix.mpr starts))).symm

theorem beforeFree {token text found : List Char} (is : before token text = some found) (some : token ≠ []) : ¬ token <:+: found := by
  induction text generalizing found with
  | nil =>
    unfold before at is
    rw [if_neg some] at is
    cases is
  | cons c rest ih =>
    unfold before at is
    split at is
    · obtain rfl := Option.some.inj is
      exact fun inside => some (List.infix_nil.mp inside)
    · rename_i other
      obtain ⟨more, later, rfl⟩ := Option.map_eq_some_iff.mp is
      rw [List.infix_cons_iff]
      rintro (starts | inside)
      · exact other (List.isPrefixOf_iff_prefix.mpr (starts.trans (List.cons_prefix_cons.mpr ⟨rfl, beforePrefix later⟩)))
      · exact ih later inside

-- The source's own equation: a scope is named after what it is a scope of.
theorem canonicalScope {project within : String} (found : scopeOf (trim project) = some within) :
    canonicalizeProjectName core project = canonicalizeProjectName core within := by
  have some : trim project ≠ "" := by
    intro blank
    rw [blank] at found
    cases found
  have alone : scopeOf (trim within) = none := by
    unfold scopeOf at found
    split at found
    · rename_i c text is
      obtain rfl := Option.some.inj found
      have inside : (trim (String.ofList (c :: text))).toList <:+: c :: text := by
        rw [trim, String.toList_ofList, String.toList_ofList]
        exact (trimEndPrefix _).isInfix.trans (List.dropWhile_suffix isSpace).isInfix
      have none := beforeNone.mpr (fun more => beforeFree is (by decide) (more.trans inside))
      unfold scopeOf
      rw [none]
    · cases found
  unfold canonicalizeProjectName
  simp only [if_neg some, found, alone]

theorem recordedInput (some : trim selection ≠ "") : normalizeProjectInput core (trim selection) = .ok (recordedAs core selection) := by
  unfold normalizeProjectInput normalizeProjectName recordedAs
  simp only [trimIdem, if_neg some]

theorem dropKeeps {p : Char → Bool} {text : List Char} {c : Char} (mem : c ∈ text) (stays : p c = false) : c ∈ text.dropWhile p := by
  induction text with
  | nil => cases mem
  | cons first rest ih =>
    cases drops : p first with
    | false =>
      rw [List.dropWhile_cons_of_neg (by simp [drops])]
      exact mem
    | true =>
      rw [List.dropWhile_cons_of_pos drops]
      rcases List.mem_cons.mp mem with rfl | later
      · rw [drops] at stays
        cases stays
      · exact ih later

-- What JavaScript does not trim away SQLite does not either.
theorem sqlTrimSome {text : String} (some : trim text ≠ "") : sqlTrim text ≠ "" := by
  intro blank
  have all : ∀ c ∈ text.toList, c = ' ' := by
    intro c mem
    by_contra other
    have stays : decide (c = ' ') = false := by simpa using other
    have once := dropKeeps (p := fun c => decide (c = ' ')) mem stays
    have kept := dropKeeps (p := fun c => decide (c = ' ')) (List.mem_reverse.mpr once) stays
    have none := congrArg String.toList blank
    rw [sqlTrim, String.toList_ofList, String.toList_empty, List.reverse_eq_nil_iff] at none
    rw [none] at kept
    cases kept
  cases start : trimStart text.toList with
  | nil => exact some (by rw [trim, start]; rfl)
  | cons c rest =>
    have space := trimStartHead (congrArg List.head? start)
    rw [all c ((List.dropWhile_suffix isSpace).subset (by rw [← trimStart, start]; exact List.mem_cons_self))] at space
    exact absurd space (by decide)

theorem loadedStored (held : row ∈ db.observations) (tidy : Tidy row.project) : row.project ∈ loadDistinctProjects db scope := by
  have stored : row.project ∈ storedProjects db scope := by
    cases scope with
    | observations => exact List.mem_map_of_mem held
    | sessions => exact List.mem_append_right _ (List.mem_map_of_mem held)
  have some : trim row.project ≠ "" := by
    rw [tidy.trimmed]
    exact tidy.some
  refine List.mem_filter.mpr ⟨List.mem_map.mpr ⟨row.project, List.mem_eraseDups.mpr (List.mem_filter.mpr ⟨stored, ?_⟩), tidy.trimmed⟩, ?_⟩
  · exact decide_eq_true (sqlTrimSome some)
  · exact decide_eq_true tidy.some

theorem blankExplicit {project : String} (blank : trim project = "") : isExplicitRawProjectSelection (trim project) = false := by
  rw [blank]
  decide

variable (core scope) in
theorem memberLoaded (canonical : String) (held : row ∈ db.observations) (tidy : Tidy row.project) :
    row.project ∈ Tables.orderBy (fun lhs rhs => core.localeCompare lhs rhs ≠ .gt)
        ((loadDistinctProjects db scope).filter (fun candidate => canonicalizeProjectName core candidate = canonical)) ↔
      canonicalizeProjectName core row.project = canonical := by
  rw [Tables.memOrderBy, List.mem_filter, decide_eq_true_eq]
  exact and_iff_right (loadedStored held tidy)

theorem scopesAgree (held : row ∈ db.observations) (formed : Formed core row.project) :
    Agree core db selection scope row ↔ Sure core db selection scope row := by
  obtain ⟨tidy, explicit⟩ := formed
  unfold Agree Sure expandProjectSelection projectMatchesSelection
  dsimp only
  rw [tidy.trimmed]
  by_cases blank : trim selection = ""
  · have plain := blankExplicit blank
    rw [if_pos blank, if_pos (.inl blank), plain, if_neg Bool.false_ne_true]
    simp [blank]
  have accepts : ¬ (trim selection = "" ∨ row.project = "") := by simp [blank, tidy.some]
  rw [if_neg blank, if_neg accepts, recordedInput blank]
  by_cases raw : isExplicitRawProjectSelection (trim selection) = true
  · rw [if_pos raw, if_pos raw, if_pos raw]
    by_cases inScope : includesScope (trim selection) = true
    · rw [if_pos inScope, if_pos inScope, tidy.normal]
      rw [List.mem_singleton, decide_eq_true_eq]
      exact iff_of_true eq_comm (.inl inScope)
    · rw [if_neg inScope, if_neg inScope, explicit]
      simp only [List.mem_singleton, decide_eq_true_eq, inScope, Bool.false_eq_true, false_or]
      grind
  · rw [if_neg raw, if_neg raw, if_neg raw, decide_eq_true_eq]
    have member := memberLoaded core scope (canonicalizeProjectName core (trim selection)) held tidy
    have nonempty : (∃ other ∈ loadDistinctProjects db scope, canonicalizeProjectName core other = canonicalizeProjectName core (trim selection)) ↔
        0 < (Tables.orderBy (fun lhs rhs => core.localeCompare lhs rhs ≠ .gt) ((loadDistinctProjects db scope).filter
          (fun candidate => canonicalizeProjectName core candidate = canonicalizeProjectName core (trim selection)))).length := by
      rw [List.length_pos_iff_exists_mem]
      simp only [Tables.memOrderBy, List.mem_filter, decide_eq_true_eq]
    rw [nonempty]
    generalize Tables.orderBy (fun lhs rhs => core.localeCompare lhs rhs ≠ .gt) ((loadDistinctProjects db scope).filter
      (fun candidate => canonicalizeProjectName core candidate = canonicalizeProjectName core (trim selection))) = members at member
    by_cases some : 0 < members.length
    · rw [if_pos some, member]
      exact iff_of_true eq_comm (.inr (.inl some))
    · have none : members = [] := List.length_eq_zero_iff.mp (by omega)
      have other : ¬ canonicalizeProjectName core (trim selection) = canonicalizeProjectName core row.project := by
        intro same
        have inside := member.mpr same.symm
        rw [none] at inside
        cases inside
      rw [if_neg some]
      simp [some, blank, other]

end

def recorded (project : String) : Observation := {Consolidation.plainObservation "a" "s" "use sqlite storage" with project := project}
def recordedIn (project : String) : Db := {Db.empty with observations := [recorded project]}
def lowered (text : String) : String := String.ofList (text.toList.map Char.toLower)
def bareCore : Core := ⟨bareDisk, lowered, [], compare⟩

theorem scopesAgreePlain : Agree bareCore (recordedIn "repo") "repo" .observations (recorded "repo") := by
  have formed : Formed bareCore "repo" := ⟨⟨by decide +kernel, by decide +kernel, by decide⟩, by decide +kernel⟩
  refine (scopesAgree List.mem_cons_self formed).mpr ?_
  have plain : isExplicitRawProjectSelection (trim "repo") = false := by decide +kernel
  have loaded : loadDistinctProjects (recordedIn "repo") .observations = ["repo"] := by decide +kernel
  rw [Sure, plain, if_neg Bool.false_ne_true, loaded]
  exact .inr (.inl ⟨"repo", List.mem_cons_self, by decide +kernel⟩)

-- A directory below a known root that is no repository.
def rootedCore : Core := ⟨{repositoryDisk with existsSync := fun _ => false}, lowered, ["/w/repo"], compare⟩

theorem differ {core : Core} {project selection : String} {names : List String} (found : expandProjectSelection core (recordedIn project) selection .observations = names)
    (apart : names.contains project ≠ projectMatchesSelection core selection project) :
    ¬ Agree core (recordedIn project) selection .observations (recorded project) := by
  intro agree
  rw [Agree, found, ← List.contains_iff_mem] at agree
  exact apart (Bool.eq_iff_iff.mpr agree)

-- A path that a root takes in, a root's name in other letters, and a stored name that is not in its own form.
theorem scopesDiffer : ¬ Agree rootedCore (recordedIn "/w/repo") "/w/repo/src" .observations (recorded "/w/repo") ∧
    ¬ Agree rootedCore (recordedIn "/w/repo") "REPO" .observations (recorded "/w/repo") ∧
    ¬ Agree bareCore (recordedIn "a::b/") "a::b" .observations (recorded "a::b/") := by
  have path : expandProjectSelection rootedCore (recordedIn "/w/repo") "/w/repo/src" .observations = ["/w/repo"] := by decide +kernel
  have name : expandProjectSelection rootedCore (recordedIn "/w/repo") "REPO" .observations = ["/w/repo"] := by decide +kernel
  have form : expandProjectSelection bareCore (recordedIn "a::b/") "a::b" .observations = ["a::b"] := by decide +kernel
  have first : ["/w/repo"].contains "/w/repo" ≠ projectMatchesSelection rootedCore "/w/repo/src" "/w/repo" := by decide +kernel
  have second : ["/w/repo"].contains "/w/repo" ≠ projectMatchesSelection rootedCore "REPO" "/w/repo" := by decide +kernel
  have third : ["a::b"].contains "a::b/" ≠ projectMatchesSelection bareCore "a::b" "a::b/" := by decide +kernel
  exact ⟨differ path first, differ name second, differ form third⟩

end HarnessMem.ProjectScopes
