import HarnessMem.Js
import HarnessMem.Lib.LinkWalk
import HarnessMem.Lib.PosixPath

/-! The checks that keep a path argument inside the roots it may name: the one of the MCP server's code search, and the
ones on the source of an import in its two versions. -/
namespace HarnessMem.PathGuards
open LinkWalk

instance (part : List Char) : Decidable (PosixPath.Name part) :=
  decidable_of_iff (part ≠ [] ∧ part ≠ ['.'] ∧ part ≠ ['.', '.'] ∧ '/' ∉ part)
    ⟨fun all => ⟨all.1, all.2.1, all.2.2.1, all.2.2.2⟩, fun name => ⟨name.some, name.here, name.up, name.free⟩⟩

-- A name as a directory holds it, and an absolute path in its shortest form.
abbrev FileName := {part : List Char // PosixPath.Name part}
abbrev Place := List FileName
abbrev FileSystem := LinkTree FileName

def stepOf (part : List Char) : Option (Step FileName) :=
  if part = ['.', '.'] then some .up else if named : PosixPath.Name part then some (.name ⟨part, named⟩) else none
def stepsOf (path : String) : List (Step FileName) := (PosixPath.parts path.toList).filterMap stepOf
def isAbsolute (path : String) : Bool := path.toList.head? = some '/'

-- `path.resolve` and `filepath.Abs`
def resolve (cwd : Place) (path : String) : Place := lexical (if isAbsolute path then [] else cwd) (stepsOf path)
def shown (place : Place) : List Char := PosixPath.shown (place.map Subtype.val)

-- `path.relative` of two such paths, up to where they part and down again, and what `filepath.Rel` puts for no way.
def apart : Place → Place → Place × Place
  | a :: start, b :: target => if a = b then apart start target else (a :: start, b :: target)
  | start, target => (start, target)
def relative (start target : Place) : List Char :=
  let (back, on) := apart start target
  ['/'].intercalate (back.map (fun _ => ['.', '.']) ++ on.map Subtype.val)

def goesUp (relative : List Char) : Bool := ['.', '.'].isPrefixOf relative
def isWithinPath (root target : Place) : Bool :=
  let way := relative root target
  way = [] || (!goesUp way && way.head? != some '/')

def withSep (path : List Char) : List Char := if path.getLast? = some '/' then path else path ++ ['/']
def startsWithin (path root : List Char) : Bool := path = root || (withSep root).isPrefixOf path

section
variable (fs : FileSystem)

def statAt (place : Place) : Except Fault Place := LinkWalk.stat fs fs.maxLinks [] (named place)
def existsSync (place : Place) : Bool := (statAt fs place).toOption.isSome

def validatePath (searchPath : String) (projectRoot : Place) : Except String Place :=
  let fullPath := resolve projectRoot searchPath
  if ¬ startsWithin (shown fullPath) (shown projectRoot) then .error ("Path must be within project root. Got: " ++ searchPath)
  else
    let relativePath := relative projectRoot fullPath
    if goesUp relativePath || relativePath.head? = some '/' then .error ("Path escapes project root. Got: " ++ searchPath)
    else match statAt fs fullPath, statAt fs projectRoot with
      | .ok realFullPath, .ok realProjectRoot =>
        if startsWithin (shown realFullPath) (shown realProjectRoot) then .ok fullPath
        else .error ("Path resolves outside project root (symlink detected). Got: " ++ searchPath)
      | _, _ => .ok fullPath

end

-- What stands before the last dot of a name and what stands from it on.
def lastDot (name : List Char) : Option (List Char × List Char) :=
  match name.reverse.dropWhile (fun c => c ≠ '.') with
  | [] => none
  | _ :: front => some (front.reverse, '.' :: (name.reverse.takeWhile (fun c => c ≠ '.')).reverse)
def lastName (place : Place) : List Char := (place.getLast?.map Subtype.val).getD []
-- A name that only begins with its dot has no extension for `path.extname` and one for `filepath.Ext`.
def extname (place : Place) : List Char := match lastDot (lastName place) with
  | some (front, ext) => if front = [] then [] else ext
  | none => []
def goExt (place : Place) : List Char := ((lastDot (lastName place)).map Prod.snd).getD []

def databaseExtensions : List String := [".db", ".sqlite", ".sqlite3"]

-- `unicode.IsSpace`
def isGoSpace (c : Char) : Bool :=
  let n := c.toNat
  (9 ≤ n && n ≤ 13) || n == 0x20 || n == 0x85 || n == 0xA0 || n == 0x1680 || (0x2000 ≤ n && n ≤ 0x200A) ||
    n == 0x2028 || n == 0x2029 || n == 0x202F || n == 0x205F || n == 0x3000
def trimSpace (s : String) : String :=
  String.ofList (((s.toList.dropWhile isGoSpace).reverse.dropWhile isGoSpace).reverse)

-- The process the server runs in.
structure Process where
  cwd : Place
  home : String
  projectRoot : Place
  toLowerCase : String → String

section
variable (fs : FileSystem) (process : Process)

def homeDir : Option Place := if process.home = "" then none else some (resolve process.cwd process.home)
-- `filepath.Rel` refuses a relative base for an absolute target.
def goHomeDir : Option Place := if isAbsolute process.home then some (resolve [] process.home) else none

def notFound (resolved : Place) : String := "source_db_path not found: " ++ String.ofList (shown resolved)

-- What the two versions of the check share; they part in what they trim, where an extension begins, which HOME counts and
-- what they call absent.
def importSource (trimmed : String) (ext : Place → List Char) (home : Option Place) (absent : Place → Bool) : Except String Place :=
  if trimmed = "" then .error "source_db_path is required"
  else if trimmed.toList.contains (Char.ofNat 0) then .error "source_db_path contains invalid characters"
  else
    let resolved := resolve process.cwd trimmed
    if ¬ databaseExtensions.contains (process.toLowerCase (String.ofList (ext resolved))) then
      .error "source_db_path must use .db/.sqlite/.sqlite3 extension"
    else if ¬ (home.any (isWithinPath · resolved) || isWithinPath process.projectRoot resolved) then
      .error "source_db_path must be under HOME or project root"
    else if absent resolved then .error (notFound resolved)
    else .ok resolved

def validateImportSourcePath (sourceDbPath : String) : Except String Place :=
  importSource process (Js.trim sourceDbPath) extname (homeDir process) (fun resolvedPath => !existsSync fs resolvedPath)

-- `os.IsNotExist` is about a name that is missing, no other fault.
def isNotExist (found : Except Fault Place) : Bool := match found with
  | .error .missing => true
  | _ => false
def goValidateImportSourcePath (sourceDBPath : String) : Except String Place :=
  importSource process (trimSpace sourceDBPath) goExt (goHomeDir process) (fun resolved => isNotExist (statAt fs resolved))

end

/-! Where an accepted path leads. -/

section
variable (fs : FileSystem)

def Denotes (path place : Place) : Prop := ∃ left, walk fs fs.maxLinks [] (named path) = some (place, left)
def Inside (roots : List Place) (path : Place) : Prop :=
  ∃ place, Denotes fs path place ∧ ∃ root ∈ roots, ∃ real, Denotes fs root real ∧ real <+: place
-- The links below the root come to an end, and the last of them leads into a root, or above one and the names after it lead in.
def Kept (roots : List Place) (root below : Place) : Prop :=
  ∃ real left, walk fs fs.maxLinks [] (named root) = some (real, left) ∧ walk fs left real (named below) ≠ none ∧
    ∀ reached after, LastLink fs left real below reached after →
      ∃ other ∈ roots, ∃ realOther, Denotes fs other realOther ∧ LeadsInto realOther reached after

end

section
variable {fs : FileSystem}

theorem namedAppend (root below : Place) : named (root ++ below) = named root ++ named below := List.map_append

theorem insideKept {roots : List Place} {root below : Place} (allowed : root ∈ roots) :
    Inside fs roots (root ++ below) ↔ Kept fs roots root below := by
  constructor
  · rintro ⟨place, ⟨left, walked⟩, other, mem, realOther, leads, inside⟩
    rw [namedAppend, walkAppend] at walked
    obtain ⟨⟨real, more⟩, first, second⟩ := Option.bind_eq_some_iff.mp walked
    refine ⟨real, more, first, by rw [second]; exact Option.some_ne_none _, fun reached after last => ?_⟩
    obtain ⟨left', here⟩ := lastLinkPlace last
    rw [here] at second
    obtain rfl := (Prod.mk.inj (Option.some.inj second)).1
    exact ⟨other, mem, realOther, leads, leadsIntoIff.mp inside⟩
  · rintro ⟨real, left, first, ends, last⟩
    rcases lastLinkOr ends with plain | ⟨reached, after, found⟩
    · refine ⟨real ++ below, ⟨left, ?_⟩, root, allowed, real, ⟨left, first⟩, List.prefix_append _ _⟩
      rw [namedAppend, walkAppend, first]
      exact walkLinkless plain left
    · obtain ⟨other, mem, realOther, leads, inside⟩ := last reached after found
      obtain ⟨left', here⟩ := lastLinkPlace found
      refine ⟨reached ++ after, ⟨left', ?_⟩, other, mem, realOther, leads, leadsIntoIff.mpr inside⟩
      rw [namedAppend, walkAppend, first]
      exact here

/-! The texts the checks compare. -/

theorem shownNamed (place : Place) : ∀ part ∈ place.map Subtype.val, PosixPath.Name part := by
  intro part mem
  obtain ⟨name, -, rfl⟩ := List.mem_map.mp mem
  exact name.2

theorem valPrefix {root place : Place} (starts : root.map Subtype.val <+: place.map Subtype.val) : root <+: place := by
  obtain ⟨rest, same⟩ := starts
  have front := congrArg (List.take root.length) same
  rw [List.take_left' (List.length_map _), ← List.map_take] at front
  rw [List.map_injective_iff.mpr Subtype.val_injective front]
  exact List.take_prefix _ _

theorem startsWithinPrefix {path root : Place} (within : startsWithin (shown path) (shown root) = true) : root <+: path := by
  rw [startsWithin, Bool.or_eq_true, decide_eq_true_eq, List.isPrefixOf_iff_prefix] at within
  by_cases top : root = []
  · rw [top]
    exact List.nil_prefix
  rcases within with same | ⟨rest, whole⟩
  · have names := congrArg PosixPath.names same
    rw [shown, shown, PosixPath.namesShown (shownNamed path), PosixPath.namesShown (shownNamed root)] at names
    exact valPrefix (names ▸ List.prefix_rfl)
  · have filled : root.map Subtype.val ≠ [] := fun none => top (List.map_eq_nil_iff.mp none)
    have sep : withSep (shown root) = shown root ++ ['/'] := if_neg (PosixPath.shownLast (shownNamed root) filled)
    rw [sep, List.append_assoc, List.singleton_append] at whole
    have some : shown root ≠ [] := fun none => by
      have start := PosixPath.shownStart (root.map Subtype.val)
      rw [← shown, none] at start
      cases start
    obtain ⟨first, others, parted, -, shownFirst⟩ := PosixPath.shownBefore (shownNamed path) some whole.symm
    have named : ∀ part ∈ first, PosixPath.Name part := fun part mem => shownNamed path part (parted ▸ List.mem_append_left _ mem)
    have names := congrArg PosixPath.names shownFirst
    rw [shown, PosixPath.namesShown (shownNamed root), PosixPath.namesShown named] at names
    exact valPrefix ⟨others, by rw [parted, names]⟩

theorem apartPrefix {root target : Place} (none : (apart root target).1 = []) : root <+: target := by
  induction root generalizing target with
  | nil => exact List.nil_prefix
  | cons a root ih =>
    cases target with
    | nil => cases none
    | cons b target =>
      rw [apart] at none
      split at none
      · rename_i same
        rw [same]
        exact (List.prefix_cons_inj b).mpr (ih none)
      · cases none

theorem goesUpApart {root target : Place} (stays : goesUp (relative root target) = false) : root <+: target := by
  cases parted : apart root target with
  | mk back on =>
    cases back with
    | nil => exact apartPrefix (by rw [parted])
    | cons first rest =>
      simp only [relative, parted, List.map_cons, List.cons_append, goesUp] at stays
      have starts : ∀ lines : List (List Char), ['.', '.'].isPrefixOf (['/'].intercalate (['.', '.'] :: lines)) = true := by
        intro lines
        cases lines <;> simp [List.intercalate]
      rw [starts] at stays
      cases stays

theorem isWithinPrefix {root target : Place} (within : isWithinPath root target = true) : root <+: target := by
  refine goesUpApart ?_
  simp only [isWithinPath, Bool.or_eq_true, decide_eq_true_eq, Bool.and_eq_true, Bool.not_eq_true'] at within
  rcases within with same | ⟨stays, -⟩
  · rw [same]
    rfl
  · exact stays

/-! What each check accepts. -/

theorem denotesStat {path real : Place} (found : statAt fs path = .ok real) : Denotes fs path real := statWalk found

theorem validateAccepted {searchPath : String} {projectRoot full : Place} (accepted : validatePath fs searchPath projectRoot = .ok full) :
    projectRoot <+: full ∧ (existsSync fs full = true → Inside fs [projectRoot] full) := by
  simp only [validatePath] at accepted
  split at accepted
  · cases accepted
  rename_i within
  split at accepted
  · cases accepted
  have starts : projectRoot <+: resolve projectRoot searchPath := startsWithinPrefix (by simpa using within)
  split at accepted
  · rename_i real realRoot found foundRoot
    split at accepted
    · rename_i inside
      obtain rfl := Except.ok.inj accepted
      exact ⟨starts, fun _ => ⟨real, denotesStat found, projectRoot, List.mem_singleton_self _, realRoot, denotesStat foundRoot,
        startsWithinPrefix inside⟩⟩
    · cases accepted
  · rename_i unseen
    obtain rfl := Except.ok.inj accepted
    refine ⟨starts, fun here => ?_⟩
    -- What exists is reached through the root, so the root exists.
    cases found : statAt fs (resolve projectRoot searchPath) with
    | error fault =>
      rw [existsSync, found] at here
      cases here
    | ok real =>
      obtain ⟨below, whole⟩ := starts
      have reached := found
      rw [statAt, ← whole, namedAppend] at reached
      obtain ⟨realRoot, foundRoot⟩ := statPrefix reached
      exact absurd foundRoot (unseen real realRoot found)

theorem allowedRoot {home : Option Place} {project resolved : Place}
    (allowed : (home.any (isWithinPath · resolved) || isWithinPath project resolved) = true) :
    ∃ root ∈ home.toList ++ [project], root <+: resolved := by
  rcases Bool.or_eq_true_iff.mp allowed with inHome | inProject
  · cases home with
    | none => cases inHome
    | some root => exact ⟨root, List.mem_cons_self, isWithinPrefix inHome⟩
  · exact ⟨project, by simp, isWithinPrefix inProject⟩

theorem importAccepted {process : Process} {trimmed : String} {ext : Place → List Char} {home : Option Place} {absent : Place → Bool}
    {resolved : Place} (accepted : importSource process trimmed ext home absent = .ok resolved) :
    ∃ root ∈ home.toList ++ [process.projectRoot], root <+: resolved := by
  simp only [importSource] at accepted
  split at accepted
  · cases accepted
  split at accepted
  · cases accepted
  split at accepted
  · cases accepted
  split at accepted
  · cases accepted
  rename_i allowed
  split at accepted
  · cases accepted
  · obtain rfl := Except.ok.inj accepted
    exact allowedRoot (not_not.mp allowed)

theorem insideIff {roots : List Place} {path : Place} (within : ∃ root ∈ roots, root <+: path) :
    Inside fs roots path ↔ ∃ root ∈ roots, ∃ below, path = root ++ below ∧ Kept fs roots root below := by
  constructor
  · intro inside
    obtain ⟨root, allowed, below, rfl⟩ := within
    exact ⟨root, allowed, below, rfl, (insideKept allowed).mp inside⟩
  · rintro ⟨root, allowed, below, rfl, kept⟩
    exact (insideKept allowed).mpr kept

end

section
variable (fs : FileSystem) (process : Process)

def importRoots : List Place := (homeDir process).toList ++ [process.projectRoot]
def goImportRoots : List Place := (goHomeDir process).toList ++ [process.projectRoot]

theorem acceptedInside :
    (∀ searchPath projectRoot fullPath, validatePath fs searchPath projectRoot = .ok fullPath →
      (Inside fs [projectRoot] fullPath ↔
        existsSync fs fullPath = true ∨ ∃ below, fullPath = projectRoot ++ below ∧ Kept fs [projectRoot] projectRoot below)) ∧
      (∀ source resolved, validateImportSourcePath fs process source = .ok resolved →
        (Inside fs (importRoots process) resolved ↔
          ∃ root ∈ importRoots process, ∃ below, resolved = root ++ below ∧ Kept fs (importRoots process) root below)) ∧
      ∀ source resolved, goValidateImportSourcePath fs process source = .ok resolved →
        (Inside fs (goImportRoots process) resolved ↔
          ∃ root ∈ goImportRoots process, ∃ below, resolved = root ++ below ∧ Kept fs (goImportRoots process) root below) := by
  refine ⟨fun searchPath projectRoot fullPath accepted => ?_, fun source resolved accepted => insideIff (importAccepted accepted),
    fun source resolved accepted => insideIff (importAccepted accepted)⟩
  obtain ⟨starts, checked⟩ := validateAccepted accepted
  have one := @insideIff fs [projectRoot] fullPath ⟨projectRoot, List.mem_singleton_self _, starts⟩
  simp only [List.mem_singleton, exists_eq_left] at one
  constructor
  · exact fun inside => .inr (one.mp inside)
  · rintro (here | kept)
    · exact checked here
    · exact one.mpr kept

end

/-! A home with a link out of it. -/

def name (text : String) (valid : PosixPath.Name text.toList) : FileName := ⟨text.toList, valid⟩
def etc : FileName := name "etc" (by decide)
def secret : FileName := name "secret.db" (by decide)
def home : Place := [name "home" (by decide), name "u" (by decide)]
def project : Place := home ++ [name "project" (by decide)]
def own : Place := home ++ [name "own.db" (by decide)]
def linked : Place := home ++ [name "linked.db" (by decide)]
def out : Place := project ++ [name "out" (by decide)]

def entries : List (Place × Node FileName) :=
  [([], .dir), (home.dropLast, .dir), (home, .dir), (project, .dir), (own, .file), ([etc], .dir), ([etc, secret], .file),
    (linked, .link true (named [etc, secret])), (out, .link true (named [etc]))]
def nodeAt (place : Place) : Option (Node FileName) := (entries.find? (fun entry => entry.1 = place)).map Prod.snd
def isDir : Option (Node FileName) → Bool
  | some .dir => true
  | _ => false

theorem entriesWithin (place : Place) (a : FileName) (here : nodeAt (place ++ [a]) ≠ none) : nodeAt place = some .dir := by
  have all : ∀ entry ∈ entries, entry.1 = [] ∨ isDir (nodeAt entry.1.dropLast) = true := by decide
  cases found : entries.find? (fun entry => entry.1 = place ++ [a]) with
  | none => exact absurd (by rw [nodeAt, found]; rfl) here
  | some entry =>
    have at_ : entry.1 = place ++ [a] := by simpa using List.find?_some found
    rcases all entry (List.mem_of_find?_eq_some found) with top | inside
    · rw [at_] at top
      exact absurd top (by simp)
    · rw [at_, List.dropLast_concat] at inside
      unfold isDir at inside
      split at inside
      · assumption
      · cases inside

def sampleTree : FileSystem := ⟨nodeAt, 40, rfl, entriesWithin⟩
def sampleProcess : Process := ⟨project, "/home/u", project, id⟩

theorem acceptedOwn : Inside sampleTree [home] own :=
  ((acceptedInside sampleTree sampleProcess).1 "own.db" home own (by decide)).mpr (.inl (by decide))

theorem notInside {fs : FileSystem} {roots : List Place} {path place : Place} {left : Nat}
    (walked : walk fs fs.maxLinks [] (named path) = some (place, left))
    (outside : ∀ root ∈ roots, (walk fs fs.maxLinks [] (named root)).map (fun found => decide (found.1 <+: place)) ≠ some true) :
    ¬ Inside fs roots path := by
  rintro ⟨place', ⟨left', walked'⟩, root, mem, real, ⟨more, leads⟩, inside⟩
  rw [walked] at walked'
  obtain rfl := (Prod.mk.inj (Option.some.inj walked')).1
  refine outside root mem ?_
  rw [leads]
  exact congrArg some (decide_eq_true inside)

theorem leadsOut : validateImportSourcePath sampleTree sampleProcess "/home/u/linked.db" = .ok linked ∧
    goValidateImportSourcePath sampleTree sampleProcess "/home/u/linked.db" = .ok linked ∧
    validatePath sampleTree "out/new.db" project = .ok (out ++ [name "new.db" (by decide)]) ∧
    ¬ Inside sampleTree (importRoots sampleProcess) linked ∧ ¬ Inside sampleTree (goImportRoots sampleProcess) linked ∧
    ¬ Inside sampleTree [project] (out ++ [name "new.db" (by decide)]) := by
  have followed : walk sampleTree 40 [] (named linked) = some ([etc, secret], 39) := by decide
  have followed' : walk sampleTree 40 [] (named (out ++ [name "new.db" (by decide)])) = some ([etc, name "new.db" (by decide)], 39) := by
    decide
  exact ⟨by decide +kernel, by decide +kernel, by decide +kernel, notInside followed (by decide +kernel), notInside followed (by decide +kernel),
    notInside followed' (by decide +kernel)⟩

end HarnessMem.PathGuards
