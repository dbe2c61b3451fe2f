import HarnessMem.Envelope
import HarnessMem.Lib.PosixPath
import HarnessMem.TemporalState

/-! Project names: paths brought to one form, real directories to the workspace that holds them. -/
namespace HarnessMem.ProjectNames
open Js Text Recorder PosixPath Regex

inductive Kind where | directory | file | other
  deriving DecidableEq

-- The file system as the code asks it; nothing where a call throws.
structure Disk where
  realpathSync : String → Option String
  existsSync : String → Bool
  statSync : String → Option Kind
  readFileSync : String → Option String

def stripSlashes (path : List Char) : List Char := (path.reverse.dropWhile (fun c => c = '/')).reverse
def forward (c : Char) : Char := if c = '\\' then '/' else c
def normalizePathLike (inputPath : String) : String := String.ofList ((stripSlashes inputPath.toList).map forward)

def startsWith (path start : String) : Bool := start.toList.isPrefixOf path.toList
def includesSlash (path : String) : Bool := path.toList.contains '/'

-- The text before the first place where the token stands.
def before (token : List Char) : List Char → Option (List Char)
  | [] => if token = [] then some [] else none
  | c :: rest => if token.isPrefixOf (c :: rest) then some [] else (before token rest).map (fun text => c :: text)

-- `/^[A-Za-z]:\/?$/`
def isDrive (path : String) : Bool :=
  match path.toList with
  | [c, ':'] => c.isAlpha
  | [c, ':', '/'] => c.isAlpha
  | _ => false
-- `/^[A-Za-z]:\//`
def startsWithDrive (path : String) : Bool :=
  match path.toList with
  | c :: ':' :: '/' :: _ => c.isAlpha
  | _ => false

-- `/^\s*gitdir:\s*(.+)\s*$/i`
def gitdirLine : Re :=
  chain [.start, star (.set isSpace), wordI "gitdir:", star (.set isSpace), .group 1 (plus TemporalState.dot), star (.set isSpace), .stop]

-- What a directory's `.git` says: nothing, that a repository is here, or where the main repository is.
inductive Marker where | absent | here | worktree (main : String)
  deriving DecidableEq

section
variable (disk : Disk)

def realpathOrNormalized (inputPath : String) : String :=
  match disk.realpathSync inputPath with
  | some real => normalizePathLike real
  | none => normalizePathLike inputPath

def worktreeMarker (cursor target : String) : Marker :=
  match before "/.git/worktrees/".toList (normalizePathLike (resolve cursor (trim target))).toList with
  | some (c :: main) => .worktree (String.ofList (c :: main))
  | _ => .here

def markerAt (cursor : String) : Marker :=
  let gitMarker := join cursor ".git"
  if disk.existsSync gitMarker then
    match disk.statSync gitMarker with
    | some .directory => if disk.existsSync (join gitMarker "HEAD") then .here else .absent
    | some .file =>
      match disk.readFileSync gitMarker with
      | some markerBody =>
        match (exec gitdirLine markerBody).bind (fun found => capture 1 found.2) with
        | some target => worktreeMarker cursor target
        | none => .here
      | none => .here
    | some .other => .absent
    | none => .here
  else .absent

def parentOf (cursor : String) : Option String :=
  let parent := normalizePathLike (resolve cursor "..")
  if parent = "" ∨ parent = cursor then none
  else if parent = "/" ∨ isDrive parent then none
  else some parent

def walkUp : Nat → String → Option String
  | 0, _ => none
  | walks + 1, cursor =>
    match markerAt disk cursor with
    | .here => some (realpathOrNormalized disk cursor)
    | .worktree main => some (realpathOrNormalized disk main)
    | .absent => (parentOf cursor).bind (walkUp walks)

def maxWalks : Nat := 64
def resolveDirectGitWorkspaceRoot (existingPath : String) : Option String :=
  let start := normalizePathLike existingPath
  if startsWith start "/" then walkUp disk maxWalks start else none

def resolvePreferredWorkspaceRoot (existingPath : String) (preferredRoots : List String) : Option String :=
  let normalizedPath := normalizePathLike existingPath
  match preferredRoots with
  | [] => none
  | root :: others =>
    let normalizedRoot := normalizePathLike (trim root)
    if trim root ≠ "" ∧ normalizedRoot ≠ "" ∧ (normalizedPath = normalizedRoot ∨ startsWith normalizedPath (normalizedRoot ++ "/")) then
      some normalizedRoot
    else resolvePreferredWorkspaceRoot existingPath others

def normalizeExplicitProjectPath (project : String) : String :=
  let normalized := normalizePathLike (trim project)
  if normalized = "" then ""
  else
    let resolved := realpathOrNormalized disk normalized
    (truthy (resolveDirectGitWorkspaceRoot disk resolved)).getD resolved

def resolveWorkspaceRoot (preferredRoots : List String) (existingPath : String) : Option String :=
  match truthy (resolveDirectGitWorkspaceRoot disk existingPath) with
  | some directGitRoot => some (normalizePathLike directGitRoot)
  | none => (resolvePreferredWorkspaceRoot existingPath preferredRoots).map (fun preferredRoot =>
      normalizePathLike ((truthy (resolveDirectGitWorkspaceRoot disk preferredRoot)).getD preferredRoot))

-- `workspaceRoot || real`
def workspaceOf (preferredRoots : List String) (real : String) : String :=
  (truthy (resolveWorkspaceRoot disk preferredRoots real)).getD real

variable (lower : String → String)

-- The first known root whose last name is the target.
def rootNamed (target : String) : List String → Option String
  | [] => none
  | root :: others =>
    if trim root ≠ "" ∧ lower (basename (normalizePathLike (trim root))) = target then some (normalizePathLike (trim root))
    else rootNamed target others

def settled (preferredRoots : List String) (normalized : String) : String :=
  match disk.realpathSync normalized with
  | some real => workspaceOf disk preferredRoots (normalizePathLike real)
  | none =>
    if includesSlash normalized then normalized
    else match rootNamed lower (lower normalized) preferredRoots with
      | some rootNormalized =>
        match disk.realpathSync rootNormalized with
        | some real => workspaceOf disk preferredRoots (normalizePathLike real)
        | none => rootNormalized
      | none => normalized

def normalizeProjectName (preferredRoots : List String) (name : String) : Except String String :=
  let trimmed := trim name
  if trimmed = "" then .error "project name must not be empty"
  else .ok (settled disk lower preferredRoots (normalizePathLike trimmed))

end

-- Text that neither trimming nor `normalizePathLike` changes.
structure Tidy (path : String) : Prop where
  trimmed : trim path = path
  normal : normalizePathLike path = path
  some : path ≠ ""

theorem stripPrefix (path : List Char) : stripSlashes path <+: path := by
  have suffix : path.reverse.dropWhile (fun c => decide (c = '/')) <:+ path.reverse := List.dropWhile_suffix _
  simpa [stripSlashes] using List.reverse_prefix.mpr suffix

theorem stripLast (path : List Char) : (stripSlashes path).getLast? ≠ some '/' := by
  intro ends
  have head := List.head?_dropWhile_not (fun c => decide (c = '/')) path.reverse
  rw [stripSlashes, List.getLast?_reverse] at ends
  rw [ends] at head
  simp at head

theorem stripOf {path : List Char} (last : path.getLast? ≠ some '/') : stripSlashes path = path := by
  unfold stripSlashes
  have keeps : path.reverse.dropWhile (fun c => decide (c = '/')) = path.reverse := by
    cases shown : path.reverse with
    | nil => rfl
    | cons c rest =>
      have first : path.getLast? = some c := by rw [← List.head?_reverse, shown]; rfl
      rw [first] at last
      exact List.dropWhile_cons_of_neg (by simpa using last)
  rw [keeps, List.reverse_reverse]

theorem forwardIs (c : Char) : forward c = '/' ↔ c = '/' ∨ c = '\\' := by
  unfold forward
  split
  · rename_i back
    simp [back]
  · rename_i other
    simp [other]

theorem mapForward {path : List Char} (bare : '\\' ∉ path) : path.map forward = path :=
  (List.map_congr_left (fun c mem => if_neg (fun back : c = '\\' => bare (back ▸ mem)))).trans (List.map_id' path)

theorem forwardBare (path : List Char) : '\\' ∉ path.map forward := by
  intro mem
  obtain ⟨c, -, is⟩ := List.mem_map.mp mem
  unfold forward at is
  split at is
  · exact absurd is (by decide)
  · rename_i other
    exact other is

theorem normalList (path : String) : (normalizePathLike path).toList = (stripSlashes path.toList).map forward := String.toList_ofList

theorem normalOf {path : String} (bare : '\\' ∉ path.toList) (last : path.toList.getLast? ≠ some '/') : normalizePathLike path = path := by
  rw [normalizePathLike, stripOf last, mapForward bare, String.ofList_toList]

theorem normalBare {path : String} (normal : normalizePathLike path = path) : '\\' ∉ path.toList ∧ path.toList.getLast? ≠ some '/' := by
  have bare : '\\' ∉ path.toList := by
    rw [← normal, normalList]
    exact forwardBare _
  refine ⟨bare, ?_⟩
  have list := congrArg String.toList normal
  rw [normalList, mapForward (fun mem => bare ((stripPrefix _).subset mem))] at list
  rw [← list]
  exact stripLast _

theorem stripFilter (path : List Char) : (stripSlashes path).getLast? = (path.filter (fun c => c ≠ '/')).getLast? := by
  have split : path = stripSlashes path ++ (path.reverse.takeWhile (fun c => decide (c = '/'))).reverse := by
    rw [stripSlashes, ← List.reverse_append, List.takeWhile_append_dropWhile, List.reverse_reverse]
  have slashes : ((path.reverse.takeWhile (fun c => decide (c = '/'))).reverse).filter (fun c => decide (c ≠ '/')) = [] := by
    refine List.filter_eq_nil_iff.mpr (fun c mem => ?_)
    have slash := List.all_eq_true.mp List.all_takeWhile c (List.mem_reverse.mp mem)
    simpa using slash
  conv_rhs => rw [split, List.filter_append, slashes, List.append_nil]
  have last := stripLast path
  rcases List.eq_nil_or_concat (stripSlashes path) with none | ⟨front, c, is⟩
  · rw [none]
    rfl
  · rw [is, List.concat_eq_append, List.getLast?_concat] at last ⊢
    have other : c ≠ '/' := fun slash => last (by rw [slash])
    rw [List.filter_append, List.filter_cons_of_pos (by simpa using other), List.filter_nil, List.getLast?_concat]

-- The last character that is no slash decides.
theorem normalTwice (path : String) : normalizePathLike (normalizePathLike path) = normalizePathLike path ↔
    (path.toList.filter (fun c => c ≠ '/')).getLast? ≠ some '\\' := by
  rw [← stripFilter]
  have last := stripLast path.toList
  have shown : (normalizePathLike path).toList.getLast? = (stripSlashes path.toList).getLast?.map forward := by
    rw [normalList, List.getLast?_map]
  have turned : (stripSlashes path.toList).getLast? ≠ some '\\' ↔ (normalizePathLike path).toList.getLast? ≠ some '/' := by
    rw [shown]
    cases is : (stripSlashes path.toList).getLast? with
    | none => simp
    | some c =>
      rw [is] at last
      have other : c ≠ '/' := fun slash => last (by rw [slash])
      simp [forwardIs, other]
  rw [turned]
  exact ⟨fun normal => (normalBare normal).2, normalOf (by rw [normalList]; exact forwardBare _)⟩

section
variable (disk : Disk)

-- What `realpath` promises: a path in its shortest form, each directory along which is a real path too.
structure Canonical : Prop where
  shape : ∀ {path real}, disk.realpathSync path = some real → ∃ along, (∀ part ∈ along, Name part) ∧ real = pathOf along
  within : ∀ path along more, (∀ part ∈ along ++ more, Name part) → disk.realpathSync path = some (pathOf (along ++ more)) →
    disk.realpathSync (pathOf along) = some (pathOf along)

-- The first directory from here up whose `.git` says something.
def nearest : Nat → String → Option String
  | 0, _ => none
  | walks + 1, cursor => if markerAt disk cursor = .absent then (parentOf cursor).bind (nearest walks) else some cursor
def rootOf (cursor : String) : String :=
  match markerAt disk cursor with
  | .worktree main => realpathOrNormalized disk main
  | _ => realpathOrNormalized disk cursor

theorem walkNearest (walks : Nat) (cursor : String) : walkUp disk walks cursor = (nearest disk walks cursor).map (rootOf disk) := by
  induction walks generalizing cursor with
  | zero => rfl
  | succ walks ih =>
    rw [walkUp, nearest]
    cases found : markerAt disk cursor with
    | absent =>
      rw [if_pos rfl]
      cases parentOf cursor with
      | none => rfl
      | some parent => exact ih parent
    | here => simp [rootOf, found]
    | worktree main => simp [rootOf, found]

variable {disk}

theorem normalShown {along : List (List Char)} (named : ∀ part ∈ along, Name part) (some : along ≠ []) (bare : '\\' ∉ shown along) :
    normalizePathLike (pathOf along) = pathOf along :=
  normalOf (by rwa [pathOf, String.toList_ofList]) (by rw [pathOf, String.toList_ofList]; exact shownLast named some)

theorem shownBare {first more : List (List Char)} (bare : '\\' ∉ shown (first ++ more)) : '\\' ∉ shown first := by
  unfold shown at bare ⊢
  by_cases none : first = []
  · rw [if_pos none]
    decide
  · rw [if_neg (by simp [none]), List.flatMap_append, List.mem_append, not_or] at bare
    rw [if_neg none]
    exact bare.1

theorem slashNoDrive {path : String} (start : path.toList.head? = some '/') : isDrive path = false := by
  unfold isDrive
  split
  · rename_i c is
    rw [is] at start
    obtain rfl := Option.some.inj start
    decide
  · rename_i c is
    rw [is] at start
    obtain rfl := Option.some.inj start
    decide
  · rfl

theorem pathNonempty (along : List (List Char)) : pathOf along ≠ "" := by
  intro is
  have start := shownStart along
  rw [← pathOfList, is] at start
  cases start

theorem parentShown {along : List (List Char)} (named : ∀ part ∈ along, Name part) (bare : '\\' ∉ shown along) :
    parentOf (pathOf along) = if along.length ≤ 1 then none else some (pathOf along.dropLast) := by
  unfold parentOf
  rw [resolveUp named]
  split
  · rename_i short
    have none : along.dropLast = [] := List.length_eq_zero_iff.mp (by rw [List.length_dropLast]; omega)
    rw [none]
    have blank : normalizePathLike (pathOf []) = "" := by decide
    simp only [blank, true_or, if_true]
  · rename_i long
    have split : along.dropLast ++ [along.getLast (by rintro rfl; exact long (by decide))] = along := List.dropLast_append_getLast _
    have front : ∀ part ∈ along.dropLast, Name part := fun part mem => named part (List.dropLast_subset _ mem)
    have some : along.dropLast ≠ [] := fun none => long (by have := congrArg List.length none; rw [List.length_dropLast] at this; simp at this; omega)
    have normal := normalShown front some (shownBare (split ▸ bare))
    have other : pathOf along.dropLast ≠ pathOf along := by
      intro same
      have sizes := congrArg List.length (pathOfInjective front named same)
      rw [List.length_dropLast] at sizes
      omega
    have root : pathOf along.dropLast ≠ "/" := fun is =>
      some (pathOfInjective front (fun _ mem => absurd mem List.not_mem_nil) (is.trans (by decide : "/" = pathOf [])))
    have blank : pathOf along.dropLast ≠ "" := pathNonempty along.dropLast
    have drive : isDrive (pathOf along.dropLast) = false := slashNoDrive (by rw [pathOfList]; exact shownStart _)
    rw [normal]
    simp [blank, other, root, drive]

theorem nearestAlong {walks : Nat} {along : List (List Char)} {c : String} (named : ∀ part ∈ along, Name part) (some : along ≠ [])
    (bare : '\\' ∉ shown along) (found : nearest disk walks (pathOf along) = Option.some c) :
    ∃ first more, along = first ++ more ∧ first ≠ [] ∧ c = pathOf first ∧ markerAt disk c ≠ .absent := by
  induction walks generalizing along with
  | zero => cases found
  | succ walks ih =>
    rw [nearest] at found
    split at found
    · rw [parentShown named bare] at found
      split at found
      · cases found
      · rename_i long
        have split : along.dropLast ++ [along.getLast some] = along := List.dropLast_append_getLast some
        have more : along.dropLast ≠ [] := by
          intro none
          have sizes := congrArg List.length none
          rw [List.length_dropLast, List.length_nil] at sizes
          omega
        obtain ⟨first, rest, is, one, here, marked⟩ := ih (fun part mem => named part (List.dropLast_subset _ mem)) more
          (shownBare (split ▸ bare)) found
        exact ⟨first, rest ++ [along.getLast some], by rw [← List.append_assoc, ← is, split], one, here, marked⟩
    · rename_i marked
      obtain rfl := Option.some.inj found
      exact ⟨along, [], (List.append_nil _).symm, some, rfl, marked⟩

theorem nearestSelf {walks : Nat} {c : String} (marked : markerAt disk c ≠ .absent) : nearest disk (walks + 1) c = some c := if_neg marked

theorem realAgain (canonical : Canonical disk) {path real : String} (found : disk.realpathSync path = some real) :
    disk.realpathSync real = some real := by
  obtain ⟨along, named, rfl⟩ := canonical.shape found
  exact canonical.within path along [] (by simpa using named) (by rwa [List.append_nil])

theorem preferredFound {path root : String} {roots : List String} (found : resolvePreferredWorkspaceRoot path roots = some root) :
    root ≠ "" ∧ (normalizePathLike path = root ∨ startsWith (normalizePathLike path) (root ++ "/")) := by
  induction roots with
  | nil => cases found
  | cons first others ih =>
    rw [resolvePreferredWorkspaceRoot] at found
    split at found
    · rename_i fits
      obtain rfl := Option.some.inj found
      exact fits.2
    · exact ih found

theorem startsTrans {path root other : String} (inside : path = root ∨ startsWith path (root ++ "/"))
    (above : root = other ∨ startsWith root (other ++ "/")) : path = other ∨ startsWith path (other ++ "/") := by
  rcases inside with rfl | inside
  · exact above
  · rcases above with rfl | above
    · exact .inr inside
    · refine .inr ?_
      simp only [startsWith, List.isPrefixOf_iff_prefix, String.toList_append] at inside above ⊢
      exact above.trans ((List.prefix_append _ _).trans inside)

-- The first root above a path is the first one above itself.
theorem preferredAgain {path root : String} {roots : List String} (found : resolvePreferredWorkspaceRoot path roots = some root)
    (normal : normalizePathLike root = root) : resolvePreferredWorkspaceRoot root roots = some root := by
  have inside := (preferredFound found).2
  induction roots with
  | nil => cases found
  | cons first others ih =>
    rw [resolvePreferredWorkspaceRoot] at found ⊢
    split at found
    · rename_i fits
      obtain rfl := Option.some.inj found
      rw [normal]
      exact if_pos ⟨fits.1, fits.2.1, .inl rfl⟩
    · rename_i misses
      rw [normal, if_neg (fun fits => misses ⟨fits.1, fits.2.1, startsTrans inside fits.2.2⟩)]
      exact ih found

-- A preferred root above a real path is a real path.
theorem preferredReal (canonical : Canonical disk) {path real root : String} {roots : List String}
    (found : disk.realpathSync path = some real) (normal : normalizePathLike real = real)
    (above : resolvePreferredWorkspaceRoot real roots = some root) :
    disk.realpathSync root = some root ∧ normalizePathLike root = root := by
  obtain ⟨some, inside⟩ := preferredFound above
  rw [normal] at inside
  rcases inside with rfl | inside
  · exact ⟨realAgain canonical found, normal⟩
  · obtain ⟨along, named, rfl⟩ := canonical.shape found
    simp only [startsWith, List.isPrefixOf_iff_prefix, String.toList_append, pathOfList] at inside
    obtain ⟨after, split⟩ := inside
    rw [List.append_assoc] at split
    have nonempty : root.toList ≠ [] := fun none => some (String.toList_inj.mp (none.trans rfl))
    obtain ⟨first, others, is, one, text⟩ := shownBefore named nonempty split.symm
    have shownRoot : root = pathOf first := by rw [pathOf, ← text, String.ofList_toList]
    subst is
    have bare := (normalBare normal).1
    rw [pathOfList] at bare
    rw [shownRoot]
    exact ⟨canonical.within path first others named found, normalShown (fun part mem => named part (List.mem_append_left _ mem)) one (shownBare bare)⟩

end

section
variable (disk : Disk) (roots : List String)

-- A real directory that is its own workspace.
def Own (path : String) : Prop :=
  nearest disk maxWalks path = some path ∧ markerAt disk path = .here ∨
    nearest disk maxWalks path = none ∧ ∀ root, resolvePreferredWorkspaceRoot path roots = some root → root = path

-- The main repository a worktree points to.
structure Main (main : String) : Prop where
  resolved : ∀ real, disk.realpathSync main = some real → Tidy real ∧ Own disk roots real
  unresolved : disk.realpathSync main = none → Tidy main

structure Marked (cursor : String) : Prop where
  here : markerAt disk cursor = .here → trim cursor = cursor
  worktree : ∀ main, markerAt disk cursor = .worktree main → Main disk roots main

-- A real path without a backslash, whose workspace is written without white space around it and, where
-- a worktree's pointer names it, is its own.
structure Steady (real : String) : Prop where
  normal : normalizePathLike real = real
  marked : ∀ cursor, nearest disk maxWalks real = some cursor → Marked disk roots cursor
  rooted : nearest disk maxWalks real = none → ∀ root, resolvePreferredWorkspaceRoot real roots = some root →
    (∀ cursor, nearest disk maxWalks root = some cursor → Marked disk roots cursor) ∧ (nearest disk maxWalks root = none → trim root = root)
  alone : nearest disk maxWalks real = none → resolvePreferredWorkspaceRoot real roots = none → trim real = real

def Stable (lower : String → String) (path : String) : Prop := Tidy path ∧ settled disk lower roots path = path

variable {disk roots}

theorem directShown {along : List (List Char)} (normal : normalizePathLike (pathOf along) = pathOf along) :
    resolveDirectGitWorkspaceRoot disk (pathOf along) = (nearest disk maxWalks (pathOf along)).map (rootOf disk) := by
  have start : startsWith (pathOf along) "/" = true := by
    have head := shownStart along
    rw [startsWith, List.isPrefixOf_iff_prefix, pathOfList]
    cases is : shown along with
    | nil => rw [is] at head; cases head
    | cons c rest =>
      rw [is] at head
      obtain rfl := Option.some.inj head
      exact ⟨rest, rfl⟩
  rw [resolveDirectGitWorkspaceRoot, normal]
  simp only [start, if_true, walkNearest]

theorem realDirect (canonical : Canonical disk) {path real : String} (found : disk.realpathSync path = some real)
    (normal : normalizePathLike real = real) :
    resolveDirectGitWorkspaceRoot disk real = (nearest disk maxWalks real).map (rootOf disk) := by
  obtain ⟨along, -, rfl⟩ := canonical.shape found
  exact directShown normal

theorem rootHere {path : String} (found : disk.realpathSync path = some path) (normal : normalizePathLike path = path)
    (here : markerAt disk path = .here) : rootOf disk path = path := by
  rw [rootOf, here]
  simp only [realpathOrNormalized, found, normal]

theorem truthySome {text : String} (nonempty : text ≠ "") : truthy (some text) = some text := by
  simp [truthy, nonempty]

@[simp] theorem truthyNone : truthy none = none := rfl

theorem ownStable (canonical : Canonical disk) (lower : String → String) {path : String} (found : disk.realpathSync path = some path)
    (tidy : Tidy path) (own : Own disk roots path) : Stable disk roots lower path := by
  have direct := realDirect canonical found tidy.normal
  refine ⟨tidy, ?_⟩
  rw [settled, found]
  simp only [tidy.normal]
  unfold workspaceOf resolveWorkspaceRoot
  rw [direct]
  rcases own with ⟨self, here⟩ | ⟨none, self⟩
  · rw [self, Option.map_some, rootHere found tidy.normal here, truthySome tidy.some]
    simp [tidy.normal, truthySome tidy.some]
  · rw [none]
    cases above : resolvePreferredWorkspaceRoot path roots with
    | none => simp
    | some root =>
      obtain rfl := self root above
      simp [direct, none, tidy.normal, truthySome tidy.some]

theorem includesStart {path : String} (start : path.toList.head? = some '/') : includesSlash path = true :=
  List.contains_iff_mem.mpr (List.mem_of_mem_head? start)

theorem beforePrefix {token text found : List Char} (is : before token text = some found) : found <+: text := by
  induction text generalizing found with
  | nil =>
    unfold before at is
    split at is
    · obtain rfl := Option.some.inj is
      exact List.nil_prefix
    · cases is
  | cons c rest ih =>
    unfold before at is
    split at is
    · obtain rfl := Option.some.inj is
      exact List.nil_prefix
    · obtain ⟨more, later, rfl⟩ := Option.map_eq_some_iff.mp is
      exact List.cons_prefix_cons.mpr ⟨rfl, ih later⟩

-- A pointer names an absolute path.
theorem worktreeAbsolute {cursor main : String} (marked : markerAt disk cursor = .worktree main) : main.toList.head? = some '/' := by
  have pointed : ∃ target, worktreeMarker cursor target = .worktree main := by
    unfold markerAt at marked
    dsimp only at marked
    split at marked
    · split at marked
      · split at marked <;> cases marked
      · split at marked
        · split at marked
          · exact ⟨_, marked⟩
          · cases marked
        · cases marked
      · cases marked
      · cases marked
    · cases marked
  obtain ⟨target, is⟩ := pointed
  unfold worktreeMarker at is
  split at is
  · rename_i c text found
    obtain rfl := Marker.worktree.inj is
    have absolute : ∃ along, resolve cursor (trim target) = pathOf along := by
      unfold resolve
      split
      · exact ⟨_, rfl⟩
      · exact ⟨_, rfl⟩
    obtain ⟨along, whole⟩ := absolute
    rw [whole, normalList, pathOfList] at found
    obtain ⟨more, split⟩ := beforePrefix found
    obtain ⟨tail, stripped⟩ := stripPrefix (shown along)
    have head := shownStart along
    rw [← stripped] at head
    cases front : stripSlashes (shown along) with
    | nil =>
      rw [front] at split
      cases split
    | cons d rest =>
      rw [front] at split head
      obtain rfl := Option.some.inj head
      rw [String.toList_ofList]
      exact congrArg some (List.cons.inj split).1
  · cases is

-- The workspace found upwards from a real directory stays what it is.
theorem markedStable (canonical : Canonical disk) (lower : String → String) {path real cursor : String}
    (found : disk.realpathSync path = some real) (normal : normalizePathLike real = real)
    (near : nearest disk maxWalks real = some cursor) (marked : Marked disk roots cursor) :
    Stable disk roots lower (rootOf disk cursor) := by
  obtain ⟨along, named, rfl⟩ := canonical.shape found
  have bare := (normalBare normal).1
  rw [pathOfList] at bare
  have some : along ≠ [] := by
    rintro rfl
    exact absurd normal (by decide)
  obtain ⟨first, more, rfl, one, rfl, markedHere⟩ := nearestAlong named some bare near
  have real := canonical.within path first more named found
  have normal := normalShown (fun part mem => named part (List.mem_append_left _ mem)) one (shownBare bare)
  cases marker : markerAt disk (pathOf first) with
  | absent => exact absurd marker markedHere
  | here =>
    rw [rootHere real normal marker]
    exact ownStable canonical lower real ⟨marked.here marker, normal, pathNonempty first⟩ (.inl ⟨nearestSelf markedHere, marker⟩)
  | worktree main =>
    have kept := marked.worktree main marker
    rw [rootOf, marker]
    simp only [realpathOrNormalized]
    cases resolved : disk.realpathSync main with
    | some q =>
      obtain ⟨tidy, own⟩ := kept.resolved q resolved
      simp only [tidy.normal]
      exact ownStable canonical lower (realAgain canonical resolved) tidy own
    | none =>
      have tidy := kept.unresolved resolved
      simp only [tidy.normal]
      refine ⟨tidy, ?_⟩
      rw [settled, resolved]
      exact if_pos (includesStart (worktreeAbsolute marker))

theorem workspaceStable (canonical : Canonical disk) (lower : String → String) {path real : String}
    (found : disk.realpathSync path = some real) (steady : Steady disk roots real) :
    Stable disk roots lower (workspaceOf disk roots (normalizePathLike real)) := by
  have again := realAgain canonical found
  rw [steady.normal]
  have direct := realDirect canonical found steady.normal
  cases near : nearest disk maxWalks real with
  | some cursor =>
    have stable := markedStable canonical lower found steady.normal near (steady.marked cursor near)
    unfold workspaceOf resolveWorkspaceRoot
    rw [direct, near, Option.map_some, truthySome stable.1.some]
    simp only [stable.1.normal, truthySome stable.1.some, Option.getD_some]
    exact stable
  | none =>
    cases above : resolvePreferredWorkspaceRoot real roots with
    | none =>
      have is : workspaceOf disk roots real = real := by
        unfold workspaceOf resolveWorkspaceRoot
        simp [direct, near, above]
      have nonempty : real ≠ "" := by
        obtain ⟨along, -, rfl⟩ := canonical.shape found
        exact pathNonempty along
      rw [is]
      exact ownStable canonical lower again ⟨steady.alone near above, steady.normal, nonempty⟩
        (.inr ⟨near, fun root some => by rw [above] at some; cases some⟩)
    | some root =>
      obtain ⟨own, normal⟩ := preferredReal canonical found steady.normal above
      obtain ⟨marked, trimmed⟩ := steady.rooted near root above
      have directRoot := realDirect canonical own normal
      have is : resolveWorkspaceRoot disk roots real =
          some (normalizePathLike ((truthy (resolveDirectGitWorkspaceRoot disk root)).getD root)) := by
        simp [resolveWorkspaceRoot, direct, near, above]
      rw [workspaceOf, is, directRoot]
      cases nearRoot : nearest disk maxWalks root with
      | some cursor =>
        have stable := markedStable canonical lower own normal nearRoot (marked cursor nearRoot)
        rw [Option.map_some, truthySome stable.1.some, Option.getD_some, stable.1.normal, truthySome stable.1.some]
        exact stable
      | none =>
        have some := (preferredFound above).1
        rw [Option.map_none, truthyNone, Option.getD_none, normal, truthySome some, Option.getD_some]
        refine ownStable canonical lower own ⟨trimmed nearRoot, normal, some⟩ (.inr ⟨nearRoot, fun other found => ?_⟩)
        rw [preferredAgain above normal] at found
        exact (Option.some.inj found).symm

variable (disk roots) in
-- A name whose text is kept: no real path answers to it, nor does a known root.
def Loose (lower : String → String) (path : String) : Prop :=
  disk.realpathSync path = none ∧ (includesSlash path = false → rootNamed lower (lower path) roots = none)

variable (disk roots) in
-- What a name has to meet for its normal form to be a form of itself.
structure Lasting (lower : String → String) (name : String) : Prop where
  real : ∀ real, disk.realpathSync (normalizePathLike (trim name)) = some real → Steady disk roots real
  loose : Loose disk roots lower (normalizePathLike (trim name)) → Tidy (normalizePathLike (trim name))
  rooted : disk.realpathSync (normalizePathLike (trim name)) = none → includesSlash (normalizePathLike (trim name)) = false →
    ∀ root, rootNamed lower (lower (normalizePathLike (trim name))) roots = some root →
      (∀ real, disk.realpathSync root = some real → Steady disk roots real) ∧ (disk.realpathSync root = none → Tidy root)

theorem rootNamedIs {lower : String → String} {target root : String} {roots : List String} (named : rootNamed lower target roots = some root) :
    lower (basename root) = target := by
  induction roots with
  | nil => cases named
  | cons first others ih =>
    rw [rootNamed] at named
    split at named
    · rename_i fits
      obtain rfl := Option.some.inj named
      exact fits.2
    · exact ih named

theorem settledStable (canonical : Canonical disk) {lower : String → String} {name : String} (lasting : Lasting disk roots lower name) :
    Stable disk roots lower (settled disk lower roots (normalizePathLike (trim name))) := by
  obtain ⟨real, loose, rooted⟩ := lasting
  generalize normalizePathLike (trim name) = path at real loose rooted
  rw [settled]
  cases found : disk.realpathSync path with
  | some own => exact workspaceStable canonical lower found (real own found)
  | none =>
    cases slash : includesSlash path with
    | true =>
      have tidy := loose ⟨found, fun none => by rw [slash] at none; cases none⟩
      simp only [if_true]
      refine ⟨tidy, ?_⟩
      rw [settled, found]
      exact if_pos slash
    | false =>
      cases named : rootNamed lower (lower path) roots with
      | none =>
        have tidy := loose ⟨found, fun _ => named⟩
        simp only [if_neg Bool.false_ne_true]
        refine ⟨tidy, ?_⟩
        rw [settled, found]
        simp [slash, named]
      | some root =>
        obtain ⟨steady, tidy⟩ := rooted found slash root named
        simp only [if_neg Bool.false_ne_true]
        cases resolved : disk.realpathSync root with
        | some own => exact workspaceStable canonical lower resolved (steady own resolved)
        | none =>
          have tidy := tidy resolved
          refine ⟨tidy, ?_⟩
          rw [settled, resolved]
          cases flat : includesSlash root with
          | true => exact if_pos rfl
          | false =>
            have free : '/' ∉ root.toList := fun mem => by rw [includesSlash, List.contains_iff_mem.mpr mem] at flat; cases flat
            have same := rootNamedIs named
            rw [basenameFlat free tidy.some] at same
            simp only [if_neg Bool.false_ne_true, same, named, resolved]

theorem tidyIff (path : String) : Tidy path ↔ trim path ≠ "" ∧ normalizePathLike (trim path) = path := by
  constructor
  · rintro ⟨trimmed, normal, some⟩
    rw [trimmed]
    exact ⟨some, normal⟩
  · rintro ⟨some, same⟩
    have shorter := (stripPrefix (trim path).toList).length_le
    have lengths := congrArg (fun text : String => text.toList.length) same
    simp only [normalList, List.length_map] at lengths
    have whole := (trimInside path).sublist.eq_of_length_le (Nat.le_trans (Nat.le_of_eq lengths.symm) shorter)
    have trimmed : trim path = path := String.toList_inj.mp whole
    rw [trimmed] at same some
    exact ⟨trimmed, same, some⟩

theorem stableAgain {lower : String → String} {path : String} (stable : Stable disk roots lower path) :
    normalizeProjectName disk lower roots path = .ok path := by
  obtain ⟨tidy, settles⟩ := stable
  unfold normalizeProjectName
  simp only [tidy.trimmed, if_neg tidy.some, tidy.normal, settles]

theorem looseSettled {lower : String → String} {path : String} (loose : Loose disk roots lower path) : settled disk lower roots path = path := by
  obtain ⟨unreal, unnamed⟩ := loose
  rw [settled, unreal]
  cases slash : includesSlash path with
  | true => exact if_pos rfl
  | false => simp [unnamed slash]

variable (disk roots) in
def Idempotent (lower : String → String) (name : String) : Prop :=
  ∀ found, normalizeProjectName disk lower roots name = .ok found → normalizeProjectName disk lower roots found = .ok found

theorem normalizedOnce (canonical : Canonical disk) (lower : String → String) (name : String) :
    (normalizePathLike (normalizePathLike name) = normalizePathLike name ↔ (name.toList.filter (fun c => c ≠ '/')).getLast? ≠ some '\\') ∧
      (Lasting disk roots lower name → Idempotent disk roots lower name) ∧
      (trim name ≠ "" → Loose disk roots lower (normalizePathLike (trim name)) →
        Loose disk roots lower (normalizePathLike (trim (normalizePathLike (trim name)))) →
        (Idempotent disk roots lower name ↔ Tidy (normalizePathLike (trim name)))) := by
  refine ⟨normalTwice name, fun lasting found is => ?_, fun accepted loose again => ?_⟩
  · unfold normalizeProjectName at is
    dsimp only at is
    split at is
    · cases is
    · obtain rfl := Except.ok.inj is
      exact stableAgain (settledStable canonical lasting)
  · have once : normalizeProjectName disk lower roots name = .ok (normalizePathLike (trim name)) := by
      unfold normalizeProjectName
      simp only [if_neg accepted, looseSettled loose]
    unfold Idempotent
    simp only [once, Except.ok.injEq, forall_eq']
    generalize normalizePathLike (trim name) = path at again
    rw [tidyIff]
    unfold normalizeProjectName
    dsimp only
    rw [looseSettled again]
    split
    · rename_i blank
      simp [blank]
    · rename_i some
      simp [some]

end

-- One repository, and a directory in it.
def repositoryAlong : List (List Char) := ["w".toList, "repo".toList, "src".toList]
def repositoryDisk : Disk where
  realpathSync := fun path => if ((List.range 4).map (fun k => pathOf (repositoryAlong.take k))).contains path then some path else none
  existsSync := fun path => path = "/w/repo/.git" || path = "/w/repo/.git/HEAD"
  statSync := fun path => if path = "/w/repo/.git" then some .directory else none
  readFileSync := fun _ => none

theorem repositoryNamed : ∀ part ∈ repositoryAlong, Name part := by
  intro part mem
  simp only [repositoryAlong, List.mem_cons, List.not_mem_nil, or_false] at mem
  rcases mem with rfl | rfl | rfl <;> exact ⟨by decide, by decide, by decide, by decide⟩

theorem repositoryReal {path real : String} : repositoryDisk.realpathSync path = some real ↔
    real = path ∧ ∃ k < 4, path = pathOf (repositoryAlong.take k) := by
  unfold repositoryDisk
  dsimp only
  constructor
  · intro found
    split at found
    · rename_i held
      obtain ⟨k, small, is⟩ := List.mem_map.mp (List.contains_iff_mem.mp held)
      exact ⟨(Option.some.inj found).symm, k, List.mem_range.mp small, is.symm⟩
    · cases found
  · rintro ⟨rfl, k, small, is⟩
    exact if_pos (List.contains_iff_mem.mpr (List.mem_map.mpr ⟨k, List.mem_range.mpr small, is.symm⟩))

theorem repositoryCanonical : Canonical repositoryDisk where
  shape := by
    intro path real found
    obtain ⟨rfl, k, -, is⟩ := repositoryReal.mp found
    exact ⟨repositoryAlong.take k, fun part mem => repositoryNamed part (List.mem_of_mem_take mem), is⟩
  within := by
    intro path along more named found
    obtain ⟨rfl, k, small, is⟩ := repositoryReal.mp found
    have whole := pathOfInjective named (fun part mem => repositoryNamed part (List.mem_of_mem_take mem)) is
    have front : along = repositoryAlong.take (min along.length k) := by
      rw [← List.take_take, ← whole, List.take_left]
    exact repositoryReal.mpr ⟨rfl, min along.length k, by omega, congrArg pathOf front⟩

theorem repositoryLasting : Lasting repositoryDisk [] String.toLower "/w/repo/src/" := by
  have form : normalizePathLike (trim "/w/repo/src/") = "/w/repo/src" := by decide
  have real : repositoryDisk.realpathSync "/w/repo/src" = some "/w/repo/src" := by decide
  have near : nearest repositoryDisk maxWalks "/w/repo/src" = some "/w/repo" := by decide
  have marked : markerAt repositoryDisk "/w/repo" = .here := by decide
  have there : ∀ {P : Prop}, nearest repositoryDisk maxWalks "/w/repo/src" = none → P := fun none => by rw [near] at none; cases none
  have absent : ∀ {P : Prop}, repositoryDisk.realpathSync "/w/repo/src" = none → P := fun none => by rw [real] at none; cases none
  constructor
  · rw [form]
    intro path found
    obtain rfl := Option.some.inj (real.symm.trans found)
    refine ⟨by decide, fun cursor is => ?_, there, there⟩
    obtain rfl := Option.some.inj (near.symm.trans is)
    exact ⟨fun _ => by decide, fun main is => by rw [marked] at is; cases is⟩
  · rw [form]
    exact fun loose => absent loose.1
  · rw [form]
    exact absent

theorem normalizedOnceInside : normalizeProjectName repositoryDisk String.toLower [] "/w/repo/src/" = .ok "/w/repo" ∧
    normalizeProjectName repositoryDisk String.toLower [] "/w/repo" = .ok "/w/repo" :=
  have inside : normalizeProjectName repositoryDisk String.toLower [] "/w/repo/src/" = .ok "/w/repo" := by decide
  ⟨inside, (normalizedOnce repositoryCanonical String.toLower "/w/repo/src/").2.1 repositoryLasting "/w/repo" inside⟩

-- A disk on which nothing exists.
def bareDisk : Disk := ⟨fun _ => none, fun _ => false, fun _ => none, fun _ => none⟩

theorem normalizedTwice : normalizeProjectName bareDisk id [] "C:\\work\\" = .ok "C:/work/" ∧
    normalizeProjectName bareDisk id [] "C:/work/" = .ok "C:/work" ∧
    normalizePathLike (normalizePathLike "C:\\work\\") ≠ normalizePathLike "C:\\work\\" := by
  refine ⟨by decide, by decide, by decide⟩

end HarnessMem.ProjectNames
