import HarnessMem.Lib.LineStream

/-! POSIX paths as texts: the names along a path, and what `resolve`, `join` and `basename` make of them.
An absolute path in its shortest form is the names it passes through, each after a slash. -/
namespace HarnessMem.PosixPath
open LineStream

def parts (path : List Char) : List (List Char) := lines '/' path ++ [rest '/' path]

-- An empty part and `.` stay where they are, `..` goes up.
def enter (along : List (List Char)) (part : List Char) : List (List Char) :=
  if part = [] ∨ part = ['.'] then along
  else if part = ['.', '.'] then along.dropLast
  else along ++ [part]
def names (path : List Char) : List (List Char) := (parts path).foldl enter []
def shown (along : List (List Char)) : List Char := if along = [] then ['/'] else along.flatMap (fun name => '/' :: name)

def pathOf (along : List (List Char)) : String := String.ofList (shown along)

-- From an absolute base, as `path.join` with an absolute first part.
def join (base path : String) : String := pathOf (names (base.toList ++ '/' :: path.toList))
def resolve (base path : String) : String :=
  if path.toList.head? = some '/' then pathOf (names path.toList) else join base path
def basename (path : String) : String := String.ofList (((parts path.toList).filter (fun part => part ≠ [])).getLast?.getD [])

structure Name (part : List Char) : Prop where
  some : part ≠ []
  here : part ≠ ['.']
  up : part ≠ ['.', '.']
  free : '/' ∉ part

theorem enterName {along : List (List Char)} {part : List Char} (name : Name part) : enter along part = along ++ [part] := by
  unfold enter
  rw [if_neg (by simp [name.some, name.here]), if_neg name.up]

theorem partsSlash {name : List Char} (free : '/' ∉ name) (more : List Char) : parts (name ++ '/' :: more) = name :: parts more := by
  unfold parts lines rest
  rw [cutLine '/' free]
  rfl

theorem partsFlat (along : List (List Char)) (free : ∀ part ∈ along, '/' ∉ part) (first : List Char) (start : '/' ∉ first) :
    parts (first ++ along.flatMap (fun name => '/' :: name)) = first :: along := by
  induction along generalizing first with
  | nil =>
    unfold parts lines rest
    rw [List.flatMap_nil, List.append_nil, cutFree '/' start]
    rfl
  | cons name others ih =>
    rw [List.flatMap_cons, List.cons_append, partsSlash start,
      ih (fun part mem => free part (List.mem_cons_of_mem _ mem)) name (free name List.mem_cons_self)]

theorem foldNames {more along : List (List Char)} (named : ∀ part ∈ more, Name part) : more.foldl enter along = along ++ more := by
  induction more generalizing along with
  | nil => exact (List.append_nil along).symm
  | cons first others ih =>
    rw [List.foldl_cons, enterName (named first List.mem_cons_self), ih (fun part mem => named part (List.mem_cons_of_mem _ mem)),
      List.append_assoc]
    rfl

theorem namesShown {along : List (List Char)} (named : ∀ part ∈ along, Name part) : names (shown along) = along := by
  unfold shown
  split
  · rename_i none
    rw [none]
    rfl
  · have whole := partsFlat along (fun part mem => (named part mem).free) [] List.not_mem_nil
    rw [List.nil_append] at whole
    rw [names, whole, List.foldl_cons, show enter [] [] = [] from rfl, foldNames named]
    rfl

theorem partsJoin (before after : List Char) : parts (before ++ '/' :: after) = parts before ++ parts after := by
  have whole := cutGlue '/' (linesFree '/' before).1 (rest '/' before ++ '/' :: after)
  rw [← List.append_assoc, glueCut] at whole
  have last := partsSlash (linesFree '/' before).2 after
  unfold parts lines rest at last ⊢
  rw [whole]
  simp only [lines, rest] at last ⊢
  rw [List.append_assoc, last, List.append_assoc]
  rfl

theorem namesJoin (before after : List Char) : names (before ++ '/' :: after) = (parts after).foldl enter (names before) := by
  rw [names, partsJoin, List.foldl_append]
  rfl

@[simp] theorem pathOfList (along : List (List Char)) : (pathOf along).toList = shown along := String.toList_ofList

theorem resolveUp {along : List (List Char)} (named : ∀ part ∈ along, Name part) :
    resolve (pathOf along) ".." = pathOf along.dropLast := by
  have up : names (shown along ++ '/' :: "..".toList) = along.dropLast := by
    rw [namesJoin, namesShown named]
    rfl
  rw [resolve, if_neg (by simp), join, pathOfList, up]

theorem pathOfInjective {along others : List (List Char)} (named : ∀ part ∈ along, Name part) (named' : ∀ part ∈ others, Name part)
    (same : pathOf along = pathOf others) : along = others := by
  have texts := String.ofList_injective same
  rw [← namesShown named, texts, namesShown named']

-- A path is its first part and the others, each after a slash.
theorem partsBack (path : List Char) : ∃ first others, parts path = first :: others ∧ path = first ++ others.flatMap (fun name => '/' :: name) := by
  have glued : ∀ (before : List (List Char)) (last : List Char),
      '/' :: (glue '/' before ++ last) = (before ++ [last]).flatMap (fun name => '/' :: name) := by
    intro before last
    induction before with
    | nil => simp
    | cons first others ih =>
      rw [glueCons, List.append_assoc, List.cons_append, ih, List.cons_append, List.flatMap_cons]
      rfl
  have whole := glueCut '/' path
  unfold parts
  cases found : lines '/' path with
  | nil =>
    rw [found] at whole
    exact ⟨rest '/' path, [], rfl, by rw [List.flatMap_nil, List.append_nil]; exact whole.symm⟩
  | cons first others =>
    rw [found, glueCons, List.append_assoc, List.cons_append, glued] at whole
    exact ⟨first, others ++ [rest '/' path], rfl, whole.symm⟩

-- What stands before a slash of a shown path is shown too.
theorem shownBefore {along : List (List Char)} (named : ∀ part ∈ along, Name part) {before after : List Char} (some : before ≠ [])
    (split : shown along = before ++ '/' :: after) : ∃ first others, along = first ++ others ∧ first ≠ [] ∧ before = shown first := by
  by_cases none : along = []
  · rw [none] at split
    have short := congrArg List.length split
    have long := List.length_pos_iff.mpr some
    rw [List.length_append, List.length_cons] at short
    simp [shown] at short
    omega
  · have all : parts (shown along) = [] :: along := by
      have whole := partsFlat along (fun part mem => (named part mem).free) [] List.not_mem_nil
      rwa [List.nil_append, ← show shown along = _ from if_neg none] at whole
    rw [split, partsJoin] at all
    obtain ⟨first, others, parted, is⟩ := partsBack before
    rw [parted, List.cons_append] at all
    obtain ⟨rfl, rest⟩ := List.cons.inj all
    rw [List.nil_append] at is
    have more : others ≠ [] := fun empty => some (by rw [is, empty]; rfl)
    exact ⟨others, _, rest.symm, more, by rw [shown, if_neg more, ← is]⟩

theorem basenameFlat {path : String} (flat : '/' ∉ path.toList) (some : path ≠ "") : basename path = path := by
  have nonempty : path.toList ≠ [] := fun none => some (String.toList_inj.mp (none.trans rfl))
  have one : parts path.toList = [path.toList] := by
    unfold parts lines rest
    rw [cutFree '/' flat]
    rfl
  rw [basename, one, List.filter_cons_of_pos (by simpa using nonempty)]
  exact String.ofList_toList

theorem shownStart (along : List (List Char)) : (shown along).head? = some '/' := by
  unfold shown
  split
  · rfl
  · rename_i some
    obtain ⟨first, others, rfl⟩ := List.exists_cons_of_ne_nil some
    rfl

theorem shownLast {along : List (List Char)} (named : ∀ part ∈ along, Name part) (some : along ≠ []) : (shown along).getLast? ≠ Option.some '/' := by
  have is : along.dropLast ++ [along.getLast some] = along := List.dropLast_append_getLast some
  have last := named _ (List.getLast_mem some)
  rw [shown, if_neg some]
  generalize along.getLast some = name at is last
  rw [← is, List.flatMap_append, List.flatMap_singleton]
  rcases List.eq_nil_or_concat name with none | ⟨front, c, rfl⟩
  · exact absurd none last.some
  · rw [List.concat_eq_append, ← List.cons_append, ← List.append_assoc, List.getLast?_concat]
    rintro ⟨⟩
    exact last.free (by simp)

end HarnessMem.PosixPath
