import HarnessMem.Lib.Tables
import Mathlib.Data.List.Induction
import Mathlib.Logic.Relation

/-! Names that stand for other names: a chain of aliases followed to its end or, where it runs into a circle, to the
first name it meets again; and rows renamed one alias after another. -/
namespace HarnessMem.AliasChains

section
variable {Name : Type*} (next : Name → Option Name)

-- `target` comes after the names seen, the last one first.
def Leads : Name → List Name → Prop
  | _, [] => True
  | target, last :: seen => next last = some target ∧ Leads last seen

def StandsFor : Name → Name → Prop := Relation.ReflTransGen (fun a b => next a = some b)

-- Every name that has an alias is one of so many.
def Within (names : List Name) : Prop := ∀ name, (next name).isSome = true → name ∈ names

variable {next}

theorem leadsHas {target : Name} {seen : List Name} (leads : Leads next target seen) : ∀ name ∈ seen, (next name).isSome = true := by
  induction seen generalizing target with
  | nil => simp
  | cons last seen ih =>
    intro name mem
    rcases List.mem_cons.mp mem with rfl | before
    · rw [leads.1]
      rfl
    · exact ih leads.2 name before

theorem leadsOne {a b last : Name} {seen : List Name} (one : Leads next a (last :: seen)) (other : Leads next b (last :: seen)) : a = b :=
  Option.some.inj (one.1.symm.trans other.1)

theorem leadsAppend {target middle : Name} {recent seen : List Name} :
    Leads next target (recent ++ middle :: seen) ↔ Leads next target (recent ++ [middle]) ∧ Leads next middle seen := by
  induction recent generalizing target with
  | nil => simp [Leads]
  | cons last recent ih => rw [List.cons_append, List.cons_append, Leads, Leads, ih, and_assoc]

theorem leadsStands {target source : Name} {recent : List Name} (leads : Leads next target (recent ++ [source])) :
    StandsFor next source target := by
  induction recent generalizing target with
  | nil => exact .single leads.1
  | cons last recent ih => exact (ih leads.2).tail leads.1

-- The names seen are some of those that have an alias.
theorem fewSeen {names : List Name} (within : Within next names) {target : Name} {seen : List Name} (leads : Leads next target seen)
    (distinct : seen.Nodup) : seen.length ≤ names.length :=
  (List.subperm_of_subset distinct fun name mem => within name (leadsHas leads name mem)).length_le

variable (next) [DecidableEq Name]

-- Follow the aliases until one has none, or was seen on the way.
def walk : Nat → List Name → Name → Name
  | 0, _, target => target
  | steps + 1, seen, target =>
    match next target with
    | none => target
    | some further => if target ∈ seen then target else walk steps (target :: seen) further

def resolve (steps : Nat) (source : Name) : Name := walk next steps [source] ((next source).getD source)

variable {next}

theorem walkEnds {names : List Name} (within : Within next names) {steps : Nat} {seen : List Name} {target : Name}
    (enough : names.length < seen.length + steps) (leads : Leads next target seen) (distinct : seen.Nodup) :
    ∃ recent, Leads next (walk next steps seen target) (recent ++ seen) ∧ (recent ++ seen).Nodup ∧
      (next (walk next steps seen target) = none ∨ walk next steps seen target ∈ recent ++ seen) := by
  induction steps generalizing seen target with
  | zero =>
    have few := fewSeen within leads distinct
    omega
  | succ steps ih =>
    rw [walk]
    cases further : next target with
    | none => exact ⟨[], leads, distinct, .inl further⟩
    | some later =>
      by_cases met : target ∈ seen
      · simp only [if_pos met]
        exact ⟨[], leads, distinct, .inr met⟩
      · simp only [if_neg met]
        obtain ⟨recent, reaches, apart, ends⟩ := ih (by rw [List.length_cons]; omega) (show Leads next later (target :: seen) from ⟨further, leads⟩)
          (List.nodup_cons.mpr ⟨met, distinct⟩)
        exact ⟨recent ++ [target], by simpa using reaches, by simpa using apart, by simpa using ends⟩

-- A walk along a way that is known, round to a name it has been through.
theorem walkRound {steps : Nat} {recent seen : List Name} {target goal : Name} (goes : Leads next goal (recent ++ seen))
    (distinct : (recent ++ seen).Nodup) (met : goal ∈ seen) (leads : Leads next target seen) (enough : recent.length ≤ steps) :
    walk next steps seen target = goal := by
  induction recent using List.reverseRecOn generalizing steps seen target with
  | nil =>
    cases seen with
    | nil => cases met
    | cons last seen =>
      obtain rfl := leadsOne goes leads
      cases steps with
      | zero => rfl
      | succ steps =>
        rw [walk]
        split
        · rfl
        · exact if_pos met
  | append_singleton recent here ih =>
    rw [List.append_assoc, List.singleton_append] at goes distinct
    rw [List.length_append, List.length_singleton] at enough
    have there : target = here := by
      cases seen with
      | nil => cases met
      | cons last seen => exact leadsOne leads (leadsAppend.mp goes).2
    obtain ⟨steps, rfl⟩ : ∃ fewer, steps = fewer + 1 := ⟨steps - 1, by omega⟩
    have fresh : target ∉ seen := there ▸ (List.nodup_cons.mp (List.nodup_append.mp distinct).2.1).1
    obtain ⟨later, further⟩ := Option.isSome_iff_exists.mp (leadsHas goes target (by simp [there]))
    rw [walk, further]
    simp only [if_neg fresh]
    subst there
    exact ih goes distinct (List.mem_cons_of_mem _ met) ⟨further, leads⟩ (by omega)

theorem resolveStays {name : Name} (none : next name = none) (steps : Nat) : resolve next steps name = name := by
  rw [resolve, none, Option.getD_none]
  cases steps with
  | zero => rfl
  | succ steps => rw [walk, none]

-- A name on a circle stands for itself.
theorem resolveRound {names : List Name} (within : Within next names) {steps : Nat} (enough : names.length ≤ steps) {name : Name}
    {recent : List Name} (goes : Leads next name (recent ++ [name])) (distinct : (recent ++ [name]).Nodup) : resolve next steps name = name := by
  have few := fewSeen within goes distinct
  obtain ⟨onward, further⟩ := Option.isSome_iff_exists.mp (leadsHas goes name (by simp))
  rw [resolve, further, Option.getD_some]
  rw [List.length_append, List.length_singleton] at few
  exact walkRound goes distinct List.mem_cons_self ⟨further, trivial⟩ (by omega)

theorem resolveEnds {names : List Name} (within : Within next names) {steps : Nat} (enough : names.length ≤ steps) (source : Name) :
    StandsFor next source (resolve next steps source) ∧
      (next (resolve next steps source) = none ∨ resolve next steps (resolve next steps source) = resolve next steps source) := by
  unfold resolve
  cases first : next source with
  | none =>
    have stays := resolveStays first steps
    rw [resolve, first] at stays
    rw [stays]
    exact ⟨.refl, .inl first⟩
  | some target =>
    rw [Option.getD_some]
    obtain ⟨recent, reaches, apart, ends⟩ := walkEnds within (show names.length < [source].length + steps by simp; omega)
      (show Leads next target [source] from ⟨first, trivial⟩) (List.nodup_singleton source)
    refine ⟨leadsStands reaches, ends.imp_right fun met => ?_⟩
    generalize walk next steps [source] target = goal at *
    obtain ⟨round, before, split⟩ := List.append_of_mem met
    rw [split] at reaches apart
    obtain ⟨reaches, -⟩ := leadsAppend.mp reaches
    have part : (round ++ [goal]).Nodup := apart.sublist ((List.Sublist.refl round).append (List.singleton_sublist.mpr List.mem_cons_self))
    exact resolveRound within enough reaches part

-- Steps beyond what it takes change nothing, nor does a name seen that the walk never comes to.
theorem walkMore {names : List Name} (within : Within next names) {steps : Nat} {seen : List Name} {target : Name}
    (enough : names.length < seen.length + steps) (leads : Leads next target seen) (distinct : seen.Nodup) :
    walk next (steps + 1) seen target = walk next steps seen target := by
  induction steps generalizing seen target with
  | zero =>
    have few := fewSeen within leads distinct
    omega
  | succ steps ih =>
    rw [walk, walk]
    cases further : next target with
    | none => rfl
    | some later =>
      by_cases met : target ∈ seen
      · simp only [if_pos met]
      · simp only [if_neg met]
        exact ih (by rw [List.length_cons]; omega) ⟨further, leads⟩ (List.nodup_cons.mpr ⟨met, distinct⟩)

theorem walkPast {other : Name} {steps : Nat} {seen : List Name} {target : Name} (apart : ¬ StandsFor next target other) :
    walk next steps (seen ++ [other]) target = walk next steps seen target := by
  induction steps generalizing seen target with
  | zero => rfl
  | succ steps ih =>
    rw [walk, walk]
    cases further : next target with
    | none => rfl
    | some later =>
      have elsewhere : target ≠ other := fun same => apart (same ▸ .refl)
      have same : target ∈ seen ++ [other] ↔ target ∈ seen := by simp [elsewhere]
      simp only [same]
      by_cases met : target ∈ seen
      · simp only [if_pos met]
      · simp only [if_neg met]
        change walk next steps ((target :: seen) ++ [other]) later = _
        exact ih fun reaches => apart (.head further reaches)

-- A way to another name without a name twice.
theorem standsTrail {a b : Name} (stands : StandsFor next a b) (apart : a ≠ b) :
    ∃ recent, Leads next b (recent ++ [a]) ∧ (b :: (recent ++ [a])).Nodup := by
  induction stands using Relation.ReflTransGen.head_induction_on with
  | refl => exact absurd rfl apart
  | @head a first one more ih =>
    by_cases there : first = b
    · subst there
      exact ⟨[], ⟨one, trivial⟩, by simpa using Ne.symm apart⟩
    · obtain ⟨recent, goes, distinct⟩ := ih there
      by_cases met : a ∈ recent ++ [first]
      · obtain ⟨later, before, split⟩ := List.append_of_mem met
        rw [split] at goes distinct
        refine ⟨later, (leadsAppend.mp goes).1, distinct.sublist ?_⟩
        exact ((List.Sublist.refl later).append (List.singleton_sublist.mpr List.mem_cons_self)).cons_cons b
      · refine ⟨recent ++ [first], ?_, ?_⟩
        · rw [List.append_assoc]
          exact leadsAppend.mpr ⟨goes, one, trivial⟩
        · rw [← List.cons_append]
          refine distinct.append (List.nodup_singleton a) (List.disjoint_singleton.mpr fun mem => ?_)
          exact (List.mem_cons.mp mem).elim apart met

-- A name and its alias come to the same unless the alias leads back to the name.
theorem resolveMeets {names : List Name} (within : Within next names) {steps : Nat} (enough : names.length ≤ steps) {a b : Name}
    (one : next a = some b) (apart : a ≠ b) : resolve next steps a = resolve next steps b ↔ ¬ StandsFor next b a := by
  constructor
  · intro same back
    obtain ⟨recent, goes, distinct⟩ := standsTrail back (Ne.symm apart)
    have round : Leads next a ((recent ++ [b]) ++ [a]) := by
      rw [List.append_assoc]
      exact leadsAppend.mpr ⟨goes, one, trivial⟩
    have first : resolve next steps a = a :=
      resolveRound within enough round ((List.perm_append_singleton a (recent ++ [b])).symm.nodup distinct)
    have second : resolve next steps b = b := resolveRound within enough (show Leads next b ((a :: recent) ++ [b]) from ⟨one, goes⟩) distinct
    exact apart (first.symm.trans (same.trans second))
  · intro apart'
    have start : resolve next steps a = walk next steps [a] b := by rw [resolve, one, Option.getD_some]
    cases further : next b with
    | none =>
      rw [start, resolveStays further]
      cases steps with
      | zero => rfl
      | succ steps => rw [walk, further]
    | some later =>
      obtain ⟨steps, rfl⟩ : ∃ fewer, steps = fewer + 1 := by
        have mem := within b (by rw [further]; rfl)
        have some := List.length_pos_of_mem mem
        exact ⟨steps - 1, by omega⟩
      have past : ¬ StandsFor next later a := fun reaches => apart' (.head further reaches)
      rw [start, walk, further]
      simp only [if_neg (show b ∉ [a] by simpa using Ne.symm apart)]
      have more := walkMore within (show names.length < [b, a].length + steps by simp; omega)
        (show Leads next later [b, a] from ⟨further, one, trivial⟩) (by simpa using Ne.symm apart)
      rw [← more, show [b, a] = [b] ++ [a] from rfl, walkPast past, resolve, further, Option.getD_some]

end

-- The aliases to carry out: the names that lead elsewhere.
def resolved {Name : Type*} [DecidableEq Name] (next : Name → Option Name) (sources : List Name) : List (Name × Name) :=
  (sources.map (fun source => (source, resolve next sources.length source))).filter (fun pair => pair.2 ≠ pair.1)

def renameOf {Name : Type*} [DecidableEq Name] (aliases : List (Name × Name)) (name : Name) : Name :=
  ((aliases.find? (fun pair => pair.1 = name)).map Prod.snd).getD name

def Settled {Name : Type*} (aliases : List (Name × Name)) : Prop := ∀ pair ∈ aliases, ∀ other ∈ aliases, pair.2 ≠ other.1

-- Carried out at once they bring each name to where it leads.
theorem renameResolved {Name : Type*} [DecidableEq Name] {next : Name → Option Name} {sources : List Name}
    (within : Within next sources) (name : Name) : renameOf (resolved next sources) name = resolve next sources.length name := by
  rw [renameOf]
  cases found : (resolved next sources).find? (fun pair => pair.1 = name) with
  | some pair =>
    obtain ⟨listed, -⟩ := List.mem_filter.mp (List.mem_of_find?_eq_some found)
    obtain ⟨source, -, rfl⟩ := List.mem_map.mp listed
    have same := List.find?_some found
    simp only [decide_eq_true_eq] at same
    rw [← same]
    rfl
  | none =>
    by_contra moves
    have some : (next name).isSome = true := by
      cases first : next name with
      | some target => rfl
      | none => exact absurd (resolveStays first _).symm moves
    refine List.find?_eq_none.mp found (name, resolve next sources.length name) (List.mem_filter.mpr ⟨?_, ?_⟩) (by simp)
    · exact List.mem_map_of_mem (within name some)
    · simpa using fun same => moves (by rw [same]; rfl)

theorem resolvedSettled {Name : Type*} [DecidableEq Name] {next : Name → Option Name} {sources : List Name}
    (within : ∀ name, (next name).isSome = true ↔ name ∈ sources) : Settled (resolved next sources) := by
  intro pair mem other held same
  obtain ⟨listed, -⟩ := List.mem_filter.mp mem
  obtain ⟨source, -, rfl⟩ := List.mem_map.mp listed
  obtain ⟨listed', moves⟩ := List.mem_filter.mp held
  obtain ⟨source', mem', rfl⟩ := List.mem_map.mp listed'
  have ends := (resolveEnds (fun name => (within name).mp) (le_refl _) source).2
  dsimp only at same
  rw [same] at ends
  rcases ends with none | stays
  · have some := (within source').mpr mem'
    rw [none] at some
    cases some
  · simp [stays] at moves

section
variable {Row Name : Type*} [DecidableEq Name] (column : Row → Name) (put : Row → Name → Row)

-- One `UPDATE` for each alias.
def renameAll (aliases : List (Name × Name)) (rows : List Row) : List Row :=
  aliases.foldl (fun rows pair => Tables.update (fun row => column row = pair.1) (fun row => put row pair.2) rows) rows

-- A column that can be written by itself.
structure Column : Prop where
  read : ∀ row name, column (put row name) = name
  keep : ∀ row, put row (column row) = row
  last : ∀ row first second, put (put row first) second = put row second

variable {column put} {aliases : List (Name × Name)}

theorem renameNone {name : Name} (free : ∀ pair ∈ aliases, pair.1 ≠ name) : renameOf aliases name = name := by
  rw [renameOf, List.find?_eq_none.mpr fun pair mem => by simpa using free pair mem]
  rfl

-- No name that was given up is left.
theorem renameGone (settled : Settled aliases) (name : Name) : ∀ pair ∈ aliases, pair.1 ≠ renameOf aliases name := by
  intro pair mem
  rw [renameOf]
  cases found : aliases.find? (fun pair => pair.1 = name) with
  | none => exact fun same => List.find?_eq_none.mp found pair mem (by simpa using same)
  | some used => exact fun same => settled used (List.mem_of_find?_eq_some found) pair mem same.symm

-- One after another they do what they do at once.
theorem renameAtOnce (lens : Column column put) (settled : Settled aliases) (rows : List Row) :
    renameAll column put aliases rows = rows.map (fun row => put row (renameOf aliases (column row))) := by
  induction aliases generalizing rows with
  | nil =>
    rw [renameAll, List.foldl_nil]
    exact (List.map_id' rows).symm.trans (List.map_congr_left fun row _ => (lens.keep row).symm)
  | cons pair rest ih =>
    rw [renameAll, List.foldl_cons, ← renameAll, ih fun a mem b held => settled a (List.mem_cons_of_mem _ mem) b (List.mem_cons_of_mem _ held),
      Tables.update, List.map_map]
    refine List.map_congr_left fun row _ => ?_
    have rests : renameOf rest pair.2 = pair.2 :=
      renameNone fun other mem same => settled pair List.mem_cons_self other (List.mem_cons_of_mem _ mem) same.symm
    by_cases here : column row = pair.1
    · have found : renameOf (pair :: rest) (column row) = pair.2 := by simp [renameOf, here]
      simp only [Function.comp_apply, here, decide_true, if_true, lens.read, lens.last, rests]
      rw [← here, found]
    · simp [here, renameOf, Ne.symm here]

end
end HarnessMem.AliasChains
