import HarnessMem.Readers
import HarnessMem.Search
import HarnessMem.Lib.StableSort
import Mathlib.Data.String.Basic

/-! The timeline around one observation against all visible rows of its session: what the two windows leave out, and
in which order they come. -/
namespace HarnessMem.Timeline
open Js Text Recorder Visibility Search Readers

-- The order of a session: ties in `created_at` broken by the id.
def ordered (a b : Observation) : Prop := a.createdAt < b.createdAt ∨ a.createdAt = b.createdAt ∧ a.id ≤ b.id
instance : DecidableRel ordered := fun _ _ => inferInstanceAs (Decidable (_ ∨ _))

theorem orderedTotal (a b : Observation) : ordered a b ∨ ordered b a := by
  rcases lt_trichotomy a.createdAt b.createdAt with less | same | more
  · exact .inl (.inl less)
  · exact (le_total a.id b.id).imp (fun le => .inr ⟨same, le⟩) (fun le => .inr ⟨same.symm, le⟩)
  · exact .inr (.inl more)

theorem orderedTrans {a b c : Observation} (one : ordered a b) (two : ordered b c) : ordered a c := by
  rcases one with less | ⟨same, le⟩
  · rcases two with less' | ⟨same', _⟩
    · exact .inl (less.trans less')
    · exact .inl (same' ▸ less)
  · rcases two with less' | ⟨same', le'⟩
    · exact .inl (same ▸ less')
    · exact .inr ⟨same.trans same', le.trans le'⟩

theorem orderedTies {a b : Observation} (one : ordered a b) (two : ordered b a) : a.id = b.id := by
  rcases one with less | ⟨same, le⟩
  · rcases two with more | ⟨same, _⟩
    · exact absurd more less.asymm
    · exact absurd same less.ne'
  · rcases two with more | ⟨_, le'⟩
    · exact absurd same more.ne'
    · exact le_antisymm le le'

theorem orderedUp (a b : Observation) : ordered a b ↔ a.createdAt ≤ b.createdAt ∧ (b.createdAt ≤ a.createdAt → a.id ≤ b.id) := by
  constructor
  · rintro (less | ⟨same, le⟩)
    · exact ⟨less.le, fun back => absurd less (not_lt_of_ge back)⟩
    · exact ⟨same.le, fun _ => le⟩
  · rintro ⟨le, ties⟩
    rcases le.lt_or_eq with less | same
    · exact .inl less
    · exact .inr ⟨same, ties same.ge⟩

section
variable (host : Host) (settings : Settings) (request : TimelineRequest) (db : Db) (center : Observation)

def sessionRows : List Observation := db.observations.filter (besideFilter host settings request center)
def earlier : List Observation := (sessionRows host settings request db center).filter (fun row => ¬ ordered center row)
def later : List Observation := (sessionRows host settings request db center).filter (fun row => ¬ ordered row center)
def beforeRows : List Observation := (sessionRows host settings request db center).filter (fun row => row.createdAt < center.createdAt)
def afterRows : List Observation := (sessionRows host settings request db center).filter (fun row => center.createdAt < row.createdAt)

-- Every visible row of the session, in its order.
def Complete : Prop :=
  (timeline host settings request db).map (List.map Entry.id) =
    some ((Tables.orderBy ordered (sessionRows host settings request db center)).map Observation.id)

-- No other visible row shares the time of the centre.
def Alone : Prop := ∀ row ∈ sessionRows host settings request db center, row.createdAt = center.createdAt → row = center

-- Rows of one time come out of the table by their ids: from the end before the centre, from the start after it.
def TiesInOrder : Prop :=
  (sessionRows host settings request db center).Pairwise fun a b => a.createdAt = b.createdAt →
    (a.createdAt < center.createdAt → b.id ≤ a.id) ∧ (center.createdAt < a.createdAt → a.id ≤ b.id)

variable {host settings request db center}

theorem beforeFits (few : (earlier host settings request db center).length ≤ clampLimit request.before 5 0 50) :
    (beforeRows host settings request db center).length ≤ clampLimit request.before 5 0 50 := by
  refine le_trans (List.Sublist.length_le (List.monotone_filter_right _ fun row less => ?_)) few
  have sooner := of_decide_eq_true less
  exact decide_eq_true fun after => after.elim (fun more => absurd more sooner.asymm) (fun same => absurd same.1 sooner.ne')

theorem afterFits (few : (later host settings request db center).length ≤ clampLimit request.after 5 0 50) :
    (afterRows host settings request db center).length ≤ clampLimit request.after 5 0 50 := by
  refine le_trans (List.Sublist.length_le (List.monotone_filter_right _ fun row more => ?_)) few
  have behind := of_decide_eq_true more
  exact decide_eq_true fun before => before.elim (fun less => absurd less behind.asymm) (fun same => absurd same.1 behind.ne')

theorem rowsWhole (few : (earlier host settings request db center).length ≤ clampLimit request.before 5 0 50)
    (few' : (later host settings request db center).length ≤ clampLimit request.after 5 0 50) :
    timelineRows host settings request db center =
      (Tables.orderBy (fun a b : Observation => b.createdAt ≤ a.createdAt) (beforeRows host settings request db center)).reverse ++
        [center] ++ Tables.orderBy (fun a b : Observation => a.createdAt ≤ b.createdAt) (afterRows host settings request db center) := by
  have whole := beforeFits few
  have whole' := afterFits few'
  rw [beforeRows, sessionRows] at whole ⊢
  rw [afterRows, sessionRows] at whole' ⊢
  rw [timelineRows, List.take_of_length_le (by rw [Tables.orderBy, List.length_insertionSort]; exact whole),
    List.take_of_length_le (by rw [Tables.orderBy, List.length_insertionSort]; exact whole')]

-- The row is in one of the windows, or is the centre.
def Windowed (host : Host) (settings : Settings) (request : TimelineRequest) (db : Db) (center row : Observation) : Prop :=
  row ∈ beforeRows host settings request db center ∨ row = center ∨ row ∈ afterRows host settings request db center

variable (few : (earlier host settings request db center).length ≤ clampLimit request.before 5 0 50)
  (few' : (later host settings request db center).length ≤ clampLimit request.after 5 0 50)

include few few' in
theorem windowed {row : Observation} : row ∈ timelineRows host settings request db center ↔ Windowed host settings request db center row := by
  rw [rowsWhole few few', Windowed]
  simp only [List.mem_append, List.mem_reverse, Tables.memOrderBy, List.mem_singleton, or_assoc]

theorem aloneWindowed (visible : besideFilter host settings request center center = true) (held : center ∈ db.observations)
    (alone : Alone host settings request db center) (row : Observation) :
    Windowed host settings request db center row ↔ row ∈ sessionRows host settings request db center := by
  constructor
  · rintro (before | rfl | after)
    · exact (List.mem_filter.mp before).1
    · exact List.mem_filter.mpr ⟨held, visible⟩
    · exact (List.mem_filter.mp after).1
  · intro mem
    rcases lt_trichotomy row.createdAt center.createdAt with less | same | more
    · exact .inl (List.mem_filter.mpr ⟨mem, decide_eq_true less⟩)
    · exact .inr (.inl (alone row mem same))
    · exact .inr (.inr (List.mem_filter.mpr ⟨mem, decide_eq_true more⟩))

theorem windowedAlone (all : ∀ row ∈ sessionRows host settings request db center, Windowed host settings request db center row) :
    Alone host settings request db center := by
  intro row mem same
  rcases all row mem with before | center | after
  · exact absurd same (of_decide_eq_true (List.mem_filter.mp before).2).ne
  · exact center
  · exact absurd same (of_decide_eq_true (List.mem_filter.mp after).2).ne'

-- Sorted backwards and turned round, or sorted forwards: tied rows keep the places the table gave them.
theorem beforeSorted {rows : List Observation} :
    (Tables.orderBy (fun a b : Observation => b.createdAt ≤ a.createdAt) rows).reverse.Pairwise ordered ↔
      rows.Pairwise fun a b => b.createdAt ≤ a.createdAt → a.createdAt ≤ b.createdAt → b.id ≤ a.id := by
  rw [List.pairwise_reverse, ← StableSort.sortTies (fun a b => le_total b.createdAt a.createdAt) fun a b c one two => two.trans one]
  have : Std.Total fun a b : Observation => b.createdAt ≤ a.createdAt := ⟨fun a b => le_total b.createdAt a.createdAt⟩
  have : IsTrans Observation fun a b => b.createdAt ≤ a.createdAt := ⟨fun a b c one two => two.trans one⟩
  have ranked := List.pairwise_insertionSort (fun a b : Observation => b.createdAt ≤ a.createdAt) rows
  exact ⟨fun sorted => sorted.imp fun {a b} pair => ((orderedUp b a).mp pair).2,
    fun ties => (ranked.and ties).imp fun {a b} pair => (orderedUp b a).mpr pair⟩

theorem afterSorted {rows : List Observation} :
    (Tables.orderBy (fun a b : Observation => a.createdAt ≤ b.createdAt) rows).Pairwise ordered ↔
      rows.Pairwise fun a b => a.createdAt ≤ b.createdAt → b.createdAt ≤ a.createdAt → a.id ≤ b.id := by
  rw [← StableSort.sortTies (fun a b => le_total a.createdAt b.createdAt) fun a b c one two => one.trans two]
  have : Std.Total fun a b : Observation => a.createdAt ≤ b.createdAt := ⟨fun a b => le_total a.createdAt b.createdAt⟩
  have : IsTrans Observation fun a b => a.createdAt ≤ b.createdAt := ⟨fun a b c one two => one.trans two⟩
  have ranked := List.pairwise_insertionSort (fun a b : Observation => a.createdAt ≤ b.createdAt) rows
  exact ⟨fun sorted => sorted.imp fun {a b} pair => ((orderedUp a b).mp pair).2,
    fun ties => (ranked.and ties).imp fun {a b} pair => (orderedUp a b).mpr pair⟩

theorem tiesSplit : TiesInOrder host settings request db center ↔
    (beforeRows host settings request db center).Pairwise
      (fun a b => b.createdAt ≤ a.createdAt → a.createdAt ≤ b.createdAt → b.id ≤ a.id) ∧
    (afterRows host settings request db center).Pairwise
      (fun a b => a.createdAt ≤ b.createdAt → b.createdAt ≤ a.createdAt → a.id ≤ b.id) := by
  rw [beforeRows, afterRows, List.pairwise_filter, List.pairwise_filter, TiesInOrder]
  constructor
  · exact fun ties => ⟨ties.imp fun {a b} pair sooner _ le le' => (pair (le_antisymm le' le)).1 (of_decide_eq_true sooner),
      ties.imp fun {a b} pair behind _ le le' => (pair (le_antisymm le le')).2 (of_decide_eq_true behind)⟩
  · rintro ⟨before, after⟩
    refine (before.and after).imp fun {a b} pair same => ⟨fun sooner => ?_, fun behind => ?_⟩
    · exact pair.1 (decide_eq_true sooner) (decide_eq_true (same ▸ sooner)) same.ge same.le
    · exact pair.2 (decide_eq_true behind) (decide_eq_true (same ▸ behind)) same.le same.ge

theorem sooner {row : Observation} (mem : row ∈ (Tables.orderBy (fun a b : Observation => b.createdAt ≤ a.createdAt)
    (beforeRows host settings request db center)).reverse) : row.createdAt < center.createdAt :=
  of_decide_eq_true (List.mem_filter.mp ((Tables.memOrderBy _).mp (List.mem_reverse.mp mem))).2

theorem behind {row : Observation} (mem : row ∈ Tables.orderBy (fun a b : Observation => a.createdAt ≤ b.createdAt)
    (afterRows host settings request db center)) : center.createdAt < row.createdAt :=
  of_decide_eq_true (List.mem_filter.mp ((Tables.memOrderBy _).mp mem)).2

include few few' in
theorem rowsSorted : (timelineRows host settings request db center).Pairwise ordered ↔ TiesInOrder host settings request db center := by
  rw [rowsWhole few few', tiesSplit, ← beforeSorted, ← afterSorted, List.append_assoc, List.pairwise_append, List.singleton_append,
    List.pairwise_cons]
  refine ⟨fun ⟨before, ⟨_, after⟩, _⟩ => ⟨before, after⟩, fun ⟨before, after⟩ => ⟨before, ⟨?_, after⟩, ?_⟩⟩
  · exact fun row mem => .inl (behind mem)
  · intro row mem other mem'
    rcases List.mem_cons.mp mem' with rfl | mem'
    · exact .inl (sooner mem)
    · exact .inl ((sooner mem).trans (behind mem'))

include few few' in
theorem rowsOnce (once : db.observations.Nodup) : (timelineRows host settings request db center).Nodup := by
  have before : (beforeRows host settings request db center).Nodup := (once.filter _).filter _
  have after : (afterRows host settings request db center).Nodup := (once.filter _).filter _
  rw [rowsWhole few few', List.append_assoc, List.nodup_append, List.singleton_append, List.nodup_cons, List.nodup_reverse]
  refine ⟨(List.perm_insertionSort _ _).nodup_iff.mpr before, ⟨?_, (List.perm_insertionSort _ _).nodup_iff.mpr after⟩, ?_⟩
  · exact fun mem => lt_irrefl _ (behind mem)
  · rintro row mem other mem' rfl
    rcases List.mem_cons.mp mem' with rfl | mem'
    · exact lt_irrefl _ (sooner mem)
    · exact lt_irrefl _ ((sooner mem).trans (behind mem'))

theorem timelineAnswer (found : timelineCenter host request db = some center) : (timeline host settings request db).map (List.map Entry.id) =
    some ((timelineRows host settings request db center).map Observation.id) := by
  rw [timeline, found]
  simp only [Option.map_some, List.map_map]
  rfl

theorem centerHeld (found : timelineCenter host request db = some center) : center ∈ db.observations := by
  obtain ⟨named, _⟩ := Option.filter_eq_some_iff.mp found
  exact List.mem_of_find?_eq_some named

variable (visible : besideFilter host settings request center center = true) (keys : (db.observations.map Observation.id).Nodup)

include keys in
theorem sameId {a b : Observation} (one : a ∈ db.observations) (two : b ∈ db.observations) (same : a.id = b.id) : a = b :=
  List.inj_on_of_nodup_map keys one two same

include keys in
theorem sameIds {rows others : List Observation} (held : ∀ row ∈ rows, row ∈ db.observations) (held' : ∀ row ∈ others, row ∈ db.observations)
    (same : rows.map Observation.id = others.map Observation.id) : rows = others := by
  induction rows generalizing others with
  | nil => exact (List.map_eq_nil_iff.mp same.symm).symm
  | cons row rest ih =>
    cases others with
    | nil => cases same
    | cons other rest' =>
      obtain ⟨first, others⟩ := List.cons.inj same
      rw [sameId keys (held row List.mem_cons_self) (held' other List.mem_cons_self) first,
        ih (fun row mem => held row (List.mem_cons_of_mem _ mem)) (fun row mem => held' row (List.mem_cons_of_mem _ mem)) others]

include few few' visible keys in
theorem timelineExact (found : timelineCenter host request db = some center) :
    Complete host settings request db center ↔ Alone host settings request db center ∧ TiesInOrder host settings request db center := by
  have held := centerHeld found
  have session : ∀ row ∈ sessionRows host settings request db center, row ∈ db.observations := fun row mem => (List.mem_filter.mp mem).1
  have shown : ∀ row ∈ timelineRows host settings request db center, row ∈ db.observations := by
    intro row mem
    rcases (windowed few few').mp mem with before | rfl | after
    · exact session row (List.mem_filter.mp before).1
    · exact held
    · exact session row (List.mem_filter.mp after).1
  have sorted : (Tables.orderBy ordered (sessionRows host settings request db center)).Pairwise ordered := by
    have : Std.Total ordered := ⟨orderedTotal⟩
    have : IsTrans Observation ordered := ⟨fun _ _ _ => orderedTrans⟩
    exact List.pairwise_insertionSort ordered _
  have whole : Complete host settings request db center ↔
      timelineRows host settings request db center = Tables.orderBy ordered (sessionRows host settings request db center) := by
    rw [Complete, timelineAnswer found, Option.some_inj]
    exact ⟨sameIds keys shown (fun row mem => session row ((Tables.memOrderBy _).mp mem)), congrArg _⟩
  rw [whole, ← rowsSorted few few']
  constructor
  · intro equal
    refine ⟨windowedAlone fun row mem => (windowed few few').mp ?_, equal ▸ sorted⟩
    rw [equal]
    exact (Tables.memOrderBy _).mpr mem
  · rintro ⟨alone, inOrder⟩
    have perm : (timelineRows host settings request db center).Perm (Tables.orderBy ordered (sessionRows host settings request db center)) := by
      have once := List.Nodup.of_map Observation.id keys
      refine (List.perm_ext_iff_of_nodup (rowsOnce few few' once) ((List.perm_insertionSort _ _).nodup_iff.mpr (once.filter _))).mpr ?_
      intro row
      rw [windowed few few', aloneWindowed visible held alone, List.mem_insertionSort, sessionRows]
    exact perm.eq_of_pairwise (fun a b one two before after => sameId keys (shown a one)
      (session b ((Tables.memOrderBy _).mp two)) (orderedTies before after)) inOrder sorted

end

def moment (id createdAt : String) : Observation := {plainRow id "p" "u" with createdAt := createdAt}
def around (id : String) : TimelineRequest := ⟨id, .fin 5, .fin 5, false, false, none, none⟩
def threeMoments : Db := {Db.empty with observations := [moment "a" "2026-01-01", moment "b" "2026-01-02", moment "c" "2026-01-03"]}
def sameMoment : Db := {Db.empty with observations := [moment "a" "2026-01-01", moment "b" "2026-01-01"]}

theorem threeMomentsComplete : Complete readHost plainSettings (around "b") threeMoments (moment "b" "2026-01-02") := by
  refine (timelineExact (by decide) (by decide) (by decide) (by decide) (by decide)).mpr ⟨?_, ?_⟩
  · unfold Alone
    decide
  · unfold TiesInOrder
    decide

-- Two rows of one time: each is left out of the timeline around the other.
theorem sameMomentLost : timelineCenter readHost (around "a") sameMoment = some (moment "a" "2026-01-01") ∧
    sessionRows readHost plainSettings (around "a") sameMoment (moment "a" "2026-01-01") = sameMoment.observations ∧
    (timeline readHost plainSettings (around "a") sameMoment).map (List.map Entry.id) = some ["a"] ∧
    ¬ Complete readHost plainSettings (around "a") sameMoment (moment "a" "2026-01-01") := by
  refine ⟨by decide, by decide, by decide, ?_⟩
  unfold Complete
  decide

end HarnessMem.Timeline
