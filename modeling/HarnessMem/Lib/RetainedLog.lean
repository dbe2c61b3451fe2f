import Mathlib.Data.List.Basic
import Mathlib.Data.List.Range

/-! A log whose entries are numbered from one and which keeps only the newest of them, read in batches from
a cursor: what a reader is given, and what is gone before the reader comes to it. -/
namespace HarnessMem.RetainedLog

section
variable {α : Type*} (place : α → Nat)

def Numbered (all : List α) : Prop := all.map place = List.range' 1 all.length

-- The newest entries of everything that was ever put in.
def kept (keep : Nat) (all : List α) : List α := all.drop (all.length - keep)

-- What lies beyond a cursor, the oldest first.
def since (log : List α) (cursor limit : Nat) : List α := (log.filter (fun x => cursor < place x)).take limit

variable {place}

theorem numberedNil : Numbered place [] := rfl
theorem numberedSnoc {all : List α} {x : α} (numbered : Numbered place all) (next : place x = all.length + 1) :
    Numbered place (all ++ [x]) := by
  rw [Numbered, List.map_append, numbered, List.length_append, List.length_singleton, List.range'_concat]
  simp [next, Nat.add_comm]

theorem keptSnoc (keep : Nat) (all : List α) (x : α) :
    (kept keep all ++ [x]).drop ((kept keep all ++ [x]).length - keep) = kept keep (all ++ [x]) := by
  simp only [kept, List.length_append, List.length_drop, List.length_singleton]
  rw [← List.drop_append_of_le_length (Nat.sub_le _ _), List.drop_drop]
  congr 1
  omega

theorem placeAt {all : List α} (numbered : Numbered place all) {i : Nat} (bound : i < all.length) :
    place all[i] = i + 1 := by
  have same : (all.map place)[i]? = some (i + 1) := by
    rw [numbered, List.getElem?_range' bound]
    simp [Nat.add_comm]
  simpa [bound] using same

theorem placeOf {all : List α} (numbered : Numbered place all) {x : α} (mem : x ∈ all) :
    1 ≤ place x ∧ place x ≤ all.length := by
  have listed : place x ∈ List.range' 1 all.length := numbered ▸ List.mem_map_of_mem mem
  simp only [List.mem_range'_1] at listed
  omega

theorem increasing {all : List α} (numbered : Numbered place all) : all.Pairwise (fun a b => place a < place b) := by
  have sorted : (all.map place).Pairwise (· < ·) := numbered ▸ List.pairwise_lt_range'
  exact List.pairwise_map.mp sorted

theorem dropIff {all : List α} (numbered : Numbered place all) (n : Nat) {x : α} (mem : x ∈ all) :
    x ∈ all.drop n ↔ n < place x := by
  obtain ⟨i, bound, rfl⟩ := List.getElem_of_mem mem
  rw [placeAt numbered bound, List.mem_drop_iff_getElem]
  constructor
  · rintro ⟨j, inside, same⟩
    have places := congrArg place same
    rw [placeAt numbered, placeAt numbered bound] at places
    omega
  · exact fun beyond => ⟨i - n, by omega, by congr 1; omega⟩

theorem takeIff {all : List α} (numbered : Numbered place all) (n : Nat) {x : α} (mem : x ∈ all) :
    x ∈ all.take n ↔ place x ≤ n := by
  obtain ⟨i, bound, rfl⟩ := List.getElem_of_mem mem
  rw [placeAt numbered bound, List.mem_take_iff_getElem]
  constructor
  · rintro ⟨j, inside, same⟩
    have places := congrArg place same
    rw [placeAt numbered, placeAt numbered bound] at places
    omega
  · exact fun below => ⟨i, by omega, rfl⟩

theorem numberedTake {all : List α} (numbered : Numbered place all) (n : Nat) : Numbered place (all.take n) := by
  rw [Numbered, List.map_take, numbered, List.length_take]
  rcases le_total n all.length with short | long
  · rw [List.take_range'_of_length_ge short, Nat.min_eq_left short]
  · rw [List.take_range'_of_length_le long, Nat.min_eq_right long]

theorem sliceIff {all : List α} (numbered : Numbered place all) (n m : Nat) {x : α} (mem : x ∈ all) :
    x ∈ (all.drop n).take m ↔ n < place x ∧ place x ≤ n + m := by
  rw [List.take_drop, and_comm, ← takeIff numbered (n + m) mem]
  constructor
  · exact fun sliced => ⟨List.mem_of_mem_drop sliced, (dropIff (numberedTake numbered _) n (List.mem_of_mem_drop sliced)).mp sliced⟩
  · exact fun ⟨taken, beyond⟩ => (dropIff (numberedTake numbered _) n taken).mpr beyond

theorem filterDrop {all : List α} (numbered : Numbered place all) (n : Nat) :
    all.filter (fun x => n < place x) = all.drop n := by
  have front : (all.take n).filter (fun x => n < place x) = [] := by
    refine List.filter_eq_nil_iff.mpr fun x mem => ?_
    have := (takeIff numbered n (List.mem_of_mem_take mem)).mp mem
    simp only [decide_eq_true_eq]
    omega
  have back : (all.drop n).filter (fun x => n < place x) = all.drop n := by
    refine List.filter_eq_self.mpr fun x mem => ?_
    simpa using (dropIff numbered n (List.mem_of_mem_drop mem)).mp mem
  calc all.filter (fun x => n < place x)
      = (all.take n ++ all.drop n).filter (fun x => n < place x) := by rw [List.take_append_drop]
    _ = all.drop n := by rw [List.filter_append, front, back, List.nil_append]

-- A reading goes on at its cursor, or at the oldest entry that is left.
theorem sinceKept {keep : Nat} {all : List α} (numbered : Numbered place all) (cursor limit : Nat) :
    since place (kept keep all) cursor limit = (all.drop (max cursor (all.length - keep))).take limit := by
  have inside : (kept keep all).filter (fun x => cursor < place x) = (all.drop (max cursor (all.length - keep))) := by
    rw [← filterDrop numbered, kept, ← filterDrop numbered, List.filter_filter]
    refine List.filter_congr fun x _ => ?_
    simp only [← Bool.decide_and, decide_eq_decide]
    omega
  rw [since, inside]
end

section
variable {α : Type*} (place : α → Nat) (wanted : α → Bool)

-- A reader that began at `start` has the wanted entries between there and its cursor, but for those it was not
-- in time for.
structure Held (all : List α) (start cursor : Nat) (sent : List α) (timely : Nat → Prop) : Prop where
  inOrder : sent.Pairwise (fun a b => place a < place b)
  known : ∀ x ∈ sent, x ∈ all
  exactly : ∀ x ∈ all, x ∈ sent ↔ start < place x ∧ place x ≤ cursor ∧ wanted x = true ∧ timely (place x)
  ahead : start ≤ cursor
  inside : cursor ≤ all.length ∨ cursor = start
  settled : ∀ n, cursor < n → timely n

def afterwards (cursor : Nat) (batch : List α) : Nat := (batch.getLast?.map place).getD cursor

variable {place wanted}

theorem openedHeld (all : List α) (start : Nat) : Held place wanted all start start [] (fun _ => True) where
  inOrder := List.Pairwise.nil
  known := by simp
  exactly x _ := iff_of_false List.not_mem_nil (fun ⟨above, below, _⟩ => by omega)
  ahead := le_refl start
  inside := .inr rfl
  settled _ _ := trivial

section
variable {all sent : List α} {start cursor : Nat} {timely : Nat → Prop}

theorem Held.congr {later : Nat → Prop} (numbered : Numbered place all) (held : Held place wanted all start cursor sent timely)
    (same : ∀ n, 0 < n → (timely n ↔ later n)) :
    Held place wanted all start cursor sent later where
  inOrder := held.inOrder
  known := held.known
  exactly x mem := by rw [held.exactly x mem, same (place x) (placeOf numbered mem).1]
  ahead := held.ahead
  inside := held.inside
  settled n beyond := (same n (by omega)).mp (held.settled n beyond)

theorem appendedHeld (numbered : Numbered place all) {x : α} (next : place x = all.length + 1)
    (held : Held place wanted all start cursor sent timely) : Held place wanted (all ++ [x]) start cursor sent timely where
  inOrder := held.inOrder
  known y mem := List.mem_append_left _ (held.known y mem)
  exactly y mem := by
    rcases List.mem_append.mp mem with old | new
    · exact held.exactly y old
    · obtain rfl := List.mem_singleton.mp new
      refine iff_of_false (fun sentIt => ?_) (fun ⟨above, below, _⟩ => ?_)
      · have := (placeOf numbered (held.known y sentIt)).2
        omega
      · have := held.inside
        omega
  ahead := held.ahead
  inside := held.inside.imp_left (fun low => by simp only [List.length_append]; omega)
  settled := held.settled

-- Where a reading takes up, and where it leaves off.
theorem afterwardsAt {keep limit : Nat} (numbered : Numbered place all) (keeps : 0 < keep) (reads : 0 < limit)
    {batch : List α} (took : batch = since place (kept keep all) cursor limit) :
    (∀ x ∈ all, x ∈ batch ↔ max cursor (all.length - keep) < place x ∧ place x ≤ afterwards place cursor batch) ∧
      (all.length ≤ cursor ∧ afterwards place cursor batch = cursor ∨ max cursor (all.length - keep) < all.length ∧
        afterwards place cursor batch = min (max cursor (all.length - keep) + limit) all.length) := by
  generalize floorIs : max cursor (all.length - keep) = floor
  have read : batch = (all.drop floor).take limit := floorIs ▸ took.trans (sinceKept numbered cursor limit)
  by_cases empty : all.length ≤ floor
  · have none : batch = [] := by rw [read, List.drop_eq_nil_of_le empty, List.take_nil]
    have behind : all.length ≤ cursor := by omega
    refine ⟨fun x mem => ?_, .inl ⟨behind, by rw [none]; rfl⟩⟩
    have := (placeOf numbered mem).2
    rw [none]
    exact iff_of_false List.not_mem_nil (fun ⟨above, _⟩ => by omega)
  · have ends : afterwards place cursor batch = min (floor + limit) all.length := by
      have last : batch.getLast? = all[min (floor + limit) all.length - 1]? := by
        rw [read, List.getLast?_eq_getElem?, List.length_take, List.length_drop, List.getElem?_take, if_pos (by omega),
          List.getElem?_drop]
        congr 1
        omega
      have inside : min (floor + limit) all.length - 1 < all.length := by omega
      rw [afterwards, last, List.getElem?_eq_getElem inside, Option.map_some, placeAt numbered inside, Option.getD_some]
      omega
    refine ⟨fun x mem => ?_, .inr ⟨by omega, ends⟩⟩
    have below := (placeOf numbered mem).2
    rw [ends, read, sliceIff numbered floor limit mem]
    omega

theorem readHeld {keep limit : Nat} (numbered : Numbered place all) (keeps : 0 < keep) (reads : 0 < limit)
    {batch : List α} (took : batch = since place (kept keep all) cursor limit)
    (held : Held place wanted all start cursor sent timely) :
    Held place wanted all start (afterwards place cursor batch) (sent ++ batch.filter wanted)
      (fun n => timely n ∧ ¬ (cursor < n ∧ n + keep ≤ all.length)) := by
  obtain ⟨members, ends⟩ := afterwardsAt numbered keeps reads took
  have part : ∀ x ∈ batch, x ∈ all := by
    rw [took]
    exact fun x mem => List.mem_of_mem_drop (List.mem_filter.mp (List.mem_of_mem_take mem)).1
  have sorted : batch.Pairwise (fun a b => place a < place b) := by
    rw [took]
    exact ((increasing numbered).drop.filter _).take
  exact {
    inOrder := by
      refine List.pairwise_append.mpr ⟨held.inOrder, sorted.filter _, fun a old b new => ?_⟩
      have taken := (List.mem_filter.mp new).1
      have above := ((members b (part b taken)).mp taken).1
      have below := ((held.exactly a (held.known a old)).mp old).2.1
      omega
    known x mem := (List.mem_append.mp mem).elim (held.known x) (fun new => part x (List.mem_filter.mp new).1)
    exactly x mem := by
      have bound := (placeOf numbered mem).2
      have settled := held.settled (place x)
      have ahead := held.ahead
      rw [List.mem_append, List.mem_filter, held.exactly x mem, members x mem]
      grind
    ahead := by
      have := held.ahead
      omega
    inside := by
      have := held.inside
      omega
    settled n beyond := ⟨held.settled n (by omega), by omega⟩ }

-- Whatever is appended next, a reader that comes back before `limit` more entries are in is in time.
theorem readLag {keep limit : Nat} (numbered : Numbered place all) (keeps : 0 < keep) (reads : 0 < limit) (cursor : Nat) :
    all.length ≤ afterwards place cursor (since place (kept keep all) cursor limit) + (keep - limit) := by
  obtain ⟨_, ends⟩ := afterwardsAt numbered keeps reads (rfl : since place (kept keep all) cursor limit = _)
  omega

-- Where a reader that lost its cursor takes up again: behind the last entry it was sent.
def resume (place : α → Nat) (start : Nat) (sent : List α) : Nat := (sent.getLast?.map place).getD start

theorem sentBelow (held : Held place wanted all start cursor sent timely) {x : α} (mem : x ∈ sent) :
    place x ≤ resume place start sent := by
  obtain ⟨before, last, rfl⟩ := (List.eq_nil_or_concat' sent).resolve_left (List.ne_nil_of_mem mem)
  rw [resume, List.getLast?_concat]
  rcases List.mem_append.mp mem with old | new
  · exact le_of_lt ((List.pairwise_append.mp held.inOrder).2.2 x old last List.mem_cons_self)
  · exact le_of_eq (congrArg place (List.mem_singleton.mp new))

theorem resumeAt (held : Held place wanted all start cursor sent timely) :
    resume place start sent = start ∧ sent = [] ∨ ∃ x ∈ sent, resume place start sent = place x := by
  rcases List.eq_nil_or_concat' sent with rfl | ⟨before, last, rfl⟩
  · exact .inl ⟨rfl, rfl⟩
  · exact .inr ⟨last, by simp, by simp [resume]⟩

theorem resumeHeld {ends : Nat} {more : List α} {later : Nat → Prop} (numbered : Numbered place all)
    (held : Held place wanted all start cursor sent timely)
    (next : Held place wanted all (resume place start sent) ends more later) :
    Held place wanted all start ends (sent ++ more)
      (fun n => if n ≤ resume place start sent then timely n else later n) := by
  have between : start ≤ resume place start sent ∧ resume place start sent ≤ cursor := by
    rcases resumeAt held with ⟨same, _⟩ | ⟨x, mem, same⟩
    · rw [same]
      exact ⟨le_refl start, held.ahead⟩
    · have := (held.exactly x (held.known x mem)).mp mem
      omega
  exact {
    inOrder := by
      refine List.pairwise_append.mpr ⟨held.inOrder, next.inOrder, fun a old b new => ?_⟩
      exact lt_of_le_of_lt (sentBelow held old) ((next.exactly b (next.known b new)).mp new).1
    known x mem := (List.mem_append.mp mem).elim (held.known x) (next.known x)
    exactly x mem := by
      have below := fun old => sentBelow held (x := x) old
      have ahead := next.ahead
      rw [List.mem_append]
      split
      · rw [held.exactly x mem, next.exactly x mem]
        grind
      · rw [next.exactly x mem]
        grind
    ahead := le_trans between.1 next.ahead
    inside := by
      rcases next.inside with low | same
      · exact .inl low
      · rcases resumeAt held with ⟨stayed, _⟩ | ⟨x, mem, stands⟩
        · exact .inr (same.trans stayed)
        · exact .inl (by rw [same, stands]; exact (placeOf numbered (held.known x mem)).2)
    settled n beyond := by
      have ahead := next.ahead
      rw [if_neg (by omega)]
      exact next.settled n beyond }
end
end

end HarnessMem.RetainedLog
