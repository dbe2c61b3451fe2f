import Mathlib.Algebra.BigOperators.Group.List.Basic
import Mathlib.Algebra.GroupWithZero.Nat
import Mathlib.Data.List.Induction
import Mathlib.Data.List.Nodup

/-! Rows that each store the digest of the value before them and their own content. As long as
no two digested inputs collide, the last stored value fixes the whole chain. An input joined
from parts around a mark can be read back when the parts hold no mark. -/
namespace HarnessMem.HashChain

section
variable {Row Hash Input : Type*} (stored : Row → Hash) (input : Hash × Row → Input) (digest : Input → Hash)

def Linked (before : Hash) : List Row → Prop
  | [] => True
  | row :: rest => stored row = digest (input (before, row)) ∧ Linked (stored row) rest

-- Every row with the value it is linked to.
def links (before : Hash) : List Row → List (Hash × Row)
  | [] => []
  | row :: rest => (before, row) :: links (stored row) rest

def head (before : Hash) (rows : List Row) : Hash := (rows.getLast?.map stored).getD before

@[simp] theorem headNil (before : Hash) : head stored before [] = before := rfl
@[simp] theorem headSnoc (before : Hash) (rows : List Row) (row : Row) :
    head stored before (rows ++ [row]) = stored row := by simp [head]
theorem headCons (before : Hash) (row : Row) (rest : List Row) :
    head stored before (row :: rest) = head stored (stored row) rest := by
  cases rest with
  | nil => rfl
  | cons next rest => simp [head, List.getLast?_cons]

theorem headLast (before other : Hash) (front : List Row) {after : List Row} (more : after ≠ []) :
    head stored before (front ++ after) = head stored other after := by
  rcases List.eq_nil_or_concat after with rfl | ⟨rest, row, rfl⟩
  · exact absurd rfl more
  · rw [List.concat_eq_append, ← List.append_assoc, headSnoc, headSnoc]

@[simp] theorem linksLength (before : Hash) (rows : List Row) : (links stored before rows).length = rows.length := by
  induction rows generalizing before with
  | nil => rfl
  | cons row rest ih => simp [links, ih]

theorem linksRows (before : Hash) (rows : List Row) : (links stored before rows).map Prod.snd = rows := by
  induction rows generalizing before with
  | nil => rfl
  | cons row rest ih => simp [links, ih]

theorem linksAppend (before : Hash) (first second : List Row) :
    links stored before (first ++ second) = links stored before first ++ links stored (head stored before first) second := by
  induction first generalizing before with
  | nil => rfl
  | cons row rest ih => rw [List.cons_append, links, ih, links, headCons, List.cons_append]

theorem linkedAppend (before : Hash) (first second : List Row) :
    Linked stored input digest before (first ++ second) ↔
      Linked stored input digest before first ∧ Linked stored input digest (head stored before first) second := by
  induction first generalizing before with
  | nil => simp [Linked]
  | cons row rest ih => rw [List.cons_append, Linked, ih, Linked, headCons, and_assoc]

-- No digest is the starting value, equal digests come from equal inputs, and equal inputs
-- from equal values before them.
structure Apart (start : Hash) (a b : List (Hash × Row)) : Prop where
  fresh : ∀ link ∈ a ++ b, digest (input link) ≠ start
  distinct : ∀ link ∈ a, ∀ other ∈ b, digest (input link) = digest (input other) → input link = input other
  recovers : ∀ link ∈ a, ∀ other ∈ b, input link = input other → link.1 = other.1

variable {stored input digest} {start : Hash}

theorem linksBefore {before : Hash} {rows : List Row} (linked : Linked stored input digest before rows)
    {link : Hash × Row} (mem : link ∈ links stored before rows) : link.1 = before ∨ ∃ text, link.1 = digest text := by
  induction rows generalizing before with
  | nil => cases mem
  | cons row rest ih =>
    rcases List.mem_cons.mp mem with rfl | later
    · exact .inl rfl
    · refine .inr ?_
      rcases ih linked.2 later with same | other
      · exact ⟨input (before, row), same.trans linked.1⟩
      · exact other

theorem linkedStored {before : Hash} {rows : List Row} (linked : Linked stored input digest before rows) :
    rows.map stored = ((links stored before rows).map input).map digest := by
  induction rows generalizing before with
  | nil => rfl
  | cons row rest ih => rw [List.map_cons, links, List.map_cons, List.map_cons, linked.1, ← linked.1, ih linked.2]

theorem Apart.mono {a b c d : List (Hash × Row)} (apart : Apart input digest start a b) (left : c ⊆ a) (right : d ⊆ b) :
    Apart input digest start c d := by
  refine ⟨fun link mem => apart.fresh link ?_, fun link mem other held => apart.distinct link (left mem) other (right held),
    fun link mem other held => apart.recovers link (left mem) other (right held)⟩
  rcases List.mem_append.mp mem with first | second
  · exact List.mem_append_left _ (left first)
  · exact List.mem_append_right _ (right second)

-- Two chains with one last value digested the same inputs: backwards along the first one.
theorem headDetermines {a b : List Row} (apart : Apart input digest start (links stored start a) (links stored start b))
    (linkedA : Linked stored input digest start a) (linkedB : Linked stored input digest start b)
    (same : head stored start a = head stored start b) :
    (links stored start a).map input = (links stored start b).map input := by
  induction a using List.reverseRecOn generalizing b with
  | nil =>
    rcases List.eq_nil_or_concat b with rfl | ⟨rest, row, rfl⟩
    · rfl
    · rw [List.concat_eq_append] at *
      have last := ((linkedAppend stored input digest start rest [row]).mp linkedB).2.1
      rw [headNil, headSnoc, last] at same
      refine absurd same.symm (apart.fresh (head stored start rest, row) (List.mem_append_right _ ?_))
      rw [linksAppend]
      exact List.mem_append_right _ List.mem_cons_self
  | append_singleton init x ih =>
    have endA := (linkedAppend stored input digest start init [x]).mp linkedA
    have memA : (head stored start init, x) ∈ links stored start (init ++ [x]) := by
      rw [linksAppend]
      exact List.mem_append_right _ List.mem_cons_self
    rcases List.eq_nil_or_concat b with rfl | ⟨rest, row, rfl⟩
    · rw [headNil, headSnoc, endA.2.1] at same
      exact absurd same (apart.fresh _ (List.mem_append_left _ memA))
    · rw [List.concat_eq_append] at *
      have endB := (linkedAppend stored input digest start rest [row]).mp linkedB
      have memB : (head stored start rest, row) ∈ links stored start (rest ++ [row]) := by
        rw [linksAppend]
        exact List.mem_append_right _ List.mem_cons_self
      rw [headSnoc, headSnoc, endA.2.1, endB.2.1] at same
      have inputs := apart.distinct _ memA _ memB same
      have earlier := ih (apart.mono (by rw [linksAppend]; exact List.subset_append_left _ _)
        (by rw [linksAppend]; exact List.subset_append_left _ _)) endA.1 endB.1 (apart.recovers _ memA _ memB inputs)
      rw [linksAppend, linksAppend, List.map_append, List.map_append, earlier]
      exact congrArg (_ ++ [·]) inputs

-- A linked chain stores no value twice.
theorem storedNodup {rows : List Row} (apart : Apart input digest start (links stored start rows) (links stored start rows))
    (linked : Linked stored input digest start rows) : (rows.map stored).Nodup := by
  induction rows using List.reverseRecOn with
  | nil => exact List.nodup_nil
  | append_singleton init x ih =>
    have initLinks : links stored start init ⊆ links stored start (init ++ [x]) := by
      rw [linksAppend]
      exact List.subset_append_left _ _
    have before := ((linkedAppend stored input digest start init [x]).mp linked).1
    rw [List.map_append, List.nodup_append]
    refine ⟨ih (apart.mono initLinks initLinks) before, List.nodup_singleton _, ?_⟩
    intro value early other last same
    subst same
    obtain ⟨y, held, value'⟩ := List.mem_map.mp early
    obtain ⟨front, back, split⟩ := List.append_of_mem held
    have part : init = (front ++ [y]) ++ back := by simp [split]
    have linkedFront : Linked stored input digest start (front ++ [y]) := by
      rw [part] at before
      exact ((linkedAppend stored input digest start (front ++ [y]) back).mp before).1
    have frontLinks : links stored start (front ++ [y]) ⊆ links stored start (init ++ [x]) := by
      intro link mem
      refine initLinks ?_
      rw [part, linksAppend]
      exact List.mem_append_left _ mem
    have heads : head stored start (front ++ [y]) = head stored start (init ++ [x]) := by
      rw [headSnoc, headSnoc, value']
      simpa using last
    have lengths := congrArg List.length (headDetermines (apart.mono frontLinks (List.Subset.refl _)) linkedFront linked heads)
    simp only [List.length_map, linksLength, split, List.length_append, List.length_cons, List.length_nil] at lengths
    omega

end

section

theorem countJoined {α : Type*} [DecidableEq α] (mark : α) {parts : List (List α)} (some : parts ≠ []) :
    ([mark].intercalate parts).count mark + 1 = parts.length + (parts.map (List.count mark)).sum := by
  induction parts with
  | nil => exact absurd rfl some
  | cons part rest ih =>
    cases rest with
    | nil => simp [Nat.add_comm]
    | cons next rest =>
      have step := ih (List.cons_ne_nil _ _)
      rw [List.intercalate_cons_cons, List.count_append, List.count_append, List.count_singleton_self, List.map_cons,
        List.sum_cons, List.length_cons]
      omega

-- Parts without the mark are told apart from any others, with the mark or not.
theorem joinInjective {α : Type*} [DecidableEq α] {mark : α} {parts others : List (List α)} (free : ∀ part ∈ parts, mark ∉ part)
    (lengths : parts.length = others.length) (same : [mark].intercalate parts = [mark].intercalate others) :
    parts = others := by
  rcases List.eq_nil_or_concat parts with rfl | ⟨front, last, rfl⟩
  · exact (List.length_eq_zero_iff.mp lengths.symm).symm
  have held : front.concat last ≠ [] := by simp
  have held' : others ≠ [] := fun none => held (List.length_eq_zero_iff.mp (by rw [lengths, none]; rfl))
  have counts := countJoined mark held
  rw [same, countJoined mark held', lengths, Nat.add_left_cancel_iff] at counts
  have zero : ((front.concat last).map (List.count mark)).sum = 0 := by
    refine List.sum_eq_zero_iff_forall_eq_nat.mpr fun n mem => ?_
    obtain ⟨part, within, rfl⟩ := List.mem_map.mp mem
    exact List.count_eq_zero.mpr (free part within)
  have free' : ∀ part ∈ others, mark ∉ part := fun part within =>
    List.count_eq_zero.mp (List.sum_eq_zero_iff_forall_eq_nat.mp (counts.trans zero) _ (List.mem_map_of_mem within))
  rw [← List.splitOn_intercalate mark free held, same, List.splitOn_intercalate mark free' held']

end
end HarnessMem.HashChain
