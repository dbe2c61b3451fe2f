import Mathlib.Data.List.Infix
import Mathlib.Data.List.Flatten
import Mathlib.Algebra.GroupWithZero.Nat
import Mathlib.Data.Nat.Find
import Mathlib.Tactic.Common

/-! How often one text occurs in another, and the text around its first occurrence. -/
namespace HarnessMem.Occurrences

section
variable {α : Type*} [DecidableEq α] {piece : List α}

def times (piece : List α) : List α → Nat
  | [] => 0
  | c :: rest => (if piece <+: c :: rest then 1 else 0) + times piece rest

theorem timesCons (c : α) (rest : List α) :
    times piece (c :: rest) = (if piece <+: c :: rest then 1 else 0) + times piece rest := rfl

theorem timesZero (filled : piece ≠ []) {text : List α} : times piece text = 0 ↔ ¬ piece <:+: text := by
  induction text with
  | nil => simpa [times] using filled
  | cons c rest ih =>
    rw [timesCons, Nat.add_eq_zero_iff, ih, List.infix_cons_iff, not_or]
    simp

-- What holds of a text of which no part is the piece.
theorem timesPrefix (filled : piece ≠ []) {a b : List α} (none : times piece (a ++ b) = 0) : times piece a = 0 :=
  (timesZero filled).mpr fun inside => (timesZero filled).mp none (inside.trans (List.prefix_append a b).isInfix)

-- A character the piece does not have parts the texts it occurs in.
omit [DecidableEq α] in
theorem prefixBreak {sep : α} (free : sep ∉ piece) {a b : List α} : piece <+: a ++ sep :: b ↔ piece <+: a := by
  refine ⟨fun starts => ?_, fun starts => starts.trans (List.prefix_append _ _)⟩
  rcases List.prefix_or_prefix_of_prefix starts (List.prefix_append a (sep :: b)) with here | ⟨rest, rfl⟩
  · exact here
  · cases rest with
    | nil => rw [List.append_nil]
    | cons c rest =>
      obtain ⟨tail, joined⟩ := (List.prefix_append_right_inj a).mp starts
      obtain ⟨rfl, -⟩ := List.cons.inj joined
      exact absurd (List.mem_append_right a List.mem_cons_self) free

theorem timesBreak {sep : α} (free : sep ∉ piece) (filled : piece ≠ []) (a b : List α) :
    times piece (a ++ sep :: b) = times piece a + times piece b := by
  induction a with
  | nil =>
    have other : ¬ piece <+: sep :: b := fun starts => filled (List.prefix_nil.mp ((prefixBreak (a := []) free).mp starts))
    rw [List.nil_append, timesCons, if_neg other, times]
  | cons c rest ih =>
    have starts : piece <+: c :: (rest ++ sep :: b) ↔ piece <+: c :: rest := prefixBreak (a := c :: rest) free
    rw [List.cons_append, timesCons, ih, timesCons, Nat.add_assoc]
    simp only [starts]

theorem timesJoined {sep : α} (free : sep ∉ piece) (filled : piece ≠ []) (lines : List (List α)) :
    times piece ([sep].intercalate lines) = (lines.map (times piece)).sum := by
  induction lines with
  | nil => rfl
  | cons line rest ih =>
    cases rest with
    | nil => simp [List.intercalate]
    | cons next rest =>
      have joined : [sep].intercalate (line :: next :: rest) = line ++ sep :: [sep].intercalate (next :: rest) := by
        simp [List.intercalate]
      rw [joined, timesBreak free filled, ih]
      rfl

-- Characters the piece neither starts nor ends with take nothing from it at either end.
theorem timesFront {front : List α} (other : ∀ c ∈ front, piece.head? ≠ some c) (filled : piece ≠ []) (text : List α) :
    times piece (front ++ text) = times piece text := by
  induction front with
  | nil => rfl
  | cons c rest ih =>
    obtain ⟨head, tail⟩ := List.forall_mem_cons.mp other
    have off : ¬ piece <+: c :: (rest ++ text) := by
      rintro ⟨more, same⟩
      cases piece with
      | nil => exact filled rfl
      | cons d piece => exact head (congrArg some (List.cons.inj same).1)
    rw [List.cons_append, timesCons, if_neg off, ih tail, Nat.zero_add]

omit [DecidableEq α] in
theorem prefixBack {back : List α} (other : ∀ c ∈ back, piece.getLast? ≠ some c) (a : List α) :
    piece <+: a ++ back ↔ piece <+: a := by
  refine ⟨fun starts => ?_, fun starts => starts.trans (List.prefix_append _ _)⟩
  rcases List.prefix_or_prefix_of_prefix starts (List.prefix_append a back) with here | ⟨rest, rfl⟩
  · exact here
  · cases last : rest.getLast? with
    | none => rw [List.getLast?_eq_none_iff.mp last, List.append_nil]
    | some d =>
      have within : rest <+: back := (List.prefix_append_right_inj a).mp starts
      have ends : (a ++ rest).getLast? = some d := by rw [List.getLast?_append, last, Option.some_or]
      exact absurd ends (other d (within.subset (List.mem_of_getLast? last)))

theorem timesBack {back : List α} (other : ∀ c ∈ back, piece.getLast? ≠ some c) (filled : piece ≠ []) (text : List α) :
    times piece (text ++ back) = times piece text := by
  induction text with
  | nil =>
    refine (timesZero filled).mpr fun inside => ?_
    have last := List.getLast?_eq_some_getLast filled
    exact other _ (inside.subset (List.getLast_mem filled)) last
  | cons c rest ih =>
    have starts : piece <+: c :: (rest ++ back) ↔ piece <+: c :: rest := prefixBack other (c :: rest)
    rw [List.cons_append, timesCons, ih, timesCons]
    simp only [starts]

-- Characters the piece does not have may be put for others of the kind.
theorem timesPut {put : α → List α} (filled : piece ≠ [])
    (each : ∀ c, put c = [c] ∨ c ∉ piece ∧ ∃ d more, put c = d :: more ∧ ∀ e ∈ d :: more, e ∉ piece) (a text : List α) :
    times piece (a ++ text.flatMap put) = times piece (a ++ text) := by
  induction text generalizing a with
  | nil => rfl
  | cons c rest ih =>
    rw [List.flatMap_cons]
    rcases each c with same | ⟨free, d, more, same, others⟩
    · have next : a ++ ([c] ++ rest.flatMap put) = a ++ [c] ++ rest.flatMap put := (List.append_assoc _ _ _).symm
      rw [same, next, ih (a ++ [c]), List.append_assoc, List.singleton_append]
    · obtain ⟨here, later⟩ := List.forall_mem_cons.mp others
      have front : ∀ e ∈ more, piece.head? ≠ some e := fun e mem first => later e mem (List.mem_of_head? first)
      rw [same, List.cons_append, timesBreak here filled, timesFront front filled, ← List.nil_append (rest.flatMap put), ih [], List.nil_append,
        timesBreak free filled]

/-! The first occurrence. -/

theorem dropInfixSome {text a b : List α} : text.dropInfix? piece = some (a, b) ↔
    text = a ++ piece ++ b ∧ ∀ a' b', text = a' ++ piece ++ b' → a.length ≤ a'.length := by
  rw [List.dropInfix?_eq_some_iff]
  simp only [beq_iff_eq, exists_eq_right]
  constructor
  · rintro ⟨same, least⟩
    exact ⟨same, fun a' b' other => least a' piece b' other rfl⟩
  · rintro ⟨same, least⟩
    exact ⟨same, fun a' _ b' other at_ => least a' b' (at_ ▸ other)⟩

theorem dropInfixNone (filled : piece ≠ []) {text : List α} : text.dropInfix? piece = none ↔ times piece text = 0 := by
  classical
  rw [timesZero filled]
  constructor
  · rintro missing ⟨a, b, here⟩
    have held : ∃ n a b, text = a ++ piece ++ b ∧ a.length = n := ⟨_, a, b, here.symm, rfl⟩
    obtain ⟨first, rest, same, size⟩ := Nat.find_spec held
    have found : text.dropInfix? piece = some (first, rest) :=
      dropInfixSome.mpr ⟨same, fun a' b' other => size ▸ Nat.find_min' held ⟨a', b', other, rfl⟩⟩
    rw [missing] at found
    cases found
  · intro absent
    cases found : text.dropInfix? piece with
    | none => rfl
    | some parts => exact absurd ⟨parts.1, parts.2, (dropInfixSome.mp found).1.symm⟩ absent

-- Nothing of the piece before its first occurrence.
theorem dropInfixFirst (filled : piece ≠ []) {text a b : List α} (found : text.dropInfix? piece = some (a, b)) : times piece a = 0 := by
  obtain ⟨same, least⟩ := dropInfixSome.mp found
  refine (timesZero filled).mpr ?_
  rintro ⟨before, after, rfl⟩
  have short := least before (after ++ piece ++ b) (by rw [same]; simp)
  have long := List.length_pos_iff.mpr filled
  simp only [List.length_append] at short
  omega

theorem dropInfixAfter {sep : α} (free : sep ∉ piece) (filled : piece ≠ []) {a : List α} (none : times piece a = 0) (b : List α) :
    (a ++ sep :: (piece ++ b)).dropInfix? piece = some (a ++ [sep], b) := by
  refine dropInfixSome.mpr ⟨by simp, fun a' b' other => ?_⟩
  by_contra short
  have within : a' <+: a := List.prefix_of_prefix_length_le ⟨piece ++ b', by rw [other, List.append_assoc]⟩
    (List.prefix_append a (sep :: (piece ++ b))) (by rw [List.length_append] at short; exact Nat.le_of_lt_succ (Nat.lt_of_not_le short))
  obtain ⟨rest, rfl⟩ := within
  rw [List.append_assoc, List.append_assoc, List.append_cancel_left_eq] at other
  have starts : piece <+: rest := (prefixBreak free).mp ⟨b', other.symm⟩
  exact (timesZero filled).mp none (starts.isInfix.trans (List.suffix_append a' rest).isInfix)

-- Where the first occurrence is not before the rest of a text, it is the first one there.
theorem dropInfixLater {a text upTo b : List α} (found : (a ++ text).dropInfix? piece = some (upTo, b)) (later : a.length ≤ upTo.length) :
    ∃ more, upTo = a ++ more ∧ text.dropInfix? piece = some (more, b) := by
  obtain ⟨same, least⟩ := dropInfixSome.mp found
  obtain ⟨more, rfl⟩ : a <+: upTo := List.prefix_of_prefix_length_le (List.prefix_append a text) ⟨piece ++ b, by rw [same, List.append_assoc]⟩ later
  have rest : text = more ++ piece ++ b := by simpa using same
  refine ⟨more, rfl, dropInfixSome.mpr ⟨rest, fun a' b' other => ?_⟩⟩
  have far := least (a ++ a') b' (by rw [other]; simp)
  simpa using far

end
end HarnessMem.Occurrences
