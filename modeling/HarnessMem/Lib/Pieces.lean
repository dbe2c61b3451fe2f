import Mathlib.Tactic.Common

/-! The pieces of a text between its separators, one character at a time and one part at a time. -/
namespace HarnessMem.Pieces

section
variable {α : Type*} [DecidableEq α] {sep : α}

theorem splitBreak (rest : List α) : (sep :: rest).splitOn sep = [] :: rest.splitOn sep := by
  rw [List.splitOn_cons_eq_if_modifyHead, if_pos (beq_self_eq_true sep)]

theorem splitCons {c : α} (other : c ≠ sep) (rest : List α) : ∃ first more, rest.splitOn sep = first :: more ∧
    (c :: rest).splitOn sep = (c :: first) :: more := by
  rw [List.splitOn_cons_eq_if_modifyHead, if_neg (by simpa using other)]
  cases pieces : rest.splitOn sep with
  | nil => exact absurd pieces (List.splitOn_ne_nil _ _)
  | cons first more => exact ⟨first, more, rfl, rfl⟩

theorem splitSnoc {c : α} (other : c ≠ sep) (text : List α) : ∃ before last, text.splitOn sep = before ++ [last] ∧
    (text ++ [c]).splitOn sep = before ++ [last ++ [c]] := by
  induction text with
  | nil => exact ⟨[], [], rfl, List.splitOn_eq_singleton (by simpa using Ne.symm other)⟩
  | cons d text ih =>
    obtain ⟨before, last, same, snoc⟩ := ih
    rw [List.cons_append]
    by_cases here : d = sep
    · rw [here, splitBreak, splitBreak, same, snoc]
      exact ⟨[] :: before, last, rfl, rfl⟩
    · obtain ⟨first, more, split, grown⟩ := splitCons here text
      obtain ⟨first', more', split', grown'⟩ := splitCons here (text ++ [c])
      rw [grown, grown']
      rw [same] at split
      rw [snoc] at split'
      cases before with
      | nil =>
        obtain ⟨rfl, rfl⟩ := List.cons.inj split
        obtain ⟨rfl, rfl⟩ := List.cons.inj split'
        exact ⟨[], d :: last, rfl, rfl⟩
      | cons head before =>
        obtain ⟨rfl, rfl⟩ := List.cons.inj split
        obtain ⟨rfl, rfl⟩ := List.cons.inj split'
        exact ⟨(d :: head) :: before, last, rfl, rfl⟩

theorem splitJoined {parts : List (List α)} (some : parts ≠ []) :
    ([sep].intercalate parts).splitOn sep = parts.flatMap (List.splitOn sep) := by
  induction parts with
  | nil => exact absurd rfl some
  | cons part rest ih =>
    cases rest with
    | nil => simp [List.intercalate]
    | cons next rest =>
      have joined : [sep].intercalate (part :: next :: rest) = part ++ sep :: [sep].intercalate (next :: rest) := by
        simp [List.intercalate]
      rw [joined, List.splitOn_append_cons_self, ih (List.cons_ne_nil _ _)]
      rfl

end
end HarnessMem.Pieces
