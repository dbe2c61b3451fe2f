import Mathlib.Data.List.Nodup

/-! Lists with at most one row a key, in the order the keys first came up: a row whose key is there
already is joined into the one that has it. -/
namespace HarnessMem.KeyedMerge

section
variable {Row Key : Type*} [DecidableEq Key] (key : Row → Key) (join : Row → Row → Row)

def merge (row : Row) : List Row → List Row
  | [] => [row]
  | held :: rest => if key held = key row then join held row :: rest else held :: merge row rest

def mergeAll (rows held : List Row) : List Row := rows.foldl (fun held row => merge key join row held) held

variable {key join}

section
variable (keyed : ∀ held row, key held = key row → key (join held row) = key held)
include keyed

theorem mergeKeys (row : Row) (held : List Row) :
    (merge key join row held).map key = if key row ∈ held.map key then held.map key else held.map key ++ [key row] := by
  induction held with
  | nil => simp [merge]
  | cons first rest ih =>
    unfold merge
    by_cases here : key first = key row
    · simp [here, keyed first row here]
    · rw [if_neg here, List.map_cons, ih, List.map_cons]
      by_cases later : key row ∈ rest.map key
      · rw [if_pos later, if_pos (List.mem_cons_of_mem _ later)]
      · rw [if_neg later, if_neg (fun mem => later ((List.mem_cons.mp mem).resolve_left (Ne.symm here))), List.cons_append]

theorem memMergeKeys {k : Key} {row : Row} {held : List Row} :
    k ∈ (merge key join row held).map key ↔ k = key row ∨ k ∈ held.map key := by
  rw [mergeKeys keyed]
  by_cases there : key row ∈ held.map key
  · rw [if_pos there]
    exact ⟨.inr, fun either => either.elim (fun same => same ▸ there) id⟩
  · rw [if_neg there, List.mem_append, List.mem_singleton, or_comm]

theorem mergeUnique {held : List Row} (unique : (held.map key).Nodup) (row : Row) : ((merge key join row held).map key).Nodup := by
  rw [mergeKeys keyed]
  by_cases there : key row ∈ held.map key
  · rwa [if_pos there]
  · rw [if_neg there]
    exact unique.append (List.nodup_singleton _) (List.disjoint_singleton.mpr there)

theorem mergeAllUnique {held : List Row} (unique : (held.map key).Nodup) (rows : List Row) : ((mergeAll key join rows held).map key).Nodup := by
  induction rows generalizing held with
  | nil => exact unique
  | cons row rest ih => exact ih (mergeUnique keyed unique row)

theorem memMergeAllKeys {k : Key} {rows held : List Row} :
    k ∈ (mergeAll key join rows held).map key ↔ k ∈ held.map key ∨ k ∈ rows.map key := by
  induction rows generalizing held with
  | nil => simp [mergeAll]
  | cons row rest ih =>
    show k ∈ (mergeAll key join rest (merge key join row held)).map key ↔ _
    rw [ih, memMergeKeys keyed, List.map_cons, List.mem_cons]
    tauto

-- The keys that were there keep their places.
theorem mergeAllPrefix (rows held : List Row) : held.map key <+: (mergeAll key join rows held).map key := by
  induction rows generalizing held with
  | nil => exact List.prefix_rfl
  | cons row rest ih =>
    refine List.IsPrefix.trans ?_ (ih (merge key join row held))
    rw [mergeKeys keyed]
    split
    · exact List.prefix_rfl
    · exact List.prefix_append _ _
end

-- What joining keeps, merging keeps of every row.
theorem mergeForall {P : Row → Prop} (joined : ∀ held row, P held → P row → P (join held row)) {row : Row} (own : P row) {held : List Row}
    (all : ∀ other ∈ held, P other) : ∀ other ∈ merge key join row held, P other := by
  induction held with
  | nil => exact fun other mem => List.mem_singleton.mp mem ▸ own
  | cons first rest ih =>
    obtain ⟨here, later⟩ := List.forall_mem_cons.mp all
    unfold merge
    split
    · exact List.forall_mem_cons.mpr ⟨joined first row here own, later⟩
    · exact List.forall_mem_cons.mpr ⟨here, ih later⟩

theorem mergeAllForall {P : Row → Prop} (joined : ∀ held row, P held → P row → P (join held row)) {rows held : List Row}
    (news : ∀ row ∈ rows, P row) (all : ∀ other ∈ held, P other) : ∀ other ∈ mergeAll key join rows held, P other := by
  induction rows generalizing held with
  | nil => exact all
  | cons row rest ih =>
    obtain ⟨own, later⟩ := List.forall_mem_cons.mp news
    exact ih later (mergeForall joined own all)

end
end HarnessMem.KeyedMerge
