import Mathlib.Data.List.Nodup
import Mathlib.Logic.Relation

/-! Lists that grow at the end and whose rows may name the key of an earlier row: every trail of
links goes strictly back and ends at a row without one. -/
namespace HarnessMem.Backlinks

section
variable {Row Key : Type*} (key : Row → Key) (link : Row → Option Key) (kin : Row → Row → Prop)

-- Each link names a row before its own, of the same kind.
def Backward (rows : List Row) : Prop :=
  ∀ before row after, rows = before ++ row :: after → ∀ k, link row = some k → ∃ parent ∈ before, key parent = k ∧ kin parent row

def Follows (rows : List Row) (row parent : Row) : Prop := parent ∈ rows ∧ link row = some (key parent)

variable {key link kin}

theorem backwardNil : Backward key link kin [] := fun before row after split => by simp at split

theorem backwardSnoc {rows : List Row} {row : Row} (back : Backward key link kin rows)
    (last : ∀ k, link row = some k → ∃ parent ∈ rows, key parent = k ∧ kin parent row) : Backward key link kin (rows ++ [row]) := by
  intro before other after split
  rcases List.eq_nil_or_concat after with rfl | ⟨rest, final, rfl⟩
  · obtain ⟨rfl, same⟩ := List.append_inj' split rfl
    cases same
    exact last
  · rw [List.concat_eq_append, ← List.cons_append, ← List.append_assoc] at split
    exact back before other rest (List.append_inj' split rfl).1

-- A change that no key, link or kinship shows.
theorem backwardMap {change : Row → Row} (keys : ∀ row, key (change row) = key row)
    (links : ∀ row, link (change row) = link row) (kinship : ∀ a b, kin a b → kin (change a) (change b)) {rows : List Row}
    (back : Backward key link kin rows) : Backward key link kin (rows.map change) := by
  intro before row after split k linked
  obtain ⟨front, tail, rfl, rfl, rest⟩ := List.map_eq_append_iff.mp split
  obtain ⟨old, behind, rfl, rfl, rfl⟩ := List.map_eq_cons_iff.mp rest
  obtain ⟨parent, earlier, same, alike⟩ := back front old behind rfl k (links old ▸ linked)
  exact ⟨change parent, List.mem_map_of_mem earlier, (keys parent).trans same, kinship _ _ alike⟩

theorem rooted (refl : ∀ row, kin row row) (trans : ∀ a b c, kin a b → kin b c → kin a c) {rows : List Row}
    (back : Backward key link kin rows) :
    ∀ row ∈ rows, ∃ root ∈ rows, Relation.ReflTransGen (Follows key link rows) row root ∧ link root = none ∧ kin root row := by
  -- Induction on the number of rows before the one asked about.
  suffices trail : ∀ n before row after, before.length = n → rows = before ++ row :: after →
      ∃ root ∈ rows, Relation.ReflTransGen (Follows key link rows) row root ∧ link root = none ∧ kin root row by
    intro row mem
    obtain ⟨before, after, split⟩ := List.append_of_mem mem
    exact trail before.length before row after rfl split
  intro n
  induction n using Nat.strongRecOn with
  | ind n ih =>
    intro before row after length split
    cases linked : link row with
    | none => exact ⟨row, by simp [split], .refl, linked, refl row⟩
    | some k =>
      obtain ⟨parent, earlier, same, alike⟩ := back before row after split k linked
      obtain ⟨first, second, parts⟩ := List.append_of_mem earlier
      have shorter : first.length < n := by rw [← length, parts]; simp
      have whole : rows = first ++ parent :: (second ++ row :: after) := by rw [split, parts]; simp
      obtain ⟨root, held, path, ends, kinship⟩ := ih first.length shorter first parent _ rfl whole
      exact ⟨root, held, .head ⟨by simp [whole], same ▸ linked⟩ path, ends, trans _ _ _ kinship alike⟩

theorem acyclic {rows : List Row} (unique : (rows.map key).Nodup) (back : Backward key link kin rows) :
    ∀ row ∈ rows, ¬ Relation.TransGen (Follows key link rows) row row := by
  classical
  -- The position of a row's key falls along every link.
  have falls : ∀ row ∈ rows, ∀ parent, Follows key link rows row parent →
      (rows.map key).idxOf (key parent) < (rows.map key).idxOf (key row) := by
    intro row mem parent ⟨held, linked⟩
    obtain ⟨before, after, split⟩ := List.append_of_mem mem
    obtain ⟨other, earlier, same, -⟩ := back before row after split _ linked
    have inside : key parent ∈ before.map key := same ▸ List.mem_map_of_mem earlier
    have outside : key row ∉ before.map key := by
      rw [split, List.map_append, List.map_cons] at unique
      exact fun twice => (List.nodup_append.mp unique).2.2 _ twice _ List.mem_cons_self rfl
    rw [split, List.map_append, List.map_cons, List.idxOf_append_of_mem inside, List.idxOf_append_of_notMem outside,
      List.idxOf_cons_self]
    simpa using List.idxOf_lt_length_of_mem inside
  intro row mem loop
  have below : ∀ target, Relation.TransGen (Follows key link rows) row target →
      target ∈ rows ∧ (rows.map key).idxOf (key target) < (rows.map key).idxOf (key row) := by
    intro target path
    induction path with
    | single step => exact ⟨step.1, falls row mem _ step⟩
    | tail _ step ih => exact ⟨step.1, Nat.lt_trans (falls _ ih.1 _ step) ih.2⟩
  exact Nat.lt_irrefl _ (below row loop).2

end
end HarnessMem.Backlinks
