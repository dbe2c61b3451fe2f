import Mathlib.Data.List.Nodup

/-! Records under a key in the order their keys first came in: putting a record replaces the one
that holds its key, in place, or goes to the end. -/
namespace HarnessMem.KeyedList

section
variable {Row Key : Type*} [DecidableEq Key] (key : Row → Key)

def get (k : Key) (rows : List Row) : Option Row := rows.find? (fun row => key row = k)

def put (row : Row) : List Row → List Row
  | [] => [row]
  | held :: rest => if key held = key row then row :: rest else held :: put row rest

def putAll (rows held : List Row) : List Row := rows.foldl (fun held row => put key row held) held

variable {key}

theorem getMem {k : Key} {rows : List Row} {row : Row} (found : get key k rows = some row) :
    row ∈ rows ∧ key row = k :=
  ⟨List.mem_of_find?_eq_some found, of_decide_eq_true (List.find?_some (p := fun row => decide (key row = k)) found)⟩

theorem getNone {k : Key} {rows : List Row} : get key k rows = none ↔ ∀ row ∈ rows, key row ≠ k := by
  simp [get]

theorem getPut (k : Key) (row : Row) (rows : List Row) :
    get key k (put key row rows) = if key row = k then some row else get key k rows := by
  induction rows with
  | nil => by_cases here : key row = k <;> simp [put, get, here]
  | cons held rest ih =>
    unfold put
    by_cases same : key held = key row
    · rw [if_pos same]
      by_cases here : key row = k
      · simp [get, here]
      · simp [get, same, here]
    · rw [if_neg same]
      by_cases here : key held = k
      · have other : key row ≠ k := fun eq => same (here.trans eq.symm)
        simp [get, here, other]
      · rw [get, List.find?_cons_of_neg (by simpa using here), ← get, ih, get, get, List.find?_cons_of_neg (by simpa using here)]

theorem memPut {row other : Row} {rows : List Row} (mem : other ∈ put key row rows) : other = row ∨ other ∈ rows := by
  induction rows with
  | nil => exact .inl (List.mem_singleton.mp mem)
  | cons held rest ih =>
    unfold put at mem
    split at mem
    · exact (List.mem_cons.mp mem).imp_right (List.mem_cons_of_mem _)
    · rcases List.mem_cons.mp mem with rfl | later
      · exact .inr List.mem_cons_self
      · exact (ih later).imp_right (List.mem_cons_of_mem _)

theorem putKeys (row : Row) (rows : List Row) :
    (put key row rows).map key = if key row ∈ rows.map key then rows.map key else rows.map key ++ [key row] := by
  induction rows with
  | nil => rfl
  | cons held rest ih =>
    unfold put
    by_cases same : key held = key row
    · simp [same]
    · rw [if_neg same, List.map_cons, ih, List.map_cons]
      by_cases known : key row ∈ rest.map key
      · rw [if_pos known, if_pos (List.mem_cons_of_mem _ known)]
      · have absent : key row ∉ key held :: rest.map key := fun mem =>
          (List.mem_cons.mp mem).elim (fun eq => same eq.symm) known
        rw [if_neg known, if_neg absent, List.cons_append]

theorem putUnique {rows : List Row} (unique : (rows.map key).Nodup) (row : Row) : ((put key row rows).map key).Nodup := by
  rw [putKeys]
  split
  · exact unique
  · rename_i absent
    exact List.nodup_append.mpr ⟨unique, List.nodup_singleton _, fun a mem b last =>
      fun same => absent (List.mem_singleton.mp last ▸ same ▸ mem)⟩

theorem putAllUnique {held : List Row} (unique : (held.map key).Nodup) (rows : List Row) :
    ((putAll key rows held).map key).Nodup := by
  induction rows generalizing held with
  | nil => exact unique
  | cons row rest ih => exact ih (putUnique unique row)

theorem putNew {row : Row} {rows : List Row} (absent : key row ∉ rows.map key) : put key row rows = rows ++ [row] := by
  induction rows with
  | nil => rfl
  | cons held rest ih =>
    obtain ⟨here, later⟩ := not_or.mp (fun mem => absent (List.mem_cons.mpr mem))
    rw [put, if_neg (fun same => here same.symm), ih later, List.cons_append]

-- Putting a record where it is already held changes nothing.
theorem putHeld {row : Row} {rows : List Row} (found : get key (key row) rows = some row) : put key row rows = rows := by
  induction rows with
  | nil => cases found
  | cons held rest ih =>
    unfold put
    by_cases same : key held = key row
    · rw [get, List.find?_cons_of_pos (by simpa using same)] at found
      rw [if_pos same, Option.some.inj found]
    · rw [get, List.find?_cons_of_neg (by simpa using same)] at found
      rw [if_neg same, ih found]

-- A list without repeated keys is what putting its records one by one builds.
theorem putAllSelf {rows held : List Row} (unique : ((held ++ rows).map key).Nodup) : putAll key rows held = held ++ rows := by
  induction rows generalizing held with
  | nil => rw [List.append_nil]; rfl
  | cons row rest ih =>
    rw [List.map_append, List.map_cons] at unique
    have absent : key row ∉ held.map key := fun mem =>
      (List.nodup_append.mp unique).2.2 _ mem _ List.mem_cons_self rfl
    change putAll key rest (put key row held) = _
    rw [putNew absent, ih (by simpa using unique), List.append_assoc, List.singleton_append]

-- The other way round: the record that came first holds its key.
variable (key) in
def enrol (held : List Row) (row : Row) : List Row := if key row ∈ held.map key then held else held ++ [row]

theorem enrolUnique {held : List Row} (unique : (held.map key).Nodup) (row : Row) : ((enrol key held row).map key).Nodup := by
  unfold enrol
  split
  · exact unique
  · rename_i absent
    rw [← putNew absent]
    exact putUnique unique row

theorem getEnrolled (k : Key) (held : List Row) (row : Row) :
    get key k (enrol key held row) = (get key k held).or (get key k [row]) := by
  unfold enrol
  split
  · rename_i known
    cases found : get key k held with
    | some first => rfl
    | none =>
      have other : key row ≠ k := fun same => by
        obtain ⟨twin, mem, same'⟩ := List.mem_map.mp known
        exact getNone.mp found twin mem (same'.trans same)
      simp [get, other]
  · exact List.find?_append

theorem enrolAllUnique {held : List Row} (unique : (held.map key).Nodup) (rows : List Row) :
    ((rows.foldl (enrol key) held).map key).Nodup := by
  induction rows generalizing held with
  | nil => exact unique
  | cons row rest ih => exact ih (enrolUnique unique row)

theorem getEnrolledAll (k : Key) (rows held : List Row) :
    get key k (rows.foldl (enrol key) held) = (get key k held).or (get key k rows) := by
  induction rows generalizing held with
  | nil => rw [List.foldl_nil]; simp [get]
  | cons row rest ih =>
    have split : get key k ([row] ++ rest) = (get key k [row]).or (get key k rest) := List.find?_append
    rw [List.singleton_append] at split
    rw [List.foldl_cons, ih, getEnrolled, split, Option.or_assoc]

theorem enrolledPrefix (rows held : List Row) : held <+: rows.foldl (enrol key) held := by
  induction rows generalizing held with
  | nil => exact List.prefix_rfl
  | cons row rest ih =>
    refine List.IsPrefix.trans ?_ (ih (enrol key held row))
    unfold enrol
    split
    · exact List.prefix_rfl
    · exact List.prefix_append _ _

theorem memEnrolled {row : Row} {rows held : List Row} (mem : row ∈ rows.foldl (enrol key) held) : row ∈ held ∨ row ∈ rows := by
  induction rows generalizing held with
  | nil => exact .inl mem
  | cons first rest ih =>
    refine (ih mem).elim (fun old => ?_) (fun later => .inr (List.mem_cons_of_mem _ later))
    unfold enrol at old
    split at old
    · exact .inl old
    · exact (List.mem_append.mp old).imp_right fun new => List.mem_cons.mpr (.inl (List.mem_singleton.mp new))

theorem memEnrolledKeys {k : Key} {rows held : List Row} :
    k ∈ (rows.foldl (enrol key) held).map key ↔ k ∈ held.map key ∨ k ∈ rows.map key := by
  induction rows generalizing held with
  | nil => simp
  | cons row rest ih =>
    rw [List.foldl_cons, ih, List.map_cons, List.mem_cons]
    unfold enrol
    split
    · rename_i known
      exact ⟨fun either => either.imp_right .inr, fun either => either.elim .inl fun new => new.elim (fun same => .inl (same ▸ known)) .inr⟩
    · rw [List.map_append, List.mem_append, List.map_singleton, List.mem_singleton, or_assoc]

theorem enrolledHeld {rows held : List Row} (known : ∀ row ∈ rows, key row ∈ held.map key) : rows.foldl (enrol key) held = held := by
  induction rows with
  | nil => rfl
  | cons row rest ih =>
    obtain ⟨here, later⟩ := List.forall_mem_cons.mp known
    rw [List.foldl_cons, enrol, if_pos here, ih later]

-- Under distinct keys, what holds a key is what the key finds.
theorem filterUnique {rows : List Row} (unique : (rows.map key).Nodup) (k : Key) :
    rows.filter (fun row => key row = k) = (get key k rows).toList := by
  induction rows with
  | nil => rfl
  | cons row rest ih =>
    obtain ⟨absent, unique'⟩ := List.nodup_cons.mp unique
    by_cases here : key row = k
    · have none : rest.filter (fun row => key row = k) = [] :=
        List.filter_eq_nil_iff.mpr fun other mem same => absent (List.mem_map.mpr ⟨other, mem, (of_decide_eq_true same).trans here.symm⟩)
      rw [List.filter_cons_of_pos (by simpa using here), none, get, List.find?_cons_of_pos (by simpa using here)]
      rfl
    · rw [List.filter_cons_of_neg (by simpa using here), ih unique', get, get, List.find?_cons_of_neg (by simpa using here)]

end
end HarnessMem.KeyedList
