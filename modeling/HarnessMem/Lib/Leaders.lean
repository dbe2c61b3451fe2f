import Mathlib.Data.List.Nodup

/-! Greedy grouping of a list: each item joins a leader picked from those before it, or becomes a
leader itself. Only what `pick` promises is used, never how it chooses. -/
namespace HarnessMem.Leaders

variable {Item : Type*}

-- `pick` answers with a leader near the item, and with none only when no leader is near.
structure Picks (near : Item → Item → Prop) (pick : List Item → Item → Option Item) : Prop where
  sound : ∀ leaders item leader, pick leaders item = some leader → leader ∈ leaders ∧ near leader item
  complete : ∀ leaders item, pick leaders item = none → ∀ leader ∈ leaders, ¬ near leader item

-- The leaders in order, and each follower with its leader.
def group (pick : List Item → Item → Option Item) : List Item → List Item → List Item × List (Item × Item)
  | leaders, [] => (leaders, [])
  | leaders, item :: rest =>
    match pick leaders item with
    | some leader => ((group pick leaders rest).1, (item, leader) :: (group pick leaders rest).2)
    | none => group pick (leaders ++ [item]) rest

-- The leaders by nearness alone.
def leading (near : Item → Item → Prop) [DecidableRel near] : List Item → List Item → List Item
  | leaders, [] => leaders
  | leaders, item :: rest =>
    if ∃ leader ∈ leaders, near leader item then leading near leaders rest else leading near (leaders ++ [item]) rest

section
variable {near : Item → Item → Prop} {pick : List Item → Item → Option Item}

theorem groupFollows {leaders rest : List Item} {item leader : Item} (picked : pick leaders item = some leader) :
    group pick leaders (item :: rest) = ((group pick leaders rest).1, (item, leader) :: (group pick leaders rest).2) := by
  simp only [group, picked]

theorem groupLeads {leaders rest : List Item} {item : Item} (free : pick leaders item = none) :
    group pick leaders (item :: rest) = group pick (leaders ++ [item]) rest := by
  simp only [group, free]

-- Once a leader, always a leader.
theorem groupKeeps (leaders items : List Item) : leaders <+: (group pick leaders items).1 := by
  induction items generalizing leaders with
  | nil => exact List.prefix_refl leaders
  | cons item rest ih =>
    cases picked : pick leaders item with
    | some leader =>
      rw [groupFollows picked]
      exact ih leaders
    | none =>
      rw [groupLeads picked]
      exact (List.prefix_append leaders [item]).trans (ih (leaders ++ [item]))

variable (pick) in
theorem groupPerm (leaders items : List Item) :
    ((group pick leaders items).1 ++ (group pick leaders items).2.map Prod.fst).Perm (leaders ++ items) := by
  induction items generalizing leaders with
  | nil => simp [group]
  | cons item rest ih =>
    cases picked : pick leaders item with
    | some leader =>
      rw [groupFollows picked, List.map_cons]
      exact List.perm_middle.trans (((ih leaders).cons item).trans List.perm_middle.symm)
    | none =>
      rw [groupLeads picked]
      simpa only [List.append_assoc, List.singleton_append] using ih (leaders ++ [item])

-- A follower follows a leader that is near it.
theorem groupFollower (picks : Picks near pick) {leaders items : List Item} {pair : Item × Item}
    (mem : pair ∈ (group pick leaders items).2) :
    pair.1 ∈ items ∧ pair.2 ∈ (group pick leaders items).1 ∧ near pair.2 pair.1 := by
  induction items generalizing leaders with
  | nil => exact absurd mem List.not_mem_nil
  | cons item rest ih =>
    cases picked : pick leaders item with
    | some leader =>
      rw [groupFollows picked] at mem ⊢
      rcases List.mem_cons.mp mem with rfl | later
      · obtain ⟨led, close⟩ := picks.sound _ _ _ picked
        exact ⟨List.mem_cons_self, (groupKeeps leaders rest).subset led, close⟩
      · obtain ⟨held, led, close⟩ := ih later
        exact ⟨List.mem_cons_of_mem _ held, led, close⟩
    | none =>
      rw [groupLeads picked] at mem ⊢
      obtain ⟨held, led, close⟩ := ih mem
      exact ⟨List.mem_cons_of_mem _ held, led, close⟩

-- No leader is near a later one.
theorem groupApart (picks : Picks near pick) {leaders : List Item} (items : List Item)
    (apart : leaders.Pairwise (fun a b => ¬ near a b)) :
    (group pick leaders items).1.Pairwise (fun a b => ¬ near a b) := by
  induction items generalizing leaders with
  | nil => exact apart
  | cons item rest ih =>
    cases picked : pick leaders item with
    | some leader =>
      rw [groupFollows picked]
      exact ih apart
    | none =>
      rw [groupLeads picked]
      refine ih (List.pairwise_append.mpr ⟨apart, List.pairwise_singleton _ item, fun leader led other last => ?_⟩)
      rw [List.mem_singleton.mp last]
      exact picks.complete _ _ picked leader led

-- Items no two of which are near all lead, in whatever order they come.
theorem groupNone (picks : Picks near pick) {leaders items : List Item}
    (apart : (leaders ++ items).Pairwise (fun a b => ¬ near a b)) : group pick leaders items = (leaders ++ items, []) := by
  induction items generalizing leaders with
  | nil => simp [group]
  | cons item rest ih =>
    cases picked : pick leaders item with
    | some leader =>
      obtain ⟨led, close⟩ := picks.sound _ _ _ picked
      exact absurd close ((List.pairwise_append.mp apart).2.2 leader led item List.mem_cons_self)
    | none =>
      rw [List.append_cons] at apart
      rw [groupLeads picked, ih apart, List.append_assoc, List.singleton_append]

end

section
variable {near : Item → Item → Prop} [DecidableRel near] {pick : List Item → Item → Option Item}

theorem leadingFollows (picks : Picks near pick) {leaders rest : List Item} {item leader : Item}
    (picked : pick leaders item = some leader) : leading near leaders (item :: rest) = leading near leaders rest :=
  if_pos ⟨leader, picks.sound _ _ _ picked⟩

theorem leadingLeads (picks : Picks near pick) {leaders rest : List Item} {item : Item} (free : pick leaders item = none) :
    leading near leaders (item :: rest) = leading near (leaders ++ [item]) rest :=
  if_neg (fun ⟨leader, led, close⟩ => picks.complete _ _ free leader led close)

-- Who follows whom: each item goes to its pick among those leading before it.
theorem groupPairs (picks : Picks near pick) {leaders items : List Item} {item leader : Item} :
    (item, leader) ∈ (group pick leaders items).2 ↔
      ∃ front back, items = front ++ item :: back ∧ pick (leading near leaders front) item = some leader := by
  induction items generalizing leaders with
  | nil => simp [group]
  | cons first rest ih =>
    cases picked : pick leaders first with
    | some head =>
      rw [groupFollows picked, List.mem_cons, ih]
      constructor
      · rintro (is | ⟨front, back, rfl, found⟩)
        · obtain ⟨rfl, rfl⟩ := Prod.mk.inj is
          exact ⟨[], rest, rfl, picked⟩
        · exact ⟨first :: front, back, rfl, by rwa [leadingFollows picks picked]⟩
      · rintro ⟨_ | ⟨same, front⟩, back, split, found⟩
        · obtain ⟨rfl, -⟩ := List.cons.inj split
          exact .inl (Prod.ext rfl (Option.some.inj (found.symm.trans picked)))
        · obtain ⟨rfl, rfl⟩ := List.cons.inj split
          rw [leadingFollows picks picked] at found
          exact .inr ⟨front, back, rfl, found⟩
    | none =>
      rw [groupLeads picked, ih]
      constructor
      · rintro ⟨front, back, rfl, found⟩
        exact ⟨first :: front, back, rfl, by rwa [leadingLeads picks picked]⟩
      · rintro ⟨_ | ⟨same, front⟩, back, split, found⟩
        · obtain ⟨rfl, -⟩ := List.cons.inj split
          exact absurd (found.symm.trans picked) (Option.some_ne_none _)
        · obtain ⟨rfl, rfl⟩ := List.cons.inj split
          rw [leadingLeads picks picked] at found
          exact ⟨front, back, rfl, found⟩
end

end HarnessMem.Leaders
