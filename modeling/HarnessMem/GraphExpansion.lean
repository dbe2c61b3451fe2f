import HarnessMem.GraphReasoner

/-! What an expansion over the entity graph returns: nothing further than it is asked for, and all of
it where its limits leave room. -/
namespace HarnessMem.GraphReasoner
open Js Text Recorder Search Breadth

-- The orders SQLite takes the rows of the two statements in.
structure Orders where
  mentions : Tables.Scan Relation
  ids : Tables.Scan String

def newEntities (orders : Orders) (relations : List Relation) (walk : Walk) : List String :=
  ((walk.frontier.flatMap (fun id => (orders.mentions.arrange (relations.filter (fun relation =>
    relation.observationId = id))).flatMap (fun relation => [relation.src, relation.dst]))).filter (fun entity =>
      entity ∉ walk.entities)).eraseDups

def touching (relations : List Relation) (batch : List String) : List String :=
  ((relations.filter (touches batch)).map Relation.observationId).eraseDups

def expandBatch (orders : Orders) (relations : List Relation) (walk : Walk) (batch : List String) : Walk :=
  if 20 ≤ walk.added then walk
  else ((orders.ids.arrange (touching relations batch)).take (20 - walk.added + walk.frontier.length)).foldl visit walk

def expandHop (orders : Orders) (relations : List Relation) (walk : Walk) : Option Walk :=
  if walk.frontier = [] ∨ 20 ≤ walk.added then none
  else
    let fresh := newEntities orders relations walk
    if fresh = [] then none
    else
      let began := {walk with entities := walk.entities ++ fresh, next := []}
      let reached := (batches 50 fresh.length fresh).foldl (expandBatch orders relations) began
      some {reached with frontier := reached.next}

def expandHops (orders : Orders) (relations : List Relation) : Nat → Walk → Walk
  | 0, walk => walk
  | hops + 1, walk =>
    match expandHop orders relations walk with
    | none => walk
    | some reached => expandHops orders relations hops reached

def expandObservationsViaGraph (orders : Orders) (db : Db) (seedObsIds : List String) (depth : Number) : List String :=
  (expandHops orders db.relations (graphHops depth) ⟨seedObsIds.eraseDups, seedObsIds.eraseDups, [], 0, []⟩).seen

theorem eraseDupsNodup (ids : List String) : ids.eraseDups.Nodup := by
  induction n : ids.length using Nat.strongRecOn generalizing ids with
  | _ n ih =>
    cases ids with
    | nil => exact List.nodup_nil
    | cons id rest =>
      rw [List.eraseDups_cons]
      refine List.nodup_cons.mpr ⟨?_, ih _ ?_ _ rfl⟩
      · simp [List.mem_eraseDups]
      · rw [← n, List.length_cons]
        exact Nat.lt_succ_of_le (List.length_filter_le _ _)

theorem eraseDupsSame {ids : List String} (once : ids.Nodup) : ids.eraseDups = ids := by
  induction ids with
  | nil => rfl
  | cons id rest ih =>
    obtain ⟨new, once⟩ := List.nodup_cons.mp once
    have kept : rest.filter (fun other => !other == id) = rest := by
      refine List.filter_eq_self.mpr (fun other mem => ?_)
      have apart : other ≠ id := fun same => new (same ▸ mem)
      simpa using apart
    rw [List.eraseDups_cons, kept, ih once]

-- The search takes the rows as they are stored, from distinct seeds.
theorem expandStored (db : Db) {seeds : List String} (once : seeds.Nodup) (depth : Number) :
    expandObservationsViaGraph ⟨Tables.inOrder, Tables.inOrder⟩ db seeds depth = Search.expandObservationsViaGraph db seeds depth := by
  have hops : ∀ n walk, expandHops ⟨Tables.inOrder, Tables.inOrder⟩ db.relations n walk = walkHops db.relations n walk := by
    intro n
    induction n with
    | zero => exact fun _ => rfl
    | succ n ih =>
      intro walk
      have hop : expandHop ⟨Tables.inOrder, Tables.inOrder⟩ db.relations walk = hopOnce db.relations walk := rfl
      rw [expandHops, walkHops, hop]
      cases hopOnce db.relations walk with
      | none => rfl
      | some reached => exact ih reached
  rw [expandObservationsViaGraph, Search.expandObservationsViaGraph, eraseDupsSame once, hops]

-- The walk with some observations more.
def grow (walk : Walk) (new : List String) : Walk :=
  {walk with seen := walk.seen ++ new, next := walk.next ++ new, added := walk.added + new.length}

-- What the seeds lead to in so many hops: observations that share an entity are a hop apart.
def Sharing (relations : List Relation) (a b : String) : Prop :=
  ∃ entity, Mentions relations a entity ∧ Mentions relations b entity

theorem visitsGrow {ids : List String} (once : ids.Nodup) (walk : Walk) :
    ids.foldl visit walk = grow walk ((ids.filter (fun id => id ∉ walk.seen)).take (20 - walk.added)) := by
  induction ids generalizing walk with
  | nil => simp [grow]
  | cons id rest ih =>
    obtain ⟨new, once⟩ := List.nodup_cons.mp once
    rw [List.foldl_cons, visit]
    split
    · rename_i stays
      rw [ih once]
      rcases stays with seen | full
      · rw [List.filter_cons_of_neg (by simpa using seen)]
      · rw [Nat.sub_eq_zero_of_le full, List.take_zero, List.take_zero]
    · rename_i goes
      obtain ⟨unseen, room⟩ := not_or.mp goes
      have kept : rest.filter (fun other => other ∉ walk.seen ++ [id]) = rest.filter (fun other => other ∉ walk.seen) := by
        refine List.filter_congr (fun other mem => ?_)
        have apart : other ≠ id := fun same => new (same ▸ mem)
        simp [apart]
      obtain ⟨left, more⟩ : ∃ left, 20 - walk.added = left + 1 := ⟨19 - walk.added, by omega⟩
      have less : 20 - (walk.added + 1) = left := by omega
      rw [ih once, List.filter_cons_of_pos (by simpa using unseen), more, List.take_succ_cons]
      simp only [grow, kept, less, List.append_assoc, List.singleton_append, List.length_cons]
      simp only [Walk.mk.injEq, true_and, and_true]
      omega

theorem memTouching {relations : List Relation} {batch : List String} {id : String} :
    id ∈ touching relations batch ↔ ∃ entity ∈ batch, Mentions relations id entity := by
  simp only [touching, List.mem_eraseDups, List.mem_map, List.mem_filter, touches, Bool.or_eq_true, List.contains_iff_mem]
  constructor
  · rintro ⟨relation, ⟨mem, src | dst⟩, rfl⟩
    · exact ⟨relation.src, src, relation, mem, rfl, .inl rfl⟩
    · exact ⟨relation.dst, dst, relation, mem, rfl, .inr rfl⟩
  · rintro ⟨entity, inside, relation, mem, rfl, rfl | rfl⟩
    · exact ⟨relation, ⟨mem, .inl inside⟩, rfl⟩
    · exact ⟨relation, ⟨mem, .inr inside⟩, rfl⟩

theorem memNewEntities {orders : Orders} {relations : List Relation} {walk : Walk} {entity : String} :
    entity ∈ newEntities orders relations walk ↔
      (∃ id ∈ walk.frontier, Mentions relations id entity) ∧ entity ∉ walk.entities := by
  simp only [newEntities, List.mem_eraseDups, List.mem_filter, List.mem_flatMap, Tables.Scan.mem, List.mem_cons,
    List.not_mem_nil, or_false, decide_eq_true_eq, Mentions]
  refine and_congr_left (fun _ => exists_congr fun id => and_congr_right fun _ => ?_)
  constructor
  · rintro ⟨relation, ⟨mem, is⟩, rfl | rfl⟩
    · exact ⟨relation, mem, is, .inl rfl⟩
    · exact ⟨relation, mem, is, .inr rfl⟩
  · rintro ⟨relation, mem, is, rfl | rfl⟩
    · exact ⟨relation, ⟨mem, is⟩, .inl rfl⟩
    · exact ⟨relation, ⟨mem, is⟩, .inr rfl⟩

-- What one batch adds: of the rows the statement may return, those not seen yet.
def found (orders : Orders) (relations : List Relation) (walk : Walk) (batch : List String) : List String :=
  (((orders.ids.arrange (touching relations batch)).take (20 - walk.added + walk.frontier.length)).filter (fun id =>
    id ∉ walk.seen)).take (20 - walk.added)

section
variable {orders : Orders} {relations : List Relation} {seeds batch : List String} {walk : Walk} {h hops : Nat}

variable (orders) in
theorem arrangedOnce : (orders.ids.arrange (touching relations batch)).Nodup :=
  (orders.ids.perm _).nodup_iff.mpr (eraseDupsNodup _)

theorem expandBatchGrow : expandBatch orders relations walk batch = grow walk (found orders relations walk batch) := by
  unfold expandBatch
  split
  · rename_i full
    simp [found, grow, Nat.sub_eq_zero_of_le full]
  · exact visitsGrow ((arrangedOnce orders).sublist (List.take_sublist _ _)) walk

variable (orders relations batch walk) in
theorem foundNew : (found orders relations walk batch).Nodup ∧ (found orders relations walk batch).length ≤ 20 - walk.added ∧
    ∀ id ∈ found orders relations walk batch, id ∉ walk.seen ∧ ∃ entity ∈ batch, Mentions relations id entity := by
  refine ⟨?_, List.length_take_le _ _, fun id mem => ?_⟩
  · refine List.Nodup.sublist (List.take_sublist _ _) (List.Nodup.filter _ ?_)
    exact (arrangedOnce orders).sublist (List.take_sublist _ _)
  · obtain ⟨row, unseen⟩ := List.mem_filter.mp (List.mem_of_mem_take mem)
    have touched := List.mem_of_mem_take row
    rw [Tables.Scan.mem, memTouching] at touched
    exact ⟨by simpa using unseen, touched⟩

-- At any time: the seeds and at most twenty others, all of them near enough.
structure Grown (relations : List Relation) (seeds : List String) (h : Nat) (walk : Walk) : Prop where
  split : ∃ extra, walk.seen = seeds ++ extra ∧ walk.added = extra.length
  once : walk.seen.Nodup
  few : walk.added ≤ 20
  near : ∀ id ∈ walk.seen, Within (· ∈ seeds) (Sharing relations) h id

theorem growGrown (grown : Grown relations seeds h walk) {new : List String} (once : new.Nodup)
    (room : new.length ≤ 20 - walk.added)
    (fresh : ∀ id ∈ new, id ∉ walk.seen ∧ Within (· ∈ seeds) (Sharing relations) h id) : Grown relations seeds h (grow walk new) := by
  obtain ⟨extra, seen, added⟩ := grown.split
  have few := grown.few
  refine ⟨⟨extra ++ new, ?_, ?_⟩, ?_, ?_, fun id mem => ?_⟩
  · simp [grow, seen]
  · simp [grow, added]
  · exact grown.once.append once (fun id held mem => (fresh id mem).1 held)
  · change walk.added + new.length ≤ 20
    omega
  · exact (List.mem_append.mp mem).elim (grown.near id) (fun mem => (fresh id mem).2)

theorem grownLater {k : Nat} (le : h ≤ k) (grown : Grown relations seeds h walk) : Grown relations seeds k walk :=
  ⟨grown.split, grown.once, grown.few, fun id mem => withinMono le (grown.near id mem)⟩

theorem batchGrown (grown : Grown relations seeds (h + 1) walk)
    (led : ∀ entity ∈ batch, ∃ x, Within (· ∈ seeds) (Sharing relations) h x ∧ Mentions relations x entity) :
    Grown relations seeds (h + 1) (expandBatch orders relations walk batch) := by
  obtain ⟨once, room, fresh⟩ := foundNew orders relations batch walk
  rw [expandBatchGrow]
  refine growGrown grown once room (fun id mem => ?_)
  obtain ⟨unseen, entity, inside, mentions⟩ := fresh id mem
  obtain ⟨x, near, mentions'⟩ := led entity inside
  exact ⟨unseen, .next near ⟨entity, mentions', mentions⟩⟩

variable (orders) in
theorem batchesGrown {chunks : List (List String)} (grown : Grown relations seeds (h + 1) walk)
    (led : ∀ batch ∈ chunks, ∀ entity ∈ batch, ∃ x, Within (· ∈ seeds) (Sharing relations) h x ∧ Mentions relations x entity) :
    Grown relations seeds (h + 1) (chunks.foldl (expandBatch orders relations) walk) := by
  induction chunks generalizing walk with
  | nil => exact grown
  | cons batch rest ih =>
    exact ih (batchGrown grown (led batch List.mem_cons_self)) (fun later mem => led later (List.mem_cons_of_mem _ mem))

theorem batchesNext {chunks : List (List String)} (inside : ∀ id ∈ walk.next, id ∈ walk.seen) :
    ∀ id ∈ (chunks.foldl (expandBatch orders relations) walk).next, id ∈ (chunks.foldl (expandBatch orders relations) walk).seen := by
  induction chunks generalizing walk with
  | nil => exact inside
  | cons batch rest ih =>
    refine ih ?_
    rw [expandBatchGrow]
    intro id mem
    exact (List.mem_append.mp mem).elim (fun held => List.mem_append_left _ (inside id held)) (List.mem_append_right _)

theorem hopGrown (grown : Grown relations seeds h walk) (front : ∀ id ∈ walk.frontier, id ∈ walk.seen) {reached : Walk}
    (hop : expandHop orders relations walk = some reached) :
    Grown relations seeds (h + 1) reached ∧ ∀ id ∈ reached.frontier, id ∈ reached.seen := by
  unfold expandHop at hop
  split at hop
  · cases hop
  · dsimp only at hop
    split at hop
    · cases hop
    · obtain rfl := Option.some.inj hop
      have began : Grown relations seeds (h + 1)
          {walk with entities := walk.entities ++ newEntities orders relations walk, next := []} :=
        grownLater (Nat.le_succ h) ⟨grown.split, grown.once, grown.few, grown.near⟩
      have led : ∀ batch ∈ batches 50 (newEntities orders relations walk).length (newEntities orders relations walk),
          ∀ entity ∈ batch, ∃ x, Within (· ∈ seeds) (Sharing relations) h x ∧ Mentions relations x entity := by
        intro batch mem entity inside
        obtain ⟨⟨id, held, mentions⟩, -⟩ := memNewEntities.mp ((memChunks entity).mp ⟨batch, mem, inside⟩)
        exact ⟨id, grown.near id (front id held), mentions⟩
      obtain ⟨split, once, few, near⟩ := batchesGrown orders began led
      exact ⟨⟨split, once, few, near⟩, batchesNext (fun id mem => absurd mem List.not_mem_nil)⟩

variable (orders) in
theorem hopsGrown (n : Nat) (grown : Grown relations seeds h walk) (front : ∀ id ∈ walk.frontier, id ∈ walk.seen) :
    Grown relations seeds (h + n) (expandHops orders relations n walk) := by
  induction n generalizing h walk with
  | zero => exact grown
  | succ n ih =>
    unfold expandHops
    split
    · exact grownLater (Nat.le_add_right h _) grown
    · rename_i reached hop
      obtain ⟨next, front⟩ := hopGrown grown front hop
      have later := ih next front
      rwa [Nat.add_right_comm, Nat.add_assoc] at later
end

-- What an expansion is after, and whether it has it all.
def New (relations : List Relation) (seeds : List String) (hops : Nat) (id : String) : Prop :=
  id ∉ seeds ∧ Within (· ∈ seeds) (Sharing relations) hops id
def Done (relations : List Relation) (seeds : List String) (hops : Nat) (walk : Walk) : Prop :=
  ∀ id, Within (· ∈ seeds) (Sharing relations) hops id → id ∈ walk.seen

-- The entities that a layer is the first to mention.
def Brought (relations : List Relation) (seeds : List String) (h : Nat) (entity : String) : Prop :=
  (∃ x, Exactly (· ∈ seeds) (Sharing relations) h x ∧ Mentions relations x entity) ∧
    ∀ m < h, ∀ x, Exactly (· ∈ seeds) (Sharing relations) m x → ¬ Mentions relations x entity

-- After some whole hops nothing near is missing.
structure Complete (relations : List Relation) (seeds : List String) (h : Nat) (walk : Walk) : Prop where
  seen : Done relations seeds h walk
  frontier : ∀ id, id ∈ walk.frontier ↔ Exactly (· ∈ seeds) (Sharing relations) h id
  entities : ∀ entity, entity ∈ walk.entities ↔
    ∃ m < h, ∃ x, Exactly (· ∈ seeds) (Sharing relations) m x ∧ Mentions relations x entity

-- In the middle of a hop, after some of its batches.
structure Halfway (relations : List Relation) (seeds : List String) (h : Nat) (done : List (List String)) (walk : Walk) : Prop where
  grown : Grown relations seeds (h + 1) walk
  frontier : ∀ id, id ∈ walk.frontier ↔ Exactly (· ∈ seeds) (Sharing relations) h id
  seen : ∀ id, id ∈ walk.seen ↔ Within (· ∈ seeds) (Sharing relations) h id ∨ id ∈ walk.next
  next : ∀ id, id ∈ walk.next ↔ ¬ Within (· ∈ seeds) (Sharing relations) h id ∧
    ∃ batch ∈ done, ∃ entity ∈ batch, Mentions relations id entity
  counted : walk.next.length ≤ walk.added

section
variable {orders : Orders} {relations : List Relation} {seeds batch : List String} {walk : Walk} {h hops : Nat}

-- With these the walk would have more than there is.
theorem growsFew (grown : Grown relations seeds h walk) (le : h ≤ hops) {n : Nat} (few : AtMost n (New relations seeds hops))
    {new : List String} (once : new.Nodup) (fresh : ∀ id ∈ new, id ∉ walk.seen ∧ Within (· ∈ seeds) (Sharing relations) hops id) :
    walk.added + new.length ≤ n := by
  obtain ⟨extra, seen, added⟩ := grown.split
  have all := grown.once
  rw [seen] at all
  obtain ⟨-, extraOnce, apart⟩ := List.nodup_append'.mp all
  rw [added, ← List.length_append]
  refine atMostList few (extraOnce.append once (fun id held mem => (fresh id mem).1 ?_)) (fun id mem => ?_)
  · rw [seen]
    exact List.mem_append_right _ held
  · rcases List.mem_append.mp mem with held | mem
    · refine ⟨fun start => apart start held, withinMono le (grown.near id ?_)⟩
      rw [seen]
      exact List.mem_append_right _ held
    · refine ⟨fun start => (fresh id mem).1 ?_, (fresh id mem).2⟩
      rw [seen]
      exact List.mem_append_left _ start

theorem fullDone (grown : Grown relations seeds h walk) (le : h ≤ hops) (few : AtMost 20 (New relations seeds hops))
    (full : 20 ≤ walk.added) : Done relations seeds hops walk := by
  intro id near
  by_contra unseen
  have more := growsFew grown le few (List.nodup_singleton id) (fun other mem => by
    obtain rfl := List.mem_singleton.mp mem
    exact ⟨unseen, near⟩)
  rw [List.length_singleton] at more
  omega

variable (orders) in
-- The limit of a statement leaves room for the frontier's own rows, and for no other row seen before.
theorem foundAll {done : List (List String)} (halfway : Halfway relations seeds h done walk) (brought : ∀ entity ∈ batch, Brought relations seeds h entity)
    (less : h < hops) (few : AtMost 20 (New relations seeds hops)) (narrow : done = [] ∨ AtMost 10 (New relations seeds (h + 1)))
    (id : String) : id ∈ found orders relations walk batch ↔ id ∉ walk.seen ∧ ∃ entity ∈ batch, Mentions relations id entity := by
  have rows : (orders.ids.arrange (touching relations batch)).Nodup := arrangedOnce orders
  have row : ∀ id, id ∈ orders.ids.arrange (touching relations batch) ↔ ∃ entity ∈ batch, Mentions relations id entity :=
    fun id => (Tables.Scan.mem _).trans memTouching
  have fresh : ∀ id ∈ (orders.ids.arrange (touching relations batch)).filter (fun id => id ∉ walk.seen),
      id ∉ walk.seen ∧ Within (· ∈ seeds) (Sharing relations) (h + 1) id := by
    intro id mem
    obtain ⟨held, unseen⟩ := List.mem_filter.mp mem
    obtain ⟨entity, inside, mentions⟩ := (row id).mp held
    obtain ⟨⟨x, layer, mentions'⟩, -⟩ := brought entity inside
    exact ⟨by simpa using unseen, .next layer.within ⟨entity, mentions', mentions⟩⟩
  have known : ∀ id ∈ orders.ids.arrange (touching relations batch), id ∈ walk.frontier ∨ id ∈ walk.next ∨ id ∉ walk.seen := by
    intro id held
    rw [halfway.seen]
    by_cases next : id ∈ walk.next
    · exact .inr (.inl next)
    · by_cases near : Within (· ∈ seeds) (Sharing relations) h id
      · obtain ⟨entity, inside, mentions⟩ := (row id).mp held
        obtain ⟨m, le, layer⟩ := withinExactly.mp near
        rcases Nat.lt_or_eq_of_le le with before | rfl
        · exact absurd mentions ((brought entity inside).2 m before id layer)
        · exact .inl ((halfway.frontier id).mpr layer)
      · exact .inr (.inr (fun either => either.elim near next))
  have room := growsFew halfway.grown less few (rows.filter _) (fun id mem => ⟨(fresh id mem).1, withinMono less (fresh id mem).2⟩)
  have spare : walk.next.length + ((orders.ids.arrange (touching relations batch)).filter (fun id => id ∉ walk.seen)).length ≤
      20 - walk.added := by
    have counted := halfway.counted
    rcases narrow with rfl | fewer
    · have none : walk.next = [] := List.eq_nil_iff_forall_not_mem.mpr (fun id mem => by
        obtain ⟨-, _, held, -⟩ := (halfway.next id).mp mem
        exact absurd held List.not_mem_nil)
      rw [none, List.length_nil]
      omega
    · have tighter := growsFew halfway.grown le_rfl fewer (rows.filter _) fresh
      omega
  have whole : (orders.ids.arrange (touching relations batch)).length ≤ 20 - walk.added + walk.frontier.length := by
    have inside : orders.ids.arrange (touching relations batch) ⊆ walk.frontier ++ (walk.next ++
        (orders.ids.arrange (touching relations batch)).filter (fun id => id ∉ walk.seen)) := by
      intro id held
      rcases known id held with front | next | unseen
      · exact List.mem_append_left _ front
      · exact List.mem_append_right _ (List.mem_append_left _ next)
      · exact List.mem_append_right _ (List.mem_append_right _ (List.mem_filter.mpr ⟨held, by simpa using unseen⟩))
    have fits := (List.subperm_of_subset rows inside).length_le
    rw [List.length_append, List.length_append] at fits
    omega
  rw [found, List.take_of_length_le whole, List.take_of_length_le (by omega), List.mem_filter, row]
  simp [and_comm]

variable (orders) in
theorem halfwayStep {done : List (List String)} (halfway : Halfway relations seeds h done walk)
    (brought : ∀ entity ∈ batch, Brought relations seeds h entity) (less : h < hops) (few : AtMost 20 (New relations seeds hops))
    (narrow : done = [] ∨ AtMost 10 (New relations seeds (h + 1))) :
    Halfway relations seeds h (done ++ [batch]) (expandBatch orders relations walk batch) := by
  have all := foundAll orders halfway brought less few narrow
  refine ⟨?_, ?_, ?_, ?_, ?_⟩
  · refine batchGrown halfway.grown (fun entity inside => ?_)
    obtain ⟨⟨x, layer, mentions⟩, -⟩ := brought entity inside
    exact ⟨x, layer.within, mentions⟩
  · rw [expandBatchGrow]
    exact halfway.frontier
  · intro id
    rw [expandBatchGrow]
    simp only [grow, List.mem_append, halfway.seen, or_assoc]
  · intro id
    rw [expandBatchGrow]
    simp only [grow, List.mem_append, all, halfway.seen, halfway.next, List.mem_singleton, or_and_right, exists_or, exists_eq_left]
    by_cases near : Within (· ∈ seeds) (Sharing relations) h id
    · simp [near]
    · by_cases before : ∃ batch ∈ done, ∃ entity ∈ batch, Mentions relations id entity
      · simp [near, before]
      · simp [near, before]
  · rw [expandBatchGrow]
    have counted := halfway.counted
    simp only [grow, List.length_append]
    omega

variable (orders) in
theorem halfwayRun {done chunks : List (List String)} (halfway : Halfway relations seeds h done walk)
    (brought : ∀ batch ∈ chunks, ∀ entity ∈ batch, Brought relations seeds h entity) (less : h < hops)
    (few : AtMost 20 (New relations seeds hops)) (narrow : (done ++ chunks).length ≤ 1 ∨ AtMost 10 (New relations seeds (h + 1))) :
    Halfway relations seeds h (done ++ chunks) (chunks.foldl (expandBatch orders relations) walk) := by
  induction chunks generalizing done walk with
  | nil => rwa [List.append_nil]
  | cons batch rest ih =>
    have alone : done = [] ∨ AtMost 10 (New relations seeds (h + 1)) := by
      refine narrow.imp_left (fun short => List.length_eq_zero_iff.mp ?_)
      simp only [List.length_append, List.length_cons] at short
      omega
    have step := halfwayStep orders halfway (brought batch List.mem_cons_self) less few alone
    rw [List.append_cons] at narrow ⊢
    exact ih step (fun later mem => brought later (List.mem_cons_of_mem _ mem)) narrow

variable (orders) in
-- On whole hops the new entities are those the frontier is the first to mention.
theorem newBrought (complete : Complete relations seeds h walk) (entity : String) :
    entity ∈ newEntities orders relations walk ↔ Brought relations seeds h entity := by
  rw [memNewEntities, complete.entities]
  simp only [complete.frontier]
  refine and_congr_right (fun _ => ⟨fun new m before x layer mentions => new ⟨m, before, x, layer, mentions⟩, ?_⟩)
  rintro first ⟨m, before, x, layer, mentions⟩
  exact first m before x layer mentions

-- An observation of the next layer is one that such an entity leads to.
theorem layerBrought {id : String} : Exactly (· ∈ seeds) (Sharing relations) (h + 1) id ↔
    ¬ Within (· ∈ seeds) (Sharing relations) h id ∧ ∃ entity, Brought relations seeds h entity ∧ Mentions relations id entity := by
  rw [exactlyNext]
  refine and_congr_right (fun new => ⟨?_, ?_⟩)
  · rintro ⟨x, layer, entity, mentions, mentions'⟩
    refine ⟨entity, ⟨⟨x, layer, mentions⟩, fun m before y earlier also => new ?_⟩, mentions'⟩
    exact withinMono before (.next earlier.within ⟨entity, also, mentions'⟩)
  · rintro ⟨entity, ⟨⟨x, layer, mentions⟩, -⟩, mentions'⟩
    exact ⟨x, layer, entity, mentions, mentions'⟩

theorem completeEnds (complete : Complete relations seeds h walk) (none : ∀ id, ¬ Exactly (· ∈ seeds) (Sharing relations) (h + 1) id) :
    Done relations seeds hops walk := by
  intro id near
  rcases withinLayer.mp (layersEnd none near) with before | layer
  · exact complete.seen id before
  · exact absurd layer (none id)

theorem batchesFew {n : Nat} {ids : List String} (few : ids.length ≤ 50) : (batches 50 n ids).length ≤ 1 := by
  cases n with
  | zero => exact Nat.zero_le 1
  | succ n =>
    unfold batches
    split
    · exact Nat.zero_le 1
    · rw [List.drop_of_length_le few, List.length_cons]
      cases n <;> simp [batches]

-- A hop that needs no second statement, or leaves room for what its first one found.
def Roomy (relations : List Relation) (seeds : List String) (h : Nat) : Prop :=
  AtMost 50 (Brought relations seeds h) ∨ AtMost 10 (New relations seeds (h + 1))

theorem batchesEntities (chunks : List (List String)) (walk : Walk) :
    (chunks.foldl (expandBatch orders relations) walk).entities = walk.entities := by
  induction chunks generalizing walk with
  | nil => rfl
  | cons batch rest ih =>
    rw [List.foldl_cons, ih, expandBatchGrow]
    rfl

-- The entities mentioned so far: those before a layer, and those it brings.
theorem mentionedNext {entity : String} :
    (∃ m < h + 1, ∃ x, Exactly (· ∈ seeds) (Sharing relations) m x ∧ Mentions relations x entity) ↔
      (∃ m < h, ∃ x, Exactly (· ∈ seeds) (Sharing relations) m x ∧ Mentions relations x entity) ∨ Brought relations seeds h entity := by
  constructor
  · rintro ⟨m, before, x, earlier, mentions⟩
    by_cases known : ∃ m < h, ∃ x, Exactly (· ∈ seeds) (Sharing relations) m x ∧ Mentions relations x entity
    · exact .inl known
    · have now : m = h := by
        refine Nat.le_antisymm (Nat.le_of_lt_succ before) (Nat.le_of_not_lt fun less => known ?_)
        exact ⟨m, less, x, earlier, mentions⟩
      refine .inr ⟨⟨x, now ▸ earlier, mentions⟩, fun k less y nearer also => known ?_⟩
      exact ⟨k, less, y, nearer, also⟩
  · rintro (⟨m, before, x, layer, mentions⟩ | ⟨⟨x, layer, mentions⟩, -⟩)
    · exact ⟨m, Nat.lt_succ_of_lt before, x, layer, mentions⟩
    · exact ⟨h, Nat.lt_succ_self h, x, layer, mentions⟩

variable (orders) in
theorem hopStops (grown : Grown relations seeds h walk) (complete : Complete relations seeds h walk) (less : h < hops)
    (few : AtMost 20 (New relations seeds hops)) (stops : expandHop orders relations walk = none) : Done relations seeds hops walk := by
  unfold expandHop at stops
  split at stops
  · rename_i ends
    rcases ends with empty | full
    · refine completeEnds complete (fun id layer => ?_)
      obtain ⟨-, x, before, -⟩ := exactlyNext.mp layer
      rw [← complete.frontier, empty] at before
      exact absurd before List.not_mem_nil
    · exact fullDone grown (Nat.le_of_lt less) few full
  · dsimp only at stops
    split at stops
    · rename_i none
      refine completeEnds complete (fun id layer => ?_)
      obtain ⟨-, entity, new, -⟩ := layerBrought.mp layer
      rw [← newBrought orders complete, none] at new
      exact absurd new List.not_mem_nil
    · cases stops

variable (orders) in
theorem hopBegins (grown : Grown relations seeds h walk) (complete : Complete relations seeds h walk) :
    Halfway relations seeds h [] {walk with entities := walk.entities ++ newEntities orders relations walk, next := []} where
  grown := grownLater (Nat.le_succ h) ⟨grown.split, grown.once, grown.few, grown.near⟩
  frontier := complete.frontier
  seen := fun id => ⟨fun held => .inl (grown.near id held), fun either => either.elim (complete.seen id) (fun mem => absurd mem List.not_mem_nil)⟩
  next := fun id => by simp
  counted := Nat.zero_le _

variable (orders) in
theorem hopGoes (grown : Grown relations seeds h walk) (complete : Complete relations seeds h walk) (less : h < hops)
    (few : AtMost 20 (New relations seeds hops)) (roomy : Roomy relations seeds h) {reached : Walk}
    (goes : expandHop orders relations walk = some reached) : Complete relations seeds (h + 1) reached := by
  unfold expandHop at goes
  split at goes
  · cases goes
  · dsimp only at goes
    split at goes
    · cases goes
    · obtain rfl := Option.some.inj goes
      have brought := newBrought orders complete
      have inside := fun entity => (memChunks entity).trans (brought entity)
      have short : ([] ++ batches 50 (newEntities orders relations walk).length (newEntities orders relations walk)).length ≤ 1 ∨
          AtMost 10 (New relations seeds (h + 1)) := by
        refine roomy.imp_left (fun narrow => batchesFew (atMostList narrow (eraseDupsNodup _) (fun entity mem => ?_)))
        exact (brought entity).mp mem
      have after := halfwayRun orders (hopBegins orders grown complete)
        (fun batch mem entity held => (inside entity).mp ⟨batch, mem, held⟩) less few short
      have layer : ∀ id, id ∈ ((batches 50 (newEntities orders relations walk).length (newEntities orders relations walk)).foldl
          (expandBatch orders relations) {walk with entities := walk.entities ++ newEntities orders relations walk, next := []}).next ↔
          Exactly (· ∈ seeds) (Sharing relations) (h + 1) id := by
        intro id
        rw [after.next, layerBrought, List.nil_append]
        refine and_congr_right (fun _ => ⟨?_, ?_⟩)
        · rintro ⟨batch, mem, entity, held, mentions⟩
          exact ⟨entity, (inside entity).mp ⟨batch, mem, held⟩, mentions⟩
        · rintro ⟨entity, new, mentions⟩
          obtain ⟨batch, mem, held⟩ := (inside entity).mpr new
          exact ⟨batch, mem, entity, held, mentions⟩
      refine ⟨fun id near => ?_, layer, fun entity => ?_⟩
      · rw [show _ ↔ _ from after.seen id, layer]
        exact withinLayer.mp near
      · rw [batchesEntities, List.mem_append, brought, complete.entities]
        exact mentionedNext.symm

variable (orders) in
theorem hopsComplete (n : Nat) (grown : Grown relations seeds h walk) (front : ∀ id ∈ walk.frontier, id ∈ walk.seen)
    (complete : Complete relations seeds h walk) (last : h + n = hops) (few : AtMost 20 (New relations seeds hops))
    (roomy : ∀ k < hops, Roomy relations seeds k) : Done relations seeds hops (expandHops orders relations n walk) := by
  induction n generalizing h walk with
  | zero => exact (show h = hops from last) ▸ complete.seen
  | succ n ih =>
    have less : h < hops := by omega
    unfold expandHops
    split
    · rename_i stops
      exact hopStops orders grown complete less few stops
    · rename_i reached hop
      obtain ⟨next, front⟩ := hopGrown grown front hop
      exact ih next front (hopGoes orders grown complete less few (roomy h less) hop) (by omega)
end

variable (orders : Orders) (db : Db) (seedObsIds : List String) (depth : Number) in
-- The seeds once each and then at most twenty others within the hops, all there are where the limits leave room.
theorem expansionExact : ∃ extra, expandObservationsViaGraph orders db seedObsIds depth = seedObsIds.eraseDups ++ extra ∧
    extra.Nodup ∧ extra.length ≤ 20 ∧ (∀ id ∈ extra, New db.relations seedObsIds (graphHops depth) id) ∧
      (AtMost 20 (New db.relations seedObsIds (graphHops depth)) → (∀ h < graphHops depth, Roomy db.relations seedObsIds h) →
        ∀ id, New db.relations seedObsIds (graphHops depth) id → id ∈ extra) := by
  have same : (· ∈ seedObsIds.eraseDups) = (· ∈ seedObsIds) := by
    funext id
    exact propext List.mem_eraseDups
  have start : Grown db.relations seedObsIds.eraseDups 0 ⟨seedObsIds.eraseDups, seedObsIds.eraseDups, [], 0, []⟩ :=
    ⟨⟨[], by simp⟩, eraseDupsNodup _, Nat.zero_le _, fun id mem => .start mem⟩
  have complete : Complete db.relations seedObsIds.eraseDups 0 ⟨seedObsIds.eraseDups, seedObsIds.eraseDups, [], 0, []⟩ :=
    ⟨fun id near => withinZero.mp near, fun id => exactlyZero.symm, fun entity => by simp⟩
  obtain ⟨⟨extra, seen, added⟩, once, few, near⟩ := hopsGrown orders (graphHops depth) start (fun _ => id)
  have all := hopsComplete orders (graphHops depth) start (fun _ => id) complete (Nat.zero_add _)
  rw [Nat.zero_add] at near
  have new : New db.relations seedObsIds.eraseDups = New db.relations seedObsIds := by
    funext hops id
    rw [New, New, same, List.mem_eraseDups]
  have brought : Brought db.relations seedObsIds.eraseDups = Brought db.relations seedObsIds := by
    funext h entity
    rw [Brought, Brought, same]
  have roomy : Roomy db.relations seedObsIds.eraseDups = Roomy db.relations seedObsIds := by
    funext h
    rw [Roomy, Roomy, brought, new]
  rw [new, roomy] at all
  refine ⟨extra, seen, ?_, added ▸ few, fun id mem => ?_, fun few roomy id is => ?_⟩
  · rw [seen] at once
    exact (List.nodup_append'.mp once).2.1
  · rw [← new]
    refine ⟨fun start => ?_, near id ?_⟩
    · rw [seen] at once
      exact (List.nodup_append'.mp once).2.2 start mem
    · rw [seen]
      exact List.mem_append_right _ mem
  · have held := all few roomy id (same ▸ is.2)
    rw [seen, List.mem_append, List.mem_eraseDups] at held
    exact held.resolve_left is.1

-- Seven observations in a row, each sharing an entity with the next.
def chain : Db :=
  {Db.empty with relations := [("e0", "e1", "o0"), ("e1", "e2", "o1"), ("e2", "e3", "o2"), ("e3", "e4", "o3"), ("e4", "e5", "o4"),
    ("e5", "e6", "o5"), ("e6", "e7", "o6")].map (fun row =>
      ⟨row.1, row.2.1, "co-occurs", 1, row.2.2, ⟨none, none, none, none, none, none⟩, ""⟩)}

theorem chainFew (hops : Nat) : AtMost 7 (New chain.relations ["o0"] hops) := by
  refine atMostOf ["o0", "o1", "o2", "o3", "o4", "o5", "o6"] (by decide) (fun id new => ?_)
  obtain ⟨start, near⟩ := new
  cases near with
  | start from_ => exact absurd from_ start
  | next _ goes =>
    obtain ⟨_, -, relation, mem, rfl, -⟩ := goes
    have all : ∀ relation ∈ chain.relations, relation.observationId ∈ ["o0", "o1", "o2", "o3", "o4", "o5", "o6"] := by decide
    exact all relation mem

theorem chainStep {n : Nat} {a b : String} (near : Within (· ∈ ["o0"]) (Sharing chain.relations) n a) (entity : String)
    (first : ∃ relation ∈ chain.relations, relation.observationId = a ∧ (relation.src = entity ∨ relation.dst = entity))
    (second : ∃ relation ∈ chain.relations, relation.observationId = b ∧ (relation.src = entity ∨ relation.dst = entity)) :
    Within (· ∈ ["o0"]) (Sharing chain.relations) (n + 1) b := .next near ⟨entity, first, second⟩

-- The sixth hop is not taken.
theorem expansionCapped : AtMost 20 (New chain.relations ["o0"] 6) ∧ New chain.relations ["o0"] 6 "o6" ∧
    "o6" ∉ expandObservationsViaGraph ⟨Tables.inOrder, Tables.inOrder⟩ chain ["o0"] (.fin 6) := by
  have few : AtMost 20 (New chain.relations ["o0"] 6) := (chainFew 6).trans (by decide)
  have o1 := chainStep (.start (List.mem_singleton_self _) : Within _ _ 0 "o0") "e1" (b := "o1") (by decide) (by decide)
  have o2 := chainStep o1 "e2" (b := "o2") (by decide) (by decide)
  have o3 := chainStep o2 "e3" (b := "o3") (by decide) (by decide)
  have o4 := chainStep o3 "e4" (b := "o4") (by decide) (by decide)
  have o5 := chainStep o4 "e5" (b := "o5") (by decide) (by decide)
  have o6 := chainStep o5 "e6" (b := "o6") (by decide) (by decide)
  exact ⟨few, ⟨by decide, o6⟩, by decide⟩

end HarnessMem.GraphReasoner
