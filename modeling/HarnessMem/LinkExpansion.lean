import HarnessMem.Lib.HopPaths
import HarnessMem.Search
import HarnessMem.SearchSources
import Mathlib.Order.Bounds.Basic
import Mathlib.Tactic.Linarith
import Mathlib.Tactic.Ring

/-! What `expandByLinks` scores, against the paths of links from its seeds. -/
namespace HarnessMem.Search
open Js Recorder Visibility HopPaths

def maxDepth (settings : Settings) : Nat := min (max (settings.graphMaxHops.getD 4) 1) 5

-- The scores before they are normalised.
def linkGraph (host : Host) (settings : Settings) (topIds : List String) (request : Normalized) (db : Db) : List (String × ℚ) :=
  (spread host settings request db (maxDepth settings) 1 ⟨[], topIds.map (fun id => (id, 1)), topIds⟩).graph

def worth (link : Link) : ℚ := link.weight * if link.relation = "contradicts" then 1 / 2 else 1

section
variable (host : Host) (settings : Settings) (topIds : List String) (request : Normalized) (db : Db)

-- A link of the listed relations with a positive weight leads from one end to the other, where a row is visible.
structure Follows (link : Link) (parent id : String) : Prop where
  listed : linkRelations.contains link.relation = true
  ends : link.fromId = parent ∧ link.toId = id ∨ link.toId = parent ∧ link.fromId = id
  source : link.fromId ≠ ""
  target : link.toId ≠ ""
  apart : link.fromId ≠ link.toId
  heavy : 0 < link.weight
  visible : ∃ row ∈ admitted host settings request db, row.id = id

def Step (parent id : String) (value : ℚ) : Prop :=
  ∃ link ∈ db.links, Follows host settings request db link parent id ∧ value = worth link

def IdPath (n : Nat) (id : String) (value : ℚ) : Prop := Path (· ∈ topIds) (Step host settings request db) n id value
def IdFirst (n : Nat) (id : String) : Prop := First (· ∈ topIds) (Step host settings request db) n id
def IdLayer (n : Nat) (id : String) : Prop := Layer (· ∈ topIds) (Step host settings request db) n id

-- Every neighbour within the depth has a score, and it is that of the best shortest path, halved for each further hop.
def Expanded : Prop :=
  (∀ id, id ∈ (linkGraph host settings topIds request db).map Prod.fst ↔
    ∃ n, 1 ≤ n ∧ n ≤ maxDepth settings ∧ ∃ value, IdPath host settings topIds request db n id value) ∧
  ∀ n id score, IdFirst host settings topIds request db n id →
    scoreOf (linkGraph host settings topIds request db) id = some score →
      IsGreatest {s | ∃ value, IdPath host settings topIds request db n id value ∧ s = value * (1 / 2) ^ (n - 1)} score

end

-- What the rounds multiply up to: one factor for each round, itself a power.
def decay : Nat → ℚ
  | 0 => 1
  | n + 1 => decay n * (1 / 2) ^ n

section
variable {host : Host} {settings : Settings} {topIds : List String} {request : Normalized} {db : Db}

theorem decayPositive (n : Nat) : 0 < decay n := by
  induction n with
  | zero => exact zero_lt_one
  | succ n ih => exact mul_pos ih (by positivity)

-- Up to the second hop this is the decay that one halving a hop gives, and less from the third on.
theorem decayLate {n : Nat} (late : 3 ≤ n) : decay n < (1 / 2) ^ (n - 1) := by
  induction n, late using Nat.le_induction with
  | base => norm_num [decay]
  | succ n late ih =>
    have power : (1 / 2 : ℚ) ^ n = (1 / 2) ^ (n - 1) * (1 / 2) := by
      rw [← pow_succ]
      congr 1
      omega
    have shrinks : (1 / 2 : ℚ) ^ n ≤ 1 := pow_le_one₀ (by norm_num) (by norm_num)
    have small : (1 / 2 : ℚ) ^ n ≤ 1 / 2 := by
      rw [power]
      have : (1 / 2 : ℚ) ^ (n - 1) ≤ 1 := pow_le_one₀ (by norm_num) (by norm_num)
      linarith
    rw [Nat.add_sub_cancel, decay]
    nlinarith [decayPositive n, ih, small, power]

-- Keeping the larger of what is held, zero if nothing is, and what comes.
def raised (held : Option ℚ) (score : ℚ) : Option ℚ := if held.getD 0 < score then some score else held

theorem scoreFiltered {scores : List (String × ℚ)} {id other : String} (apart : other ≠ id) :
    scoreOf (scores.filter (fun entry => entry.1 ≠ id)) other = scoreOf scores other := by
  unfold scoreOf
  rw [List.find?_filter]
  congr 2
  funext entry
  by_cases same : entry.1 = other
  · simp [same, apart]
  · simp [same]

theorem scoreRaised {scores : List (String × ℚ)} {id other : String} {score : ℚ} :
    scoreOf (raiseScore scores id score) other = if other = id then raised (scoreOf scores other) score else scoreOf scores other := by
  unfold raiseScore raised
  by_cases here : other = id
  · subst here
    rw [if_pos rfl]
    split
    · have none : (scores.filter (fun entry => entry.1 ≠ other)).find? (fun entry => entry.1 = other) = none :=
        List.find?_eq_none.mpr fun entry mem => by simpa using (List.mem_filter.mp mem).2
      unfold scoreOf
      rw [List.find?_append, none]
      simp
    · rfl
  · rw [if_neg here]
    split
    · have appended : scoreOf (scores.filter (fun entry => entry.1 ≠ id) ++ [(id, score)]) other =
          scoreOf (scores.filter (fun entry => entry.1 ≠ id)) other := by
        unfold scoreOf
        rw [List.find?_append]
        simp [Ne.symm here]
      rw [appended, scoreFiltered here]
    · rfl

theorem raisedAll {held : Option ℚ} (positive : ∀ t ∈ held, 0 < t) {scores : List ℚ} {score : ℚ} :
    scores.foldl raised held = some score ↔
      (held = some score ∨ score ∈ scores) ∧ 0 < score ∧ (∀ t ∈ held, t ≤ score) ∧ ∀ t ∈ scores, t ≤ score := by
  induction scores generalizing held with
  | nil =>
    constructor
    · intro same
      rw [List.foldl_nil] at same
      subst same
      exact ⟨.inl rfl, positive _ rfl, fun t mem => (Option.some.inj mem).ge, fun t mem => absurd mem List.not_mem_nil⟩
    · rintro ⟨same | mem, -⟩
      · exact same
      · cases mem
  | cons first rest ih =>
    rw [List.foldl_cons, raised]
    by_cases more : held.getD 0 < first
    · have below : ∀ t ∈ held, t < first := by
        rintro t same
        rw [Option.mem_def.mp same] at more
        exact more
      have above : 0 < first := by
        cases held with
        | none => exact more
        | some t => exact (positive t rfl).trans more
      rw [if_pos more, ih (fun t same => Option.some.inj same ▸ above)]
      simp only [Option.mem_some_iff, forall_eq', List.mem_cons, forall_eq_or_imp, Option.some.injEq]
      constructor
      · rintro ⟨from_, some, least, all⟩
        refine ⟨.inr (from_.imp Eq.symm id), some, fun t mem => (below t mem).le.trans least, least, all⟩
      · rintro ⟨from_, some, -, least, all⟩
        refine ⟨?_, some, least, all⟩
        rcases from_ with old | rfl | later
        · exact absurd (below score old) least.not_gt
        · exact .inl rfl
        · exact .inr later
    · rw [if_neg more, ih positive]
      have under : ∀ {s}, 0 < s → (∀ t ∈ held, t ≤ s) → first ≤ s := by
        intro s some least
        cases held with
        | none => exact (not_lt.mp more).trans some.le
        | some t => exact (not_lt.mp more).trans (least t rfl)
      simp only [List.mem_cons, forall_eq_or_imp]
      constructor
      · rintro ⟨from_, some, least, all⟩
        exact ⟨from_.imp id .inr, some, least, under some least, all⟩
      · rintro ⟨from_, some, least, -, all⟩
        refine ⟨?_, some, least, all⟩
        rcases from_ with old | rfl | later
        · exact .inl old
        · left
          cases held with
          | none => exact absurd some more
          | some t => exact congrArg Option.some (le_antisymm (least t rfl) (not_lt.mp more))
        · exact .inr later

theorem raisedNone {held : Option ℚ} {scores : List ℚ} : scores.foldl raised held = none ↔ held = none ∧ ∀ t ∈ scores, t ≤ 0 := by
  induction scores generalizing held with
  | nil => simp
  | cons first rest ih =>
    rw [List.foldl_cons, ih, raised, List.forall_mem_cons]
    cases held with
    | none =>
      by_cases more : (none : Option ℚ).getD 0 < first
      · rw [if_pos more]
        exact iff_of_false (fun both => nomatch both.1) fun both => not_lt.mpr both.2.1 more
      · rw [if_neg more]
        exact ⟨fun both => ⟨rfl, not_lt.mp more, both.2⟩, fun both => ⟨rfl, both.2.2⟩⟩
    | some t =>
      refine iff_of_false (fun both => ?_) fun both => nomatch both.1
      split at both <;> exact nomatch both.1

-- A row that the round does not skip, and the score it gives.
def Valid (hop : Hop) : Prop := ¬ (hop.id = "" ∨ hop.link.fromId = "" ∨ hop.link.toId = "" ∨ hop.link.fromId = hop.link.toId)
instance (hop : Hop) : Decidable (Valid hop) := inferInstanceAs (Decidable (¬ _))
def hopScore (depth : Nat) (now : Spread) (hop : Hop) : ℚ :=
  (scoreOf now.frontier hop.parent).getD 1 * hop.link.weight * (1 / 2) ^ (depth - 1) *
    if hop.link.relation = "contradicts" then 1 / 2 else 1
def scoresFor (depth : Nat) (now : Spread) (id : String) (hops : List Hop) : List ℚ :=
  (hops.filter (fun hop => Valid hop ∧ hop.id = id)).map (hopScore depth now)

theorem memScoresFor {depth : Nat} {now : Spread} {id : String} {hops : List Hop} {t : ℚ} :
    t ∈ scoresFor depth now id hops ↔ ∃ hop ∈ hops, Valid hop ∧ hop.id = id ∧ t = hopScore depth now hop := by
  simp only [scoresFor, List.mem_map, List.mem_filter, decide_eq_true_eq]
  constructor
  · rintro ⟨hop, ⟨mem, valid, same⟩, rfl⟩
    exact ⟨hop, mem, valid, same, rfl⟩
  · rintro ⟨hop, mem, valid, same, rfl⟩
    exact ⟨hop, ⟨mem, valid, same⟩, rfl⟩

theorem followValid {depth : Nat} {now next : Spread} {hop : Hop} (valid : Valid hop) : followHop depth now next hop =
    { next with
      graph := raiseScore next.graph hop.id (hopScore depth now hop)
      frontier := if now.processed.contains hop.id then next.frontier
        else raiseScore next.frontier hop.id (hopScore depth now hop) } := if_neg valid

theorem followSkipped {depth : Nat} {now next : Spread} {hop : Hop} (skipped : ¬ Valid hop) :
    followHop depth now next hop = next := if_pos (not_not.mp skipped)

theorem scoresHere {depth : Nat} {now : Spread} {hop : Hop} {rest : List Hop} (valid : Valid hop) :
    scoresFor depth now hop.id (hop :: rest) = hopScore depth now hop :: scoresFor depth now hop.id rest := by
  simp [scoresFor, valid]

theorem scoresElsewhere {depth : Nat} {now : Spread} {id : String} {hop : Hop} {rest : List Hop}
    (other : ¬ (Valid hop ∧ hop.id = id)) : scoresFor depth now id (hop :: rest) = scoresFor depth now id rest := by
  unfold scoresFor
  rw [List.filter_cons_of_neg (by simpa using other)]

-- After the rows of a round, each id has the largest score they gave it.
theorem followedGraph {depth : Nat} {now : Spread} {hops : List Hop} {id : String} : ∀ {next : Spread},
    scoreOf (hops.foldl (followHop depth now) next).graph id =
      (scoresFor depth now id hops).foldl raised (scoreOf next.graph id) := by
  induction hops with
  | nil => exact rfl
  | cons hop rest ih =>
    intro next
    rw [List.foldl_cons, ih]
    by_cases valid : Valid hop
    · rw [followValid valid, scoreRaised]
      by_cases here : id = hop.id
      · subst here
        rw [if_pos rfl, scoresHere valid, List.foldl_cons]
      · rw [if_neg here, scoresElsewhere fun both => here both.2.symm]
    · rw [followSkipped valid, scoresElsewhere fun both => valid both.1]

theorem followedFrontier {depth : Nat} {now : Spread} {hops : List Hop} {id : String} : ∀ {next : Spread},
    scoreOf (hops.foldl (followHop depth now) next).frontier id =
      if now.processed.contains id then scoreOf next.frontier id
      else (scoresFor depth now id hops).foldl raised (scoreOf next.frontier id) := by
  induction hops with
  | nil => exact fun {next} => (ite_self _).symm
  | cons hop rest ih =>
    intro next
    rw [List.foldl_cons, ih]
    by_cases valid : Valid hop
    · rw [followValid valid]
      by_cases here : id = hop.id
      · subst here
        cases known : now.processed.contains hop.id with
        | true => rfl
        | false =>
          rw [scoresHere valid, List.foldl_cons]
          simp only [Bool.false_eq_true, if_false, scoreRaised, if_true]
      · rw [scoresElsewhere fun both => here both.2.symm]
        have same : scoreOf (if now.processed.contains hop.id then next.frontier
            else raiseScore next.frontier hop.id (hopScore depth now hop)) id = scoreOf next.frontier id := by
          split
          · rfl
          · rw [scoreRaised, if_neg here]
        simp only [same]
    · rw [followSkipped valid, scoresElsewhere fun both => valid both.1]

theorem scoreKey {scores : List (String × ℚ)} {id : String} : (scoreOf scores id).isSome ↔ id ∈ scores.map Prod.fst := by
  simp [scoreOf]

theorem hopHeld {frontier : List String} {hop : Hop} (mem : hop ∈ hopsFrom host settings request frontier db) :
    hop.parent ∈ frontier ∧ hop.link ∈ db.links ∧
      (Valid hop → 0 < hop.link.weight → Follows host settings request db hop.link hop.parent hop.id) := by
  have branch : ∀ hops : List Hop, (∀ hop ∈ hops, hop.link ∈ db.links ∧ linkRelations.contains hop.link.relation = true ∧
      (hop.link.fromId = hop.parent ∧ hop.link.toId = hop.id ∨ hop.link.toId = hop.parent ∧ hop.link.fromId = hop.id)) →
      hop ∈ (heaviest (hops.filter (fun hop => frontier.contains hop.parent &&
        (admitted host settings request db).any (fun row => row.id = hop.id)))).toList →
      hop.parent ∈ frontier ∧ hop.link ∈ db.links ∧
        (Valid hop → 0 < hop.link.weight → Follows host settings request db hop.link hop.parent hop.id) := by
    intro hops all found
    obtain ⟨inside, met⟩ := List.mem_filter.mp (heaviestHeld (Option.mem_toList.mp found))
    rw [Bool.and_eq_true, List.contains_iff_mem, List.any_eq_true] at met
    obtain ⟨row, held, same⟩ := met.2
    obtain ⟨link, listed, ends⟩ := all hop inside
    refine ⟨met.1, link, fun valid heavy => ⟨listed, ends, fun none => valid (.inr (.inl none)),
      fun none => valid (.inr (.inr (.inl none))), fun loop => valid (.inr (.inr (.inr loop))), heavy, row, held, ?_⟩⟩
    exact of_decide_eq_true same
  have listed : ∀ link ∈ db.links.filter (fun link => linkRelations.contains link.relation),
      link ∈ db.links ∧ linkRelations.contains link.relation = true := fun link mem => List.mem_filter.mp mem
  unfold hopsFrom at mem
  extract_lets rows links reached at mem
  rcases List.mem_append.mp mem with forward | backward
  · refine branch _ (fun hop mem => ?_) forward
    obtain ⟨link, held, rfl⟩ := List.mem_map.mp mem
    exact ⟨(listed link held).1, (listed link held).2, .inl ⟨rfl, rfl⟩⟩
  · refine branch _ (fun hop mem => ?_) backward
    obtain ⟨link, held, rfl⟩ := List.mem_map.mp mem
    exact ⟨(listed link held).1, (listed link held).2, .inr ⟨rfl, rfl⟩⟩

-- The rows depend on which ids the frontier has, not on its order.
theorem hopsSame {frontier others : List String} (same : ∀ id, id ∈ frontier ↔ id ∈ others) :
    hopsFrom host settings request frontier db = hopsFrom host settings request others db := by
  have contained : ∀ id, frontier.contains id = others.contains id := fun id => by
    rw [Bool.eq_iff_iff, List.contains_iff_mem, List.contains_iff_mem, same]
  simp only [hopsFrom, contained]

theorem followsValid {hop : Hop} (follows : Follows host settings request db hop.link hop.parent hop.id) : Valid hop := by
  rintro (none | none | none | loop)
  · rcases follows.ends with ⟨-, same⟩ | ⟨-, same⟩
    · exact follows.target (same.trans none)
    · exact follows.source (same.trans none)
  · exact follows.source none
  · exact follows.target none
  · exact follows.apart loop

theorem worthPositive {link : Link} (heavy : 0 < link.weight) : 0 < worth link := by
  unfold worth
  split
  · linarith
  · linarith

theorem idPathPositive {n : Nat} {id : String} {value : ℚ} (path : IdPath host settings topIds request db n id value) :
    0 < value := by
  refine pathPositive (fun parent id value next => ?_) path
  obtain ⟨link, -, follows, rfl⟩ := next
  exact worthPositive follows.heavy

end

section
variable (host : Host) (settings : Settings) (topIds : List String) (request : Normalized) (db : Db)

-- The rows that the two queries give for a layer.
def Kept (n : Nat) (hop : Hop) : Prop :=
  ∃ frontier : List String, (∀ id, id ∈ frontier ↔ IdLayer host settings topIds request db n id) ∧
    hop ∈ hopsFrom host settings request frontier db ∧ Follows host settings request db hop.link hop.parent hop.id

-- The best path to each new neighbour of a layer ends in one of them.
def Covered (n : Nat) : Prop :=
  ∀ id, IdFirst host settings topIds request db (n + 1) id → ∀ value, IdPath host settings topIds request db (n + 1) id value →
    ∃ hop, Kept host settings topIds request db n hop ∧ hop.id = id ∧
      ∃ u, IdPath host settings topIds request db n hop.parent u ∧ value ≤ u * worth hop.link

-- None of them leads back to an earlier node with a higher score than it had.
def Quiet (n : Nat) : Prop :=
  ∀ hop, Kept host settings topIds request db n hop → ∀ d ≤ n, IdFirst host settings topIds request db d hop.id →
    ∀ u, IdPath host settings topIds request db n hop.parent u →
      ∃ q, IdPath host settings topIds request db d hop.id q ∧ u * worth hop.link * decay (n + 1) ≤ q * decay d

-- The scores that the rounds can give for the paths of a length.
def decayed (n : Nat) (id : String) : Set ℚ :=
  {s | ∃ value, IdPath host settings topIds request db n id value ∧ s = value * decay n}

structure Spreading (n : Nat) (now : Spread) : Prop where
  frontierKey : ∀ id, (scoreOf now.frontier id).isSome ↔ IdLayer host settings topIds request db n id
  frontierBest : ∀ id score, scoreOf now.frontier id = some score → IsGreatest (decayed host settings topIds request db n id) score
  graphKey : ∀ id, (scoreOf now.graph id).isSome ↔ ∃ d ≤ n, IdFirst host settings topIds request db d id
  graphBest : ∀ id score d, scoreOf now.graph id = some score → IdFirst host settings topIds request db d id →
    IsGreatest (decayed host settings topIds request db d id) score
  processed : ∀ id, id ∈ now.processed ↔ ∃ d ≤ n, IdLayer host settings topIds request db d id

end

section
variable {host : Host} {settings : Settings} {topIds : List String} {request : Normalized} {db : Db} {n : Nat} {now : Spread}

theorem layerKept (spreading : Spreading host settings topIds request db n now) {hop : Hop} :
    Kept host settings topIds request db n hop ↔ hop ∈ hopsFrom host settings request (now.frontier.map Prod.fst) db ∧
      Follows host settings request db hop.link hop.parent hop.id := by
  have keys : ∀ id, id ∈ now.frontier.map Prod.fst ↔ IdLayer host settings topIds request db n id := by
    intro id
    rw [← scoreKey, spreading.frontierKey]
  constructor
  · rintro ⟨frontier, layer, mem, follows⟩
    exact ⟨hopsSame (fun id => (layer id).trans (keys id).symm) ▸ mem, follows⟩
  · rintro ⟨mem, follows⟩
    exact ⟨_, keys, mem, follows⟩

-- What a row of the round scores: the best path to its parent, one hop longer.
theorem keptScore (spreading : Spreading host settings topIds request db n now) {hop : Hop}
    (mem : hop ∈ hopsFrom host settings request (now.frontier.map Prod.fst) db) :
    ∃ u, IdPath host settings topIds request db n hop.parent u ∧
      (∀ v, IdPath host settings topIds request db n hop.parent v → v ≤ u) ∧
      hopScore (n + 1) now hop = u * worth hop.link * decay (n + 1) := by
  obtain ⟨score, found⟩ := Option.isSome_iff_exists.mp (scoreKey.mpr (hopHeld mem).1)
  obtain ⟨⟨u, path, rfl⟩, most⟩ := spreading.frontierBest _ _ found
  refine ⟨u, path, fun v other => le_of_mul_le_mul_right (most ⟨v, other, rfl⟩) (decayPositive n), ?_⟩
  rw [hopScore, found, Option.getD_some, worth, decay, Nat.add_sub_cancel]
  ring

theorem lighter (spreading : Spreading host settings topIds request db n now) {hop : Hop}
    (mem : hop ∈ hopsFrom host settings request (now.frontier.map Prod.fst) db) (positive : 0 < hopScore (n + 1) now hop) :
    0 < hop.link.weight := by
  obtain ⟨u, path, -, same⟩ := keptScore spreading mem
  by_contra light
  have low : worth hop.link ≤ 0 := by
    unfold worth
    split <;> linarith
  rw [same] at positive
  exact positive.not_ge (mul_nonpos_of_nonpos_of_nonneg
    (mul_nonpos_of_nonneg_of_nonpos (idPathPositive path).le low) (decayPositive _).le)

variable (n now) in
-- The scores that the rows of the next round give to an id.
def given (host : Host) (settings : Settings) (request : Normalized) (db : Db) (id : String) : List ℚ :=
  scoresFor (n + 1) now id (hopsFrom host settings request (now.frontier.map Prod.fst) db)

theorem givenPath (spreading : Spreading host settings topIds request db n now) {id : String} {t : ℚ}
    (mem : t ∈ given n now host settings request db id) (positive : 0 < t) :
    t ∈ decayed host settings topIds request db (n + 1) id := by
  obtain ⟨hop, row, valid, rfl, rfl⟩ := memScoresFor.mp mem
  obtain ⟨-, link, follows⟩ := hopHeld row
  obtain ⟨u, path, -, same⟩ := keptScore spreading row
  exact ⟨_, .hop path ⟨_, link, follows valid (lighter spreading row positive), rfl⟩, same⟩

theorem givenFirst (spreading : Spreading host settings topIds request db n now) {id : String} {t : ℚ}
    (mem : t ∈ given n now host settings request db id) (positive : 0 < t) :
    ∃ d ≤ n + 1, IdFirst host settings topIds request db d id := by
  obtain ⟨value, path, -⟩ := givenPath spreading mem positive
  exact reachedFirst (Nat.le_add_left 1 n) ⟨value, path⟩

theorem newBest (spreading : Spreading host settings topIds request db n now) (covered : Covered host settings topIds request db n)
    {id : String} (first : IdFirst host settings topIds request db (n + 1) id) :
    ∃ score, (given n now host settings request db id).foldl raised none = some score ∧
      IsGreatest (decayed host settings topIds request db (n + 1) id) score := by
  have above : ∀ value, IdPath host settings topIds request db (n + 1) id value →
      ∃ t ∈ given n now host settings request db id, value * decay (n + 1) ≤ t := by
    intro value path
    obtain ⟨hop, kept, rfl, u, before, least⟩ := covered id first value path
    obtain ⟨row, follows⟩ := (layerKept spreading).mp kept
    obtain ⟨best, -, most, same⟩ := keptScore spreading row
    refine ⟨_, memScoresFor.mpr ⟨hop, row, followsValid follows, rfl, rfl⟩, ?_⟩
    rw [same]
    exact mul_le_mul_of_nonneg_right (least.trans (mul_le_mul_of_nonneg_right (most u before) (worthPositive follows.heavy).le))
      (decayPositive _).le
  obtain ⟨value, path⟩ := first.reached
  cases found : (given n now host settings request db id).foldl raised none with
  | none =>
    obtain ⟨t, mem, least⟩ := above value path
    have positive := mul_pos (idPathPositive path) (decayPositive (n + 1))
    exact absurd ((raisedNone.mp found).2 t mem) (not_le.mpr (positive.trans_le least))
  | some score =>
    obtain ⟨held | mem, positive, -, most⟩ := (raisedAll (by simp)).mp found
    · cases held
    · refine ⟨score, rfl, givenPath spreading mem positive, ?_⟩
      rintro s ⟨v, other, rfl⟩
      obtain ⟨t, inside, least⟩ := above v other
      exact least.trans (most t inside)

-- A row that leads back gives no more than what the id has.
theorem oldBest (spreading : Spreading host settings topIds request db n now) (quiet : Quiet host settings topIds request db n)
    {id : String} {d : Nat} (before : d ≤ n) (first : IdFirst host settings topIds request db d id) {score t : ℚ}
    (best : IsGreatest (decayed host settings topIds request db d id) score) (mem : t ∈ given n now host settings request db id) :
    t ≤ score := by
  rcases le_or_gt t 0 with none | positive
  · obtain ⟨value, path, rfl⟩ := best.1
    exact none.trans (mul_pos (idPathPositive path) (decayPositive d)).le
  · obtain ⟨hop, row, valid, rfl, rfl⟩ := memScoresFor.mp mem
    obtain ⟨u, path, -, same⟩ := keptScore spreading row
    have kept := (layerKept spreading).mpr ⟨row, (hopHeld row).2.2 valid (lighter spreading row positive)⟩
    obtain ⟨q, earlier, least⟩ := quiet hop kept d before first u path
    rw [same]
    exact least.trans (best.2 ⟨q, earlier, rfl⟩)

-- The round itself, on a search that stands at a layer.
def round (host : Host) (settings : Settings) (request : Normalized) (db : Db) (n : Nat) (now : Spread) : Spread :=
  let next := (hopsFrom host settings request (now.frontier.map Prod.fst) db).foldl (followHop (n + 1) now) {now with frontier := []}
  {next with processed := now.processed ++ next.frontier.map Prod.fst}

theorem roundGraph {id : String} : scoreOf (round host settings request db n now).graph id =
    (given n now host settings request db id).foldl raised (scoreOf now.graph id) := followedGraph

theorem roundFrontier {id : String} : scoreOf (round host settings request db n now).frontier id =
    if now.processed.contains id then none else (given n now host settings request db id).foldl raised none := followedFrontier

theorem graphPositive (spreading : Spreading host settings topIds request db n now) {id : String} :
    ∀ t ∈ scoreOf now.graph id, 0 < t := by
  intro t held
  obtain ⟨d, -, first⟩ := (spreading.graphKey id).mp (Option.isSome_iff_exists.mpr ⟨t, held⟩)
  obtain ⟨value, path, rfl⟩ := (spreading.graphBest id t d held first).1
  exact mul_pos (idPathPositive path) (decayPositive d)

theorem unreached (spreading : Spreading host settings topIds request db n now) {id : String}
    (first : IdFirst host settings topIds request db (n + 1) id) : scoreOf now.graph id = none := by
  refine Option.not_isSome_iff_eq_none.mp fun held => ?_
  obtain ⟨d, before, other⟩ := (spreading.graphKey id).mp held
  exact absurd (firstUnique other first) (by omega)

theorem roundLayer (spreading : Spreading host settings topIds request db n now) (covered : Covered host settings topIds request db n)
    (id : String) : (scoreOf (round host settings request db n now).frontier id).isSome ↔
      IdLayer host settings topIds request db (n + 1) id := by
  rw [roundFrontier]
  by_cases known : now.processed.contains id = true
  · rw [if_pos known]
    obtain ⟨d, before, layer⟩ := (spreading.processed id).mp (List.contains_iff_mem.mp known)
    exact iff_of_false (by simp) fun later => absurd (layerUnique layer later) (by omega)
  · rw [if_neg known]
    have early : ∀ d ≤ n, ¬ IdLayer host settings topIds request db d id := fun d before layer =>
      known (List.contains_iff_mem.mpr ((spreading.processed id).mpr ⟨d, before, layer⟩))
    constructor
    · intro some
      obtain ⟨score, found⟩ := Option.isSome_iff_exists.mp some
      obtain ⟨held | mem, positive, -⟩ := (raisedAll (by simp)).mp found
      · cases held
      · obtain ⟨d, atMost, first⟩ := givenFirst spreading mem positive
        obtain ⟨k, inside, layer⟩ := firstLayer first
        rcases Nat.lt_or_ge n k with new | old
        · obtain rfl : k = n + 1 := by omega
          exact layer
        · exact absurd layer (early k old)
    · rintro (⟨zero, -⟩ | ⟨first, -⟩)
      · cases zero
      · obtain ⟨score, found, -⟩ := newBest spreading covered first
        exact Option.isSome_iff_exists.mpr ⟨score, found⟩

-- One round takes a search from a layer to the next, where the rows cover it and none leads back with more.
theorem spreadRound (spreading : Spreading host settings topIds request db n now) (covered : Covered host settings topIds request db n)
    (quiet : Quiet host settings topIds request db n) :
    Spreading host settings topIds request db (n + 1) (round host settings request db n now) where
  frontierKey := roundLayer spreading covered
  frontierBest := by
    intro id score found
    rcases (roundLayer spreading covered id).mp (Option.isSome_iff_exists.mpr ⟨score, found⟩) with ⟨zero, -⟩ | ⟨first, -⟩
    · cases zero
    · obtain ⟨best, given, greatest⟩ := newBest spreading covered first
      rw [roundFrontier, given] at found
      split at found
      · cases found
      · exact Option.some.inj found ▸ greatest
  graphKey := by
    intro id
    rw [roundGraph]
    constructor
    · intro some
      obtain ⟨score, found⟩ := Option.isSome_iff_exists.mp some
      obtain ⟨held | mem, positive, -⟩ := (raisedAll (graphPositive spreading)).mp found
      · obtain ⟨d, before, first⟩ := (spreading.graphKey id).mp (Option.isSome_iff_exists.mpr ⟨score, held⟩)
        exact ⟨d, Nat.le_succ_of_le before, first⟩
      · exact givenFirst spreading mem positive
    · rintro ⟨d, atMost, first⟩
      rcases Nat.lt_or_ge n d with new | old
      · obtain rfl : d = n + 1 := by omega
        obtain ⟨score, found, -⟩ := newBest spreading covered first
        rw [unreached spreading first]
        exact Option.isSome_iff_exists.mpr ⟨score, found⟩
      · obtain ⟨t, held⟩ := Option.isSome_iff_exists.mp ((spreading.graphKey id).mpr ⟨d, old, first⟩)
        refine Option.isSome_iff_ne_none.mpr fun none => ?_
        rw [held] at none
        exact nomatch (raisedNone.mp none).1
  graphBest := by
    intro id score d found first
    rw [roundGraph] at found
    obtain ⟨k, atMost, other⟩ : ∃ k ≤ n + 1, IdFirst host settings topIds request db k id := by
      obtain ⟨held | mem, positive, -⟩ := (raisedAll (graphPositive spreading)).mp found
      · obtain ⟨k, before, other⟩ := (spreading.graphKey id).mp (Option.isSome_iff_exists.mpr ⟨score, held⟩)
        exact ⟨k, Nat.le_succ_of_le before, other⟩
      · exact givenFirst spreading mem positive
    obtain rfl := firstUnique first other
    rcases Nat.lt_or_ge n d with new | old
    · obtain rfl : d = n + 1 := by omega
      obtain ⟨best, given, greatest⟩ := newBest spreading covered first
      rw [unreached spreading first, given] at found
      exact Option.some.inj found ▸ greatest
    · obtain ⟨t, held⟩ := Option.isSome_iff_exists.mp ((spreading.graphKey id).mpr ⟨d, old, first⟩)
      have best := spreading.graphBest id t d held first
      obtain ⟨from_, -, above, -⟩ := (raisedAll (graphPositive spreading)).mp found
      have same : score = t := by
        rcases from_ with kept | mem
        · exact Option.some.inj (kept.symm.trans held)
        · exact le_antisymm (oldBest spreading quiet old first best mem) (above t held)
      exact same ▸ best
  processed := by
    intro id
    have keys : id ∈ (round host settings request db n now).frontier.map Prod.fst ↔ IdLayer host settings topIds request db (n + 1) id := by
      rw [← scoreKey, roundLayer spreading covered]
    change id ∈ now.processed ++ (round host settings request db n now).frontier.map Prod.fst ↔ _
    rw [List.mem_append, spreading.processed, keys]
    constructor
    · rintro (⟨d, before, layer⟩ | layer)
      · exact ⟨d, Nat.le_succ_of_le before, layer⟩
      · exact ⟨n + 1, le_rfl, layer⟩
    · rintro ⟨d, atMost, layer⟩
      rcases Nat.lt_or_ge n d with new | old
      · obtain rfl : d = n + 1 := by omega
        exact .inr layer
      · exact .inl ⟨d, old, layer⟩

theorem spreadStart : Spreading host settings topIds request db 0 ⟨[], topIds.map (fun id => (id, 1)), topIds⟩ where
  frontierKey := by
    intro id
    rw [scoreKey, List.map_map, IdLayer, layerZero]
    simp
  frontierBest := by
    intro id score found
    obtain ⟨seed, mem, same⟩ : ∃ seed ∈ topIds, (seed, (1 : ℚ)) = (id, score) := by
      unfold scoreOf at found
      obtain ⟨entry, held, rfl⟩ := Option.map_eq_some_iff.mp found
      obtain ⟨seed, mem, rfl⟩ := List.mem_map.mp (List.mem_of_find?_eq_some held)
      have named : seed = id := of_decide_eq_true (List.find?_some held :)
      exact ⟨seed, mem, by rw [named]⟩
    obtain ⟨rfl, rfl⟩ := Prod.mk.inj same
    refine ⟨⟨1, .start mem, (mul_one 1).symm⟩, ?_⟩
    rintro s ⟨value, path, rfl⟩
    cases path
    exact (mul_one 1).le
  graphKey := by
    intro id
    refine iff_of_false (by simp [scoreOf]) ?_
    rintro ⟨d, zero, first⟩
    exact absurd first.moved (by omega)
  graphBest := fun id score d found => by cases found
  processed := by
    intro id
    simp only [Nat.le_zero, exists_eq_left, IdLayer, layerZero]

-- After all the rounds there are, each id first reached within the depth has its best path's score.
theorem spreadRun {fuel : Nat} : ∀ {n : Nat} {now : Spread}, Spreading host settings topIds request db n now →
    (∀ k < n + fuel, Covered host settings topIds request db k ∧ Quiet host settings topIds request db k) → ∀ id,
      ((scoreOf (spread host settings request db fuel (n + 1) now).graph id).isSome ↔
        ∃ d ≤ n + fuel, IdFirst host settings topIds request db d id) ∧
      ∀ score d, scoreOf (spread host settings request db fuel (n + 1) now).graph id = some score →
        IdFirst host settings topIds request db d id → IsGreatest (decayed host settings topIds request db d id) score := by
  induction fuel with
  | zero => exact fun spreading _ id => ⟨spreading.graphKey id, fun score d found first => spreading.graphBest id score d found first⟩
  | succ fuel ih =>
    intro n now spreading all id
    rw [spread]
    by_cases ended : now.frontier = []
    · rw [if_pos ended]
      have none : ∀ id, ¬ IdLayer host settings topIds request db n id := by
        intro id layer
        have some := (spreading.frontierKey id).mpr layer
        rw [ended] at some
        cases some
      refine ⟨(spreading.graphKey id).trans ⟨?_, ?_⟩, fun score d found first => spreading.graphBest id score d found first⟩
      · rintro ⟨d, atMost, first⟩
        exact ⟨d, by omega, first⟩
      · rintro ⟨d, -, first⟩
        exact ⟨d, layersEnd none first, first⟩
    · rw [if_neg ended]
      have here := all n (by omega)
      have sum : n + (fuel + 1) = n + 1 + fuel := by omega
      rw [sum]
      exact ih (spreadRound spreading here.1 here.2) (fun k below => all k (by omega)) id

theorem graphRun (covered : ∀ n < maxDepth settings, Covered host settings topIds request db n)
    (quiet : ∀ n < maxDepth settings, Quiet host settings topIds request db n) (id : String) :
    ((scoreOf (linkGraph host settings topIds request db) id).isSome ↔
      ∃ d ≤ maxDepth settings, IdFirst host settings topIds request db d id) ∧
    ∀ score d, scoreOf (linkGraph host settings topIds request db) id = some score →
      IdFirst host settings topIds request db d id → IsGreatest (decayed host settings topIds request db d id) score := by
  have all : ∀ k < 0 + maxDepth settings, Covered host settings topIds request db k ∧ Quiet host settings topIds request db k :=
    fun k below => ⟨covered k (by omega), quiet k (by omega)⟩
  have run := spreadRun spreadStart all id
  simp only [Nat.zero_add] at run
  exact run

-- Where the rows cover each layer and none leads back with more, the neighbours are all found, and the scores
-- are right exactly if nothing is first reached by three hops or more.
theorem expandedShallow (covered : ∀ n < maxDepth settings, Covered host settings topIds request db n)
    (quiet : ∀ n < maxDepth settings, Quiet host settings topIds request db n) :
    Expanded host settings topIds request db ↔
      ∀ n id, 3 ≤ n → n ≤ maxDepth settings → ¬ IdFirst host settings topIds request db n id := by
  have run := graphRun covered quiet
  constructor
  · intro expanded n id late within first
    obtain ⟨score, found⟩ := Option.isSome_iff_exists.mp ((run id).1.mpr ⟨n, within, first⟩)
    obtain ⟨value, path, same⟩ := ((run id).2 score n found first).1
    have claimed := (expanded.2 n id score first found).2 ⟨value, path, rfl⟩
    have less := mul_lt_mul_of_pos_left (decayLate late) (idPathPositive path)
    linarith
  · intro shallow
    refine ⟨fun id => ?_, fun n id score first found => ?_⟩
    · rw [← scoreKey, (run id).1]
      constructor
      · rintro ⟨d, within, first⟩
        exact ⟨d, first.moved, within, first.reached⟩
      · rintro ⟨n, moved, within, reached⟩
        obtain ⟨d, atMost, first⟩ := reachedFirst moved reached
        exact ⟨d, atMost.trans within, first⟩
    · obtain ⟨d, within, other⟩ := (run id).1.mp (Option.isSome_iff_exists.mpr ⟨score, found⟩)
      obtain rfl := firstUnique first other
      have near : n = 1 ∨ n = 2 := by
        have moved := first.moved
        by_contra far
        exact shallow n id (by omega) within first
      have same : decay n = (1 / 2) ^ (n - 1) := by
        rcases near with rfl | rfl <;> norm_num [decay]
      have best := (run id).2 score n found first
      rwa [decayed, same] at best

end

-- A seed and its neighbours.
def linkedTo (others : List (String × ℚ)) : Db :=
  {Db.empty with
    observations := ("a" :: others.map Prod.fst).map (fun id => plainRow id "p" "u")
    links := others.map (fun other => ⟨"a", other.1, "extends", other.2, ""⟩)}
def anyone : Normalized := ⟨plainRequest "q", none⟩
def oneHop : Settings := {plainSettings with graphMaxHops := some 1}

theorem onlyNeighbour : Expanded readHost oneHop ["a"] anyone (linkedTo [("b", 1 / 2)]) := by
  have once : maxDepth oneHop = 1 := rfl
  have hops : hopsFrom readHost oneHop anyone ["a"] (linkedTo [("b", 1 / 2)]) = [⟨⟨"a", "b", "extends", 1 / 2, ""⟩, "b", "a"⟩] := by
    rfl
  refine (expandedShallow ?_ ?_).mpr (fun n id late within => absurd (late.trans within) (by decide))
  · intro n below id first value path
    obtain rfl : n = 0 := by omega
    cases path with
    | hop before next =>
      cases before with
      | start seed =>
        obtain ⟨link, held, follows, rfl⟩ := next
        obtain rfl := List.mem_singleton.mp seed
        obtain rfl := List.mem_singleton.mp held
        rcases follows.ends with ⟨-, rfl⟩ | ⟨wrong, -⟩
        · refine ⟨⟨_, "b", "a"⟩, ⟨["a"], fun id => layerZero.symm, ?_, follows⟩, rfl, 1, .start seed, le_rfl⟩
          rw [hops]
          exact List.mem_singleton_self _
        · exact absurd wrong (by decide)
  · intro n below hop kept d before first
    exact absurd first.moved (by omega)

-- Two neighbours of one seed, and only the one with the heavier link is found.
theorem neighbourLost : (linkedTo [("b", 1), ("c", 1 / 2)]).links.length ≤ 400 ∧
    ¬ Expanded readHost plainSettings ["a"] anyone (linkedTo [("b", 1), ("c", 1 / 2)]) := by
  refine ⟨by decide, fun expanded => ?_⟩
  have lost : "c" ∉ (linkGraph readHost plainSettings ["a"] anyone (linkedTo [("b", 1), ("c", 1 / 2)])).map Prod.fst := by
    decide +kernel
  have visible : ∃ row ∈ admitted readHost plainSettings anyone (linkedTo [("b", 1), ("c", 1 / 2)]), row.id = "c" := by
    decide
  have link : Step readHost plainSettings anyone (linkedTo [("b", 1), ("c", 1 / 2)]) "a" "c" (worth ⟨"a", "c", "extends", 1 / 2, ""⟩) :=
    ⟨_, by decide +kernel, ⟨by decide, .inl ⟨rfl, rfl⟩, by decide, by decide, by decide, by norm_num, visible⟩, rfl⟩
  exact lost ((expanded.1 "c").mpr ⟨1, le_rfl, by decide, _, .hop (.start List.mem_cons_self) link⟩)

end HarnessMem.Search
