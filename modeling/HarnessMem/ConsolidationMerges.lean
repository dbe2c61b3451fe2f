import HarnessMem.ConsolidationWrites
import Mathlib.Data.List.Induction

/-! Which facts a consolidation run leaves merged into an active one. -/
namespace HarnessMem.Consolidation
open Recorder

-- Merged since `base` was read.
def Marked (base : List Fact) (fact : Fact) : Prop :=
  fact.mergedIntoFactId ≠ none ∧ ∀ old ∈ base, old.factId = fact.factId → old.mergedIntoFactId = none

def Target (facts : List Fact) (fact target : Fact) : Prop :=
  target ∈ facts ∧ fact.mergedIntoFactId = some target.factId ∧ target.project = fact.project ∧ target.factType = fact.factType

def LiveMerges (base facts : List Fact) : Prop :=
  ∀ fact ∈ facts, Marked base fact → ∃ target, Target facts fact target ∧ active target = true

def Targeted (base facts : List Fact) (id : String) : Prop := ∃ fact ∈ facts, Marked base fact ∧ fact.mergedIntoFactId = some id

-- What holds of the facts at every statement of a run that began with `base`.
structure Grounded (base facts : List Fact) : Prop where
  keyed : (facts.map Fact.factId).Nodup
  kept : ∀ old ∈ base, old.mergedIntoFactId ≠ none → ∃ fact ∈ facts, fact.factId = old.factId ∧ fact.mergedIntoFactId ≠ none
  named : ∀ fact ∈ facts, Marked base fact → ∃ target, Target facts fact target

-- The statements the worker issues: a new fact is unmerged, a merge takes an unmerged one.
def Write.Sound (facts : List Fact) : Write → Prop
  | .insertFact row => row.mergedIntoFactId = none
  | .merge factId into _ => ∃ fact ∈ facts, ∃ leader ∈ facts, fact.factId = factId ∧ leader.factId = into ∧ factId ≠ into ∧
      fact.mergedIntoFactId = none ∧ leader.project = fact.project ∧ leader.factType = fact.factType
  | _ => True

-- A merge into an active fact; and no target of this run's merges goes away.
def Write.Spares (base facts : List Fact) : Write → Prop
  | .supersede factId _ _ => ¬ Targeted base facts factId
  | .merge factId into _ => (∀ leader ∈ facts, leader.factId = into → active leader = true) ∧ ¬ Targeted base facts factId
  | _ => True

section
variable {w : Write} {base facts : List Fact}

-- The merged facts are those merged before, and the one the statement merges.
theorem markedAfter (sound : w.Sound facts) {fact : Fact} (mem : fact ∈ w.onFacts facts) (marked : Marked base fact) :
    ∃ old ∈ facts, fact = w.touch old ∧ (Marked base old ∧ fact.mergedIntoFactId = old.mergedIntoFactId ∨
      ∃ into at', w = .merge old.factId into at' ∧ fact.mergedIntoFactId = some into) := by
  obtain ⟨added, rows, fresh⟩ := onFactsRows w facts
  rw [rows, List.mem_append] at mem
  rcases mem with there | new
  · obtain ⟨old, held, rfl⟩ := List.mem_map.mp there
    refine ⟨old, held, rfl, ?_⟩
    by_cases taken : ∃ into at', w = .merge old.factId into at'
    · obtain ⟨into, at', rfl⟩ := taken
      exact .inr ⟨into, at', rfl, by simp [Write.touch]⟩
    · have same := touchMerged w old (fun into at' is => taken ⟨into, at', is⟩)
      refine .inl ⟨⟨same ▸ marked.1, fun before held is => marked.2 before held (is.trans (touchId w old).symm)⟩, same⟩
  · obtain ⟨⟨row, rfl, rfl⟩, -⟩ := fresh fact new
    exact absurd sound marked.1

theorem markedKept (grounded : Grounded base facts) (sound : w.Sound facts) {fact : Fact} (mem : fact ∈ facts)
    (marked : Marked base fact) : (w.touch fact).mergedIntoFactId = fact.mergedIntoFactId ∧ Marked base (w.touch fact) := by
  have same : (w.touch fact).mergedIntoFactId = fact.mergedIntoFactId := by
    refine touchMerged w fact (fun into at' is => ?_)
    subst is
    obtain ⟨free, held, -, -, same, -, -, unmerged, -⟩ := sound
    exact marked.1 (Tables.keyUnique grounded.keyed held mem same ▸ unmerged)
  exact ⟨same, same ▸ marked.1, fun old held is => marked.2 old held (is.trans (touchId w fact))⟩

theorem targetKept {fact target : Fact} (found : Target facts fact target)
    (same : (w.touch fact).mergedIntoFactId = fact.mergedIntoFactId) :
    Target (w.onFacts facts) (w.touch fact) (w.touch target) := by
  obtain ⟨mem, into, project, kind⟩ := found
  exact ⟨onFactsKeeps mem, by rw [same, into, touchId], by simp [project], by simp [kind]⟩

theorem groundedStep (grounded : Grounded base facts) (sound : w.Sound facts) : Grounded base (w.onFacts facts) := by
  refine ⟨onFactsKeyed grounded.keyed, ?_, fun fact mem marked => ?_⟩
  · intro old held merged
    obtain ⟨fact, mem, same, was⟩ := grounded.kept old held merged
    refine ⟨w.touch fact, onFactsKeeps mem, (touchId w fact).trans same, fun none => ?_⟩
    by_cases taken : ∃ into at', w = .merge fact.factId into at'
    · obtain ⟨into, at', rfl⟩ := taken
      simp [Write.touch] at none
    · exact was ((touchMerged w fact (fun into at' is => taken ⟨into, at', is⟩)).symm.trans none)
  · obtain ⟨old, held, rfl, ⟨was, same⟩ | ⟨into, at', rfl, is⟩⟩ := markedAfter sound mem marked
    · obtain ⟨target, found⟩ := grounded.named old held was
      exact ⟨w.touch target, targetKept found same⟩
    · obtain ⟨free, inside, leader, led, same, rfl, apart, -, project, kind⟩ := sound
      obtain rfl := Tables.keyUnique grounded.keyed inside held same
      exact ⟨_, onFactsKeeps led, by rw [is, touchId], by simp [project], by simp [kind]⟩

theorem liveBefore (grounded : Grounded base facts) (sound : w.Sound facts) (live : LiveMerges base (w.onFacts facts))
    {fact : Fact} (mem : fact ∈ facts) (marked : Marked base fact) :
    ∃ target, Target facts fact target ∧ active (w.touch target) = true := by
  obtain ⟨same, still⟩ := markedKept grounded sound mem marked
  obtain ⟨after, ⟨held, into, -, -⟩, alive⟩ := live _ (onFactsKeeps mem) still
  obtain ⟨target, found⟩ := grounded.named fact mem marked
  have ids : target.factId = after.factId := Option.some.inj (found.2.1.symm.trans (same.symm.trans into))
  obtain ⟨old, there, rfl⟩ := onFactsOld held ⟨target, found.1, ids⟩
  obtain rfl := Tables.keyUnique grounded.keyed found.1 there (ids.trans (touchId w old))
  exact ⟨target, found, alive⟩

theorem mergedLive (grounded : Grounded base facts) {free leader : Fact} {at' : String} (inside : free ∈ facts)
    (unmerged : free.mergedIntoFactId = none) (led : leader ∈ facts)
    (live : LiveMerges base ((Write.merge free.factId leader.factId at').onFacts facts)) :
    active ((Write.merge free.factId leader.factId at').touch leader) = true := by
  have into : ((Write.merge free.factId leader.factId at').touch free).mergedIntoFactId = some leader.factId := by
    simp [Write.touch]
  have marked : Marked base ((Write.merge free.factId leader.factId at').touch free) := by
    refine ⟨by simp [into], fun old held same => ?_⟩
    by_contra merged
    obtain ⟨fact, mem, is, was⟩ := grounded.kept old held merged
    exact was (Tables.keyUnique grounded.keyed inside mem (by rw [is, same, touchId]) ▸ unmerged)
  obtain ⟨after, ⟨held, found, -, -⟩, alive⟩ := live _ (onFactsKeeps inside) marked
  have ids : leader.factId = after.factId := Option.some.inj (into.symm.trans found)
  obtain ⟨old, there, rfl⟩ := onFactsOld held ⟨leader, led, ids⟩
  obtain rfl := Tables.keyUnique grounded.keyed led there (ids.trans (touchId _ old))
  exact alive

-- One statement keeps every merge live exactly when it spares what is merged into.
theorem liveStep (grounded : Grounded base facts) (sound : w.Sound facts) :
    LiveMerges base (w.onFacts facts) ↔ LiveMerges base facts ∧ w.Spares base facts := by
  constructor
  · intro live
    have before := fun (fact : Fact) (mem : fact ∈ facts) (marked : Marked base fact) => liveBefore grounded sound live mem marked
    have untouched : ∀ id, Targeted base facts id → ∃ target ∈ facts, target.factId = id ∧ active (w.touch target) = true := by
      rintro id ⟨fact, mem, marked, into⟩
      obtain ⟨target, found, alive⟩ := before fact mem marked
      exact ⟨target, found.1, Option.some.inj (found.2.1.symm.trans into), alive⟩
    refine ⟨fun fact mem marked => ?_, ?_⟩
    · obtain ⟨target, found, alive⟩ := before fact mem marked
      exact ⟨target, found, touchActive w target alive⟩
    · cases w with
      | supersede factId supersededBy at' =>
        intro targeted
        obtain ⟨target, -, rfl, alive⟩ := untouched factId targeted
        by_cases open' : target.supersededBy = none <;> simp [Write.touch, active, open'] at alive
      | merge factId into at' =>
        refine ⟨?_, fun targeted => ?_⟩
        · obtain ⟨free, inside, leader, led, rfl, rfl, -, unmerged, -⟩ := sound
          intro other there is
          obtain rfl := Tables.keyUnique grounded.keyed led there is.symm
          exact touchActive _ leader (mergedLive grounded inside unmerged led live)
        · obtain ⟨target, -, rfl, alive⟩ := untouched factId targeted
          simp [Write.touch, active] at alive
      | _ => trivial
  · rintro ⟨live, spares⟩ fact mem marked
    obtain ⟨old, held, rfl, ⟨was, same⟩ | ⟨into, at', rfl, is⟩⟩ := markedAfter sound mem marked
    · obtain ⟨target, found, alive⟩ := live old held was
      have targeted : Targeted base facts target.factId := ⟨old, held, was, found.2.1⟩
      have still : w.touch target = target := by
        refine touchSpared w target (fun by' at' is => ?_) (fun into at' is => ?_)
        · subst is
          exact spares targeted
        · subst is
          exact spares.2 targeted
      exact ⟨_, targetKept found same, by rwa [still]⟩
    · obtain ⟨free, inside, leader, led, same, rfl, apart, -, project, kind⟩ := sound
      obtain rfl := Tables.keyUnique grounded.keyed inside held same
      have still : (Write.merge free.factId leader.factId at').touch leader = leader :=
        if_neg (fun is => apart is.symm)
      have kept := onFactsKeeps (w := .merge free.factId leader.factId at') led
      rw [still] at kept
      exact ⟨leader, ⟨kept, is, by simp [project], by simp [kind]⟩, spares.1 leader led rfl⟩

theorem targetedStep (grounded : Grounded base facts) (sound : w.Sound facts) {id : String}
    (other : ∀ factId at', w ≠ .merge factId id at') : Targeted base (w.onFacts facts) id ↔ Targeted base facts id := by
  constructor
  · rintro ⟨fact, mem, marked, into⟩
    obtain ⟨old, held, rfl, ⟨was, same⟩ | ⟨into', at', rfl, is⟩⟩ := markedAfter sound mem marked
    · exact ⟨old, held, was, same.symm.trans into⟩
    · obtain rfl := Option.some.inj (is.symm.trans into)
      exact absurd rfl (other old.factId at')
  · rintro ⟨fact, mem, marked, into⟩
    obtain ⟨same, still⟩ := markedKept grounded sound mem marked
    exact ⟨_, onFactsKeeps mem, still, same.trans into⟩
end

abbrev SoundAll : List Fact → List Write → Prop := Runs.Throughout Write.onFacts Write.Sound
abbrev SparesAll (base : List Fact) : List Fact → List Write → Prop := Runs.Throughout Write.onFacts (Write.Spares base)

section
variable {base facts : List Fact}

theorem liveRun {writes : List Write} (grounded : Grounded base facts) (sound : SoundAll facts writes) :
    Grounded base (Runs.run Write.onFacts facts writes) ∧
      (LiveMerges base (Runs.run Write.onFacts facts writes) ↔ LiveMerges base facts ∧ SparesAll base facts writes) :=
  Runs.exactRun Write.onFacts (fun _ _ => groundedStep) (fun _ _ => liveStep) grounded sound

theorem soundAppend {first second : List Write} : SoundAll facts (first ++ second) ↔
    SoundAll facts first ∧ SoundAll (Runs.run Write.onFacts facts first) second := Runs.throughoutAppend _
theorem sparesAppend {first second : List Write} : SparesAll base facts (first ++ second) ↔
    SparesAll base facts first ∧ SparesAll base (Runs.run Write.onFacts facts first) second := Runs.throughoutAppend _
theorem sparesCons {w : Write} {rest : List Write} :
    SparesAll base facts (w :: rest) ↔ w.Spares base facts ∧ SparesAll base (w.onFacts facts) rest := Iff.rfl

variable (facts) in
theorem upsertsSound {writes : List Write} (upserts : ∀ w ∈ writes, w.Upserts) : SoundAll facts writes := by
  induction writes generalizing facts with
  | nil => trivial
  | cons w rest ih =>
    refine ⟨?_, ih _ (fun w mem => upserts w (List.mem_cons_of_mem _ mem))⟩
    have first := upserts w List.mem_cons_self
    cases w with
    | insertFact row => exact first
    | merge => exact first.elim
    | _ => trivial

theorem upsertsTargeted {writes : List Write} (grounded : Grounded base facts) (upserts : ∀ w ∈ writes, w.Upserts) {id : String} :
    Targeted base (Runs.run Write.onFacts facts writes) id ↔ Targeted base facts id := by
  induction writes generalizing facts with
  | nil => rfl
  | cons w rest ih =>
    have sound := (upsertsSound facts upserts).1
    rw [Runs.runCons, ih (groundedStep grounded sound) (fun w mem => upserts w (List.mem_cons_of_mem _ mem))]
    exact targetedStep grounded sound (fun factId at' is => by
      subst is
      exact upserts _ List.mem_cons_self)

theorem upsertsSpare {writes : List Write} (grounded : Grounded base facts) (upserts : ∀ w ∈ writes, w.Upserts) :
    SparesAll base facts writes ↔
      ∀ factId supersededBy at', Write.supersede factId supersededBy at' ∈ writes → ¬ Targeted base facts factId := by
  induction writes generalizing facts with
  | nil => exact iff_of_true trivial (fun _ _ _ mem => absurd mem List.not_mem_nil)
  | cons w rest ih =>
    have later : ∀ w ∈ rest, w.Upserts := fun w mem => upserts w (List.mem_cons_of_mem _ mem)
    have sound := (upsertsSound facts upserts).1
    have same : ∀ id, Targeted base (w.onFacts facts) id ↔ Targeted base facts id := fun id =>
      targetedStep grounded sound (fun factId at' is => by
        subst is
        exact upserts _ List.mem_cons_self)
    have here : w.Spares base facts ↔
        ∀ factId supersededBy at', w = .supersede factId supersededBy at' → ¬ Targeted base facts factId := by
      have first := upserts w List.mem_cons_self
      cases w with
      | supersede factId supersededBy at' =>
        exact ⟨fun spared _ _ _ is => (Write.supersede.inj is).1 ▸ spared, fun all => all _ _ _ rfl⟩
      | merge => exact first.elim
      | _ => exact iff_of_true trivial (fun _ _ _ is => by cases is)
    rw [sparesCons, here, ih (groundedStep grounded sound) later]
    simp only [same, List.mem_cons]
    constructor
    · rintro ⟨head, tail⟩ factId supersededBy at' (is | mem)
      · exact head factId supersededBy at' is.symm
      · exact tail factId supersededBy at' mem
    · exact fun all => ⟨fun factId supersededBy at' is => all factId supersededBy at' (.inl is.symm),
        fun factId supersededBy at' mem => all factId supersededBy at' (.inr mem)⟩

-- Merges each of another fact, none of a fact merged into.
structure Merges (facts : List Fact) (merges : List (String × String × String)) : Prop where
  sound : ∀ m ∈ merges, (Write.merge m.1 m.2.1 m.2.2).Sound facts
  once : (merges.map Prod.fst).Nodup
  apart : ∀ m ∈ merges, ∀ other ∈ merges, m.1 ≠ other.2.1

theorem mergesNext {m : String × String × String} {rest : List (String × String × String)} (all : Merges facts (m :: rest)) :
    Merges ((Write.merge m.1 m.2.1 m.2.2).onFacts facts) rest := by
  obtain ⟨sound, once, apart⟩ := all
  rw [List.map_cons, List.nodup_cons] at once
  refine ⟨fun later mem => ?_, once.2, fun first mem other mem' =>
    apart first (List.mem_cons_of_mem _ mem) other (List.mem_cons_of_mem _ mem')⟩
  obtain ⟨fact, held, leader, led, same, into, ne, unmerged, project, kind⟩ := sound later (List.mem_cons_of_mem _ mem)
  refine ⟨_, onFactsKeeps held, _, onFactsKeeps led, by rw [touchId, same], by rw [touchId, into], ne, ?_, by simp [project],
    by simp [kind]⟩
  rw [touchMerged _ fact (fun into' at' is => once.1 ?_)]
  · exact unmerged
  · rw [(Write.merge.inj is).1, same]
    exact List.mem_map_of_mem mem

theorem mergesSpare {merges : List (String × String × String)} (grounded : Grounded base facts) (all : Merges facts merges) :
    SoundAll facts (merges.map (fun m => .merge m.1 m.2.1 m.2.2)) ∧
      (SparesAll base facts (merges.map (fun m => .merge m.1 m.2.1 m.2.2)) ↔
        ∀ m ∈ merges, (Write.merge m.1 m.2.1 m.2.2).Spares base facts) := by
  induction merges generalizing facts with
  | nil => exact ⟨trivial, iff_of_true trivial (fun _ mem => absurd mem List.not_mem_nil)⟩
  | cons m rest ih =>
    have sound := all.sound m List.mem_cons_self
    obtain ⟨later, spares⟩ := ih (groundedStep grounded sound) (mergesNext all)
    refine ⟨⟨sound, later⟩, ?_⟩
    have same : ∀ n ∈ rest, (Write.merge n.1 n.2.1 n.2.2).Spares base ((Write.merge m.1 m.2.1 m.2.2).onFacts facts) ↔
        (Write.merge n.1 n.2.1 n.2.2).Spares base facts := by
      intro n mem
      refine and_congr ?_ (not_congr (targetedStep grounded sound (fun factId at' is => ?_)))
      · have still : ∀ leader : Fact, leader.factId = n.2.1 → (Write.merge m.1 m.2.1 m.2.2).touch leader = leader := by
          intro leader is
          exact if_neg (fun also => all.apart m List.mem_cons_self n (List.mem_cons_of_mem _ mem) (also.symm.trans is))
        constructor
        · intro alive leader led is
          have there := onFactsKeeps (w := .merge m.1 m.2.1 m.2.2) led
          rw [still leader is] at there
          exact alive leader there is
        · intro alive leader led is
          obtain ⟨-, -, known, held, -, into, -⟩ := all.sound n (List.mem_cons_of_mem _ mem)
          obtain ⟨old, there, rfl⟩ := onFactsOld led ⟨known, held, into.trans is.symm⟩
          rw [touchId] at is
          rw [still old is]
          exact alive old there is
      · exact all.apart n (List.mem_cons_of_mem _ mem) m List.mem_cons_self (Write.merge.inj is).2.1.symm
    rw [List.map_cons, sparesCons, spares, List.forall_mem_cons]
    exact and_congr_right (fun _ => forall₂_congr same)
end

section
variable {host : Host} {fact : Fact}

instance (a b : Fact) : Decidable (Near host a b) := inferInstanceAs (Decidable (_ ∧ _ ∧ _))

-- The first of the most similar near leaders.
def Closest (host : Host) (leaders : List Fact) (fact leader : Fact) : Prop :=
  ∃ front back, leaders = front ++ leader :: back ∧ Near host leader fact ∧
    (∀ earlier ∈ front, Near host earlier fact → similarity host fact earlier < similarity host fact leader) ∧
    ∀ later ∈ back, Near host later fact → ¬ similarity host fact leader < similarity host fact later

theorem nearPositive {leader : Fact} (near : Near host leader fact) : 0 < similarity host fact leader :=
  lt_of_lt_of_le (by norm_num) near.2.2

theorem closerBelow {leaders : List Fact} {best : Option Fact × ℚ} {bound : ℚ} (less : best.2 < bound)
    (all : ∀ leader ∈ leaders, Near host leader fact → similarity host fact leader < bound) :
    (leaders.foldl (closer host fact) best).2 < bound := by
  induction leaders generalizing best with
  | nil => exact less
  | cons first rest ih =>
    have later := fun leader mem => all leader (List.mem_cons_of_mem first mem)
    rw [List.foldl_cons]
    by_cases better : first.project = fact.project ∧ first.factType = fact.factType ∧
        3 / 10 ≤ similarity host fact first ∧ best.2 < similarity host fact first
    · have step : closer host fact best first = (some first, similarity host fact first) := if_pos better
      have closer' : ((some first, similarity host fact first) : Option Fact × ℚ).2 < bound := by
        simpa only using all first List.mem_cons_self ⟨better.1, better.2.1, better.2.2.1⟩
      rw [step]
      exact ih closer' later
    · have step : closer host fact best first = best := if_neg better
      rw [step]
      exact ih less later

theorem closerStays {leaders : List Fact} {best : Option Fact × ℚ}
    (all : ∀ leader ∈ leaders, Near host leader fact → ¬ best.2 < similarity host fact leader) :
    leaders.foldl (closer host fact) best = best := by
  induction leaders with
  | nil => rfl
  | cons first rest ih =>
    have step : closer host fact best first = best :=
      if_neg (fun better => all first List.mem_cons_self ⟨better.1, better.2.1, better.2.2.1⟩ better.2.2.2)
    rw [List.foldl_cons, step, ih (fun leader mem => all leader (List.mem_cons_of_mem _ mem))]

theorem closestNearest {leaders : List Fact} {leader : Fact} (closest : Closest host leaders fact leader) :
    nearest host leaders fact = some leader := by
  obtain ⟨front, back, rfl, near, before, after⟩ := closest
  have positive := nearPositive near
  have empty : ((none, 0) : Option Fact × ℚ).2 < similarity host fact leader := by simpa only using positive
  have below := closerBelow empty before
  have step : closer host fact (front.foldl (closer host fact) (none, 0)) leader = (some leader, similarity host fact leader) :=
    if_pos ⟨near.1, near.2.1, near.2.2, below⟩
  have stays : back.foldl (closer host fact) (some leader, similarity host fact leader) =
      (some leader, similarity host fact leader) := by
    refine closerStays (fun later mem near' => ?_)
    simpa only using after later mem near'
  rw [nearest, List.foldl_append, List.foldl_cons, step, stays]

-- By the last leader: it is better than the best so far, or the best stays.
theorem closestEnds (host : Host) (fact : Fact) (leaders : List Fact) :
    (leaders.foldl (closer host fact) (none, 0) = (none, 0) ∧ ∀ leader ∈ leaders, ¬ Near host leader fact) ∨
      ∃ leader, leaders.foldl (closer host fact) (none, 0) = (some leader, similarity host fact leader) ∧
        Closest host leaders fact leader := by
  induction leaders using List.reverseRecOn with
  | nil => exact .inl ⟨rfl, fun _ mem => absurd mem List.not_mem_nil⟩
  | append_singleton leaders last ih =>
    rw [List.foldl_append, List.foldl_cons, List.foldl_nil]
    rcases ih with ⟨none, far⟩ | ⟨best, some', front, back, rfl, near, before, after⟩
    · rw [none]
      by_cases near : Near host last fact
      · refine .inr ⟨last, if_pos ⟨near.1, near.2.1, near.2.2, by simpa only using nearPositive near⟩, leaders, [], rfl, near, ?_, by simp⟩
        exact fun earlier mem close => absurd close (far earlier mem)
      · refine .inl ⟨if_neg (fun better => near ⟨better.1, better.2.1, better.2.2.1⟩), fun leader mem => ?_⟩
        rcases List.mem_append.mp mem with held | new
        · exact far leader held
        · exact List.mem_singleton.mp new ▸ near
    · rw [some']
      by_cases better : Near host last fact ∧ similarity host fact best < similarity host fact last
      · refine .inr ⟨last, if_pos ⟨better.1.1, better.1.2.1, better.1.2.2, by simpa only using better.2⟩,
          front ++ best :: back, [], rfl, better.1, fun earlier mem close => ?_, by simp⟩
        rcases List.mem_append.mp mem with held | held
        · exact (before earlier held close).trans better.2
        · rcases List.mem_cons.mp held with rfl | held
          · exact better.2
          · exact lt_of_le_of_lt (not_lt.mp (after earlier held close)) better.2
      · have stays : closer host fact (some best, similarity host fact best) last = (some best, similarity host fact best) := by
          refine if_neg (fun is => better ⟨⟨is.1, is.2.1, is.2.2.1⟩, ?_⟩)
          simpa only using is.2.2.2
        refine .inr ⟨best, stays, front, back ++ [last], by simp, near, before, fun later mem close less => ?_⟩
        rcases List.mem_append.mp mem with held | new
        · exact after later held close less
        · obtain rfl := List.mem_singleton.mp new
          exact better ⟨close, less⟩

theorem nearestIff {leaders : List Fact} {leader : Fact} :
    nearest host leaders fact = some leader ↔ Closest host leaders fact leader := by
  refine ⟨fun found => ?_, closestNearest⟩
  rcases closestEnds host fact leaders with ⟨none, -⟩ | ⟨best, some', closest⟩
  · rw [nearest, none] at found
    cases found
  · rw [nearest, some'] at found
    exact Option.some.inj found ▸ closest
end

-- Of the session's unmerged facts, oldest first: who joins an older fact, and which.
def Follows (env : Env) (facts : List Fact) (follower leader : Fact) : Prop :=
  ∃ front back, Tables.orderBy (fun a b => byAge env a b = true) facts = front ++ follower :: back ∧
    Closest env.host (Leaders.leading (Near env.host) [] front) follower leader

section
variable {env : Env} {job : Job} {db : Db}

theorem dedupeFollows {facts : List Fact} {follower leader : Fact} :
    (follower, leader) ∈ dedupeFacts env facts ↔ Follows env facts follower leader := by
  rw [dedupeFacts, Leaders.groupPairs (nearestPicks env.host), Follows]
  simp only [nearestIff]

variable (env job) in
theorem dedupeMerges (keyed : (db.facts.map Fact.factId).Nodup) : Merges db.facts
    (((dedupeFacts env (sessionFacts job db)).zipIdx).map (fun entry => (entry.1.1.factId, entry.1.2.factId, env.now (.merge entry.2)))) := by
  have pairs : ∀ m ∈ ((dedupeFacts env (sessionFacts job db)).zipIdx).map
      (fun entry => (entry.1.1.factId, entry.1.2.factId, env.now (.merge entry.2))),
      ∃ pair ∈ dedupeFacts env (sessionFacts job db), m.1 = pair.1.factId ∧ m.2.1 = pair.2.factId := by
    intro m mem
    obtain ⟨entry, held, rfl⟩ := List.mem_map.mp mem
    exact ⟨entry.1, List.fst_mem_of_mem_zipIdx held, rfl, rfl⟩
  have follows : ∀ pair ∈ dedupeFacts env (sessionFacts job db), pair.1.factId ∈ (mergePairs env job db).map Prod.fst :=
    fun pair mem => List.mem_map.mpr ⟨_, List.mem_map.mpr ⟨pair, mem, rfl⟩, rfl⟩
  refine ⟨fun m mem => ?_, ?_, fun m mem other mem' same => ?_⟩
  · obtain ⟨pair, held, from', into⟩ := pairs m mem
    obtain ⟨follower, leader, ⟨project, kind, -⟩, leads⟩ := mergePair keyed held
    rw [sessionFact] at follower leader
    exact ⟨pair.1, follower.1, pair.2, leader.1, from'.symm, into.symm,
      fun same => leads (into ▸ same ▸ from' ▸ follows pair held), follower.2.2, project, kind⟩
  · have ids := ((leadersPerm env job db).map Fact.factId).nodup_iff.mpr (sessionKeyed job keyed)
    rw [List.map_append] at ids
    have firsts : (((dedupeFacts env (sessionFacts job db)).zipIdx).map
        (fun entry => (entry.1.1.factId, entry.1.2.factId, env.now (.merge entry.2)))).map Prod.fst =
        ((dedupeFacts env (sessionFacts job db)).map Prod.fst).map Fact.factId := by
      rw [← List.zipIdx_map_fst 0 (dedupeFacts env (sessionFacts job db)), List.map_map, List.map_map, List.map_map,
        List.zipIdx_map_fst]
      rfl
    rw [firsts]
    exact (List.nodup_append'.mp ids).2.1
  · obtain ⟨pair, held, from', -⟩ := pairs m mem
    obtain ⟨pair', held', -, into⟩ := pairs other mem'
    exact (mergePair keyed held').2.2.2 (into ▸ same ▸ from' ▸ follows pair held)

-- A job that only merges into active facts, and touches no fact merged into since `base`.
structure SparesMerged (base : List Fact) (env : Env) (job : Job) (db : Db) : Prop where
  upserts : ∀ factId supersededBy at', Write.supersede factId supersededBy at' ∈ upsertWrites env job db →
    ¬ Targeted base db.facts factId
  merges : ∀ follower leader, Follows env (sessionFacts job (run (upsertWrites env job db) db)) follower leader →
    active leader = true ∧ ¬ Targeted base db.facts follower.factId

variable (env job) in
theorem mergeWritesSpare {base : List Fact} (grounded : Grounded base db.facts) :
    SoundAll db.facts (mergeWrites env job db) ∧ (SparesAll base db.facts (mergeWrites env job db) ↔
      ∀ follower leader, Follows env (sessionFacts job db) follower leader →
        active leader = true ∧ ¬ Targeted base db.facts follower.factId) := by
  have writes : mergeWrites env job db = (((dedupeFacts env (sessionFacts job db)).zipIdx).map
      (fun entry => (entry.1.1.factId, entry.1.2.factId, env.now (.merge entry.2)))).map
      (fun m => .merge m.1 m.2.1 m.2.2) := by
    rw [List.map_map]
    rfl
  obtain ⟨sound, spares⟩ := mergesSpare grounded (dedupeMerges env job grounded.keyed)
  rw [writes]
  refine ⟨sound, spares.trans ⟨fun all follower leader follows => ?_, fun all m mem => ?_⟩⟩
  · have mem := dedupeFollows.mpr follows
    have inside := (sessionFact.mp (mergePair grounded.keyed mem).2.1).1
    rw [← List.zipIdx_map_fst 0 (dedupeFacts env (sessionFacts job db))] at mem
    obtain ⟨entry, held, is⟩ := List.mem_map.mp mem
    obtain ⟨alive, spared⟩ := all _ (List.mem_map_of_mem held)
    rw [is] at alive spared
    exact ⟨alive leader inside rfl, spared⟩
  · obtain ⟨entry, held, rfl⟩ := List.mem_map.mp mem
    have pair := List.fst_mem_of_mem_zipIdx held
    obtain ⟨alive, spared⟩ := all entry.1.1 entry.1.2 (dedupeFollows.mp pair)
    refine ⟨fun leader led is => ?_, spared⟩
    have inside := (sessionFact.mp (mergePair grounded.keyed pair).2.1).1
    exact Tables.keyUnique grounded.keyed led inside is ▸ alive

theorem idleSpares (base facts : List Fact) {writes : List Write}
    (idle : ∀ w ∈ writes, (∃ row, w = .insertLink row) ∨ ∃ row, w = .audit row) :
    SoundAll facts writes ∧ SparesAll base facts writes := by
  induction writes with
  | nil => exact ⟨trivial, trivial⟩
  | cons w rest ih =>
    have later := ih (fun w mem => idle w (List.mem_cons_of_mem _ mem))
    rcases idle w List.mem_cons_self with ⟨row, rfl⟩ | ⟨row, rfl⟩
    · exact ⟨⟨trivial, later.1⟩, trivial, later.2⟩
    · exact ⟨⟨trivial, later.1⟩, trivial, later.2⟩

variable (env job) in
theorem traceSpares {base : List Fact} (grounded : Grounded base db.facts) (reason : String) :
    SoundAll db.facts (trace env job reason db) ∧
      (SparesAll base db.facts (trace env job reason db) ↔ SparesMerged base env job db) := by
  obtain ⟨last, split, idle⟩ := traceParts env job db reason
  have upserted : SoundAll db.facts (upsertWrites env job db) := upsertsSound _ upsertUpserts
  have grounded' := (liveRun grounded upserted).1
  rw [← ranFacts] at grounded'
  obtain ⟨sound, spares⟩ := mergeWritesSpare env job grounded'
  have targets : ∀ id, Targeted base (run (upsertWrites env job db) db).facts id ↔ Targeted base db.facts id := by
    intro id
    rw [ranFacts]
    exact upsertsTargeted grounded upsertUpserts
  simp only [targets] at spares
  rw [split, soundAppend, soundAppend, sparesAppend, sparesAppend, ← ranFacts, spares, upsertsSpare grounded upsertUpserts]
  obtain ⟨idleSound, idleSpared⟩ := idleSpares base (Runs.run Write.onFacts
    (run (upsertWrites env job db) db).facts (mergeWrites env job (run (upsertWrites env job db) db))) idle
  refine ⟨⟨upserted, sound, idleSound⟩, ?_⟩
  rw [and_iff_left idleSpared]
  exact ⟨fun both => ⟨both.1, both.2⟩, fun both => ⟨both.upserts, both.merges⟩⟩
end

section
variable {base : List Fact}

theorem runJobLive (env : Env) (reason : String) (stop : Option Stop) (job : Job) {store : Store}
    (grounded : Grounded base store.db.facts) :
    Grounded base (runJob env reason stop job store).1.db.facts ∧
      (LiveMerges base store.db.facts → SparesMerged base env job store.db →
        LiveMerges base (runJob env reason stop job store).1.db.facts) ∧
      (stop = none → LiveMerges base (runJob env reason stop job store).1.db.facts →
        LiveMerges base store.db.facts ∧ SparesMerged base env job store.db) := by
  obtain ⟨sound, spares⟩ := traceSpares env job grounded reason
  have soundPart : SoundAll store.db.facts (executed job stop (trace env job reason store.db)) := by
    unfold executed
    split
    · split
      · trivial
      · exact sound
    · exact Runs.throughoutTake _ _ sound
    · exact sound
  rw [runJobFacts]
  obtain ⟨kept, exactly⟩ := liveRun grounded soundPart
  refine ⟨kept, fun live spared => exactly.mpr ⟨live, ?_⟩, ?_⟩
  · have all := spares.mpr spared
    unfold executed
    split
    · split
      · trivial
      · exact all
    · exact Runs.throughoutTake _ _ all
    · exact all
  · rintro rfl live
    obtain ⟨before, all⟩ := exactly.mp live
    exact ⟨before, spares.mp all⟩

theorem runJobsLive (env : Nat → Env) (reason : String) (stop : Nat → Option Stop) (n : Nat) (jobs : List Job) (ended : Ended)
    (grounded : Grounded base ended.store.db.facts) :
    (LiveMerges base ended.store.db.facts → EachJob (fun n job store => SparesMerged base (env n) job store.db) env reason stop n jobs ended.store →
        LiveMerges base (runJobs env reason stop n jobs ended).store.db.facts) ∧
      ((∀ n, stop n = none) → LiveMerges base (runJobs env reason stop n jobs ended).store.db.facts →
        LiveMerges base ended.store.db.facts ∧ EachJob (fun n job store => SparesMerged base (env n) job store.db) env reason stop n jobs ended.store) := by
  induction jobs generalizing n ended with
  | nil => exact ⟨fun live _ => live, fun _ live => ⟨live, trivial⟩⟩
  | cons job rest ih =>
    obtain ⟨kept, forth, back⟩ := runJobLive (env n) reason (stop n) job grounded
    rcases runJobsNext n job rest ended with ⟨⟨message, thrown⟩, step⟩ | ⟨thrown, next, is, step⟩
    · rw [step]
      refine ⟨fun live spared => forth live spared.1, fun calm live => ?_⟩
      rw [calm n] at thrown
      cases thrown
    · obtain ⟨later, earlier⟩ := ih (n + 1) next (is ▸ kept)
      rw [step]
      refine ⟨fun live spared => later (is ▸ forth live spared.1) (is ▸ spared.2 thrown), fun calm live => ?_⟩
      obtain ⟨there, spared⟩ := earlier calm live
      rw [is] at there spared
      obtain ⟨before, here⟩ := back (calm n) there
      exact ⟨before, here, fun _ => spared⟩
end

-- Every merge of a run is into a fact that is active afterwards, exactly when every job spares what is merged into.
theorem mergesLive (env : Nat → Env) (faults : Faults) (options : Options) {store : Store}
    (keyed : (store.db.facts.map Fact.factId).Nodup) :
    (EachJob (fun n job now => SparesMerged store.db.facts (env n) job now.db) env (reasonOf options) faults.stop 0 (takenJobs faults options store) store →
        LiveMerges store.db.facts (runConsolidationOnce env faults options store).1.store.db.facts) ∧
      ((∀ n, faults.stop n = none) →
        LiveMerges store.db.facts (runConsolidationOnce env faults options store).1.store.db.facts →
        EachJob (fun n job now => SparesMerged store.db.facts (env n) job now.db) env (reasonOf options) faults.stop 0 (takenJobs faults options store) store) := by
  have unmarked : ∀ fact ∈ store.db.facts, ¬ Marked store.db.facts fact := fun fact mem marked => marked.1 (marked.2 fact mem rfl)
  have grounded : Grounded store.db.facts store.db.facts :=
    ⟨keyed, fun old held merged => ⟨old, held, rfl, merged⟩, fun fact mem marked => absurd marked (unmarked fact mem)⟩
  have live : LiveMerges store.db.facts store.db.facts := fun fact mem marked => absurd marked (unmarked fact mem)
  obtain ⟨forth, back⟩ := runJobsLive env (reasonOf options) faults.stop 0 (takenJobs faults options store) (runStarted store) grounded
  rw [ranJobs]
  exact ⟨forth live, fun calm ended => (back calm ended).2⟩

def knownFact (id : String) (supersededBy : Option String) (createdAt : String) : Fact :=
  ⟨id, none, "p", "a", "decision", "decision:database", "use sqlite storage", 1, supersededBy,
    ⟨none, none, none, supersededBy.map (fun _ => createdAt), none, none⟩, none, createdAt, createdAt⟩
def replacedBefore : Store :=
  ⟨{Db.empty with facts := [knownFact "fact_a" (some "fact_z") "2026-01-01", knownFact "fact_b" none "2026-01-02"]}, []⟩
def firstSession : Options := ⟨none, some "p", some "a", none⟩

theorem mergesLiveReplaced :
    (EachJob (fun _ job now => SparesMerged replacedBefore.db.facts plainEnv job now.db) (fun _ => plainEnv) (reasonOf firstSession) (fun _ => none) 0
        (takenJobs ⟨none, fun _ => none, none⟩ firstSession replacedBefore) replacedBefore →
        LiveMerges replacedBefore.db.facts
          (runConsolidationOnce (fun _ => plainEnv) ⟨none, fun _ => none, none⟩ firstSession replacedBefore).1.store.db.facts) ∧
      ((∀ _ : Nat, (none : Option Stop) = none) →
        LiveMerges replacedBefore.db.facts
          (runConsolidationOnce (fun _ => plainEnv) ⟨none, fun _ => none, none⟩ firstSession replacedBefore).1.store.db.facts →
        EachJob (fun _ job now => SparesMerged replacedBefore.db.facts plainEnv job now.db) (fun _ => plainEnv) (reasonOf firstSession) (fun _ => none) 0
          (takenJobs ⟨none, fun _ => none, none⟩ firstSession replacedBefore) replacedBefore) :=
  mergesLive (fun _ => plainEnv) ⟨none, fun _ => none, none⟩ firstSession (by decide)

-- An active fact goes into one that was replaced before the run.
theorem mergesIntoReplaced : ¬ LiveMerges replacedBefore.db.facts
    (runConsolidationOnce (fun _ => plainEnv) ⟨none, fun _ => none, none⟩ firstSession replacedBefore).1.store.db.facts := by
  intro live
  have into : {knownFact "fact_b" none "2026-01-02" with mergedIntoFactId := some "fact_a", updatedAt := "2026-01-01T00:00:00.000Z"} ∈
      (runConsolidationOnce (fun _ => plainEnv) ⟨none, fun _ => none, none⟩ firstSession replacedBefore).1.store.db.facts := by
    decide +kernel
  obtain ⟨target, ⟨mem, same, -, -⟩, alive⟩ := live _ into ⟨by decide, by decide⟩
  have gone : ∀ fact ∈ (runConsolidationOnce (fun _ => plainEnv) ⟨none, fun _ => none, none⟩ firstSession
      replacedBefore).1.store.db.facts, fact.factId = "fact_a" → active fact = false := by
    decide +kernel
  rw [gone target mem (Option.some.inj same).symm] at alive
  cases alive

end HarnessMem.Consolidation
