import HarnessMem.SearchOrder

/-! What the last sort of `search` does to the order the rerank stages left: superseded rows lose half their
score, and one of them is enough for the whole list to be sorted by score again. -/
namespace HarnessMem.Search
open Js Text Recorder Visibility TemporalState

def isSuperseded (superseded : List String) (entry : Ranked) : Bool := superseded.contains entry.row.id
def demoted (superseded : List String) (entry : Ranked) : Ranked :=
  if entry.row.id ∈ superseded then {entry with final := entry.final * (1 / 2)} else entry

section
variable (engine : Engine) (request : SearchRequest) (db : Db) (ranked : List Ranked)

def supersededOf : List String := loadSupersededObservationIds db (ranked.map (fun entry => entry.row.id))
def postFilter : List Ranked := settle engine request (supersededOf db ranked) ranked

-- A timeline question without an anchor: the best candidates in the order of time, the others behind them.
def temporalTwoStage (ascending : Bool) : List Ranked :=
  let candidateK := max 90 (searchLimit request * 8)
  Tables.orderBy (Dated engine ascending) (ranked.take candidateK) ++ ranked.drop candidateK

-- The others keep their order, and no superseded item ends earlier than it was.
structure OrderKept (superseded : List String) (settled : List Ranked) : Prop where
  others : settled.filter (fun entry => !isSuperseded superseded entry) = ranked.filter (fun entry => !isSuperseded superseded entry)
  sinks : ∀ before item after, ranked = before ++ item :: after → isSuperseded superseded item = true →
    ∃ earlier later, settled = earlier ++ demoted superseded item :: later ∧ before.length ≤ earlier.length

-- The others stand by score already, and of the items before a superseded one no more rank behind it, its score halved,
-- than of those after it rank ahead.
structure ScoresAgree (superseded : List String) : Prop where
  others : (ranked.filter (fun entry => !isSuperseded superseded entry)).Pairwise (finalOrder engine)
  sinks : ∀ before item after, ranked = before ++ item :: after → isSuperseded superseded item = true →
    before.countP (fun other => ¬ finalOrder engine (demoted superseded other) (demoted superseded item)) ≤
      after.countP (fun other => ¬ finalOrder engine (demoted superseded item) (demoted superseded other))

end

section
variable {engine : Engine} {request : SearchRequest} {db : Db} {superseded : List String} {ranked : List Ranked}

theorem demotedId (entry : Ranked) : (demoted superseded entry).row.id = entry.row.id := by
  unfold demoted
  split
  · rfl
  · rfl

theorem demotedOthers : (ranked.map (demoted superseded)).filter (fun entry => !isSuperseded superseded entry) =
    ranked.filter (fun entry => !isSuperseded superseded entry) := by
  induction ranked with
  | nil => rfl
  | cons entry rest ih =>
    have same : isSuperseded superseded (demoted superseded entry) = isSuperseded superseded entry := by
      rw [isSuperseded, demotedId, isSuperseded]
    rw [List.map_cons, List.filter_cons, List.filter_cons, same, ih]
    split
    · rename_i stays
      have unlisted : entry.row.id ∉ superseded := by simpa [isSuperseded] using stays
      rw [demoted, if_neg unlisted]
    · rfl

theorem supersededListed {id : String} (mem : id ∈ supersededOf db ranked) : ∃ entry ∈ ranked, entry.row.id = id := by
  obtain ⟨link, held, rfl⟩ := List.mem_map.mp (List.mem_filter.mp mem).1
  have listed := (Bool.and_eq_true_iff.mp (List.mem_filter.mp held).2).2
  exact List.mem_map.mp (List.contains_iff_mem.mp listed)

theorem postFilterNone (none : ∀ entry ∈ ranked, isSuperseded (supersededOf db ranked) entry = false) :
    postFilter engine request db ranked = ranked := by
  have empty : supersededOf db ranked = [] := by
    rw [List.eq_nil_iff_forall_not_mem]
    intro id mem
    obtain ⟨entry, held, rfl⟩ := supersededListed mem
    exact absurd (List.contains_iff_mem.mpr mem) (Bool.not_eq_true _ |>.mpr (none entry held))
  rw [postFilter, settle, if_pos empty]

theorem postFilterSorted (included : request.includeSuperseded = true)
    (some : ∃ entry ∈ ranked, isSuperseded (supersededOf db ranked) entry = true) :
    postFilter engine request db ranked = (ranked.map (demoted (supersededOf db ranked))).insertionSort (finalOrder engine) := by
  obtain ⟨entry, _, superseded⟩ := some
  rw [postFilter, settle, if_neg (List.ne_nil_of_mem (List.contains_iff_mem.mp superseded)), if_neg (by simp [included])]
  rfl

theorem keptUnsorted (none : ∀ entry ∈ ranked, isSuperseded superseded entry = false) : OrderKept ranked superseded ranked where
  others := rfl
  sinks := by
    rintro before item after rfl sup
    rw [none item (by simp)] at sup
    cases sup

-- A list in the order of the halved scores is one.
theorem agreeSorted (sorted : (ranked.map (demoted superseded)).Pairwise (finalOrder engine)) : ScoresAgree engine ranked superseded where
  others := by
    rw [← demotedOthers]
    exact sorted.sublist List.filter_sublist
  sinks := by
    rintro before item after rfl -
    rw [List.map_append, List.map_cons] at sorted
    have ahead : ∀ other ∈ before, finalOrder engine (demoted superseded other) (demoted superseded item) :=
      fun other mem => (List.pairwise_append.mp sorted).2.2 _ (List.mem_map_of_mem mem) _ List.mem_cons_self
    rw [List.countP_eq_zero.mpr (fun other mem => by simpa using ahead other mem)]
    exact Nat.zero_le _

-- The ids are distinct, so there is one place to find an item at.
theorem sortedPlace (distinct : (ranked.map (fun entry => entry.row.id)).Nodup) {earlier later earlier' later' : List Ranked} {item : Ranked}
    (sorted : (ranked.map (demoted superseded)).insertionSort (finalOrder engine) = earlier ++ item :: later)
    (same : earlier ++ item :: later = earlier' ++ item :: later') : earlier = earlier' := by
  have unique : (earlier ++ item :: later).Nodup := by
    rw [← sorted, (List.perm_insertionSort _ _).nodup_iff]
    refine List.Nodup.of_map (fun entry : Ranked => entry.row.id) ?_
    rw [List.map_map]
    exact (List.map_congr_left fun entry _ => demotedId entry) ▸ distinct
  have front : item ∉ earlier := fun mem => (List.nodup_append.mp unique).2.2 _ mem _ List.mem_cons_self rfl
  have back : item ∉ later := (List.nodup_cons.mp (List.nodup_append.mp unique).2.1).1
  exact ((List.append_cons_inj_of_notMem front back).mp same).1

variable [Std.TransCmp engine.collate]

-- One superseded item in the sorted list, and how many stand before it.
theorem demotedPlace (before after : List Ranked) (item : Ranked) : ∃ earlier later,
    ((before ++ item :: after).map (demoted superseded)).insertionSort (finalOrder engine) = earlier ++ demoted superseded item :: later ∧
      (before.length ≤ earlier.length ↔
        before.countP (fun other => ¬ finalOrder engine (demoted superseded other) (demoted superseded item)) ≤
          after.countP (fun other => ¬ finalOrder engine (demoted superseded item) (demoted superseded other))) := by
  obtain ⟨earlier, later, same, size⟩ := StableSort.sortPlace (r := finalOrder engine) finalTotal (fun _ _ _ => finalTrans)
    (before.map (demoted superseded)) (after.map (demoted superseded)) (demoted superseded item)
  refine ⟨earlier, later, by rw [List.map_append, List.map_cons, same], ?_⟩
  have whole : before.length = before.countP (fun other => finalOrder engine (demoted superseded other) (demoted superseded item)) +
      before.countP (fun other => ¬ finalOrder engine (demoted superseded other) (demoted superseded item)) := by
    rw [List.length_eq_countP_add_countP (fun other => decide (finalOrder engine (demoted superseded other) (demoted superseded item)))]
    simp
  rw [size, List.countP_map, List.countP_map, whole]
  exact Nat.add_le_add_iff_left

theorem keptSorted (distinct : (ranked.map (fun entry => entry.row.id)).Nodup) :
    OrderKept ranked superseded ((ranked.map (demoted superseded)).insertionSort (finalOrder engine)) ↔ ScoresAgree engine ranked superseded := by
  have others := StableSort.filterSorted (r := finalOrder engine) (l := ranked.map (demoted superseded)) finalTotal
    (fun _ _ _ => finalTrans) (fun entry => !isSuperseded superseded entry)
  rw [demotedOthers] at others
  constructor
  · rintro ⟨kept, sinks⟩
    refine ⟨others.mp kept, fun before item after split sup => ?_⟩
    obtain ⟨earlier, later, same, less⟩ := sinks before item after split sup
    obtain ⟨earlier', later', same', count⟩ := @demotedPlace engine superseded _ before after item
    rw [← split] at same'
    refine count.mp ?_
    rwa [← sortedPlace distinct same (same.symm.trans same')]
  · rintro ⟨ranks, counts⟩
    refine ⟨others.mpr ranks, fun before item after split sup => ?_⟩
    obtain ⟨earlier, later, same, count⟩ := @demotedPlace engine superseded _ before after item
    rw [← split] at same
    exact ⟨earlier, later, same, count.mpr (counts before item after split sup)⟩

-- The post-filter keeps the order exactly where nothing is superseded or the scores agree with the order.
theorem postFilterKeeps (included : request.includeSuperseded = true) (distinct : (ranked.map (fun entry => entry.row.id)).Nodup) :
    OrderKept ranked (supersededOf db ranked) (postFilter engine request db ranked) ↔
      (∀ entry ∈ ranked, isSuperseded (supersededOf db ranked) entry = false) ∨ ScoresAgree engine ranked (supersededOf db ranked) := by
  by_cases none : ∀ entry ∈ ranked, isSuperseded (supersededOf db ranked) entry = false
  · rw [postFilterNone none]
    exact iff_of_true (keptUnsorted none) (.inl none)
  · have some : ∃ entry ∈ ranked, isSuperseded (supersededOf db ranked) entry = true := by
      simpa using none
    rw [postFilterSorted included some, keptSorted distinct, or_iff_right none]

end

-- Three notes of three days, by their scores; the second may have been superseded.
def scoredNotes : List Ranked := [⟨dayRow "c" "2026-01-03", 9⟩, ⟨dayRow "b" "2026-01-02", 5⟩, ⟨dayRow "a" "2026-01-01", 4⟩]
def supersedes (id : String) : Db := twoDays [⟨"z", id, "supersedes", 1, ""⟩]

theorem postFilterKeepsLast : OrderKept scoredNotes ["a"] (postFilter (favoring "a") (plainRequest "q") (supersedes "a") scoredNotes) := by
  have : Std.TransCmp (favoring "a").collate := inferInstanceAs (Std.TransCmp (compare : String → String → Ordering))
  have listed : supersededOf (supersedes "a") scoredNotes = ["a"] := by decide
  have kept := (@postFilterKeeps (favoring "a") (plainRequest "q") (supersedes "a") scoredNotes this rfl (by decide)).mpr
  rw [listed] at kept
  exact kept (.inr (agreeSorted (by decide +kernel)))

def timelineRequest : SearchRequest := {plainRequest "q" with questionKind := some .timeline}

-- The list that comes out of the order of time is sorted by score again, for one superseded note in it.
theorem timelineResorted :
    (temporalTwoStage (favoring "a") timelineRequest scoredNotes true).map (fun entry => entry.row.id) = ["a", "b", "c"] ∧
      ¬ OrderKept (temporalTwoStage (favoring "a") timelineRequest scoredNotes true)
        (supersededOf (supersedes "b") (temporalTwoStage (favoring "a") timelineRequest scoredNotes true))
        (postFilter (favoring "a") timelineRequest (supersedes "b") (temporalTwoStage (favoring "a") timelineRequest scoredNotes true)) := by
  refine ⟨by decide, fun kept => ?_⟩
  have ids := congrArg (List.map (fun entry => entry.row.id)) kept.others
  exact absurd ids (by decide +kernel)

end HarnessMem.Search
