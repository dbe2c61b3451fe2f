import HarnessMem.Lib.Regex
import Mathlib.Data.List.Forall2

/-! Scanning a text for matches that begin at a mark: fixed patterns, captured groups, and one
round of `matchAll` at a time. -/
namespace HarnessMem.Regex

-- One character for each class, in order.
def sets (kinds : List (Char → Bool)) : Re := kinds.foldr (fun keep rest => .seq (.set keep) rest) .empty

section
variable {before rest text : List Char} {groups : List (Nat × List Char)}

theorem endsSets {kinds : List (Char → Bool)} (fits : List.Forall₂ (fun c keep => keep c = true) text kinds) :
    ends (sets kinds) ⟨before, text ++ rest, groups⟩ = [⟨text.reverse ++ before, rest, groups⟩] := by
  induction fits generalizing before with
  | nil => rfl
  | @cons c keep cs kinds first others ih =>
    have next : ends (sets kinds) ⟨c :: before, cs ++ rest, groups⟩ = [⟨cs.reverse ++ (c :: before), rest, groups⟩] := ih
    change (eat keep ⟨before, c :: (cs ++ rest), groups⟩).flatMap (ends (sets kinds)) = _
    rw [eatCons, if_pos first, List.flatMap_singleton, next, List.reverse_cons, List.append_assoc]
    rfl

theorem wordSets (s : String) : word s = sets (s.toList.map (fun c d => decide (d = c))) := by
  unfold word sets
  rw [List.foldr_map]
  rfl

theorem endsLiteral (s : String) : ends (word s) ⟨before, s.toList ++ rest, groups⟩ = [⟨s.toList.reverse ++ before, rest, groups⟩] := by
  rw [wordSets]
  refine endsSets (List.forall₂_map_right_iff.mpr (List.forall₂_same.mpr fun c _ => decide_eq_true rfl))

theorem setsHeld {kinds : List (Char → Bool)} {q : Place} : ∀ {p : Place}, q ∈ ends (sets kinds) p →
    ∃ text, List.Forall₂ (fun c keep => keep c = true) text kinds ∧ p.after = text ++ q.after := by
  induction kinds with
  | nil => exact fun mem => ⟨[], .nil, congrArg Place.after (List.mem_singleton.mp mem).symm⟩
  | cons keep kinds ih =>
    rintro ⟨before, after, groups⟩ mem
    obtain ⟨r, first, next⟩ := List.mem_flatMap.mp mem
    cases after with
    | nil => cases first
    | cons c cs =>
      change r ∈ eat keep ⟨before, c :: cs, groups⟩ at first
      rw [eatCons] at first
      by_cases kept : keep c = true
      · rw [if_pos kept] at first
        obtain rfl := List.mem_singleton.mp first
        obtain ⟨text, fits, after⟩ := ih next
        exact ⟨c :: text, .cons kept fits, congrArg (List.cons c) after⟩
      · rw [if_neg kept] at first
        cases first

theorem literalHeld {s : String} {p q : Place} (mem : q ∈ ends (word s) p) : s.toList <+: p.after := by
  rw [wordSets] at mem
  obtain ⟨text, fits, after⟩ := setsHeld mem
  have same : text = s.toList := by
    have each := List.forall₂_map_right_iff.mp fits
    exact List.forall₂_eq_eq_eq ▸ each.imp fun c d same => of_decide_eq_true same
  exact ⟨q.after, by rw [after, same]⟩

theorem seqOne {a b : Re} {p q : Place} (one : ends a p = [q]) : ends (.seq a b) p = ends b q := by
  rw [endsSeq, one, List.flatMap_singleton]

theorem seqNone {a b : Re} {p : Place} (none : ends a p = []) : ends (.seq a b) p = [] := by
  rw [endsSeq, none]
  rfl

theorem consumedText (text : List Char) (before after rest : List Char) (one two : List (Nat × List Char)) :
    consumed ⟨before, after, one⟩ ⟨text.reverse ++ before, rest, two⟩ = text := by
  unfold consumed
  rw [List.length_append, Nat.add_sub_cancel, List.take_left, List.reverse_reverse]

theorem groupOne {index : Nat} {body : Re} {after : List Char}
    (one : ends body ⟨before, after, groups⟩ = [⟨text.reverse ++ before, rest, groups⟩]) :
    ends (.group index body) ⟨before, after, groups⟩ = [⟨text.reverse ++ before, rest, (index, text) :: groups⟩] := by
  rw [ends, one, List.map_singleton, consumedText]

theorem loopStay {greedy : Bool} {body : Place → List Place} (n : Nat) (p : Place) : p ∈ loop greedy body n p := by
  cases n with
  | zero => exact List.mem_singleton_self p
  | succ n =>
    unfold loop
    extract_lets more
    split
    · exact List.mem_append_right _ (List.mem_singleton_self p)
    · exact List.mem_cons_self

-- A run of one character leaves what is behind the ones it takes.
theorem loopTakes {c : Char} {greedy : Bool} (n : Nat) : ∀ p, ∀ q ∈ loop greedy (eat (fun d => d = c)) n p,
    ∃ k, p.after = List.replicate k c ++ q.after ∧ q.before = List.replicate k c ++ p.before ∧ q.groups = p.groups := by
  induction n with
  | zero =>
    intro p q mem
    obtain rfl := List.mem_singleton.mp mem
    exact ⟨0, rfl, rfl, rfl⟩
  | succ n ih =>
    intro p q mem
    have cases : q = p ∨ ∃ r ∈ eat (fun d => d = c) p, q ∈ loop greedy (eat (fun d => d = c)) n r := by
      simp only [loop] at mem
      split at mem
      · rcases List.mem_append.mp mem with more | last
        · obtain ⟨r, found, next⟩ := List.mem_flatMap.mp more
          exact .inr ⟨r, (List.mem_filter.mp found).1, next⟩
        · exact .inl (List.mem_singleton.mp last)
      · rcases List.mem_cons.mp mem with same | more
        · exact .inl same
        · obtain ⟨r, found, next⟩ := List.mem_flatMap.mp more
          exact .inr ⟨r, (List.mem_filter.mp found).1, next⟩
    rcases cases with rfl | ⟨r, found, next⟩
    · exact ⟨0, rfl, rfl, rfl⟩
    · obtain ⟨before, after, groups⟩ := p
      cases after with
      | nil => cases found
      | cons d rest =>
        rw [eatCons] at found
        by_cases same : d = c
        · subst same
          rw [if_pos (decide_eq_true rfl)] at found
          obtain rfl := List.mem_singleton.mp found
          obtain ⟨k, after, before, groups⟩ := ih _ q next
          refine ⟨k + 1, ?_, ?_, groups⟩
          · rw [List.replicate_succ, List.cons_append]
            exact congrArg (List.cons d) after
          · rw [before, List.replicate_succ', List.append_assoc]
            rfl
        · rw [if_neg (by simpa using same)] at found
          cases found

theorem matchesHit {re : Re} {n : Nat} {after : List Char} {q : Place} (found : here re before after = some q)
    (shorter : q.after.length < after.length) :
    matchesFrom re (n + 1) before after = (⟨before, after, []⟩, q) :: matchesFrom re n q.before q.after := by
  simp only [matchesFrom, found, if_pos shorter]

theorem matchesMiss {re : Re} {n : Nat} {c : Char} (none : here re before (c :: rest) = none) :
    matchesFrom re (n + 1) before (c :: rest) = matchesFrom re n (c :: before) rest := by
  simp only [matchesFrom, none]

variable (before) in
theorem matchesSkip {re : Re} (none : ∀ c ∈ text, ∀ before rest, here re before (c :: rest) = none) {n : Nat}
    (enough : text.length ≤ n) :
    matchesFrom re n before (text ++ rest) = matchesFrom re (n - text.length) (text.reverse ++ before) rest := by
  induction text generalizing before n with
  | nil => rfl
  | cons c cs ih =>
    obtain ⟨n, rfl⟩ : ∃ k, n = k + 1 := ⟨n - 1, by simp at enough; omega⟩
    rw [List.cons_append, matchesMiss (none c List.mem_cons_self _ _)]
    have later := ih (c :: before) (n := n) (fun d mem => none d (List.mem_cons_of_mem c mem)) (by simpa using enough)
    rw [later]
    simp only [List.length_cons, Nat.add_sub_add_right, List.reverse_cons, List.append_assoc, List.singleton_append]

end
end HarnessMem.Regex
