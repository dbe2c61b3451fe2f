import HarnessMem.HookEvents
import HarnessMem.SearchOrder

/-! The LLM reranker from the text the model answers with: what is read out of it, and when every candidate
comes back once. -/
namespace HarnessMem.Search
open Js Text Recorder Visibility

-- /\[[\s\S]*?\]/
def bracketed : Regex.Re := Regex.chain [Regex.char '[', Regex.lazyStar Regex.any, Regex.char ']']

def nullEntry : Json → Bool
  | .null => true
  | _ => false

def scoredEntry (spool : Spool) : Json → Option (Number × Number)
  | .obj entry => match Json.get entry "index", Json.get entry "score" with
    | some (.num index), some (.num score) => some (spool.number index, spool.number score)
    | _, _ => none
  | _ => none

-- A call that throws, for a missing key, an error or a timeout, gives no text. Reading a field of `null` throws too.
def llmAnswer (spool : Spool) (call : Option String) : LlmAnswer :=
  match call with
  | none => .failed
  | some raw => match Regex.exec bracketed raw with
    | none => .failed
    | some found => match spool.parseJson (String.ofList found.1) with
      | some (.arr items) => if items.any nullEntry then .failed else .scored (items.filterMap (scoredEntry spool))
      | _ => .failed

def rerankText (spool : Spool) (enabled : Bool) (topK : Option Number) (call : Option String) (candidates : List Ranked) :
    List (String × ℚ) :=
  if !enabled || candidates.isEmpty then ownScores candidates
  else llmRerank topK (llmAnswer spool call) candidates

-- The place an entry names, if there is a candidate at it.
def namedIndex (size : Nat) : Number → Option Nat
  | .fin index => if index.den = 1 ∧ 0 ≤ index ∧ index.num.toNat < size then some index.num.toNat else none
  | _ => none
def namedIndices (size : Nat) (entries : List (Number × Number)) : List Nat := entries.filterMap (fun entry => namedIndex size entry.1)

def toRerank (topK : Option Number) (candidates : List Ranked) : List Ranked := candidates.take (rerankCut topK candidates)

-- Every id once, and after a failure the candidates as they were.
def ReranksAll (spool : Spool) (enabled : Bool) (topK : Option Number) (call : Option String) (candidates : List Ranked) : Prop :=
  ((rerankText spool enabled topK call candidates).map Prod.fst).Perm (candidates.map (fun c => c.row.id)) ∧
    (llmAnswer spool call = .failed → rerankText spool enabled topK call candidates = ownScores candidates)

section
variable {spool : Spool} {topK : Option Number} {candidates : List Ranked}

theorem ownIds (candidates : List Ranked) : (ownScores candidates).map Prod.fst = candidates.map (fun c => c.row.id) := by
  rw [ownScores, List.map_map]
  rfl

-- Some of a list, and then the others of it.
theorem pickedRest {α : Type} [DecidableEq α] {picked all : List α} (distinct : all.Nodup) (inside : ∀ a ∈ picked, a ∈ all) :
    (picked ++ all.filter (fun a => a ∉ picked)).Perm all ↔ picked.Nodup := by
  constructor
  · exact fun perm => (List.nodup_append.mp (perm.nodup_iff.mpr distinct)).1
  · intro single
    refine (List.perm_ext_iff_of_nodup ?_ distinct).mpr fun a => ?_
    · refine List.nodup_append.mpr ⟨single, distinct.filter _, ?_⟩
      rintro a mem b held rfl
      exact of_decide_eq_true (List.mem_filter.mp held).2 mem
    · rw [List.mem_append, List.mem_filter]
      constructor
      · rintro (mem | held)
        · exact inside a mem
        · exact held.1
      · intro mem
        by_cases taken : a ∈ picked
        · exact .inl taken
        · exact .inr ⟨mem, decide_eq_true taken⟩

theorem namedCandidate (index : Number) : candidateAt candidates index = (namedIndex candidates.length index).bind (candidates[·]?) := by
  unfold candidateAt namedIndex
  cases index with
  | fin q =>
    dsimp only
    split
    · rename_i whole
      split
      · rfl
      · rename_i out
        rw [List.getElem?_eq_none]
        · rfl
        · exact Nat.le_of_not_lt fun less => out ⟨whole.1, whole.2, less⟩
    · rename_i part
      rw [if_neg (fun all => part ⟨all.1, all.2.1⟩)]
      rfl
  | _ => rfl

theorem namedWithin {size : Nat} {entries : List (Number × Number)} {i : Nat} (mem : i ∈ namedIndices size entries) : i < size := by
  obtain ⟨entry, _, named⟩ := List.mem_filterMap.mp mem
  unfold namedIndex at named
  split at named
  · split at named
    · rename_i inside
      exact Option.some.inj named ▸ inside.2.2
    · cases named
  · cases named

-- The ids an answer names, entry by entry.
theorem resultIds (entries : List (Number × Number)) : (parseLlmResponse entries candidates).map Prod.fst =
    (namedIndices candidates.length entries).map (fun i => (candidates.map (fun c => c.row.id)).getD i "") := by
  induction entries with
  | nil => rfl
  | cons entry rest ih =>
    unfold parseLlmResponse namedIndices at ih ⊢
    rw [List.filterMap_cons, List.filterMap_cons, namedCandidate]
    cases named : namedIndex candidates.length entry.1 with
    | none => exact ih
    | some i =>
      have inside : i < candidates.length := @namedWithin _ [entry] _ (by simp [namedIndices, named])
      simp [inside, ih]

theorem resultNodup (distinct : (candidates.map (fun c => c.row.id)).Nodup) (entries : List (Number × Number)) :
    ((parseLlmResponse entries candidates).map Prod.fst).Nodup ↔ (namedIndices candidates.length entries).Nodup := by
  rw [resultIds]
  refine ⟨List.Nodup.of_map _, fun single => List.Nodup.map_on ?_ single⟩
  intro i first j second same
  have one : i < (candidates.map (fun c => c.row.id)).length := by simpa using namedWithin first
  have two : j < (candidates.map (fun c => c.row.id)).length := by simpa using namedWithin second
  rw [List.getD_eq_getElem?_getD, List.getD_eq_getElem?_getD, List.getElem?_eq_getElem one, List.getElem?_eq_getElem two] at same
  exact (List.Nodup.getElem_inj_iff distinct).mp same

theorem scoredPerm (distinct : (candidates.map (fun c => c.row.id)).Nodup) (entries : List (Number × Number)) :
    ((llmRerank topK (.scored entries) candidates).map Prod.fst).Perm (candidates.map (fun c => c.row.id)) ↔
      (namedIndices (toRerank topK candidates).length entries).Nodup := by
  have whole : toRerank topK candidates ++ candidates.drop (rerankCut topK candidates) = candidates := List.take_append_drop _ _
  have front : ((toRerank topK candidates).map (fun c => c.row.id)).Nodup :=
    distinct.sublist ((List.take_sublist _ _).map _)
  rw [← resultNodup front]
  generalize rest : candidates.drop (rerankCut topK candidates) = behind at whole
  have inside : ∀ id ∈ (parseLlmResponse entries (toRerank topK candidates)).map Prod.fst, id ∈ (toRerank topK candidates).map (fun c => c.row.id) := by
    intro id mem
    obtain ⟨entry, held, rfl⟩ := List.mem_map.mp mem
    obtain ⟨read, _, found⟩ := List.mem_filterMap.mp held
    obtain ⟨c, taken, rfl⟩ := Option.map_eq_some_iff.mp found
    exact List.mem_map_of_mem (candidateHeld taken)
  rw [← pickedRest front inside]
  have ids : ((llmRerank topK (.scored entries) candidates).map Prod.fst).Perm
      ((parseLlmResponse entries (toRerank topK candidates)).map Prod.fst ++ ((toRerank topK candidates).map (fun c => c.row.id)).filter
        (fun id => id ∉ (parseLlmResponse entries (toRerank topK candidates)).map Prod.fst) ++ behind.map (fun c => c.row.id)) := by
    unfold llmRerank
    dsimp only
    rw [rest, List.map_append, ownIds]
    refine List.Perm.append_right _ (((List.perm_insertionSort _ _).map Prod.fst).trans (.of_eq ?_))
    rw [List.map_append, ownIds, List.filter_map]
    rfl
  have split : candidates.map (fun c => c.row.id) = (toRerank topK candidates).map (fun c => c.row.id) ++ behind.map (fun c => c.row.id) := by
    rw [← List.map_append, whole]
  rw [split, ids.congr_left, List.perm_append_right_iff]

theorem ownAll (spool : Spool) {enabled : Bool} {call : Option String} (same : rerankText spool enabled topK call candidates = ownScores candidates) :
    ReranksAll spool enabled topK call candidates := by
  refine ⟨?_, fun _ => same⟩
  rw [same, ownIds]

-- Every candidate comes back once exactly where no two entries of the answer name the same one.
theorem reranksAllIff (spool : Spool) (enabled : Bool) (topK : Option Number) (call : Option String) (candidates : List Ranked)
    (distinct : (candidates.map (fun c => c.row.id)).Nodup) : ReranksAll spool enabled topK call candidates ↔
      enabled = false ∨ ∀ entries, llmAnswer spool call = .scored entries → (namedIndices (toRerank topK candidates).length entries).Nodup := by
  cases enabled with
  | false => exact iff_of_true (ownAll spool rfl) (.inl rfl)
  | true =>
    rw [or_iff_right (by decide)]
    cases empty : candidates with
    | nil =>
      refine iff_of_true (ownAll spool rfl) fun entries _ => ?_
      have none : namedIndices (toRerank topK []).length entries = [] := by
        rw [List.eq_nil_iff_forall_not_mem]
        intro i mem
        have := namedWithin mem
        simp [toRerank] at this
      rw [none]
      exact List.nodup_nil
    | cons c rest =>
      rw [← empty]
      have ran : rerankText spool true topK call candidates = llmRerank topK (llmAnswer spool call) candidates := by
        rw [rerankText, empty]
        rfl
      cases answer : llmAnswer spool call with
      | failed =>
        refine iff_of_true (ownAll spool ?_) fun entries impossible => by cases impossible
        rw [ran, answer]
        rfl
      | scored entries =>
        rw [ReranksAll, ran, answer, scoredPerm distinct]
        simp

end

def twoCandidates : List Ranked := [⟨plainRow "a" "p" "u", 1⟩, ⟨plainRow "b" "p" "u", 1 / 2⟩]
def entryText (index : String) : String := "\x7b\"index\":" ++ index ++ ",\"score\":1\x7d"
def entryJson (index : String) : Json := .obj [("index", .num index), ("score", .num "1")]
def swappedText : String := "[" ++ entryText "1" ++ "," ++ entryText "0" ++ "]"
def twiceText : String := "[" ++ entryText "0" ++ "," ++ entryText "0" ++ "]"
def answerSpool : Spool :=
  {stopSpool with
    parseJson := fun text =>
      if text = swappedText then some (.arr [entryJson "1", entryJson "0"])
      else if text = twiceText then some (.arr [entryJson "0", entryJson "0"])
      else none
    number := fun text => if text = "0" then .fin 0 else if text = "1" then .fin 1 else .nan}

theorem swappedOnce : ReranksAll answerSpool true none (some ("Here: " ++ swappedText)) twoCandidates := by
  refine (reranksAllIff answerSpool true none _ twoCandidates (by decide)).mpr (.inr fun entries read => ?_)
  have single : (match llmAnswer answerSpool (some ("Here: " ++ swappedText)) with
      | .scored entries => decide (namedIndices (toRerank none twoCandidates).length entries).Nodup
      | .failed => false) = true := by decide
  rw [read] at single
  exact of_decide_eq_true single

theorem namedTwice : ¬ ReranksAll answerSpool true none (some twiceText) twoCandidates := by
  rintro ⟨perm, -⟩
  have size := perm.length_eq
  exact absurd size (by decide +kernel)

end HarnessMem.Search
