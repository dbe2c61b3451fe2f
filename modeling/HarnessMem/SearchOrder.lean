import HarnessMem.SearchLeaks
import HarnessMem.Lib.StableSort

/-! `sort_by`: the order of a search's items, and what an LLM makes of it in `searchPrepared`. -/
namespace HarnessMem.Search
open Js Text Recorder Visibility TemporalState

inductive SortBy where | relevance | dateDesc | dateAsc
  deriving DecidableEq, Repr

def SortBy.ascending : SortBy → Option Bool
  | .relevance => none
  | .dateDesc => some false
  | .dateAsc => some true

def toFixed6 (q : ℚ) : ℚ :=
  if q < 0 then -(⌊-q * 1000000 + 1 / 2⌋ / 1000000) else ⌊q * 1000000 + 1 / 2⌋ / 1000000

-- What comes back from the model: nothing usable, or its list, read as pairs of an index and a score.
inductive LlmAnswer where
  | failed
  | scored (entries : List (Number × Number))

section
variable (host : Host) (settings : Settings) (engine : Engine)

def InDates (ascending : Bool) (a b : Observation) : Prop :=
  (if ascending then engine.collate a.createdAt b.createdAt else engine.collate b.createdAt a.createdAt) ≠ .gt
instance (ascending : Bool) : DecidableRel (InDates engine ascending) := fun _ _ => inferInstanceAs (Decidable (_ ≠ _))

def Dated (ascending : Bool) (a b : Ranked) : Prop := InDates engine ascending a.row b.row
instance (ascending : Bool) : DecidableRel (Dated engine ascending) := fun _ _ => inferInstanceAs (Decidable (_ ≠ _))

def sortOverride (sortBy : SortBy) (ranked : List Ranked) : List Ranked :=
  match sortBy.ascending with
  | none => ranked
  | some ascending => Tables.orderBy (Dated engine ascending) ranked

def sortedPage (sortBy : SortBy) (request : SearchRequest) (normal : Normalized) (db : Db) : List Ranked :=
  let ranked := sortOverride engine sortBy (engine.rank normal (survivors host settings engine request normal db))
  let superseded := loadSupersededObservationIds db (ranked.map (fun entry => entry.row.id))
  (settle engine request superseded ranked).take (searchLimit request)

-- The final score of a row around an anchor: how many words of the query it has, zero if the anchor was not found.
def anchorFinal (request : SearchRequest) (normal : Normalized) (db : Db) (row : Observation) : ℚ :=
  match settings.route request.query request.questionKind with
  | none => 0
  | some anchor =>
    let asked := {normal with query := anchor.referenceText}
    let found := addAll (vectorSearch host settings engine asked 20 db) (lexicalSearch host settings engine asked 20 db)
    if found = [] then 0 else relevance host (engine.searchTokens normal.query) row

-- The items as they leave `search`, with the final score they show.
def shownItems (sortBy : SortBy) (request : SearchRequest) (normal : Normalized) (db : Db) : List Ranked :=
  let anchored := anchorRows host settings engine request normal db
  if anchored ≠ [] then anchored.map (fun row => ⟨row, toFixed6 (anchorFinal host settings engine request normal db row)⟩)
  else (sortedPage host settings engine sortBy request normal db).map (fun entry =>
    {entry with final := toFixed6 entry.final})

def searchSorted (sortBy : SortBy) (request : SearchRequest) (db : Db) : Except String (List Ranked) := do
  if settings.retrievalEnabled = false then return []
  if trim request.query = "" then return []
  let normal ← normalizeRequest settings request
  return shownItems host settings engine sortBy request normal db

end

def candidateAt (candidates : List Ranked) : Number → Option Ranked
  | .fin index => if index.den = 1 ∧ 0 ≤ index then candidates[index.num.toNat]? else none
  | _ => none

-- JSON has no NaN.
def clampScore : Number → ℚ
  | .fin score => max 0 (min 1 score)
  | .posInf => 1
  | _ => 0

def combineScores (llmScore originalScore : ℚ) : ℚ := 3 / 5 * llmScore + 2 / 5 * originalScore

def parseLlmResponse (entries : List (Number × Number)) (candidates : List Ranked) : List (String × ℚ) :=
  entries.filterMap (fun entry => (candidateAt candidates entry.1).map (fun candidate =>
    (candidate.row.id, combineScores (clampScore entry.2) candidate.final)))

def ownScores (candidates : List Ranked) : List (String × ℚ) := candidates.map (fun c => (c.row.id, c.final))

-- Where `slice(0, topK)` ends and `slice(topK)` begins.
def sliceAt (topK : Number) (length : Nat) : Nat :=
  match topK with
  | .fin q => if q < 0 then (length + truncate q).toNat else min (truncate q).toNat length
  | .posInf => length
  | _ => 0

def rerankCut (topK : Option Number) (candidates : List Ranked) : Nat :=
  sliceAt (topK.getD (.fin 20)) candidates.length

def llmRerank (topK : Option Number) (answer : LlmAnswer) (candidates : List Ranked) : List (String × ℚ) :=
  match answer with
  | .failed => ownScores candidates
  | .scored entries =>
    let toRerank := candidates.take (rerankCut topK candidates)
    let results := parseLlmResponse entries toRerank
    let missing := ownScores (toRerank.filter (fun c => c.row.id ∉ results.map Prod.fst))
    Tables.orderBy (fun a b => b.2 ≤ a.2) (results ++ missing) ++ ownScores (candidates.drop (rerankCut topK candidates))

-- The map keeps the last score of an id.
def scoreById (reranked : List (String × ℚ)) (id : String) : ℚ :=
  ((reranked.reverse.find? (fun entry => entry.1 = id)).map Prod.snd).getD 0

def ScoredAbove (reranked : List (String × ℚ)) (a b : Ranked) : Prop := scoreById reranked b.row.id ≤ scoreById reranked a.row.id
instance (reranked : List (String × ℚ)) : DecidableRel (ScoredAbove reranked) := fun _ _ => inferInstanceAs (Decidable (_ ≤ _))

def searchPrepared (topK : Option Number) (llm : Option LlmAnswer) (items : List Ranked) : List Ranked :=
  match llm with
  | none => items
  | some answer => Tables.orderBy (ScoredAbove (llmRerank topK answer items)) items

section
variable {host : Host} {settings : Settings} {engine : Engine} {request : SearchRequest} {normal : Normalized} {db : Db}
  {topK : Option Number} {ascending : Bool} {items : List Ranked}

-- Without `sort_by`, the rows that `search` answers with.
theorem sortedRelevance : (searchSorted host settings engine .relevance request db).map (List.map Ranked.row) =
    (search host settings engine request db).map Response.rows := by
  have shown : ∀ normal, (shownItems host settings engine .relevance request normal db).map Ranked.row =
      (if anchorRows host settings engine request normal db ≠ [] then
        Response.anchored (anchorRows host settings engine request normal db)
      else .ranked (rankedItems host settings engine request normal db)).rows := by
    intro normal
    unfold shownItems
    extract_lets anchored
    by_cases found : anchored ≠ []
    · rw [if_pos found, if_pos found, List.map_map]
      exact List.map_id _
    · rw [if_neg found, if_neg found, List.map_map, Response.rows, rankedItems, List.map_map]
      rfl
  by_cases on : settings.retrievalEnabled = false
  · simp [searchSorted, search, on, Except.map, pure, Except.pure, Response.rows]
  · by_cases asked : trim request.query = ""
    · simp [searchSorted, search, on, asked, Except.map, pure, Except.pure, Response.rows]
    · cases ok : normalizeRequest settings request with
      | error e => simp [searchSorted, search, on, asked, ok, Except.map, bind, Except.bind]
      | ok normal =>
        rw [searchRun (by simpa using on) asked ok]
        simp [searchSorted, on, asked, ok, Except.map, bind, Except.bind, pure, Except.pure, shown normal]

-- Which items go to the model, and between which scores each of them can end up.
def sent (topK : Option Number) (items : List Ranked) (item : Ranked) : Bool :=
  ((items.take (rerankCut topK items)).map (fun c => c.row.id)).contains item.row.id
def lowestScore (sent : Bool) (final : ℚ) : ℚ := if sent then min final (2 / 5 * final) else final
def highestScore (sent : Bool) (final : ℚ) : ℚ := if sent then max final (2 / 5 * final + 3 / 5) else final

theorem scoreFound {P : ℚ → Prop} {reranked : List (String × ℚ)} {id : String} (held : id ∈ reranked.map Prod.fst)
    (all : ∀ entry ∈ reranked, entry.1 = id → P entry.2) : P (scoreById reranked id) := by
  unfold scoreById
  cases found : reranked.reverse.find? (fun entry => entry.1 = id) with
  | none =>
    obtain ⟨entry, mem, same⟩ := List.mem_map.mp held
    exact absurd (decide_eq_true same) (List.find?_eq_none.mp found entry (List.mem_reverse.mpr mem))
  | some entry =>
    exact all entry (List.mem_reverse.mp (List.mem_of_find?_eq_some found)) (of_decide_eq_true (List.find?_some found :))

theorem candidateHeld {candidates : List Ranked} {index : Number} {c : Ranked} (found : candidateAt candidates index = some c) :
    c ∈ candidates := by
  unfold candidateAt at found
  split at found
  · split at found
    · exact List.mem_of_getElem? found
    · cases found
  · cases found

-- Every scored id is an item's: its own score, or the mix of it with the model's if it was sent.
theorem rerankedEntry {answer : LlmAnswer} {entry : String × ℚ} (mem : entry ∈ llmRerank topK answer items) :
    ∃ c ∈ items, entry.1 = c.row.id ∧
      (entry.2 = c.final ∨ c ∈ items.take (rerankCut topK items) ∧ ∃ score, entry.2 = combineScores (clampScore score) c.final) := by
  have own : ∀ {candidates : List Ranked}, entry ∈ ownScores candidates → ∃ c ∈ candidates, entry.1 = c.row.id ∧ entry.2 = c.final := by
    intro candidates mem
    obtain ⟨c, held, rfl⟩ := List.mem_map.mp mem
    exact ⟨c, held, rfl, rfl⟩
  cases answer with
  | failed =>
    obtain ⟨c, held, named, scored⟩ := own mem
    exact ⟨c, held, named, .inl scored⟩
  | scored entries =>
    rcases List.mem_append.mp mem with ranked | rest
    · rcases List.mem_append.mp ((Tables.memOrderBy _).mp ranked) with result | missing
      · obtain ⟨asked, _, found⟩ := List.mem_filterMap.mp result
        obtain ⟨c, held, rfl⟩ := Option.map_eq_some_iff.mp found
        have taken := candidateHeld held
        exact ⟨c, List.mem_of_mem_take taken, rfl, .inr ⟨taken, asked.2, rfl⟩⟩
      · obtain ⟨c, held, named, scored⟩ := own missing
        exact ⟨c, List.mem_of_mem_take (List.mem_of_mem_filter held), named, .inl scored⟩
    · obtain ⟨c, held, named, scored⟩ := own rest
      exact ⟨c, List.mem_of_mem_drop held, named, .inl scored⟩

theorem rerankedAll {answer : LlmAnswer} {c : Ranked} (mem : c ∈ items) :
    c.row.id ∈ (llmRerank topK answer items).map Prod.fst := by
  have own : ∀ {candidates : List Ranked}, c ∈ candidates → c.row.id ∈ (ownScores candidates).map Prod.fst := by
    intro candidates held
    exact List.mem_map.mpr ⟨_, List.mem_map_of_mem held, rfl⟩
  cases answer with
  | failed => exact own mem
  | scored entries =>
    rw [← List.take_append_drop (rerankCut topK items) items, List.mem_append] at mem
    simp only [llmRerank, List.map_append, List.mem_append]
    rcases mem with taken | rest
    · left
      rw [List.mem_map]
      simp only [Tables.memOrderBy, List.mem_append]
      by_cases answered : c.row.id ∈ (parseLlmResponse entries (items.take (rerankCut topK items))).map Prod.fst
      · obtain ⟨entry, held, same⟩ := List.mem_map.mp answered
        exact ⟨entry, .inl held, same⟩
      · exact ⟨_, .inr (List.mem_map_of_mem (List.mem_filter.mpr ⟨taken, decide_eq_true answered⟩)), rfl⟩
    · exact .inr (own rest)

theorem clamped (score : Number) : 0 ≤ clampScore score ∧ clampScore score ≤ 1 := by
  cases score with
  | fin q => exact ⟨le_max_left _ _, max_le zero_le_one (min_le_left _ _)⟩
  | _ => exact ⟨by norm_num [clampScore], by norm_num [clampScore]⟩

theorem sentTaken {c : Ranked} (taken : c ∈ items.take (rerankCut topK items)) : sent topK items c = true :=
  List.contains_iff_mem.mpr (List.mem_map_of_mem taken)

theorem scoreBounds {answer : LlmAnswer} (distinct : (items.map (fun c => c.row.id)).Nodup) {c : Ranked} (mem : c ∈ items) :
    lowestScore (sent topK items c) c.final ≤ scoreById (llmRerank topK answer items) c.row.id ∧
      scoreById (llmRerank topK answer items) c.row.id ≤ highestScore (sent topK items c) c.final := by
  refine scoreFound (P := fun score => lowestScore (sent topK items c) c.final ≤ score ∧
    score ≤ highestScore (sent topK items c) c.final) (rerankedAll mem) fun entry held same => ?_
  obtain ⟨other, inside, named, scored⟩ := rerankedEntry held
  obtain rfl := List.inj_on_of_nodup_map distinct inside mem (named.symm.trans same)
  rcases scored with own | ⟨taken, score, mixed⟩
  · rw [own, lowestScore, highestScore]
    constructor <;> split
    · exact min_le_left _ _
    · exact le_rfl
    · exact le_max_left _ _
    · exact le_rfl
  · rw [mixed, sentTaken taken, lowestScore, highestScore, if_pos rfl, if_pos rfl, combineScores]
    obtain ⟨least, most⟩ := clamped score
    exact ⟨(min_le_right _ _).trans (by linarith), le_max_of_le_right (by linarith)⟩

-- An answer that scores the items of a choice, each by its index.
def answering (wish : Ranked → Option ℚ) (items : List Ranked) : LlmAnswer :=
  .scored (items.zipIdx.filterMap (fun place => (wish place.1).map (fun score => (.fin place.2, .fin score))))

theorem candidateIndex (candidates : List Ranked) (index : Nat) : candidateAt candidates (.fin index) = candidates[index]? := by
  simp [candidateAt]

theorem answeredEntry {wish : Ranked → Option ℚ} {candidates : List Ranked} {entry : String × ℚ} {entries : List (Number × Number)}
    (answer : answering wish items = .scored entries) (prefixed : candidates <+: items) :
    entry ∈ parseLlmResponse entries candidates ↔ ∃ c ∈ candidates, ∃ score, wish c = some score ∧
      entry = (c.row.id, combineScores (clampScore (.fin score)) c.final) := by
  obtain rfl := LlmAnswer.scored.inj answer
  have kept : ∀ {index : Nat} {c : Ranked}, candidates[index]? = some c → items[index]? = some c := by
    obtain ⟨rest, rfl⟩ := prefixed
    exact fun found => List.getElem?_append_left (List.getElem?_eq_some_iff.mp found).1 ▸ found
  simp only [parseLlmResponse, List.mem_filterMap, Option.map_eq_some_iff, List.mem_zipIdx_iff_getElem?]
  constructor
  · rintro ⟨_, ⟨⟨c, index⟩, place, score, wished, rfl⟩, other, found, rfl⟩
    rw [candidateIndex] at found
    obtain rfl := Option.some.inj ((kept found).symm.trans place)
    exact ⟨_, List.mem_of_getElem? found, score, wished, rfl⟩
  · rintro ⟨c, mem, score, wished, rfl⟩
    obtain ⟨index, found⟩ := List.getElem?_of_mem mem
    exact ⟨_, ⟨(c, index), kept found, score, wished, rfl⟩, c, by rw [candidateIndex, found], rfl⟩

theorem answeredScore {wish : Ranked → Option ℚ} (distinct : (items.map (fun c => c.row.id)).Nodup) {c : Ranked} (mem : c ∈ items) :
    scoreById (llmRerank topK (answering wish items) items) c.row.id =
      if sent topK items c then ((wish c).map (fun score => combineScores (clampScore (.fin score)) c.final)).getD c.final
      else c.final := by
  refine scoreFound (P := fun score => score = _) (rerankedAll mem) fun entry held same => ?_
  cases answer : answering wish items with
  | failed => cases answer
  | scored entries =>
    have taken : items.take (rerankCut topK items) <+: items := List.take_prefix _ _
    have single : ∀ {other}, other ∈ items → other.row.id = c.row.id → other = c :=
      fun inside named => List.inj_on_of_nodup_map distinct inside mem named
    rw [answer] at held
    rcases List.mem_append.mp held with ranked | rest
    · rcases List.mem_append.mp ((Tables.memOrderBy _).mp ranked) with result | missing
      · obtain ⟨other, inside, score, wished, rfl⟩ := (answeredEntry answer taken).mp result
        obtain rfl := single (taken.subset inside) same
        rw [if_pos (sentTaken inside), wished]
        rfl
      · obtain ⟨other, inside, rfl⟩ := List.mem_map.mp missing
        obtain ⟨sentAlong, unanswered⟩ := List.mem_filter.mp inside
        obtain rfl := single (taken.subset sentAlong) same
        have unwished : wish other = none := by
          refine Option.eq_none_iff_forall_not_mem.mpr fun score wished => of_decide_eq_true unanswered ?_
          exact List.mem_map.mpr ⟨_, (answeredEntry answer taken).mpr ⟨other, sentAlong, score, wished, rfl⟩, rfl⟩
        rw [unwished]
        exact (ite_self _).symm
    · obtain ⟨other, inside, rfl⟩ := List.mem_map.mp rest
      obtain rfl := single (List.mem_of_mem_drop inside) same
      have unsent : ¬ sent topK items other = true := by
        rw [← List.take_append_drop (rerankCut topK items) items, List.map_append, List.nodup_append'] at distinct
        exact fun along => distinct.2.2 (List.contains_iff_mem.mp along) (List.mem_map_of_mem inside)
      rw [if_neg unsent]

variable (topK) in
-- The model can push two items apart as far as their ranges go.
theorem farthestApart (distinct : (items.map (fun c => c.row.id)).Nodup) {a b : Ranked} (one : a ∈ items) (two : b ∈ items)
    (apart : a.row.id ≠ b.row.id) : ∃ answer,
      scoreById (llmRerank topK answer items) a.row.id = lowestScore (sent topK items a) a.final ∧
      scoreById (llmRerank topK answer items) b.row.id = highestScore (sent topK items b) b.final := by
  refine ⟨answering (fun c => if c.row.id = a.row.id then (if 0 < c.final then some 0 else none)
    else if c.final < 1 then some 1 else none) items, ?_, ?_⟩
  · rw [answeredScore distinct one, lowestScore, if_pos rfl]
    congr 1
    by_cases positive : 0 < a.final
    · rw [if_pos positive, min_eq_right (by linarith)]
      simp [combineScores, clampScore]
    · rw [if_neg positive, min_eq_left (by linarith)]
      rfl
  · rw [answeredScore distinct two, highestScore, if_neg apart.symm]
    congr 1
    by_cases small : b.final < 1
    · rw [if_pos small, max_eq_right (by linarith)]
      simp [combineScores, clampScore, add_comm]
    · rw [if_neg small, max_eq_left (by linarith)]
      rfl

theorem finalTie {a b : Ranked} (one : finalOrder engine a b) (two : finalOrder engine b a) : Dated engine ascending a b := by
  have first : ∀ {o p : Ordering}, o.then p ≠ .gt → o ≠ .gt := by decide
  rcases one with more | ⟨same, ahead⟩
  · rcases two with less | ⟨same, -⟩
    · exact absurd less more.asymm
    · exact absurd same more.ne
  · rcases two with less | ⟨-, behind⟩
    · exact absurd same less.ne
    · cases ascending with
      | true => exact first behind
      | false => exact first ahead

theorem supersededSame {ids others : List String} (same : ∀ id, id ∈ ids ↔ id ∈ others) :
    loadSupersededObservationIds db ids = loadSupersededObservationIds db others := by
  have contained : ∀ id, ids.contains id = others.contains id := fun id => by
    rw [Bool.eq_iff_iff, List.contains_iff_mem, List.contains_iff_mem, same]
  simp only [loadSupersededObservationIds, contained]

variable (host settings engine request normal db) in
def supersededAmong : List String :=
  loadSupersededObservationIds db ((survivors host settings engine request normal db).map Observation.id)

theorem overridePerm {sortBy : SortBy} {rows : List Observation} :
    ((sortOverride engine sortBy (engine.rank normal rows)).map Ranked.row).Perm rows := by
  have perm : (sortOverride engine sortBy (engine.rank normal rows)).Perm (engine.rank normal rows) := by
    unfold sortOverride
    split
    · exact .refl _
    · exact List.perm_insertionSort _ _
  exact (perm.map Ranked.row).trans (engine.rankPerm normal rows)

theorem pageSettled {sortBy : SortBy} : sortedPage host settings engine sortBy request normal db =
    (settle engine request (supersededAmong host settings engine request normal db)
      (sortOverride engine sortBy (engine.rank normal (survivors host settings engine request normal db)))).take
        (searchLimit request) := by
  unfold sortedPage supersededAmong
  extract_lets ranked superseded
  have rows : (ranked.map Ranked.row).Perm _ := overridePerm
  have ids : ∀ id, id ∈ ranked.map (fun entry => entry.row.id) ↔
      id ∈ (survivors host settings engine request normal db).map Observation.id := by
    intro id
    rw [← (rows.map Observation.id).mem_iff, List.map_map]
    rfl
  unfold superseded
  rw [supersededSame ids]

theorem candidateNodup : (candidateIds host settings engine request normal db).Nodup := by
  unfold candidateIds
  extract_lets linked expanded
  have grown : expanded.Nodup := by
    unfold expanded
    split
    · exact addNodup linkedNodup
    · exact linkedNodup
  split
  · exact grown
  · exact addNodup (grown.sublist List.filter_sublist)

theorem survivorNodup : ((survivors host settings engine request normal db).map Observation.id).Nodup := by
  have loaded : ∀ ids : List String, ids.Nodup →
      ((ids.filterMap (loadObservation settings.now false db)).map Observation.id).Nodup := by
    intro ids distinct
    have named : ∀ id row, loadObservation settings.now false db id = some row → row.id = id :=
      fun id row found => (loadedRow found).2.1
    induction ids with
    | nil => exact List.nodup_nil
    | cons id rest ih =>
      obtain ⟨new, others⟩ := List.nodup_cons.mp distinct
      cases found : loadObservation settings.now false db id with
      | none =>
        rw [List.filterMap_cons_none found]
        exact ih others
      | some row =>
        rw [List.filterMap_cons_some found, List.map_cons, List.nodup_cons]
        refine ⟨fun again => new ?_, ih others⟩
        obtain ⟨other, mem, same⟩ := List.mem_map.mp again
        obtain ⟨key, held, load⟩ := List.mem_filterMap.mp mem
        rw [← named id row found, ← same, named key other load]
        exact held
  exact (loaded _ candidateNodup).sublist (List.filter_sublist.map _)

theorem settledNodup {superseded : List String} {ranked : List Ranked} (distinct : (ranked.map (fun e => e.row.id)).Nodup) :
    ((settle engine request superseded ranked).map (fun e => e.row.id)).Nodup := by
  unfold settle
  split
  · exact distinct
  · split
    · exact distinct.sublist (List.filter_sublist.map _)
    · have perm := (List.perm_insertionSort (finalOrder engine) (ranked.map (fun entry =>
        if entry.row.id ∈ superseded then {entry with final := entry.final * (1 / 2)} else entry))).map (fun e => e.row.id)
      refine perm.nodup_iff.mpr ?_
      have same : (ranked.map (fun entry => if entry.row.id ∈ superseded then {entry with final := entry.final * (1 / 2)}
          else entry)).map (fun e => e.row.id) = ranked.map (fun e => e.row.id) := by
        rw [List.map_map]
        refine List.map_congr_left fun entry _ => ?_
        rw [Function.comp_apply]
        split <;> rfl
      rw [same]
      exact distinct

theorem pageNodup {sortBy : SortBy} :
    ((sortedPage host settings engine sortBy request normal db).map (fun e => e.row.id)).Nodup := by
  rw [pageSettled]
  refine (settledNodup ?_).sublist ((List.take_sublist _ _).map _)
  have rows : (((sortOverride engine sortBy (engine.rank normal (survivors host settings engine request normal db))).map
      Ranked.row).map Observation.id).Perm _ := overridePerm.map Observation.id
  rw [List.map_map] at rows
  exact rows.nodup_iff.mpr survivorNodup

-- Rows picked, ordered and cut keep different ids.
theorem orderedNodup {before : Observation → Observation → Prop} [DecidableRel before] {rows : List Observation}
    (distinct : (rows.map Observation.id).Nodup) : ((Tables.orderBy before rows).map Observation.id).Nodup :=
  ((List.perm_insertionSort before rows).map _).nodup_iff.mpr distinct

theorem anchorNodup (keyed : (db.observations.map Observation.id).Nodup) :
    ((anchorRows host settings engine request normal db).map Observation.id).Nodup := by
  have picked : ∀ {choose : Observation → Bool} {rows : List Observation}, (rows.map Observation.id).Nodup →
      ((rows.filter choose).map Observation.id).Nodup := fun distinct => distinct.sublist (List.filter_sublist.map _)
  have cut : ∀ {limit : Nat} {rows : List Observation}, (rows.map Observation.id).Nodup →
      ((rows.take limit).map Observation.id).Nodup := fun distinct => distinct.sublist ((List.take_sublist _ _).map _)
  have byTime : ∀ {descending : Bool} {rows : List Observation}, (rows.map Observation.id).Nodup →
      ((byAnchor descending rows).map Observation.id).Nodup := by
    intro descending rows distinct
    unfold byAnchor
    split <;> exact orderedNodup distinct
  unfold anchorRows
  split
  · exact List.nodup_nil
  · rename_i anchor routed
    unfold temporalAnchorSearch
    split
    · exact List.nodup_nil
    · extract_lets asked found rows
      have kept : (rows.map Observation.id).Nodup := picked keyed
      split
      · exact cut (byTime kept)
      · split
        · exact List.nodup_nil
        · rename_i center held
          unfold aroundAnchor
          extract_lets time others distance side near score later relevant rest
          have sided : (side.map Observation.id).Nodup := by
            unfold side
            split
            · exact byTime (picked (picked kept))
            · exact byTime (picked (picked kept))
            · exact orderedNodup (picked (picked kept))
          have split_ : (relevant ++ rest).Perm near := by
            refine ((List.perm_insertionSort _ _).append (List.perm_insertionSort _ _)).trans ?_
            have other : ∀ row, decide (score row = 0) = !decide (0 < score row) := fun row => by
              by_cases none : score row = 0 <;> simp [none, Nat.pos_iff_ne_zero]
            simp only [other]
            exact List.filter_append_perm _ near
          exact cut ((split_.map _).nodup_iff.mpr (cut sided))

theorem shownNodup {sortBy : SortBy} (keyed : (db.observations.map Observation.id).Nodup) :
    ((shownItems host settings engine sortBy request normal db).map (fun e => e.row.id)).Nodup := by
  unfold shownItems
  extract_lets anchored
  split
  · rw [List.map_map]
    exact anchorNodup keyed
  · rw [List.map_map]
    exact pageNodup

variable [Std.TransCmp engine.collate]

theorem datesTotal (a b : Ranked) : Dated engine ascending a b ∨ Dated engine ascending b a := by
  cases ascending with
  | true => exact StableSort.notAfterTotal engine.collate a.row.createdAt b.row.createdAt
  | false => exact StableSort.notAfterTotal engine.collate b.row.createdAt a.row.createdAt

theorem datesTrans {a b c : Ranked} (one : Dated engine ascending a b) (two : Dated engine ascending b c) :
    Dated engine ascending a c := by
  cases ascending with
  | true => exact StableSort.notAfterTrans engine.collate one two
  | false => exact StableSort.notAfterTrans engine.collate two one

theorem overrideDated (sortBy : SortBy) (asked : sortBy.ascending = some ascending) (ranked : List Ranked) :
    (sortOverride engine sortBy ranked).Pairwise (Dated engine ascending) := by
  have : Std.Total (Dated engine ascending) := ⟨datesTotal⟩
  have : IsTrans Ranked (Dated engine ascending) := ⟨fun _ _ _ => datesTrans⟩
  rw [sortOverride, asked]
  exact List.pairwise_insertionSort _ _

theorem finalTotal (a b : Ranked) : finalOrder engine a b ∨ finalOrder engine b a := by
  have := StableSort.comparedBy engine.collate (fun entry : Ranked => entry.row.createdAt)
  have := StableSort.comparedBy engine.collate (fun entry : Ranked => entry.row.id)
  rcases lt_trichotomy a.final b.final with less | same | more
  · exact .inr (.inl less)
  · have tied := StableSort.notAfterTotal (compareLex (fun a b : Ranked => engine.collate b.row.createdAt a.row.createdAt)
      (fun a b : Ranked => engine.collate a.row.id b.row.id)) a b
    exact tied.imp (fun ahead => .inr ⟨same, ahead⟩) (fun ahead => .inr ⟨same.symm, ahead⟩)
  · exact .inl (.inl more)

theorem finalTrans {a b c : Ranked} (one : finalOrder engine a b) (two : finalOrder engine b c) : finalOrder engine a c := by
  have := StableSort.comparedBy engine.collate (fun entry : Ranked => entry.row.createdAt)
  have := StableSort.comparedBy engine.collate (fun entry : Ranked => entry.row.id)
  rcases one with more | ⟨same, ahead⟩
  · rcases two with less | ⟨same, -⟩
    · exact .inl (less.trans more)
    · exact .inl (same ▸ more)
  · rcases two with less | ⟨equal, behind⟩
    · exact .inl (same ▸ less)
    · exact .inr ⟨same.trans equal, StableSort.notAfterTrans (compareLex
        (fun a b : Ranked => engine.collate b.row.createdAt a.row.createdAt)
        (fun a b : Ranked => engine.collate a.row.id b.row.id)) ahead behind⟩

-- Items of different places have score ranges apart, in the order of the places.
def ScoresApart (engine : Engine) (ascending : Bool) (topK : Option Number) (items : List Ranked) : Prop :=
  ∀ a ∈ items, ∀ b ∈ items, ¬ Dated engine ascending b a →
    highestScore (sent topK items b) b.final ≤ lowestScore (sent topK items a) a.final

theorem preparedDated (distinct : (items.map (fun c => c.row.id)).Nodup) (dated : items.Pairwise (Dated engine ascending)) :
    (∀ answer, (searchPrepared topK (some answer) items).Pairwise (Dated engine ascending)) ↔
      ScoresApart engine ascending topK items := by
  constructor
  · intro all a one b two apart
    have ids : a.row.id ≠ b.row.id := by
      intro same
      obtain rfl := List.inj_on_of_nodup_map distinct one two same
      exact apart (or_self_iff.mp (datesTotal a a))
    obtain ⟨answer, least, most⟩ := farthestApart topK distinct one two ids
    rw [← least, ← most]
    have : Std.Total (ScoredAbove (llmRerank topK answer items)) := ⟨fun _ _ => le_total _ _⟩
    have : IsTrans Ranked (ScoredAbove (llmRerank topK answer items)) := ⟨fun _ _ _ one two => two.trans one⟩
    have ranked := List.pairwise_insertionSort (ScoredAbove (llmRerank topK answer items)) items
    exact StableSort.agreeOf datesTotal ranked (all answer) a ((List.mem_insertionSort _).mpr one) b
      ((List.mem_insertionSort _).mpr two) apart
  · intro apart answer
    exact StableSort.sortKeeps dated fun a one b two early =>
      (scoreBounds distinct two).2.trans ((apart a one b two early).trans (scoreBounds distinct one).1)

-- A page keeps its order where no superseded row was sorted again, and else only if the scores rank it as the dates do.
theorem pageDated {sortBy : SortBy} (asked : sortBy.ascending = some ascending) :
    (sortedPage host settings engine sortBy request normal db).Pairwise (Dated engine ascending) ↔
      supersededAmong host settings engine request normal db = [] ∨ request.includeSuperseded = false ∨
        ∀ a ∈ sortedPage host settings engine sortBy request normal db,
          ∀ b ∈ sortedPage host settings engine sortBy request normal db, ¬ Dated engine ascending b a → finalOrder engine a b := by
  have before : (sortOverride engine sortBy (engine.rank normal (survivors host settings engine request normal db))).Pairwise
      (Dated engine ascending) := overrideDated sortBy asked _
  rw [pageSettled, settle]
  by_cases none : supersededAmong host settings engine request normal db = []
  · rw [if_pos none]
    exact iff_of_true (before.sublist (List.take_sublist _ _)) (.inl none)
  · rw [if_neg none, or_iff_right none]
    by_cases dropped : request.includeSuperseded = false
    · rw [if_pos dropped]
      exact iff_of_true ((before.sublist List.filter_sublist).sublist (List.take_sublist _ _)) (.inl dropped)
    · rw [if_neg dropped, or_iff_right dropped]
      have : Std.Total (finalOrder engine) := ⟨finalTotal⟩
      have : IsTrans Ranked (finalOrder engine) := ⟨fun _ _ _ => finalTrans⟩
      exact StableSort.inOrderIff datesTotal (fun _ _ => finalTie)
        ((List.pairwise_insertionSort (finalOrder engine) _).sublist (List.take_sublist _ _))

-- The stages before the model: rows around an anchor as they come, or a page whose scores rank it as the dates do.
def StagesInDates (host : Host) (settings : Settings) (engine : Engine) (ascending : Bool) (sortBy : SortBy)
    (request : SearchRequest) (normal : Normalized) (db : Db) : Prop :=
  if anchorRows host settings engine request normal db ≠ [] then
    (anchorRows host settings engine request normal db).Pairwise (InDates engine ascending)
  else supersededAmong host settings engine request normal db = [] ∨ request.includeSuperseded = false ∨
    ∀ a ∈ sortedPage host settings engine sortBy request normal db,
      ∀ b ∈ sortedPage host settings engine sortBy request normal db, ¬ Dated engine ascending b a → finalOrder engine a b

theorem shownDated {sortBy : SortBy} (asked : sortBy.ascending = some ascending) :
    (shownItems host settings engine sortBy request normal db).Pairwise (Dated engine ascending) ↔
      StagesInDates host settings engine ascending sortBy request normal db := by
  unfold shownItems StagesInDates
  extract_lets anchored
  by_cases found : anchored ≠ []
  · rw [if_pos found, if_pos found, List.pairwise_map]
    rfl
  · rw [if_neg found, if_neg found, List.pairwise_map]
    exact pageDated asked

def SortHonoured (host : Host) (settings : Settings) (engine : Engine) (topK : Option Number) (sortBy : SortBy)
    (request : SearchRequest) (db : Db) : Prop :=
  ∀ ascending, sortBy.ascending = some ascending → ∀ items, searchSorted host settings engine sortBy request db = .ok items →
    items.Pairwise (Dated engine ascending) ∧
      ∀ answer, (searchPrepared topK (some answer) items).Pairwise (Dated engine ascending)

end

-- Two rows of two days; the later one may have superseded the earlier.
def dayRow (id day : String) : Observation := {plainRow id "p" "u" with createdAt := day}
def twoDays (links : List Link) : Db :=
  {Db.empty with
    observations := [dayRow "a" "2026-01-01", dayRow "b" "2026-01-02"]
    links}

end HarnessMem.Search
