import HarnessMem.SearchFacets
import HarnessMem.Supersession

/-! The token budget of the resume pack: what its items cost, and when all of them stay within it. -/
namespace HarnessMem.PackBudget
open Js Text Recorder Visibility TemporalState Search Readers ResumePack Supersession

-- What a row costs whole, and as its line.
structure Cost where
  full : Nat
  line : Nat

-- Each row in its turn fits what the earlier ones leave, whole or else as its line.
inductive Affordable (budget : Number) : Nat → List Cost → Prop where
  | done {spent : Nat} : Affordable budget spent []
  | whole {spent : Nat} {cost : Cost} {rest : List Cost} (fit : fits (spent + cost.full) budget = true)
      (later : Affordable budget (spent + cost.full) rest) : Affordable budget spent (cost :: rest)
  | line {spent : Nat} {cost : Cost} {rest : List Cost} (tight : fits (spent + cost.full) budget = false)
      (fit : fits (spent + cost.line) budget = true) (later : Affordable budget (spent + cost.line) rest) :
      Affordable budget spent (cost :: rest)

def charge (budget : Number) (spent : Nat) (cost : Cost) : Nat :=
  if fits (spent + cost.full) budget then spent + cost.full else spent + cost.line

theorem fitsLess {budget : Number} {used more : Nat} (le : used ≤ more) (fit : fits more budget = true) : fits used budget = true := by
  cases budget with
  | fin q =>
    have cast : (used : ℚ) ≤ more := by exact_mod_cast le
    exact decide_eq_true (cast.trans (of_decide_eq_true fit))
  | posInf => rfl
  | nan => cases fit
  | negInf => cases fit

theorem chargeMore (budget : Number) (spent : Nat) (cost : Cost) : spent ≤ charge budget spent cost := by
  unfold charge
  split <;> omega

theorem chargedFits (budget : Number) (costs : List Cost) (spent : Nat) :
    fits (costs.foldl (charge budget) spent) budget = true ↔ fits spent budget = true ∧ Affordable budget spent costs := by
  induction costs generalizing spent with
  | nil => exact ⟨fun fit => ⟨fit, .done⟩, fun both => both.1⟩
  | cons cost rest ih =>
    rw [List.foldl_cons, ih]
    constructor
    · rintro ⟨fit, later⟩
      refine ⟨fitsLess (chargeMore budget spent cost) fit, ?_⟩
      unfold charge at fit later
      split at fit
      · rename_i whole
        rw [if_pos whole] at later
        exact .whole whole later
      · rename_i tight
        rw [if_neg tight] at later
        exact .line (Bool.eq_false_iff.mpr tight) fit later
    · rintro ⟨_, affordable⟩
      unfold charge
      cases affordable with
      | whole fit later =>
        rw [if_pos fit]
        exact ⟨fit, later⟩
      | line tight fit later =>
        rw [if_neg (Bool.eq_false_iff.mp tight)]
        exact ⟨fit, later⟩

section
variable (host : Host) (settings : Settings) (engine : Engine) (config : Config) (members : List String) (request : ResumePackRequest)
  (db : Db)

def summaryTokens (summary : Option LatestSummary) : Nat :=
  (summary.map (fun latest => estimateTokenCount (latest.summary.getD ""))).getD 0

def itemTokens (item : PackItem) : Nat :=
  if item.detailed then estimateTokenCount (Json.stringify (fullItem host config item.row item.state))
  else estimateTokenCount item.text

def packTokens (pack : Pack) : Nat := summaryTokens pack.summary + (pack.items.map (itemTokens host config)).sum

def rankedRows : List Observation :=
  (config.byScore ((packRows host settings members request db).map (fun row => (row, (eventType db row).getD "")))).map Prod.fst

def packSuperseded : List String :=
  loadSupersededObservationIds db (((packRows host settings members request db).map Observation.id).filter (fun id => id ≠ ""))

def rowCost (supersededIds : List String) (row : Observation) : Cost where
  full := estimateTokenCount (Json.stringify (fullItem host config row (temporalState host settings.now none supersededIds row)))
  line := estimateTokenCount (summaryLine row)

def wholeItem (supersededIds : List String) (row : Observation) : PackItem :=
  ⟨row, true, row.title, slice row.contentRedacted 0 800, temporalState host settings.now none supersededIds row⟩

def lineItem (supersededIds : List String) (row : Observation) : PackItem :=
  ⟨row, false, some ((truthy row.title).getD row.id), summaryLine row, temporalState host settings.now none supersededIds row⟩

variable {host settings engine config members request db}

theorem rankedPerm : (rankedRows host settings config members request db).Perm (packRows host settings members request db) := by
  have scored := (config.byScorePerm ((packRows host settings members request db).map fun row => (row, (eventType db row).getD ""))).map Prod.fst
  rw [List.map_map] at scored
  exact scored.trans (.of_eq (List.map_id _))

theorem wholeTokens (supersededIds : List String) (row : Observation) :
    itemTokens host config (wholeItem host settings supersededIds row) = (rowCost host settings config supersededIds row).full := by
  unfold itemTokens wholeItem rowCost
  simp only [if_true]

theorem lineTokens (supersededIds : List String) (row : Observation) :
    itemTokens host config (lineItem host settings supersededIds row) = (rowCost host settings config supersededIds row).line := by
  unfold itemTokens lineItem rowCost
  simp only [Bool.false_eq_true, if_false]

theorem packedWhole {budget : Number} {summary : Nat} {supersededIds : List String} {packed : List PackItem × Nat} {row : Observation}
    (fit : fits (summary + packed.2 + (rowCost host settings config supersededIds row).full) budget = true) :
    packItem host settings config budget summary supersededIds packed row =
      (packed.1 ++ [wholeItem host settings supersededIds row], packed.2 + (rowCost host settings config supersededIds row).full) := by
  simp only [rowCost] at fit ⊢
  simp only [packItem, wholeItem, fit, if_true]

theorem packedLine {budget : Number} {summary : Nat} {supersededIds : List String} {packed : List PackItem × Nat} {row : Observation}
    (tight : fits (summary + packed.2 + (rowCost host settings config supersededIds row).full) budget = false) :
    packItem host settings config budget summary supersededIds packed row =
      (packed.1 ++ [lineItem host settings supersededIds row], packed.2 + (rowCost host settings config supersededIds row).line) := by
  simp only [rowCost] at tight ⊢
  simp only [packItem, lineItem, tight, Bool.false_eq_true, if_false]

-- One row more: its tokens are those of its item.
theorem packedRow (budget : Number) (summary : Nat) (supersededIds : List String) (packed : List PackItem × Nat) (row : Observation) :
    ∃ item, packItem host settings config budget summary supersededIds packed row = (packed.1 ++ [item], packed.2 + itemTokens host config item) ∧
      item.row = row ∧
      summary + (packed.2 + itemTokens host config item) = charge budget (summary + packed.2) (rowCost host settings config supersededIds row) := by
  unfold charge
  split
  · rename_i fit
    exact ⟨_, by rw [packedWhole fit, wholeTokens], rfl, by rw [wholeTokens, Nat.add_assoc]⟩
  · rename_i tight
    exact ⟨_, by rw [packedLine (Bool.eq_false_iff.mpr tight), lineTokens], rfl, by rw [lineTokens, Nat.add_assoc]⟩

theorem packedAll (budget : Number) (summary : Nat) (supersededIds : List String) (rows : List Observation) (packed : List PackItem × Nat) :
    ∃ items, rows.foldl (packItem host settings config budget summary supersededIds) packed =
        (packed.1 ++ items, packed.2 + (items.map (itemTokens host config)).sum) ∧
      items.map PackItem.row = rows ∧
      summary + (packed.2 + (items.map (itemTokens host config)).sum) =
        (rows.map (rowCost host settings config supersededIds)).foldl (charge budget) (summary + packed.2) := by
  induction rows generalizing packed with
  | nil => exact ⟨[], by simp, rfl, rfl⟩
  | cons row rest ih =>
    obtain ⟨item, step, named, charged⟩ := @packedRow host settings config budget summary supersededIds packed row
    obtain ⟨items, run, rows, later⟩ := ih (packed.1 ++ [item], packed.2 + itemTokens host config item)
    refine ⟨item :: items, ?_, by rw [List.map_cons, rows, named], ?_⟩
    · rw [List.foldl_cons, step, run]
      simp [Nat.add_assoc]
    · rw [List.map_cons, List.map_cons, List.foldl_cons, ← charged, ← later, List.sum_cons]
      omega

-- The items of a pack are the candidate rows, each once, and cost what the ranked rows are charged for.
theorem packedItems (summary : Option LatestSummary) :
    ((packItems host settings config members request summary db).map PackItem.row).Perm (packRows host settings members request db) ∧
    summaryTokens summary + ((packItems host settings config members request summary db).map (itemTokens host config)).sum =
      ((rankedRows host settings config members request db).map
        (rowCost host settings config (packSuperseded host settings members request db))).foldl
          (charge (resumeBudget config request)) (summaryTokens summary) := by
  obtain ⟨items, run, rows, charged⟩ := @packedAll host settings config (resumeBudget config request) (summaryTokens summary)
    (packSuperseded host settings members request db) (rankedRows host settings config members request db) ([], 0)
  have whole : packItems host settings config members request summary db =
      items.filter PackItem.detailed ++ items.filter fun item => !item.detailed := by
    have packed : (((rankedRows host settings config members request db).foldl (packItem host settings config (resumeBudget config request)
        (summaryTokens summary) (packSuperseded host settings members request db)) ([], 0)).1) = items := by rw [run]; rfl
    rw [← packed]
    rfl
  have perm : (packItems host settings config members request summary db).Perm items := by
    rw [whole]
    exact List.filter_append_perm PackItem.detailed items
  refine ⟨((perm.map PackItem.row).trans (.of_eq rows)).trans rankedPerm, ?_⟩
  rw [(perm.map (itemTokens host config)).sum_eq]
  simpa using charged

end

def resumeWith (maxTokens : Number) : ResumePackRequest :=
  ⟨"p", some ["p"], none, none, .fin 5, false, false, some maxTokens, none, none, .full, false, false⟩
def oneRow : Db := {Db.empty with observations := [{plainRow "a" "p" "u" with createdAt := "2026-01-01T00:00:00.000Z"}]}

def packFor (maxTokens : Number) (db : Db) : Pack :=
  fullPack readHost plainSettings SearchFacets.plainEngine plainConfig ["p"] (resumeWith maxTokens) "p" db

def summarized : Db := {Db.empty with sessions := [⟨"s", "claude", "p", "2026", none, some "written up", none, none, "u", none, "2026", "2026"⟩]}

end HarnessMem.PackBudget
