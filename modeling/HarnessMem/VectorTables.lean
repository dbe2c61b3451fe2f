import HarnessMem.EmbeddingRegistry
import HarnessMem.Lib.Words
import HarnessMem.Recorder

/-! The names of the sqlite-vec tables a model's vectors go to. -/
namespace HarnessMem.VectorTables
open Text Recorder EmbeddingRegistry

def legacySqliteVecTable : String := "mem_vectors_vec"
def legacySqliteVecMapTable : String := "mem_vectors_vec_map"

-- /[a-z0-9]/
def named (c : Char) : Bool := ('a' ≤ c && c ≤ 'z') || ('0' ≤ c && c ≤ '9')

section
variable (host : Host)

def normalizeSqliteIdentifierPart (value : String) : String :=
  let normalized := Regex.replaceAll (Words.atEnds '_') ""
    (Regex.replaceAll (Regex.plus (.set (fun c => !named c))) "_" (host.toLowerCase value))
  if 0 < length normalized then slice normalized 0 48 else "default"

def getSqliteVecTableName (model : String) : String := "mem_vectors_vec_" ++ normalizeSqliteIdentifierPart host model
def getSqliteVecMapTableName (model : String) : String := "mem_vectors_vec_map_" ++ normalizeSqliteIdentifierPart host model

theorem tableName (model : String) :
    getSqliteVecTableName host model = "mem_vectors_vec_" ++ normalizeSqliteIdentifierPart host model := rfl

-- The lower-case words of a name, joined by underscores: its first 48 characters.
def label (model : String) : List Char := (Words.joined named '_' (host.toLowerCase model).toList).take 48

-- Lower-casing leaves lower-case ASCII letters and a colon in front of a text as they are.
def Lowers : Prop := ∀ front text : String,
  (front.toList.all (fun c => c.isLower || c = ':')) = true → front.toList <+: (host.toLowerCase (front ++ text)).toList
end

structure Apart (host : Host) (a b : String) : Prop where
  tables : a ≠ b → getSqliteVecTableName host a ≠ getSqliteVecTableName host b
  legacy : getSqliteVecTableName host a ≠ legacySqliteVecTable ∧ getSqliteVecTableName host a ≠ legacySqliteVecMapTable
  maps : getSqliteVecTableName host a ≠ getSqliteVecMapTableName host b

-- What a configured model name begins with.
def fronts : List String := ["fallback:", "openai:", "ollama:", "local:", "adaptive:"]

theorem configuredFront (host : Host) (options : EmbeddingRegistryOptions) {model : String}
    (mem : model ∈ modelNames (createEmbeddingProviderRegistry host options)) :
    ∃ front ∈ fronts, ∃ rest, model = front ++ rest := by
  have plain : ∀ name, name ++ ":" ∈ fronts → ∀ model', model ∈ modelNames ⟨name, model', none⟩ →
      ∃ front ∈ fronts, ∃ rest, model = front ++ rest := by
    intro name front model' mem
    rw [modelNames, List.mem_singleton] at mem
    exact ⟨_, front, model', mem⟩
  have local' : ∀ modelId, model ∈ modelNames (createLocalOrFallbackProvider options modelId) →
      ∃ front ∈ fronts, ∃ rest, model = front ++ rest := by
    intro modelId mem
    unfold createLocalOrFallbackProvider at mem
    split at mem
    · exact plain "local" (by decide) _ mem
    · exact plain "fallback" (by decide) _ mem
  have adaptive : ∀ japanese general generalFallback,
      model ∈ modelNames (createAdaptiveEmbeddingProvider japanese general generalFallback) →
      ∃ front ∈ fronts, ∃ rest, model = front ++ rest := by
    intro japanese general generalFallback mem
    refine ⟨"adaptive:", by decide, ?_⟩
    simp only [modelNames, createAdaptiveEmbeddingProvider, vectorModelVersion, List.mem_cons, List.not_mem_nil, or_false] at mem
    rcases mem with rfl | rfl | rfl | rfl
    · exact ⟨_, rfl⟩
    all_goals
      simp only [String.append_assoc]
      exact ⟨_, rfl⟩
  unfold createEmbeddingProviderRegistry at mem
  simp only at mem
  split at mem
  · exact plain "openai" (by decide) _ mem
  split at mem
  · exact plain "ollama" (by decide) _ mem
  split at mem
  · unfold adaptiveProvider at mem
    simp only at mem
    split at mem
    · exact adaptive _ _ _ mem
    · exact adaptive _ _ _ mem
  split at mem
  · exact local' _ mem
  · exact plain "fallback" (by decide) _ mem

section
variable {host : Host}

theorem namedPlain {c : Char} (either : named c = true ∨ c = '_') : wide c = false := by
  have small : c.toNat ≤ 'z'.toNat := by
    rcases either with is | rfl
    · simp only [named, Bool.or_eq_true, Bool.and_eq_true, decide_eq_true_eq] at is
      rcases is with ⟨-, le⟩ | ⟨-, le⟩
      · exact le
      · exact le_trans (show c.toNat ≤ '9'.toNat from le) (by decide)
    · decide
  have bound : c.toNat < 0x10000 := lt_of_le_of_lt small (by decide)
  exact decide_eq_false (not_le.mpr bound)

theorem partJoined (model : String) (filled : Words.joined named '_' (host.toLowerCase model).toList ≠ []) :
    normalizeSqliteIdentifierPart host model = String.ofList (label host model) := by
  have plain : ∀ c ∈ Words.joined named '_' (host.toLowerCase model).toList, wide c = false :=
    fun c mem => namedPlain (Words.joinedChars (by decide) _ c mem)
  have slug := Words.slugJoined (show named '_' = false by decide) (host.toLowerCase model)
  rw [normalizeSqliteIdentifierPart]
  rw [show String.singleton '_' = "_" from rfl] at slug
  simp only [slug]
  rw [if_pos, slice, String.toList_ofList, dropUnits, takeUnitsPlain plain]
  · rfl
  · rw [length, String.toList_ofList]
    cases text : Words.joined named '_' (host.toLowerCase model).toList with
    | nil => exact absurd text filled
    | cons c rest =>
      rw [units, List.foldr_cons]
      split <;> omega

-- A configured name's part of the table name is its label, and begins as the name does.
theorem partLabel (lowers : Lowers host) (options : EmbeddingRegistryOptions) {model : String}
    (mem : model ∈ modelNames (createEmbeddingProviderRegistry host options)) :
    normalizeSqliteIdentifierPart host model = String.ofList (label host model) ∧
      ∃ c rest, label host model = c :: rest ∧ c ≠ 'm' := by
  obtain ⟨front, is, rest, rfl⟩ := configuredFront host options mem
  have starts : ∀ front ∈ fronts, (front.toList.all (fun c => c.isLower || c = ':')) = true ∧
      (front.toList.head?.any (fun c => named c && c ≠ 'm')) = true := by decide
  obtain ⟨ascii, first⟩ := starts front is
  obtain ⟨more, text⟩ := lowers front rest ascii
  cases chars : front.toList with
  | nil => simp [chars] at first
  | cons c others =>
    have kept : named c = true ∧ c ≠ 'm' := by simpa [chars] using first
    rw [chars, List.cons_append] at text
    obtain ⟨tail, joined⟩ := Words.joinedHead '_' kept.1 (others ++ more)
    rw [text] at joined
    refine ⟨partJoined _ (by rw [joined]; exact List.cons_ne_nil _ _), c, tail.take 47, ?_, kept.2⟩
    rw [label, joined, List.take_succ_cons]

theorem configuredApart (lowers : Lowers host) (first second : EmbeddingRegistryOptions) {a b : String}
    (ha : a ∈ modelNames (createEmbeddingProviderRegistry host first))
    (hb : b ∈ modelNames (createEmbeddingProviderRegistry host second)) :
    Apart host a b ↔ (a ≠ b → label host a ≠ label host b) := by
  obtain ⟨partA, c, restA, labelA, notM⟩ := partLabel lowers first ha
  obtain ⟨partB, -⟩ := partLabel lowers second hb
  have tables : getSqliteVecTableName host a = getSqliteVecTableName host b ↔ label host a = label host b := by
    rw [tableName, tableName, partA, partB, String.append_right_inj, String.ofList_inj]
  have other : ∀ text : List Char, text.head? ≠ some c → getSqliteVecTableName host a ≠ "mem_vectors_vec_" ++ String.ofList text := by
    intro text start same
    rw [tableName, partA, String.append_right_inj, String.ofList_inj] at same
    rw [← same, labelA] at start
    exact start rfl
  constructor
  · exact fun apart distinct same => apart.tables distinct (tables.mpr same)
  · intro labels
    refine ⟨fun distinct same => labels distinct (tables.mp same), ⟨fun same => ?_, ?_⟩, ?_⟩
    · have lengths := congrArg String.length same
      have longer : "mem_vectors_vec_".length = legacySqliteVecTable.length + 1 := by decide
      rw [tableName, String.length_append] at lengths
      omega
    · exact other "map".toList (by simpa using notM.symm)
    · have map := other ("map_" ++ normalizeSqliteIdentifierPart host b).toList (by
        rw [String.toList_append]
        simpa using notM.symm)
      rwa [String.ofList_toList, ← String.append_assoc] at map
end

theorem plainLowers : Lowers plainHost := by
  intro front text ascii
  have lowered : (plainHost.toLowerCase (front ++ text)).toList = front.toList.map Char.toLower ++ text.toList.map Char.toLower := by
    rw [← List.map_append, ← String.toList_append]
    exact String.toList_map
  have same : front.toList.map Char.toLower = front.toList := by
    refine (List.map_congr_left fun c mem => ?_).trans (List.map_id _)
    have kind := List.all_eq_true.mp ascii c mem
    have notUpper : ¬ ('A'.val ≤ c.val ∧ c.val ≤ 'Z'.val) := by
      change (decide (97 ≤ c.val) && decide (c.val ≤ 122) || decide (c = ':')) = true at kind
      simp only [Bool.or_eq_true, decide_eq_true_eq, Bool.and_eq_true] at kind
      rcases kind with ⟨low, -⟩ | rfl
      · rintro ⟨-, high⟩
        have least : 97 ≤ c.val.toNat := low
        have most : c.val.toNat ≤ 90 := high
        omega
      · decide
    exact dif_neg notUpper
  rw [lowered, same]
  exact List.prefix_append _ _

def ollamaOptions (model : String) : EmbeddingRegistryOptions :=
  ⟨some "ollama", none, none, none, none, some model, none, none, fun _ => false⟩

theorem configuredApartPlain : Apart plainHost "ollama:bge-m3" "ollama:gte" ↔
    ("ollama:bge-m3" ≠ "ollama:gte" → label plainHost "ollama:bge-m3" ≠ label plainHost "ollama:gte") :=
  configuredApart plainLowers (ollamaOptions "bge-m3") (ollamaOptions "gte") (by decide +kernel) (by decide +kernel)

-- A hyphen and an underscore make no difference to the table.
theorem configuredShared : "ollama:bge-m3" ∈ modelNames (createEmbeddingProviderRegistry plainHost (ollamaOptions "bge-m3")) ∧
    "ollama:bge_m3" ∈ modelNames (createEmbeddingProviderRegistry plainHost (ollamaOptions "bge_m3")) ∧
    ¬ Apart plainHost "ollama:bge-m3" "ollama:bge_m3" := by
  refine ⟨by decide +kernel, by decide +kernel, fun apart => apart.tables (by decide) ?_⟩
  have lowered : ∀ model, (plainHost.toLowerCase model).toList = model.toList.map Char.toLower := fun _ => String.toList_map
  have slug : ∀ model ∈ ["ollama:bge-m3", "ollama:bge_m3"],
      Words.joined named '_' (plainHost.toLowerCase model).toList = "ollama_bge_m3".toList := by
    simp only [lowered]
    decide +kernel
  have part : ∀ model ∈ ["ollama:bge-m3", "ollama:bge_m3"],
      getSqliteVecTableName plainHost model = "mem_vectors_vec_" ++ "ollama_bge_m3" := by
    intro model mem
    rw [tableName, partJoined model (by rw [slug model mem]; decide), label, slug model mem]
    rfl
  rw [part _ (by decide), part _ (by decide)]

end HarnessMem.VectorTables
