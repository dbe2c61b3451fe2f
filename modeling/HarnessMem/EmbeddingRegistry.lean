import HarnessMem.Envelope

/-! Which embedding provider a configuration gets, and the model names its vectors are stored
under. -/
namespace HarnessMem.EmbeddingRegistry
open Recorder

inductive Language where
  | ja | en | multilingual
  deriving DecidableEq, Repr

structure EmbeddingRegistryOptions where
  providerName : Option String
  localModelId : Option String
  environmentModelId : Option String
  defaultLanguage : Option Language
  openaiEmbedModel : Option String
  ollamaEmbedModel : Option String
  proApiKey : Option String
  proApiUrl : Option String
  installed : String → Bool

structure AdaptiveLabels where
  japanese : String
  general : String
  generalFallback : String
  deriving DecidableEq, Repr

-- The labels are those of the adaptive provider.
structure EmbeddingProvider where
  name : String
  model : String
  labels : Option AdaptiveLabels
  deriving DecidableEq, Repr

def modelCatalog : List String := ["ruri-v3-30m", "ruri-v3-130m", "ruri-v3-310m", "gte-small", "e5-small-v2",
  "bge-small", "multilingual-e5", "nomic-embed"]

def orDefault (given : Option String) (default : String) : String :=
  let text := Js.trim ((truthy given).getD default)
  if text = "" then default else text

def createFallbackEmbeddingProvider : EmbeddingProvider := ⟨"fallback", orDefault none "local-hash-v3", none⟩
def createOpenAiEmbeddingProvider (model : Option String) : EmbeddingProvider :=
  ⟨"openai", orDefault model "text-embedding-3-small", none⟩
def createOllamaEmbeddingProvider (model : Option String) : EmbeddingProvider :=
  ⟨"ollama", orDefault model "nomic-embed-text", none⟩
def createProApiEmbeddingProvider (model : Option String) : EmbeddingProvider :=
  ⟨"pro-api", orDefault model "text-embedding-3-large", none⟩
def createLocalOnnxEmbeddingProvider (modelId : String) : EmbeddingProvider := ⟨"local", modelId, none⟩

def createAdaptiveEmbeddingProvider (japanese general : EmbeddingProvider) (generalFallback : Option EmbeddingProvider) :
    EmbeddingProvider :=
  let label := fun (route : String) (provider : EmbeddingProvider) =>
    "adaptive:" ++ route ++ ":" ++ provider.name ++ ":" ++ provider.model
  ⟨"adaptive", japanese.model ++ "+" ++ general.model,
    some ⟨label "ruri" japanese, label "general" general, label "general" (generalFallback.getD general)⟩⟩

def selectModelByLanguage : Language → String
  | .ja => "ruri-v3-30m"
  | .multilingual => "multilingual-e5"
  | .en => "gte-small"

section
variable (host : Host) (options : EmbeddingRegistryOptions)

-- An unknown or absent model falls back.
def createLocalOrFallbackProvider (modelId : String) : EmbeddingProvider :=
  if modelCatalog.contains modelId && options.installed modelId then createLocalOnnxEmbeddingProvider modelId
  else createFallbackEmbeddingProvider

def requestedProvider : String :=
  let name := host.toLowerCase (Js.trim ((truthy options.providerName).getD "fallback"))
  if name = "" then "fallback" else name

def chosenModelId : String :=
  let raw := Js.trim (((truthy options.localModelId).orElse (fun _ => truthy options.environmentModelId)).getD "multilingual-e5")
  if raw = "auto" then selectModelByLanguage (options.defaultLanguage.getD .ja) else raw

def hasProApi : Bool := (truthy options.proApiKey).isSome && (truthy options.proApiUrl).isSome

def adaptiveProvider : EmbeddingProvider :=
  let japaneseProvider := createLocalOrFallbackProvider options "ruri-v3-30m"
  let freeGeneralProvider := createLocalOrFallbackProvider options "multilingual-e5"
  if hasProApi options then
    createAdaptiveEmbeddingProvider japaneseProvider
      (createProApiEmbeddingProvider (some ((truthy options.openaiEmbedModel).getD "text-embedding-3-large")))
      (some freeGeneralProvider)
  else createAdaptiveEmbeddingProvider japaneseProvider freeGeneralProvider none

def createEmbeddingProviderRegistry : EmbeddingProvider :=
  let name := requestedProvider host options
  if name = "openai" then createOpenAiEmbeddingProvider options.openaiEmbedModel
  else if name = "ollama" then createOllamaEmbeddingProvider options.ollamaEmbedModel
  else if name = "adaptive" then adaptiveProvider options
  else if name = "auto" ∨ name = "local" then createLocalOrFallbackProvider options (chosenModelId options)
  else createFallbackEmbeddingProvider
end

def vectorModelVersion (provider : EmbeddingProvider) : String := provider.name ++ ":" ++ provider.model

inductive AdaptiveRoute where
  | ruri | openai | ensemble
  deriving DecidableEq, Repr

-- `fallbackActive` while the general provider is given time to recover.
def AdaptiveLabels.generalNow (labels : AdaptiveLabels) (fallbackActive : Bool) : String :=
  if fallbackActive then labels.generalFallback else labels.general
def AdaptiveLabels.primaryModelFor (labels : AdaptiveLabels) (fallbackActive : Bool) : AdaptiveRoute → String
  | .openai => labels.generalNow fallbackActive
  | _ => labels.japanese
def AdaptiveLabels.secondaryModelFor (labels : AdaptiveLabels) (fallbackActive : Bool) : AdaptiveRoute → Option String
  | .ensemble => some (labels.generalNow fallbackActive)
  | _ => none

-- The models a text's vectors are stored under.
def resolvedModels (provider : EmbeddingProvider) (route : AdaptiveRoute) (fallbackActive : Bool) : List String :=
  match provider.labels with
  | some labels => labels.primaryModelFor fallbackActive route :: (labels.secondaryModelFor fallbackActive route).toList
  | none => [vectorModelVersion provider]

def modelNames (provider : EmbeddingProvider) : List String :=
  vectorModelVersion provider :: match provider.labels with
    | some labels => [labels.japanese, labels.general, labels.generalFallback]
    | none => []

theorem modelResolved {provider : EmbeddingProvider} {route : AdaptiveRoute} {fallbackActive : Bool} {model : String}
    (mem : model ∈ resolvedModels provider route fallbackActive) : model ∈ modelNames provider := by
  unfold resolvedModels at mem
  unfold modelNames
  cases labels : provider.labels with
  | none =>
    rw [labels] at mem
    rw [List.mem_singleton.mp mem]
    exact List.mem_cons_self
  | some labels' =>
    rw [labels] at mem
    cases route <;> cases fallbackActive <;>
      simp [AdaptiveLabels.primaryModelFor, AdaptiveLabels.secondaryModelFor, AdaptiveLabels.generalNow] at mem ⊢ <;> tauto

section
variable (host : Host) (options : EmbeddingRegistryOptions)

theorem plainLabels (modelId : String) : (createLocalOrFallbackProvider options modelId).labels = none := by
  unfold createLocalOrFallbackProvider
  split <;> rfl

-- Only the adaptive provider carries labels.
theorem registryPlain (other : requestedProvider host options ≠ "adaptive") :
    (createEmbeddingProviderRegistry host options).labels = none := by
  unfold createEmbeddingProviderRegistry
  simp only
  split
  · rfl
  split
  · rfl
  split
  · exact plainLabels options _
  · rfl

theorem registryAdaptive (is : requestedProvider host options = "adaptive") :
    createEmbeddingProviderRegistry host options = adaptiveProvider options := by
  simp only [createEmbeddingProviderRegistry, is]
  rfl

theorem takeFront {front rest : String} {n : Nat} (short : n ≤ front.length) : (front ++ rest).toList.take n = front.toList.take n := by
  rw [String.toList_append, List.take_append_of_le_length (by rwa [String.length_toList])]

theorem adaptiveFronts {japanese general : EmbeddingProvider} {generalFallback : Option EmbeddingProvider}
    (models : japanese.model ∈ ["ruri-v3-30m", "local-hash-v3"]) :
    (vectorModelVersion (createAdaptiveEmbeddingProvider japanese general generalFallback)).toList.take 14 ∈
      ["adaptive:ruri-".toList, "adaptive:local".toList] := by
  have front : vectorModelVersion (createAdaptiveEmbeddingProvider japanese general generalFallback) =
      ("adaptive" ++ ":" ++ japanese.model) ++ ("+" ++ general.model) := by
    simp only [vectorModelVersion, createAdaptiveEmbeddingProvider, String.append_assoc]
  rw [front]
  rcases List.mem_cons.mp models with is | models
  · rw [is, takeFront (by decide)]
    decide
  · rw [List.mem_singleton.mp models, takeFront (by decide)]
    decide

theorem labelFronts {japanese general : EmbeddingProvider} {generalFallback : Option EmbeddingProvider} {route : AdaptiveRoute}
    {fallbackActive : Bool} {model : String}
    (mem : model ∈ resolvedModels (createAdaptiveEmbeddingProvider japanese general generalFallback) route fallbackActive) :
    model.toList.take 14 ∈ ["adaptive:ruri:".toList, "adaptive:gener".toList] := by
  have first : ∀ name model : String, ("adaptive:" ++ "ruri" ++ ":" ++ name ++ ":" ++ model).toList.take 14 = "adaptive:ruri:".toList := by
    intro name model
    rw [String.append_assoc, String.append_assoc, takeFront (by decide)]
    decide
  have second : ∀ name model : String, ("adaptive:" ++ "general" ++ ":" ++ name ++ ":" ++ model).toList.take 14 = "adaptive:gener".toList := by
    intro name model
    rw [String.append_assoc, String.append_assoc, takeFront (by decide)]
    decide
  cases route <;> cases fallbackActive <;>
    simp only [resolvedModels, createAdaptiveEmbeddingProvider, AdaptiveLabels.primaryModelFor, AdaptiveLabels.secondaryModelFor,
      AdaptiveLabels.generalNow, Option.toList_none, Option.toList_some, if_true, Bool.false_eq_true, if_false, List.mem_cons,
      List.not_mem_nil, or_false] at mem
  case ensemble.false | ensemble.true =>
    rcases mem with rfl | rfl
    · rw [first]
      exact List.mem_cons_self
    · rw [second]
      exact List.mem_cons_of_mem _ List.mem_cons_self
  case ruri.false | ruri.true =>
    rw [mem, first]
    exact List.mem_cons_self
  all_goals
    rw [mem, second]
    exact List.mem_cons_of_mem _ List.mem_cons_self

-- The adaptive provider stores no text under the name its coverage is counted by.
theorem adaptiveUncounted (route : AdaptiveRoute) (fallbackActive : Bool) :
    vectorModelVersion (adaptiveProvider options) ∉ resolvedModels (adaptiveProvider options) route fallbackActive := by
  have japanese : (createLocalOrFallbackProvider options "ruri-v3-30m").model ∈ ["ruri-v3-30m", "local-hash-v3"] := by
    unfold createLocalOrFallbackProvider
    split
    · exact List.mem_cons_self
    · decide
  have apart : ∀ text ∈ ["adaptive:ruri-".toList, "adaptive:local".toList], text ∉ ["adaptive:ruri:".toList, "adaptive:gener".toList] := by
    decide
  intro mem
  unfold adaptiveProvider at mem
  simp only at mem
  split at mem
  · exact apart _ (adaptiveFronts japanese) (labelFronts mem)
  · exact apart _ (adaptiveFronts japanese) (labelFronts mem)
end

end HarnessMem.EmbeddingRegistry
