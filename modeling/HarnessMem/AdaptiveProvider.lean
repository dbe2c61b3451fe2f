import HarnessMem.EmbeddingRegistry
import HarnessMem.Lib.Runs
import Mathlib.Data.List.Induction

/-! The adaptive embedding provider with a Pro API: which model answers while the Pro API fails and
recovers, and the labels under which the vectors of recorded and reindexed observations are stored.
A vector is known by the provider that made it, the mode and the text. -/
namespace HarnessMem.AdaptiveProvider
open EmbeddingRegistry

inductive Provider
  | japanese | general | generalFallback
  deriving DecidableEq, Repr

inductive Mode
  | query | passage
  deriving DecidableEq, Repr

structure Vector where
  provider : Provider
  mode : Mode
  text : String
  deriving DecidableEq, Repr

-- `buildCacheKey`
abbrev Key := Mode × String

def made (provider : Provider) (key : Key) : Vector := ⟨provider, key.1, key.2⟩

/-! The Pro API provider. -/

-- The cache lists the entry used last at its end.
structure ProApi where
  cache : List (Key × Vector)
  healthy : Bool
  inflight : List Key
  deriving DecidableEq, Repr

def cacheCapacity : Nat := 256

def cached (cache : List (Key × Vector)) (key : Key) : Option Vector :=
  (cache.find? (fun entry => entry.1 = key)).map Prod.snd
def moved (cache : List (Key × Vector)) (key : Key) (vector : Vector) : List (Key × Vector) :=
  cache.filter (fun entry => entry.1 ≠ key) ++ [(key, vector)]
def setCachedEmbedding (cache : List (Key × Vector)) (key : Key) (vector : Vector) : List (Key × Vector) :=
  (moved cache key vector).drop ((moved cache key vector).length - cacheCapacity)

-- A request and what becomes of it: the fallback's vector stands in for one that fails, in the cache
-- too, unless the fallback throws.
def answered (pro : ProApi) (key : Key) (ok inner : Bool) : ProApi × Option Vector :=
  if ok then
    ({pro with healthy := true, cache := setCachedEmbedding pro.cache key (made .general key)}, some (made .general key))
  else if inner then
    let vector := made .generalFallback (.passage, key.2)
    ({pro with healthy := false, cache := setCachedEmbedding pro.cache key vector}, some vector)
  else ({pro with healthy := false}, none)

def embedInternal (pro : ProApi) (key : Key) (ok inner : Bool) : ProApi × Option Vector :=
  match cached pro.cache key with
  | some vector => ({pro with cache := moved pro.cache key vector}, some vector)
  | none => answered pro key ok inner

/-! The adaptive provider. -/

structure GeneralFallbackState where
  active : Bool
  failCount : Nat
  nextRetryAt : Int
  deriving DecidableEq, Repr

def recovered : GeneralFallbackState := ⟨false, 0, 0⟩

-- GENERAL_PROVIDER_BACKOFF_MS
def backoffMs : Nat → Int
  | 0 => 10000
  | 1 => 30000
  | 2 => 60000
  | _ => 300000

-- What one call meets: whether its request and each model it asks work, and the clock as it is read.
structure Moment where
  request : Bool
  inner : Bool
  outer : Bool
  outerAgain : Bool
  japanese : Bool
  use : Int
  probe : Int
  enter : Int
  enterAgain : Int
  label : Int
  deriving DecidableEq, Repr

def useFallbackGeneral (state : GeneralFallbackState) (now : Int) : Bool := state.active && now < state.nextRetryAt
def shouldProbeGeneral (state : GeneralFallbackState) (now : Int) : Bool := state.active && state.nextRetryAt ≤ now

def enterGeneralFallback (state : GeneralFallbackState) (now : Int) : GeneralFallbackState :=
  ⟨true, state.failCount + 1, now + backoffMs state.failCount⟩
def exitGeneralFallback (state : GeneralFallbackState) : GeneralFallbackState := if state.active then recovered else state

-- The state in which the fallback is asked at once, if the Pro API is not.
def preflight (state : GeneralFallbackState) (healthy : Bool) (m : Moment) : Option GeneralFallbackState :=
  if state.active = false ∧ healthy = false then some (enterGeneralFallback state m.enter)
  else if useFallbackGeneral state m.use ∧ shouldProbeGeneral state m.probe = false then some state
  else none

structure General where
  pro : ProApi
  state : GeneralFallbackState
  vector : Option Vector
  deriving DecidableEq, Repr

def fallbackVector (key : Key) (works : Bool) : Option Vector := if works then some (made .generalFallback key) else none

-- What the Pro API brought is taken if it is healthy. The fallback that is asked because it is not
-- throws into the same handler, which asks it again.
def judged (state : GeneralFallbackState) (key : Key) (m : Moment) (result : ProApi × Option Vector) : General :=
  let entered := enterGeneralFallback state m.enter
  match result.2 with
  | some vector =>
    if result.1.healthy then ⟨result.1, exitGeneralFallback state, some vector⟩
    else if m.outer then ⟨result.1, entered, fallbackVector key true⟩
    else ⟨result.1, enterGeneralFallback entered m.enterAgain, fallbackVector key m.outerAgain⟩
  | none => ⟨result.1, entered, fallbackVector key m.outer⟩

def runGeneralSync (pro : ProApi) (state : GeneralFallbackState) (key : Key) (m : Moment) : General :=
  match preflight state pro.healthy m with
  | some entered => ⟨pro, entered, fallbackVector key m.outer⟩
  | none => judged state key m (embedInternal pro key m.request m.inner)

/-! Storing and priming, one step at a time. -/

structure Row where
  observationId : String
  model : String
  vector : Vector
  deriving DecidableEq, Repr

-- A prime under way: waiting for a request, or about to read the health after one.
inductive Task
  | waiting (key : Key)
  | settled (came : Bool)
  deriving DecidableEq, Repr

structure State where
  pro : ProApi
  general : GeneralFallbackState
  tasks : List Task
  vectors : List Row
  deriving DecidableEq, Repr

-- `store` is what recordEvent and reindexVectors do; `embed` any other synchronous call.
inductive Action
  | store (observationId text : String) (m : Moment)
  | embed (key : Key) (m : Moment)
  | prime (key : Key) (m : Moment)
  | settle (key : Key) (ok inner : Bool)
  | resume (task : Nat) (now : Int)

def upsertVector (rows : List Row) (row : Row) : List Row :=
  rows.filter (fun old => !(old.observationId = row.observationId && old.model = row.model)) ++ [row]

def settledBy (key : Key) (came : Bool) : Task → Task
  | .waiting other => if other = key then .settled came else .waiting other
  | task => task

section
variable (labels : AdaptiveLabels) (routeFor : String → AdaptiveRoute)

def generalRow (observationId : String) (general : General) (m : Moment) : Option Row :=
  general.vector.map fun vector => ⟨observationId, labels.generalNow (useFallbackGeneral general.state m.label), vector⟩

def japaneseRow (observationId text : String) : Row := ⟨observationId, labels.japanese, made .japanese (.passage, text)⟩

-- Nothing is stored if one of the models throws.
def store (s : State) (observationId text : String) (m : Moment) : State :=
  let general := runGeneralSync s.pro s.general (.passage, text) m
  match routeFor text with
  | .ruri => if m.japanese then {s with vectors := upsertVector s.vectors (japaneseRow labels observationId text)} else s
  | .openai =>
    {s with pro := general.pro, general := general.state,
            vectors := (generalRow labels observationId general m).elim s.vectors (upsertVector s.vectors)}
  | .ensemble =>
    if m.japanese then
      {s with pro := general.pro, general := general.state,
              vectors := (generalRow labels observationId general m).elim s.vectors
                (upsertVector (upsertVector s.vectors (japaneseRow labels observationId text)))}
    else s

def primeInternal (s : State) (key : Key) : State :=
  match cached s.pro.cache key with
  | some vector => {s with pro := {s.pro with cache := moved s.pro.cache key vector}, tasks := s.tasks ++ [.settled true]}
  | none =>
    if s.pro.inflight.contains key then {s with tasks := s.tasks ++ [.waiting key]}
    else {s with pro := {s.pro with inflight := s.pro.inflight ++ [key]}, tasks := s.tasks ++ [.waiting key]}

def step (s : State) : Action → State
  | .store observationId text m => store labels routeFor s observationId text m
  | .embed key m =>
    let general := runGeneralSync s.pro s.general key m
    {s with pro := general.pro, general := general.state}
  | .prime key m =>
    match preflight s.general s.pro.healthy m with
    | some entered => {s with general := entered}
    | none => primeInternal s key
  | .settle key ok inner =>
    if s.pro.inflight.contains key then
      let result := answered s.pro key ok inner
      {s with pro := {result.1 with inflight := result.1.inflight.erase key},
              tasks := s.tasks.map (settledBy key result.2.isSome)}
    else s
  | .resume task now =>
    match s.tasks[task]? with
    | some (.settled came) =>
      {s with general := if came && s.pro.healthy then exitGeneralFallback s.general else enterGeneralFallback s.general now,
              tasks := s.tasks.eraseIdx task}
    | _ => s

end

-- The Pro API starts healthy if its URL and key are not blank.
def started (configured : Bool) : State := ⟨⟨[], configured, []⟩, recovered, [], []⟩

/-! When a label names the provider that made the vector. -/

section
variable (labels : AdaptiveLabels)

def labelOf : Provider → String
  | .japanese => labels.japanese
  | .general => labels.general
  | .generalFallback => labels.generalFallback

def Right (row : Row) : Prop := row.model = labelOf labels row.vector.provider

structure Apart : Prop where
  japanese : labels.japanese ≠ labels.general
  fallback : labels.generalFallback ≠ labels.general
end

-- The Pro API's vector is stored if it made it itself and not from what a failed request left in its
-- cache; the fallback's, if the label is read before the retry is due.
def GeneralMeets (pro : ProApi) (state : GeneralFallbackState) (key : Key) (m : Moment) : Prop :=
  match preflight state pro.healthy m with
  | some entered => m.outer = true → m.label < entered.nextRetryAt
  | none =>
    let entered := enterGeneralFallback state m.enter
    let late := (m.outer = true → m.label < entered.nextRetryAt) ∧
      (m.outer = false → m.outerAgain = true → m.label < (enterGeneralFallback entered m.enterAgain).nextRetryAt)
    match cached pro.cache key with
    | some vector => if pro.healthy then vector.provider = .general else late
    | none => if m.request then True else if m.inner then late else m.outer = true → m.label < entered.nextRetryAt

def Meets (routeFor : String → AdaptiveRoute) (s : State) : Action → Prop
  | .store _ text m =>
    match routeFor text with
    | .ruri => True
    | .openai => GeneralMeets s.pro s.general (.passage, text) m
    | .ensemble => m.japanese = true → GeneralMeets s.pro s.general (.passage, text) m
  | _ => True

section
variable {labels : AdaptiveLabels} {routeFor : String → AdaptiveRoute}

theorem upsertRight {rows : List Row} (right : ∀ row ∈ rows, Right labels row) (row : Row) :
    (∀ old ∈ upsertVector rows row, Right labels old) ↔ Right labels row := by
  unfold upsertVector
  rw [List.forall_mem_append, List.forall_mem_singleton]
  exact and_iff_right fun old mem => right old (List.mem_filter.mp mem).1

theorem japaneseRight (observationId text : String) : Right labels (japaneseRow labels observationId text) := rfl

-- The label under which a fallback's vector is stored.
theorem fallbackRight (apart : Apart labels) {observationId : String} {key : Key} {state : GeneralFallbackState} {now : Int}
    (active : state.active = true) :
    Right labels ⟨observationId, labels.generalNow (useFallbackGeneral state now), made .generalFallback key⟩ ↔
      now < state.nextRetryAt := by
  have reads : useFallbackGeneral state now = decide (now < state.nextRetryAt) := by rw [useFallbackGeneral, active, Bool.true_and]
  rw [reads]
  by_cases early : now < state.nextRetryAt
  · rw [decide_eq_true early]
    exact iff_of_true rfl early
  · rw [decide_eq_false early]
    exact iff_of_false (fun same => apart.fallback same.symm) early

-- Once the Pro API has recovered, what it answers is labelled as its own.
theorem recoveredRight (apart : Apart labels) {observationId : String} {state : GeneralFallbackState} {now : Int} {vector : Vector} :
    Right labels ⟨observationId, labels.generalNow (useFallbackGeneral (exitGeneralFallback state) now), vector⟩ ↔
      vector.provider = .general := by
  have idle : useFallbackGeneral (exitGeneralFallback state) now = false := by
    unfold useFallbackGeneral exitGeneralFallback
    cases active : state.active <;> simp [active, recovered]
  rw [idle]
  change labels.general = labelOf labels vector.provider ↔ _
  cases vector.provider with
  | japanese => exact iff_of_false (fun same => apart.japanese same.symm) nofun
  | general => exact iff_of_true rfl rfl
  | generalFallback => exact iff_of_false (fun same => apart.fallback same.symm) nofun

theorem preflightActive {state entered : GeneralFallbackState} {healthy : Bool} {m : Moment}
    (asks : preflight state healthy m = some entered) : entered.active = true := by
  unfold preflight at asks
  split at asks
  · cases asks
    rfl
  · split at asks
    · rename_i uses
      cases asks
      rw [useFallbackGeneral, Bool.and_eq_true] at uses
      exact uses.1.1
    · cases asks

-- What is stored of a fallback that works or throws.
def RightFor (labels : AdaptiveLabels) (observationId : String) (general : General) (m : Moment) : Prop :=
  ∀ row, generalRow labels observationId general m = some row → Right labels row

theorem fallbackFor (apart : Apart labels) {observationId : String} {pro : ProApi} {state : GeneralFallbackState} {key : Key}
    {works : Bool} {m : Moment} (active : state.active = true) :
    RightFor labels observationId ⟨pro, state, fallbackVector key works⟩ m ↔ (works = true → m.label < state.nextRetryAt) := by
  cases works with
  | true =>
    simp only [RightFor, generalRow, fallbackVector, if_true, Option.map_some, Option.some.injEq, forall_eq', true_implies]
    exact fallbackRight apart active
  | false => exact iff_of_true (fun row is => by cases is) (fun works => by cases works)

theorem answerFor (apart : Apart labels) {observationId : String} {pro : ProApi} {state : GeneralFallbackState} {vector : Vector}
    {m : Moment} : RightFor labels observationId ⟨pro, exitGeneralFallback state, some vector⟩ m ↔ vector.provider = .general := by
  simp only [RightFor, generalRow, Option.map_some, Option.some.injEq, forall_eq']
  exact recoveredRight apart

variable (observationId : String) (pro : ProApi) (state : GeneralFallbackState) (key : Key) (m : Moment)

theorem lateFor (apart : Apart labels) {after : ProApi} :
    RightFor labels observationId
      (if m.outer then ⟨after, enterGeneralFallback state m.enter, fallbackVector key true⟩
        else ⟨after, enterGeneralFallback (enterGeneralFallback state m.enter) m.enterAgain, fallbackVector key m.outerAgain⟩) m ↔
      (m.outer = true → m.label < (enterGeneralFallback state m.enter).nextRetryAt) ∧
      (m.outer = false → m.outerAgain = true →
        m.label < (enterGeneralFallback (enterGeneralFallback state m.enter) m.enterAgain).nextRetryAt) := by
  cases m.outer with
  | true => simp [fallbackFor apart (show (enterGeneralFallback state m.enter).active = true from rfl)]
  | false =>
    simp [fallbackFor apart (show (enterGeneralFallback (enterGeneralFallback state m.enter) m.enterAgain).active = true from rfl)]

-- The row of the general route is right exactly if the conditions are met.
theorem generalFor (apart : Apart labels) :
    RightFor labels observationId (runGeneralSync pro state key m) m ↔ GeneralMeets pro state key m := by
  unfold runGeneralSync GeneralMeets
  cases asks : preflight state pro.healthy m with
  | some entered => exact fallbackFor apart (preflightActive asks)
  | none =>
    simp only
    cases held : cached pro.cache key with
    | some vector =>
      simp only [embedInternal, held, judged]
      cases pro.healthy with
      | true => exact answerFor apart
      | false => exact lateFor observationId state key m apart
    | none =>
      simp only [embedInternal, held, answered]
      cases m.request with
      | true => exact iff_of_true ((answerFor apart).mpr rfl) trivial
      | false =>
        cases m.inner with
        | true => exact lateFor observationId state key m apart
        | false => exact fallbackFor apart rfl

theorem generalStored {general : General} {rows others : List Row} (right : ∀ row ∈ rows, Right labels row)
    (also : ∀ row ∈ others, Right labels row) :
    (∀ old ∈ (generalRow labels observationId general m).elim rows (upsertVector others), Right labels old) ↔
      RightFor labels observationId general m := by
  unfold RightFor
  cases generalRow labels observationId general m with
  | none => exact iff_of_true right (fun row is => by cases is)
  | some row => simpa using upsertRight also row

theorem primeVectors (s : State) : (primeInternal s key).vectors = s.vectors := by
  unfold primeInternal
  split
  · rfl
  · split <;> rfl

theorem stepVectors (s : State) {action : Action} (other : ∀ observationId text m, action ≠ .store observationId text m) :
    (step labels routeFor s action).vectors = s.vectors := by
  cases action with
  | store observationId text m => exact absurd rfl (other observationId text m)
  | embed key m => rfl
  | prime key m =>
    simp only [step]
    split
    · rfl
    · exact primeVectors key s
  | settle key ok inner =>
    simp only [step]
    split <;> rfl
  | resume task now =>
    simp only [step]
    split <;> rfl

-- A step leaves every row right exactly if its conditions are met.
theorem stepRight (apart : Apart labels) {s : State} (action : Action) (right : ∀ row ∈ s.vectors, Right labels row) :
    (∀ row ∈ (step labels routeFor s action).vectors, Right labels row) ↔ Meets routeFor s action := by
  cases action with
  | store observationId text m =>
    have japanese : ∀ row ∈ upsertVector s.vectors (japaneseRow labels observationId text), Right labels row :=
      (upsertRight right _).mpr (japaneseRight observationId text)
    simp only [step, store, Meets]
    cases routeFor text with
    | ruri =>
      refine iff_of_true ?_ trivial
      cases m.japanese with
      | true => exact japanese
      | false => exact right
    | openai => exact (generalStored observationId m right right).trans (generalFor observationId s.pro s.general _ m apart)
    | ensemble =>
      cases m.japanese with
      | false => exact iff_of_true right (fun works => by cases works)
      | true =>
        simp only [if_true, true_implies]
        exact (generalStored observationId m right japanese).trans (generalFor observationId s.pro s.general _ m apart)
  | embed key m => exact iff_of_true right trivial
  | prime key m | settle key ok inner | resume task now =>
    rw [stepVectors s (fun _ _ _ same => (by cases same))]
    exact iff_of_true right trivial

end

/-! Where the vectors of another model in the Pro API's cache come from. -/

-- A step that asks the Pro API for a vector and is refused.
def Fails (routeFor : String → AdaptiveRoute) (action : Action) (key : Key) : Prop :=
  match action with
  | .store _ text m => routeFor text ≠ .ruri ∧ key = (.passage, text) ∧ m.request = false
  | .embed other m => key = other ∧ m.request = false
  | .settle other ok _ => key = other ∧ ok = false
  | _ => False

def Tainted (entry : Key × Vector) : Prop := entry.2.provider ≠ .general

theorem movedEntry {cache : List (Key × Vector)} {key : Key} {vector : Vector} {entry : Key × Vector}
    (mem : entry ∈ moved cache key vector) : entry ∈ cache ∨ entry = (key, vector) := by
  rcases List.mem_append.mp mem with old | new
  · exact .inl (List.mem_filter.mp old).1
  · exact .inr (List.mem_singleton.mp new)

theorem setEntry {cache : List (Key × Vector)} {key : Key} {vector : Vector} {entry : Key × Vector}
    (mem : entry ∈ setCachedEmbedding cache key vector) : entry ∈ cache ∨ entry = (key, vector) := by
  unfold setCachedEmbedding at mem
  exact movedEntry (List.mem_of_mem_drop mem)

theorem cachedEntry {cache : List (Key × Vector)} {key : Key} {vector : Vector} (held : cached cache key = some vector) :
    (key, vector) ∈ cache := by
  obtain ⟨entry, found, rfl⟩ := Option.map_eq_some_iff.mp held
  have named := List.find?_some found
  rw [decide_eq_true_eq] at named
  exact named ▸ List.mem_of_find?_eq_some found

theorem answeredTaint {pro : ProApi} {key : Key} {ok inner : Bool} {entry : Key × Vector}
    (mem : entry ∈ (answered pro key ok inner).1.cache) (taint : Tainted entry) :
    entry ∈ pro.cache ∨ entry.1 = key ∧ ok = false := by
  unfold answered at mem
  split at mem
  · simp only at mem
    rcases setEntry mem with old | rfl
    · exact .inl old
    · exact absurd rfl taint
  · rename_i refused
    split at mem
    · simp only at mem
      rcases setEntry mem with old | rfl
      · exact .inl old
      · exact .inr ⟨rfl, Bool.not_eq_true _ ▸ refused⟩
    · exact .inl mem

theorem embedTaint {pro : ProApi} {key : Key} {ok inner : Bool} {entry : Key × Vector}
    (mem : entry ∈ (embedInternal pro key ok inner).1.cache) (taint : Tainted entry) :
    entry ∈ pro.cache ∨ entry.1 = key ∧ ok = false := by
  unfold embedInternal at mem
  split at mem
  · rename_i vector held
    rcases movedEntry mem with old | rfl
    · exact .inl old
    · exact .inl (cachedEntry held)
  · exact answeredTaint mem taint

theorem generalTaint {pro : ProApi} {state : GeneralFallbackState} {key : Key} {m : Moment} {entry : Key × Vector}
    (mem : entry ∈ (runGeneralSync pro state key m).pro.cache) (taint : Tainted entry) :
    entry ∈ pro.cache ∨ entry.1 = key ∧ m.request = false := by
  unfold runGeneralSync at mem
  split at mem
  · exact .inl mem
  · have inside : entry ∈ (embedInternal pro key m.request m.inner).1.cache := by
      unfold judged at mem
      split at mem
      · split at mem
        · exact mem
        · split at mem <;> exact mem
      · exact mem
    exact embedTaint inside taint

theorem primeTaint {s : State} {key : Key} {entry : Key × Vector} (mem : entry ∈ (primeInternal s key).pro.cache) :
    entry ∈ s.pro.cache := by
  unfold primeInternal at mem
  split at mem
  · rename_i vector held
    rcases movedEntry mem with old | rfl
    · exact old
    · exact cachedEntry held
  · split at mem <;> exact mem

section
variable {labels : AdaptiveLabels} {routeFor : String → AdaptiveRoute}

theorem stepTaint {s : State} {action : Action} {entry : Key × Vector}
    (mem : entry ∈ (step labels routeFor s action).pro.cache) (taint : Tainted entry) :
    entry ∈ s.pro.cache ∨ Fails routeFor action entry.1 := by
  cases action with
  | store observationId text m =>
    simp only [step, store] at mem
    cases route : routeFor text with
    | ruri =>
      simp only [route] at mem
      split at mem <;> exact .inl mem
    | openai =>
      simp only [route] at mem
      exact (generalTaint mem taint).imp_right fun failed => ⟨by rw [route]; decide, failed.1, failed.2⟩
    | ensemble =>
      simp only [route] at mem
      split at mem
      · exact (generalTaint mem taint).imp_right fun failed => ⟨by rw [route]; decide, failed.1, failed.2⟩
      · exact .inl mem
  | embed key m => exact generalTaint mem taint
  | prime key m =>
    simp only [step] at mem
    split at mem
    · exact .inl mem
    · exact .inl (primeTaint mem)
  | settle key ok inner =>
    simp only [step] at mem
    split at mem
    · exact answeredTaint mem taint
    · exact .inl mem
  | resume task now =>
    simp only [step] at mem
    split at mem <;> exact .inl mem

-- What the Pro API's cache holds of another model comes from a request that was refused.
theorem taintFailed {configured : Bool} {actions : List Action} {entry : Key × Vector}
    (mem : entry ∈ (Runs.run (step labels routeFor) (started configured) actions).pro.cache) (taint : Tainted entry) :
    ∃ action ∈ actions, Fails routeFor action entry.1 := by
  induction actions using List.reverseRecOn with
  | nil => cases mem
  | append_singleton before action ih =>
    rw [Runs.runSnoc] at mem
    rcases stepTaint mem taint with earlier | here
    · obtain ⟨failed, inside, fails⟩ := ih earlier
      exact ⟨failed, List.mem_append_left _ inside, fails⟩
    · exact ⟨action, List.mem_append_right _ (List.mem_singleton_self action), here⟩
end

/-! The labels of the registry. -/

theorem freeName (options : EmbeddingRegistryOptions) (modelId : String) :
    (createLocalOrFallbackProvider options modelId).name ∈ ["local", "fallback"] := by
  unfold createLocalOrFallbackProvider
  split
  · exact List.mem_cons_self
  · exact List.mem_cons_of_mem _ List.mem_cons_self

-- Labels that differ in their first letters differ.
theorem frontsDiffer {a b restA restB : String} (n : Nat) (longA : n ≤ a.length) (longB : n ≤ b.length)
    (differ : a.toList.take n ≠ b.toList.take n) : a ++ restA ≠ b ++ restB := by
  intro same
  have frontA : (a ++ restA).toList.take n = a.toList.take n := takeFront longA
  have frontB : (b ++ restB).toList.take n = b.toList.take n := takeFront longB
  exact differ (by rw [← frontA, ← frontB, same])

theorem proLabels {options : EmbeddingRegistryOptions} (pro : hasProApi options = true) :
    ∃ labels, (adaptiveProvider options).labels = some labels ∧ Apart labels := by
  simp only [adaptiveProvider, pro, if_true, createAdaptiveEmbeddingProvider, Option.some.injEq, exists_eq_left', Option.getD_some]
  constructor
  · have differ : ∀ x y : String, "adaptive:" ++ "ruri" ++ x ≠ "adaptive:" ++ "general" ++ y := fun x y =>
      frontsDiffer 10 (by decide) (by decide) (by decide)
    have apart := differ (":" ++ (createLocalOrFallbackProvider options "ruri-v3-30m").name ++ ":" ++
      (createLocalOrFallbackProvider options "ruri-v3-30m").model)
    simp only [String.append_assoc] at apart ⊢
    exact apart _
  · have differ : ∀ name ∈ ["local", "fallback"], ∀ x y : String,
        "adaptive:" ++ "general" ++ ":" ++ name ++ x ≠ "adaptive:" ++ "general" ++ ":" ++ "pro-api" ++ y := by
      intro name mem x y
      rcases List.mem_cons.mp mem with rfl | mem
      · exact frontsDiffer 18 (by decide) (by decide) (by decide)
      · rw [List.mem_singleton.mp mem]
        exact frontsDiffer 18 (by decide) (by decide) (by decide)
    have apart := differ _ (freeName options "multilingual-e5")
    simp only [String.append_assoc] at apart ⊢
    exact apart _ _

/-! Runs. -/

-- In every run from the start all rows of mem_vectors are labelled by the provider that made them, in
-- every state reached, exactly if each step that stores meets its conditions.
theorem vectorsLabelled {options : EmbeddingRegistryOptions} (pro : hasProApi options = true) :
    ∃ labels, (adaptiveProvider options).labels = some labels ∧
      ∀ (routeFor : String → AdaptiveRoute) (configured : Bool) (actions : List Action),
        (∀ before, before <+: actions →
          ∀ row ∈ (Runs.run (step labels routeFor) (started configured) before).vectors, Right labels row) ↔
        Runs.Throughout (step labels routeFor) (Meets routeFor) (started configured) actions := by
  obtain ⟨labels, are, apart⟩ := proLabels pro
  refine ⟨labels, are, fun routeFor configured actions => ?_⟩
  let Inv (s : State) : Prop := ∀ row ∈ s.vectors, Right labels row
  have turn : ∀ s action, Inv s → (Inv (step labels routeFor s action) ↔ Meets routeFor s action) := fun s action right =>
    stepRight apart action right
  have init : Inv (started configured) := fun row mem => (by cases mem)
  exact Runs.everyPrefix (step labels routeFor) turn init actions

def proOptions : EmbeddingRegistryOptions :=
  ⟨some "adaptive", none, none, none, none, none, some "key", some "https://pro.test", fun _ => true⟩
def steady : Moment := ⟨true, true, true, true, true, 0, 0, 0, 0, 1⟩

theorem vectorsLabelledOne : ∃ labels, (adaptiveProvider proOptions).labels = some labels ∧
    ∀ before, before <+: [.store "o1" "deploy" steady, .store "o1" "deploy" steady] →
      ∀ row ∈ (Runs.run (step labels (fun _ => .openai)) (started true) before).vectors, Right labels row := by
  have pro : hasProApi proOptions = true := by decide
  obtain ⟨labels, are, exactly⟩ := vectorsLabelled pro
  refine ⟨labels, are, (exactly (fun _ => .openai) true _).mpr ⟨trivial, rfl, trivial⟩⟩

def proNames : AdaptiveLabels :=
  ⟨"adaptive:ruri:local:ruri-v3-30m", "adaptive:general:pro-api:text-embedding-3-large", "adaptive:general:local:multilingual-e5"⟩

-- A request fails, another one succeeds after the backoff, and the first text is stored again; and a
-- label that is read when the backoff has passed.
theorem fallbackMislabelled : (adaptiveProvider proOptions).labels = some proNames ∧
    (Runs.run (step proNames (fun _ => .openai)) (started true) [.store "o1" "deploy" {steady with request := false},
      .embed (.query, "other") {steady with use := 20000, probe := 20000}, .store "o1" "deploy" steady]).vectors =
      [⟨"o1", proNames.generalFallback, made .generalFallback (.passage, "deploy")⟩,
        ⟨"o1", proNames.general, made .generalFallback (.passage, "deploy")⟩] ∧
    (Runs.run (step proNames (fun _ => .openai)) (started true)
      [.store "o1" "deploy" {steady with request := false, label := 10000}]).vectors =
      [⟨"o1", proNames.general, made .generalFallback (.passage, "deploy")⟩] ∧
    ¬ Right proNames ⟨"o1", proNames.general, made .generalFallback (.passage, "deploy")⟩ := by
  refine ⟨by decide, by decide, by decide, fun right => ?_⟩
  exact absurd (show proNames.general = proNames.generalFallback from right) (by decide)

end HarnessMem.AdaptiveProvider
