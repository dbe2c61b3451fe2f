import Mathlib.Logic.Relation

/-! Deterministic machines driven by a list of inputs, and the rule that carries a
one-step invariant over every run. Nothing here knows what the machine stores. -/
namespace HarnessMem.Runs

section
variable {State Input : Type*} (step : State → Input → State)

def run (start : State) (inputs : List Input) : State := inputs.foldl step start

@[simp] theorem runNil (start : State) : run step start [] = start := rfl
@[simp] theorem runCons (start : State) (input : Input) (rest : List Input) :
    run step start (input :: rest) = run step (step start input) rest := rfl
theorem runAppend (start : State) (before after : List Input) :
    run step start (before ++ after) = run step (run step start before) after := by
  simp [run, List.foldl_append]
theorem runSnoc (start : State) (before : List Input) (input : Input) :
    run step start (before ++ [input]) = step (run step start before) input := by
  simp [runAppend]

theorem invariant {Inv : State → Prop} (keep : ∀ s i, Inv s → Inv (step s i))
    {start : State} (init : Inv start) (inputs : List Input) : Inv (run step start inputs) := by
  induction inputs generalizing start with
  | nil => exact init
  | cons input rest ih => exact ih (keep start input init)

-- The inputs themselves may be restricted: every one of them meets `Ok`.
theorem invariantOn {Inv : State → Prop} {Ok : Input → Prop}
    (keep : ∀ s i, Ok i → Inv s → Inv (step s i)) {start : State} (init : Inv start)
    (inputs : List Input) (ok : ∀ i ∈ inputs, Ok i) : Inv (run step start inputs) := by
  induction inputs generalizing start with
  | nil => exact init
  | cons input rest ih =>
    exact ih (keep start input (ok input List.mem_cons_self) init)
      (fun i mem => ok i (List.mem_cons_of_mem _ mem))

-- A relation that one step never breaks relates the start of a run to its end.
theorem monotone {Rel : State → State → Prop} (refl : ∀ s, Rel s s)
    (trans : ∀ {a b c}, Rel a b → Rel b c → Rel a c) (keep : ∀ s i, Rel s (step s i))
    (start : State) (inputs : List Input) : Rel start (run step start inputs) := by
  induction inputs generalizing start with
  | nil => exact refl start
  | cons input rest ih => exact trans (keep start input) (ih (step start input))

-- A property of every step of a run, in the state it is taken from.
def Throughout (P : State → Input → Prop) : State → List Input → Prop
  | _, [] => True
  | s, input :: rest => P s input ∧ Throughout P (step s input) rest

theorem throughoutIff {A P Q : State → Input → Prop} (same : ∀ s i, A s i → (P s i ↔ Q s i)) {start : State}
    {inputs : List Input} (all : Throughout step A start inputs) :
    Throughout step P start inputs ↔ Throughout step Q start inputs := by
  induction inputs generalizing start with
  | nil => exact Iff.rfl
  | cons input rest ih => exact and_congr (same start input all.1) (ih all.2)

-- Where one property of the steps keeps an invariant, whatever the two give holds throughout.
theorem throughoutOn {Inv : State → Prop} {Ok : Input → Prop} {P Q : State → Input → Prop}
    (keep : ∀ s i, Ok i → Inv s → Inv (step s i)) (turn : ∀ s i, Inv s → P s i → Q s i) {start : State}
    (init : Inv start) {inputs : List Input} (ok : ∀ i ∈ inputs, Ok i) (all : Throughout step P start inputs) :
    Throughout step Q start inputs := by
  induction inputs generalizing start with
  | nil => trivial
  | cons input rest ih =>
    exact ⟨turn start input init all.1, ih (keep start input (ok input List.mem_cons_self) init)
      (fun i mem => ok i (List.mem_cons_of_mem _ mem)) all.2⟩

theorem throughoutImp {P Q : State → Input → Prop} {start : State} {inputs : List Input} (turn : ∀ s, ∀ i ∈ inputs, P s i → Q s i)
    (all : Throughout step P start inputs) : Throughout step Q start inputs := by
  induction inputs generalizing start with
  | nil => trivial
  | cons input rest ih =>
    exact ⟨turn start input List.mem_cons_self all.1, ih (fun s i mem => turn s i (List.mem_cons_of_mem _ mem)) all.2⟩

theorem throughoutAppend {P : State → Input → Prop} {start : State} {before after : List Input} :
    Throughout step P start (before ++ after) ↔ Throughout step P start before ∧ Throughout step P (run step start before) after := by
  induction before generalizing start with
  | nil => simp [Throughout]
  | cons input rest ih => rw [List.cons_append, Throughout, Throughout, runCons, ih, and_assoc]

theorem throughoutSnoc {P : State → Input → Prop} {start : State} {before : List Input} {input : Input} :
    Throughout step P start (before ++ [input]) ↔ Throughout step P start before ∧ P (run step start before) input := by
  rw [throughoutAppend]
  simp [Throughout]

theorem throughoutTake {P : State → Input → Prop} {start : State} {inputs : List Input} (n : Nat)
    (all : Throughout step P start inputs) : Throughout step P start (inputs.take n) :=
  ((throughoutAppend step).mp (by rwa [List.take_append_drop])).1

theorem throughoutOf {P : State → Input → Prop} (all : ∀ s i, P s i) (start : State) (inputs : List Input) : Throughout step P start inputs := by
  induction inputs generalizing start with
  | nil => trivial
  | cons input rest ih => exact ⟨all start input, ih (step start input)⟩

theorem throughoutAnd {P Q : State → Input → Prop} {start : State} {inputs : List Input} :
    Throughout step (fun s i => P s i ∧ Q s i) start inputs ↔ Throughout step P start inputs ∧ Throughout step Q start inputs := by
  induction inputs generalizing start with
  | nil => exact (and_iff_left trivial).symm
  | cons input rest ih => simp only [Throughout, ih, and_and_and_comm]

-- A property of states that each step on sound ground keeps or regains on one condition exactly.
theorem exactRun {Ground Inv : State → Prop} {Sound P : State → Input → Prop}
    (keep : ∀ s i, Ground s → Sound s i → Ground (step s i))
    (turn : ∀ s i, Ground s → Sound s i → (Inv (step s i) ↔ Inv s ∧ P s i)) {start : State} {inputs : List Input}
    (ground : Ground start) (sound : Throughout step Sound start inputs) :
    Ground (run step start inputs) ∧ (Inv (run step start inputs) ↔ Inv start ∧ Throughout step P start inputs) := by
  induction inputs generalizing start with
  | nil => exact ⟨ground, (and_iff_left trivial).symm⟩
  | cons input rest ih =>
    obtain ⟨grounds, exactly⟩ := ih (keep start input ground sound.1) sound.2
    refine ⟨grounds, ?_⟩
    rw [runCons, exactly, turn start input ground sound.1, and_assoc]
    rfl

-- A property of states that each step keeps on one condition exactly.
theorem everyPrefix {Inv : State → Prop} {P : State → Input → Prop} (turn : ∀ s i, Inv s → (Inv (step s i) ↔ P s i))
    {start : State} (init : Inv start) (inputs : List Input) :
    (∀ before, before <+: inputs → Inv (run step start before)) ↔ Throughout step P start inputs := by
  induction inputs generalizing start with
  | nil =>
    refine iff_of_true (fun before short => ?_) trivial
    rwa [List.prefix_nil.mp short]
  | cons input rest ih =>
    constructor
    · intro all
      have next : Inv (step start input) := all [input] ⟨rest, rfl⟩
      exact ⟨(turn start input init).mp next, (ih next).mp (fun before short => all (input :: before) (List.cons_prefix_cons.mpr ⟨rfl, short⟩))⟩
    · rintro ⟨here, later⟩ before short
      cases before with
      | nil => exact init
      | cons first before =>
        obtain ⟨rfl, shorter⟩ := List.cons_prefix_cons.mp short
        exact (ih ((turn start first init).mpr here)).mpr later before shorter

-- What each step leaves behind it, said of the runs that end with that step.
theorem everyStep {P : State → Input → Prop} {start : State} {inputs : List Input} :
    (∀ before input, before ++ [input] <+: inputs → P (run step start before) input) ↔ Throughout step P start inputs := by
  induction inputs generalizing start with
  | nil => exact iff_of_true (fun before input short => absurd (List.prefix_nil.mp short) (by simp)) trivial
  | cons first rest ih =>
    rw [Throughout, ← ih]
    constructor
    · exact fun all => ⟨all [] first ⟨rest, rfl⟩, fun before input short => all (first :: before) input (List.cons_prefix_cons.mpr ⟨rfl, short⟩)⟩
    · rintro ⟨here, later⟩ before input short
      cases before with
      | nil =>
        obtain ⟨rfl, -⟩ := List.cons_prefix_cons.mp short
        exact here
      | cons other before =>
        obtain ⟨rfl, shorter⟩ := List.cons_prefix_cons.mp short
        exact later before input shorter

-- What the steps of a run put out, in order.
def log {Out : Type*} (out : State → Input → List Out) : State → List Input → List Out
  | _, [] => []
  | s, input :: rest => out s input ++ log out (step s input) rest

theorem logAppend {Out : Type*} (out : State → Input → List Out) (start : State) (before after : List Input) :
    log step out start (before ++ after) = log step out start before ++ log step out (run step start before) after := by
  induction before generalizing start with
  | nil => rfl
  | cons input rest ih => rw [List.cons_append, log, log, ih, runCons, List.append_assoc]

theorem logForall {Out : Type*} (out : State → Input → List Out) {P : Out → Prop} {start : State} {inputs : List Input} :
    (∀ x ∈ log step out start inputs, P x) ↔ Throughout step (fun s i => ∀ x ∈ out s i, P x) start inputs := by
  induction inputs generalizing start with
  | nil => exact iff_of_true (fun x mem => by cases mem) trivial
  | cons input rest ih => simp only [log, Throughout, List.forall_mem_append, ih]

-- A property that one kind of input brings about and another breaks.
theorem lastSet {P : State → Prop} {Sets Breaks : State → Input → Prop}
    (turn : ∀ s i, P (step s i) ↔ Sets s i ∨ P s ∧ ¬ Breaks s i) (start : State) (inputs : List Input) :
    P (run step start inputs) ↔ P start ∧ Throughout step (fun s i => ¬ Breaks s i) start inputs ∨
      ∃ before i after, inputs = before ++ i :: after ∧ Sets (run step start before) i ∧
        Throughout step (fun s i => ¬ Breaks s i) (run step start (before ++ [i])) after := by
  induction inputs generalizing start with
  | nil => simp [Throughout]
  | cons input rest ih =>
    rw [runCons, ih, turn]
    constructor
    · rintro (⟨set | ⟨held, kept⟩, unbroken⟩ | ⟨before, i, after, rfl, set, unbroken⟩)
      · exact .inr ⟨[], input, rest, rfl, set, unbroken⟩
      · exact .inl ⟨held, kept, unbroken⟩
      · exact .inr ⟨input :: before, i, after, rfl, set, unbroken⟩
    · rintro (⟨held, kept, unbroken⟩ | ⟨before, i, after, eq, set, unbroken⟩)
      · exact .inl ⟨.inr ⟨held, kept⟩, unbroken⟩
      · cases before with
        | nil =>
          obtain ⟨rfl, rfl⟩ := List.cons.inj eq
          exact .inl ⟨.inl set, unbroken⟩
        | cons first before =>
          obtain ⟨rfl, rfl⟩ := List.cons.inj eq
          exact .inr ⟨before, i, after, rfl, set, unbroken⟩
end

end HarnessMem.Runs
