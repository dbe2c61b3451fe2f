import Mathlib.Data.List.Basic

/-! Streams of terminated lines: cutting one into its complete lines and the unfinished rest,
and folding a line handler over a stream that arrives in pieces. -/
namespace HarnessMem.LineStream

section
variable {α : Type*} [DecidableEq α] (sep : α)

-- The complete lines, without their terminators, and what follows the last one.
def cut : List α → List (List α) × List α
  | [] => ([], [])
  | c :: rest =>
    let later := cut rest
    if c = sep then ([] :: later.1, later.2)
    else match later.1 with
      | [] => ([], c :: later.2)
      | line :: lines => ((c :: line) :: lines, later.2)

def lines (text : List α) : List (List α) := (cut sep text).1
def rest (text : List α) : List α := (cut sep text).2
def glue (parts : List (List α)) : List α := parts.flatMap (fun line => line ++ [sep])
def consumed (text : List α) : Nat := (glue sep (lines sep text)).length

@[simp] theorem glueNil : glue sep [] = [] := rfl
@[simp] theorem glueCons (line : List α) (parts : List (List α)) :
    glue sep (line :: parts) = line ++ sep :: glue sep parts := by
  simp [glue]
theorem glueAppend (a b : List (List α)) : glue sep (a ++ b) = glue sep a ++ glue sep b := List.flatMap_append

theorem glueCut (text : List α) : glue sep (lines sep text) ++ rest sep text = text := by
  unfold lines rest
  induction text with
  | nil => rfl
  | cons c text ih =>
    unfold cut
    simp only
    split
    · rename_i here
      simp only [glueCons, List.nil_append, List.cons_append, ih, here]
    · cases found : (cut sep text).1 with
      | nil =>
        rw [found] at ih
        exact congrArg (c :: ·) ih
      | cons line more =>
        rw [found] at ih
        simp only [glueCons, List.cons_append, List.append_assoc] at ih ⊢
        rw [ih]

theorem cutFree {text : List α} (free : sep ∉ text) : cut sep text = ([], text) := by
  induction text with
  | nil => rfl
  | cons c text ih =>
    rw [List.mem_cons, not_or] at free
    rw [cut, ih free.2]
    exact if_neg (Ne.symm free.1)

theorem cutLine {line : List α} (free : sep ∉ line) (text : List α) :
    cut sep (line ++ sep :: text) = (line :: (cut sep text).1, (cut sep text).2) := by
  induction line with
  | nil => simp [cut]
  | cons c line ih =>
    rw [List.mem_cons, not_or] at free
    rw [List.cons_append, cut, ih free.2]
    exact if_neg (Ne.symm free.1)

theorem fieldEnds {a b after other : List α} (free : sep ∉ a) (free' : sep ∉ b) (same : a ++ sep :: after = b ++ sep :: other) :
    a = b ∧ after = other := by
  have parts := congrArg Prod.fst (congrArg (cut sep) same)
  rw [cutLine sep free, cutLine sep free'] at parts
  obtain rfl := (List.cons.inj parts).1
  exact ⟨rfl, (List.cons.inj (List.append_cancel_left same)).2⟩

theorem linesBefore {a : List α} (free : sep ∉ a) (b : List α) : lines sep (a ++ b) =
    match lines sep b with
    | [] => []
    | line :: others => (a ++ line) :: others := by
  unfold lines
  induction a with
  | nil =>
    rw [List.nil_append]
    cases (cut sep b).1 with
    | nil => rfl
    | cons line others => rfl
  | cons c a ih =>
    rw [List.mem_cons, not_or] at free
    have later := ih free.2
    rw [List.cons_append, cut, if_neg (Ne.symm free.1), later]
    cases (cut sep b).1 with
    | nil => rfl
    | cons line others => rfl

theorem cutGlue {parts : List (List α)} (free : ∀ line ∈ parts, sep ∉ line) (text : List α) :
    cut sep (glue sep parts ++ text) = (parts ++ (cut sep text).1, (cut sep text).2) := by
  induction parts with
  | nil => rfl
  | cons line parts ih =>
    rw [glueCons, List.append_assoc, List.cons_append, cutLine sep (free line List.mem_cons_self),
      ih (fun other mem => free other (List.mem_cons_of_mem _ mem))]
    rfl

theorem linesFree (text : List α) : (∀ line ∈ lines sep text, sep ∉ line) ∧ sep ∉ rest sep text := by
  unfold lines rest
  induction text with
  | nil => exact ⟨fun _ mem => absurd mem List.not_mem_nil, List.not_mem_nil⟩
  | cons c text ih =>
    unfold cut
    simp only
    split
    · refine ⟨fun line mem => ?_, ih.2⟩
      rcases List.mem_cons.mp mem with rfl | later
      · exact List.not_mem_nil
      · exact ih.1 line later
    · rename_i other
      cases found : (cut sep text).1 with
      | nil => exact ⟨fun _ mem => absurd mem List.not_mem_nil, by simp [Ne.symm other, ih.2]⟩
      | cons line more =>
        rw [found] at ih
        refine ⟨fun _ mem => ?_, ih.2⟩
        rcases List.mem_cons.mp mem with rfl | later
        · simp [Ne.symm other, ih.1 line List.mem_cons_self]
        · exact ih.1 _ (List.mem_cons_of_mem _ later)

-- A cut anywhere: the lines complete before it, then those of what was left with the rest.
theorem linesAppend (a b : List α) : lines sep (a ++ b) = lines sep a ++ lines sep (rest sep a ++ b) ∧
    rest sep (a ++ b) = rest sep (rest sep a ++ b) := by
  have cutHere := cutGlue sep (linesFree sep a).1 (rest sep a ++ b)
  rw [← List.append_assoc, glueCut] at cutHere
  exact ⟨congrArg Prod.fst cutHere, (congrArg Prod.snd cutHere : (cut sep (a ++ b)).2 = _)⟩

theorem dropConsumed (text : List α) : text.drop (consumed sep text) = rest sep text := by
  have whole := glueCut sep text
  calc text.drop (consumed sep text)
      = (glue sep (lines sep text) ++ rest sep text).drop (glue sep (lines sep text)).length := by rw [whole]; rfl
    _ = rest sep text := List.drop_left

-- The length of the stream up to and including its last separator.
def upToLast (text : List α) : Nat := (text.reverse.dropWhile (fun c => c ≠ sep)).length

theorem glueLast (parts : List (List α)) (line : List α) : glue sep (parts ++ [line]) = glue sep parts ++ line ++ [sep] := by
  rw [glueAppend]
  simp

theorem consumedUpToLast (text : List α) : consumed sep text = upToLast sep text := by
  have whole := glueCut sep text
  have free := (linesFree sep text).2
  unfold upToLast consumed
  generalize lines sep text = parts at whole
  have skip : ∀ c ∈ (rest sep text).reverse, decide (c ≠ sep) = true :=
    fun c mem => decide_eq_true (fun same => by rw [same] at mem; exact free (List.mem_reverse.mp mem))
  rw [← whole, List.reverse_append, List.dropWhile_append_of_pos skip]
  rcases List.eq_nil_or_concat parts with rfl | ⟨before, line, rfl⟩
  · rfl
  · rw [List.concat_eq_append, glueLast, List.reverse_append, List.reverse_singleton, List.singleton_append,
      List.dropWhile_cons_of_neg (by simp)]
    simp only [List.length_append, List.length_cons, List.length_nil, List.length_reverse]

-- A separator is ahead exactly before the end of the last one.
theorem aheadLast {start : Nat} (text : List α) : (∃ i, start ≤ i ∧ text[i]? = some sep) ↔ start < upToLast sep text := by
  have whole := glueCut sep text
  have free := (linesFree sep text).2
  rw [← consumedUpToLast]
  unfold consumed
  constructor
  · rintro ⟨i, low, here⟩
    by_contra beyond
    rw [← whole, List.getElem?_append_right (by omega)] at here
    exact free (List.mem_of_getElem? here)
  · intro less
    rcases List.eq_nil_or_concat (lines sep text) with none | ⟨before, line, parts⟩
    · rw [none] at less
      cases less
    · rw [List.concat_eq_append] at parts
      rw [parts, glueLast, List.length_append, List.length_singleton] at less
      refine ⟨(glue sep before ++ line).length, by omega, ?_⟩
      rw [← whole, parts, glueLast, List.append_assoc, List.getElem?_append_right (Nat.le_refl _), Nat.sub_self]
      rfl

theorem upToLastPositive (text : List α) : 0 < upToLast sep text ↔ sep ∈ text := by
  rw [← aheadLast, List.mem_iff_getElem?]
  simp

theorem upToLastWithin (text : List α) : upToLast sep text ≤ text.length := by
  rw [← consumedUpToLast, consumed]
  have whole := congrArg List.length (glueCut sep text)
  rw [List.length_append] at whole
  omega

end

section
variable {α Ctx Event Error : Type*}

-- The handler sees the context so far, the offset of the line, and the line.
def fold (line : Ctx → Nat → List α → Except Error (Ctx × List Event)) :
    Ctx → Nat → List (List α) → Except Error (Ctx × List Event)
  | ctx, _, [] => .ok (ctx, [])
  | ctx, base, first :: others => do
    let here ← line ctx base first
    let later ← fold line here.1 (base + first.length + 1) others
    return (later.1, here.2 ++ later.2)

-- Two computations in a row, their events one after the other.
def chain (first : Except Error (Ctx × List Event)) (next : Ctx → Except Error (Ctx × List Event)) :
    Except Error (Ctx × List Event) := do
  let here ← first
  let later ← next here.1
  return (later.1, here.2 ++ later.2)

theorem chainStart (ctx : Ctx) (next : Ctx → Except Error (Ctx × List Event)) : chain (.ok (ctx, [])) next = next ctx := by
  unfold chain
  simp only [bind, Except.bind, pure, Except.pure, List.nil_append]
  cases next ctx with
  | error thrown => rfl
  | ok value => rfl

theorem chainAssoc (first : Except Error (Ctx × List Event)) (second third : Ctx → Except Error (Ctx × List Event)) :
    chain (chain first second) third = chain first (fun ctx => chain (second ctx) third) := by
  cases first with
  | error thrown => rfl
  | ok one =>
    unfold chain
    simp only [bind, Except.bind, pure, Except.pure]
    cases second one.1 with
    | error thrown => rfl
    | ok two =>
      simp only
      cases third two.1 with
      | error thrown => rfl
      | ok three => exact congrArg Except.ok (Prod.ext rfl (List.append_assoc _ _ _))

theorem foldCons (line : Ctx → Nat → List α → Except Error (Ctx × List Event)) (ctx : Ctx) (base : Nat)
    (first : List α) (others : List (List α)) : fold line ctx base (first :: others) =
      chain (line ctx base first) (fun next => fold line next (base + first.length + 1) others) := rfl

-- A handler that stops at certain lines, whatever the context.
theorem foldOkIff {line : Ctx → Nat → List α → Except Error (Ctx × List Event)} {Bad : List α → Prop}
    (each : ∀ ctx offset text, (∃ done, line ctx offset text = .ok done) ↔ ¬ Bad text) (ctx : Ctx) (base : Nat) (parts : List (List α)) :
    (∃ done, fold line ctx base parts = .ok done) ↔ ∀ text ∈ parts, ¬ Bad text := by
  induction parts generalizing ctx base with
  | nil => exact iff_of_true ⟨_, rfl⟩ (by simp)
  | cons first others ih =>
    rw [List.forall_mem_cons, ← each ctx base first, foldCons]
    cases line ctx base first with
    | error thrown => simp [chain, bind, Except.bind]
    | ok here =>
      rw [← ih here.1 (base + first.length + 1)]
      cases later : fold line here.1 (base + first.length + 1) others with
      | error thrown => simp [chain, bind, Except.bind, later]
      | ok rest => simp [chain, bind, Except.bind, pure, Except.pure, later]

-- What each line yields by itself, without those that stop the handler.
def ownEvents (line : Nat → List α → Except Error (Unit × List Event)) : Nat → List (List α) → List Event
  | _, [] => []
  | base, first :: others => (line base first).toOption.elim [] Prod.snd ++ ownEvents line (base + first.length + 1) others

theorem foldOwn {line : Unit → Nat → List α → Except Error (Unit × List Event)} {base : Nat} {parts : List (List α)}
    {done : Unit × List Event} (ok : fold line () base parts = .ok done) : done.2 = ownEvents (line ()) base parts := by
  induction parts generalizing base done with
  | nil =>
    cases ok
    rfl
  | cons first others ih =>
    rw [foldCons] at ok
    cases here : line () base first with
    | error thrown => rw [here] at ok; cases ok
    | ok one =>
      cases later : fold line () (base + first.length + 1) others with
      | error thrown =>
        simp only [here, chain, bind, Except.bind, later] at ok
        cases ok
      | ok two =>
        simp only [here, chain, bind, Except.bind, later] at ok
        cases ok
        rw [ownEvents, here, ← ih later]
        rfl

theorem ownForall {line : Nat → List α → Except Error (Unit × List Event)} {P : Event → Prop}
    (each : ∀ offset text done, line offset text = .ok done → ∀ event ∈ done.2, P event) (base : Nat) (parts : List (List α)) :
    ∀ event ∈ ownEvents line base parts, P event := by
  induction parts generalizing base with
  | nil => simp [ownEvents]
  | cons first others ih =>
    rw [ownEvents, List.forall_mem_append]
    refine ⟨?_, ih _⟩
    cases here : line base first with
    | error thrown => simp [Except.toOption]
    | ok done => exact each _ _ _ here

theorem foldKeeps {line : Ctx → Nat → List α → Except Error (Ctx × List Event)} {Inv : Ctx → Prop}
    (keep : ∀ {ctx offset text next events}, Inv ctx → line ctx offset text = .ok (next, events) → Inv next)
    {ctx next : Ctx} {base : Nat} {parts : List (List α)} {events : List Event} (init : Inv ctx)
    (ok : fold line ctx base parts = .ok (next, events)) : Inv next := by
  induction parts generalizing ctx base events with
  | nil =>
    cases ok
    exact init
  | cons first others ih =>
    cases here : line ctx base first with
    | error thrown => rw [foldCons, here] at ok; cases ok
    | ok one =>
      cases later : fold line one.1 (base + first.length + 1) others with
      | error thrown =>
        simp only [foldCons, here, chain, bind, Except.bind, later] at ok
        cases ok
      | ok two =>
        simp only [foldCons, here, chain, bind, Except.bind, later] at ok
        cases ok
        exact ih (keep init here) later

-- The line that ends at `fin` is reached and yields the event.
inductive Yields (line : Ctx → Nat → List α → Except Error (Ctx × List Event)) :
    Nat → Ctx → List (List α) → Nat → Event → Prop where
  | here {base ctx first others next events event} (ok : line ctx base first = .ok (next, events))
      (mem : event ∈ events) : Yields line base ctx (first :: others) (base + first.length + 1) event
  | later {base ctx first others next events fin event} (ok : line ctx base first = .ok (next, events))
      (after : Yields line (base + first.length + 1) next others fin event) :
      Yields line base ctx (first :: others) fin event

theorem yieldsAppend {line : Ctx → Nat → List α → Except Error (Ctx × List Event)} {base fin : Nat} {ctx : Ctx}
    {parts : List (List α)} {event : Event} (yields : Yields line base ctx parts fin event) (more : List (List α)) :
    Yields line base ctx (parts ++ more) fin event := by
  induction yields with
  | here ok mem => exact .here ok mem
  | later ok _ ih => exact .later ok ih

theorem foldYields {line : Ctx → Nat → List α → Except Error (Ctx × List Event)} {base : Nat} {ctx next : Ctx}
    {parts : List (List α)} {events : List Event} {event : Event} (ok : fold line ctx base parts = .ok (next, events)) :
    event ∈ events ↔ ∃ fin, Yields line base ctx parts fin event := by
  induction parts generalizing base ctx events with
  | nil =>
    cases ok
    exact ⟨fun mem => absurd mem List.not_mem_nil, fun ⟨_, yields⟩ => by cases yields⟩
  | cons first others ih =>
    cases here : line ctx base first with
    | error thrown => rw [foldCons, here] at ok; cases ok
    | ok one =>
      cases later : fold line one.1 (base + first.length + 1) others with
      | error thrown =>
        simp only [foldCons, here, chain, bind, Except.bind, later] at ok
        cases ok
      | ok two =>
        simp only [foldCons, here, chain, bind, Except.bind, later] at ok
        cases ok
        rw [List.mem_append, ih later]
        constructor
        · rintro (mem | ⟨fin, yields⟩)
          · exact ⟨_, .here here mem⟩
          · exact ⟨fin, .later here yields⟩
        · rintro ⟨fin, yields⟩
          cases yields with
          | here ok mem =>
            cases here.symm.trans ok
            exact .inl mem
          | later ok yields =>
            cases here.symm.trans ok
            exact .inr ⟨fin, yields⟩

structure Scan (Ctx Event : Type*) where
  events : List Event
  consumed : Nat
  context : Ctx

def Scan.map {Event' : Type*} (f : Event → Event') (result : Scan Ctx Event) : Scan Ctx Event' :=
  ⟨result.events.map f, result.consumed, result.context⟩

-- Each read hands its parser what the reads before left over, and its own piece.
def reads : Nat → Ctx → List α → List ((Nat → Ctx → List α → Except Error (Scan Ctx Event)) × List α) →
    Except Error (Scan Ctx Event)
  | _, ctx, _, [] => .ok ⟨[], 0, ctx⟩
  | base, ctx, left, (parse, piece) :: pieces => do
    let first ← parse base ctx (left ++ piece)
    let later ← reads (base + first.consumed) first.context ((left ++ piece).drop first.consumed) pieces
    return ⟨first.events ++ later.events, first.consumed + later.consumed, later.context⟩

-- The same handler with its events seen through `f`.
def through {Event' : Type*} (f : Event → Event') (done : Except Error (Ctx × List Event)) :
    Except Error (Ctx × List Event') := done.map (fun result => (result.1, result.2.map f))

theorem throughChain {Event' : Type*} (f : Event → Event') (first : Except Error (Ctx × List Event))
    (next : Ctx → Except Error (Ctx × List Event)) :
    through f (chain first next) = chain (through f first) (fun ctx => through f (next ctx)) := by
  cases first with
  | error thrown => rfl
  | ok one =>
    unfold chain through
    simp only [bind, Except.bind, Except.map]
    cases next one.1 with
    | error thrown => rfl
    | ok two => exact congrArg Except.ok (Prod.ext rfl List.map_append)

theorem foldThrough {Event' : Type*} (f : Event → Event') (line : Ctx → Nat → List α → Except Error (Ctx × List Event))
    (ctx : Ctx) (base : Nat) (parts : List (List α)) : through f (fold line ctx base parts) =
      fold (fun ctx offset text => through f (line ctx offset text)) ctx base parts := by
  induction parts generalizing ctx base with
  | nil => rfl
  | cons first others ih =>
    rw [foldCons, foldCons, throughChain]
    congr 1
    funext next
    exact ih next _

theorem readsThrough {Event' : Type*} (f : Event → Event') (base : Nat) (ctx : Ctx) (left : List α)
    (pieces : List ((Nat → Ctx → List α → Except Error (Scan Ctx Event)) × List α)) :
    (reads base ctx left pieces).map (Scan.map f) = reads base ctx left
      (pieces.map (fun read => (fun base ctx text => (read.1 base ctx text).map (Scan.map f), read.2))) := by
  induction pieces generalizing base ctx left with
  | nil => rfl
  | cons read pieces ih =>
    rw [List.map_cons, reads, reads]
    cases read.1 base ctx (left ++ read.2) with
    | error thrown => rfl
    | ok first =>
      simp only [bind, Except.bind, Except.map, Scan.map] at ih ⊢
      rw [← ih]
      cases reads (base + first.consumed) first.context ((left ++ read.2).drop first.consumed) pieces with
      | error thrown => rfl
      | ok later =>
        simp only [pure, Except.pure]
        rw [List.map_append]

variable [DecidableEq α] (sep : α)

theorem foldAppend (line : Ctx → Nat → List α → Except Error (Ctx × List Event)) (ctx : Ctx) (base : Nat)
    (a b : List (List α)) : fold line ctx base (a ++ b) =
      chain (fold line ctx base a) (fun next => fold line next (base + (glue sep a).length) b) := by
  induction a generalizing ctx base with
  | nil =>
    rw [List.nil_append, fold, glueNil, List.length_nil, Nat.add_zero, chainStart]
  | cons first others ih =>
    rw [List.cons_append, foldCons, foldCons, chainAssoc]
    congr 1
    funext next
    rw [ih next, glueCons, List.length_append, List.length_cons]
    congr 1
    funext last
    rw [show base + first.length + 1 + (glue sep others).length =
      base + (first.length + ((glue sep others).length + 1)) by omega]

theorem yieldsBound {line : Ctx → Nat → List α → Except Error (Ctx × List Event)} {base fin : Nat} {ctx : Ctx}
    {parts : List (List α)} {event : Event} (yields : Yields line base ctx parts fin event) :
    base < fin ∧ fin ≤ base + (glue sep parts).length := by
  induction yields with
  | here ok mem =>
    rw [glueCons, List.length_append, List.length_cons]
    omega
  | later ok _ ih =>
    rw [glueCons, List.length_append, List.length_cons]
    omega

theorem yieldsWithin {line : Ctx → Nat → List α → Except Error (Ctx × List Event)} {base fin : Nat} {ctx : Ctx}
    {parts more : List (List α)} {event : Event} (yields : Yields line base ctx (parts ++ more) fin event)
    (within : fin ≤ base + (glue sep parts).length) : Yields line base ctx parts fin event := by
  induction parts generalizing base ctx with
  | nil =>
    have := (yieldsBound sep yields).1
    simp only [glueNil, List.length_nil] at within
    omega
  | cons first others ih =>
    rw [glueCons, List.length_append, List.length_cons] at within
    cases yields with
    | here ok mem => exact .here ok mem
    | later ok yields => exact .later ok (ih yields (by omega))

def scan (line : Ctx → Nat → List α → Except Error (Ctx × List Event)) (base : Nat) (ctx : Ctx) (text : List α) :
    Except Error (Scan Ctx Event) :=
  (fold line ctx base (lines sep text)).map (fun done => ⟨done.2, consumed sep text, done.1⟩)

theorem consumedAppend (a b : List α) : consumed sep (a ++ b) = consumed sep a + consumed sep (rest sep a ++ b) := by
  rw [consumed, (linesAppend sep a b).1, glueAppend, List.length_append]
  rfl

theorem scanThrough {Event' : Type*} (f : Event → Event') (line : Ctx → Nat → List α → Except Error (Ctx × List Event))
    (base : Nat) (ctx : Ctx) (text : List α) : (scan sep line base ctx text).map (Scan.map f) =
      scan sep (fun ctx offset text => through f (line ctx offset text)) base ctx text := by
  rw [scan, scan, ← foldThrough]
  cases fold line ctx base (lines sep text) with
  | error thrown => rfl
  | ok done => rfl

-- However the stream is cut into reads, they find what one read of the whole finds.
theorem readsWhole {line : Ctx → Nat → List α → Except Error (Ctx × List Event)} {normal : Ctx → Ctx}
    {Good : List α → Prop} {pieces : List ((Nat → Ctx → List α → Except Error (Scan Ctx Event)) × List α)}
    (agree : ∀ read ∈ pieces, ∀ base ctx text, (∀ l ∈ lines sep text, Good l) →
      read.1 base ctx text = scan sep line base (normal ctx) text)
    (keep : ∀ {ctx offset text next events}, normal ctx = ctx → line ctx offset text = .ok (next, events) →
      normal next = next)
    (base : Nat) {ctx : Ctx} {left : List α} (unfinished : sep ∉ left) (settled : normal ctx = ctx)
    (good : ∀ l ∈ lines sep (left ++ (pieces.map Prod.snd).flatten), Good l) :
    reads base ctx left pieces = scan sep line base ctx (left ++ (pieces.map Prod.snd).flatten) := by
  induction pieces generalizing base ctx left with
  | nil =>
    rw [List.map_nil, List.flatten_nil, List.append_nil, scan, consumed, lines, cutFree sep unfinished]
    rfl
  | cons read pieces ih =>
    rw [List.map_cons, List.flatten_cons, ← List.append_assoc] at good ⊢
    generalize flat : (pieces.map Prod.snd).flatten = tail at ih good ⊢
    have split := (linesAppend sep (left ++ read.2) tail).1
    have first := agree read List.mem_cons_self base ctx (left ++ read.2)
      (fun l mem => good l (split ▸ List.mem_append_left _ mem))
    rw [reads, first, settled, scan, scan, split, foldAppend sep]
    cases here : fold line ctx base (lines sep (left ++ read.2)) with
    | error thrown => rfl
    | ok one =>
      have later := ih (fun other mem => agree other (List.mem_cons_of_mem _ mem))
        (base + consumed sep (left ++ read.2)) (linesFree sep (left ++ read.2)).2 (foldKeeps keep settled here)
        (fun l mem => good l (split ▸ List.mem_append_right _ mem))
      simp only [Except.map, bind, Except.bind, dropConsumed, later]
      rw [scan, consumedAppend sep (left ++ read.2) tail]
      unfold chain
      simp only [bind, Except.bind]
      rw [show (glue sep (lines sep (left ++ read.2))).length = consumed sep (left ++ read.2) from rfl]
      cases fold line one.1 (base + consumed sep (left ++ read.2)) (lines sep (rest sep (left ++ read.2) ++ tail)) with
      | error thrown => rfl
      | ok two => rfl

end

section
variable {α Ctx Event : Type*}

-- The fold of a handler that never fails.
def steps (line : Ctx → Nat → List α → Ctx × List Event) : Ctx → Nat → List (List α) → Ctx × List Event
  | ctx, _, [] => (ctx, [])
  | ctx, base, first :: others =>
    let here := line ctx base first
    let later := steps line here.1 (base + first.length + 1) others
    (later.1, here.2 ++ later.2)

theorem stepsCons (line : Ctx → Nat → List α → Ctx × List Event) (ctx : Ctx) (base : Nat) (first : List α)
    (others : List (List α)) : steps line ctx base (first :: others) =
      ((steps line (line ctx base first).1 (base + first.length + 1) others).1,
        (line ctx base first).2 ++ (steps line (line ctx base first).1 (base + first.length + 1) others).2) := rfl

-- Each event with the context its line is read in.
def placed (line : Ctx → Nat → List α → Ctx × List Event) : Ctx → Nat → List (List α) → List (Ctx × Event)
  | _, _, [] => []
  | ctx, base, first :: others =>
    let here := line ctx base first
    here.2.map (fun event => (ctx, event)) ++ placed line here.1 (base + first.length + 1) others

theorem foldTotal {Error : Type*} (line : Ctx → Nat → List α → Ctx × List Event) (ctx : Ctx) (base : Nat)
    (parts : List (List α)) :
    fold (fun ctx offset text => (Except.ok (line ctx offset text) : Except Error _)) ctx base parts =
      .ok (steps line ctx base parts) := by
  induction parts generalizing ctx base with
  | nil => rfl
  | cons first others ih =>
    rw [fold, steps]
    simp only [bind, Except.bind, ih]
    rfl

variable [DecidableEq α] (sep : α)

theorem stepsAppend (line : Ctx → Nat → List α → Ctx × List Event) (ctx : Ctx) (base : Nat) (a b : List (List α)) :
    (steps line ctx base (a ++ b)).1 =
        (steps line (steps line ctx base a).1 (base + (glue sep a).length) b).1 ∧
      (steps line ctx base (a ++ b)).2 =
        (steps line ctx base a).2 ++ (steps line (steps line ctx base a).1 (base + (glue sep a).length) b).2 := by
  induction a generalizing ctx base with
  | nil => exact ⟨rfl, rfl⟩
  | cons first others ih =>
    have place : base + (glue sep (first :: others)).length = base + first.length + 1 + (glue sep others).length := by
      rw [glueCons, List.length_append, List.length_cons]
      omega
    obtain ⟨context, events⟩ := ih (line ctx base first).1 (base + first.length + 1)
    rw [place, List.cons_append, steps, steps]
    exact ⟨context, by rw [events, List.append_assoc]⟩

theorem placedAppend (line : Ctx → Nat → List α → Ctx × List Event) (ctx : Ctx) (base : Nat) (a b : List (List α)) :
    placed line ctx base (a ++ b) =
      placed line ctx base a ++ placed line (steps line ctx base a).1 (base + (glue sep a).length) b := by
  induction a generalizing ctx base with
  | nil => rfl
  | cons first others ih =>
    have place : base + (glue sep (first :: others)).length = base + first.length + 1 + (glue sep others).length := by
      rw [glueCons, List.length_append, List.length_cons]
      omega
    rw [place, List.cons_append, placed, placed, stepsCons, ih, List.append_assoc]

-- One event of a pass: the lines before its own, and the events of its own line around it.
theorem stepsSplit {line : Ctx → Nat → List α → Ctx × List Event} {ctx : Ctx} {base : Nat} {parts : List (List α)}
    {passed left : List Event} {event : Event} (split : (steps line ctx base parts).2 = passed ++ event :: left) :
    ∃ before here after sooner later, parts = before ++ here :: after ∧
      passed = (steps line ctx base before).2 ++ sooner ∧ later <+: left ∧
      (line (steps line ctx base before).1 (base + (glue sep before).length) here).2 = sooner ++ event :: later := by
  induction parts generalizing ctx base passed with
  | nil => exact absurd split (by simp [steps])
  | cons first others ih =>
    rw [steps] at split
    rcases List.append_eq_append_iff.mp split with ⟨more, same, rest⟩ | ⟨more, same, rest⟩
    · obtain ⟨before, here, after, sooner, later, whole, passes, prior, found⟩ := ih rest
      refine ⟨first :: before, here, after, sooner, later, by rw [whole, List.cons_append], ?_, prior, ?_⟩
      · rw [same, passes, steps, List.append_assoc]
      · rw [glueCons, List.length_append, List.length_cons, steps, ← found]
        congr 2
        omega
    · cases more with
      | nil =>
        have others : (steps line (line ctx base first).1 (base + first.length + 1) others).2 = [] ++ event :: left := rest.symm
        obtain ⟨before, here, after, sooner, later, whole, passes, prior, found⟩ := ih others
        refine ⟨first :: before, here, after, sooner, later, by rw [whole, List.cons_append], ?_, prior, ?_⟩
        · rw [List.append_nil] at same
          rw [← same, steps, List.append_assoc, ← passes, List.append_nil]
        · rw [glueCons, List.length_append, List.length_cons, steps, ← found]
          congr 2
          omega
      | cons one more =>
        obtain ⟨rfl, tail⟩ := List.cons.inj rest
        exact ⟨[], first, others, passed, more, rfl, rfl, ⟨_, tail.symm⟩, same⟩

-- A stream cut where one of its lines ends.
theorem linesAt {text : List α} {before after : List (List α)} (split : lines sep text = before ++ after) :
    lines sep (text.take (glue sep before).length) = before ∧ lines sep (text.drop (glue sep before).length) = after ∧
      (glue sep before).length + consumed sep (text.drop (glue sep before).length) = consumed sep text := by
  have free := (linesFree sep text).1
  rw [split] at free
  have whole : glue sep before ++ (glue sep after ++ rest sep text) = text := by
    rw [← List.append_assoc, ← glueAppend, ← split, glueCut]
  have first : text.take (glue sep before).length = glue sep before := by
    conv_lhs => rw [← whole]
    exact List.take_left
  have last : text.drop (glue sep before).length = glue sep after ++ rest sep text := by
    conv_lhs => rw [← whole]
    exact List.drop_left
  have beforeLines : lines sep (glue sep before) = before := by
    have cutHere := cutGlue sep (fun line mem => free line (List.mem_append_left _ mem)) []
    rw [List.append_nil] at cutHere
    rw [lines, cutHere]
    exact List.append_nil before
  have afterLines : lines sep (glue sep after ++ rest sep text) = after := by
    rw [lines, cutGlue sep (fun line mem => free line (List.mem_append_right _ mem)), cutFree sep (linesFree sep text).2]
    exact List.append_nil after
  refine ⟨by rw [first, beforeLines], by rw [last, afterLines], ?_⟩
  rw [last, consumed, afterLines, consumed, split, glueAppend, List.length_append]

end

end HarnessMem.LineStream
