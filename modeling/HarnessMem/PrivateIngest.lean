import HarnessMem.Dedupe
import HarnessMem.PrivateBlocks

/-! Private blocks at ingest: what `recordEvent` stores and replicates for two events that
differ only inside private blocks of their payload. -/
namespace HarnessMem.PrivateIngest
open Recorder Dedupe PrivateBlocks Text Regex

-- Payloads equal but for the characters inside private blocks of their strings.
mutual
inductive Agree : Json → Json → Prop where
  | same (value : Json) : Agree value value
  | str {a b : String} (masked : Masked a.toList b.toList) : Agree (.str a) (.str b)
  | arr {xs ys} (items : AgreeItems xs ys) : Agree (.arr xs) (.arr ys)
  | obj {xs ys} (entries : AgreeEntries xs ys) : Agree (.obj xs) (.obj ys)
inductive AgreeItems : List Json → List Json → Prop where
  | nil : AgreeItems [] []
  | cons {x y xs ys} (head : Agree x y) (tail : AgreeItems xs ys) : AgreeItems (x :: xs) (y :: ys)
inductive AgreeEntries : List (String × Json) → List (String × Json) → Prop where
  | nil : AgreeEntries [] []
  | cons {x y xs ys} (key : String) (head : Agree x y) (tail : AgreeEntries xs ys) :
      AgreeEntries ((key, x) :: xs) ((key, y) :: ys)
end

-- The text `x` stands inside a private block of one of the strings.
mutual
inductive Holds (x : List Char) : Json → Prop where
  | str {s : String} (secret : Secret x s.toList) : Holds x (.str s)
  | arr {items} (inside : HoldsItems x items) : Holds x (.arr items)
  | obj {entries} (inside : HoldsEntries x entries) : Holds x (.obj entries)
inductive HoldsItems (x : List Char) : List Json → Prop where
  | head {item rest} (inside : Holds x item) : HoldsItems x (item :: rest)
  | tail {item rest} (inside : HoldsItems x rest) : HoldsItems x (item :: rest)
inductive HoldsEntries (x : List Char) : List (String × Json) → Prop where
  | head {key value rest} (inside : Holds x value) : HoldsEntries x ((key, value) :: rest)
  | tail {entry rest} (inside : HoldsEntries x rest) : HoldsEntries x (entry :: rest)
end

mutual
theorem agreeSame {a b : Json} (agree : Agree a b) (none : ∀ x, ¬ Holds x a) : b = a := by
  cases agree with
  | same => rfl
  | str masked =>
    have same := maskedSame masked (fun x secret => none x (.str secret))
    rw [String.toList_inj.mp same]
  | arr items => rw [itemsSame items (fun x inside => none x (.arr inside))]
  | obj entries => rw [entriesSame entries (fun x inside => none x (.obj inside))]
theorem itemsSame {xs ys : List Json} (agree : AgreeItems xs ys) (none : ∀ x, ¬ HoldsItems x xs) : ys = xs := by
  cases agree with
  | nil => rfl
  | cons head tail =>
    rw [agreeSame head (fun x inside => none x (.head inside)),
      itemsSame tail (fun x inside => none x (.tail inside))]
theorem entriesSame {xs ys : List (String × Json)} (agree : AgreeEntries xs ys)
    (none : ∀ x, ¬ HoldsEntries x xs) : ys = xs := by
  cases agree with
  | nil => rfl
  | cons key head tail =>
    rw [agreeSame head (fun x inside => none x (.head inside)),
      entriesSame tail (fun x inside => none x (.tail inside))]
end

theorem itemsRefl (xs : List Json) : AgreeItems xs xs := by
  induction xs with
  | nil => exact .nil
  | cons x xs ih => exact .cons (.same x) ih
theorem entriesRefl (xs : List (String × Json)) : AgreeEntries xs xs := by
  induction xs with
  | nil => exact .nil
  | cons x xs ih => exact .cons x.1 (.same x.2) ih

-- Escaping keeps every comma of a string, and the other parts of the text only add some.
theorem quoteCommas (s : String) : s.toList.count ',' ≤ (Json.quote s).count ',' := by
  have escaped : ∀ text : List Char, text.count ',' ≤ (text.flatMap Json.escapeChar).count ',' := by
    intro text
    induction text with
    | nil => simp
    | cons c rest ih =>
      have one : [c].count ',' ≤ (Json.escapeChar c).count ',' := by
        by_cases comma : c = ','
        · subst comma
          decide
        · simp [comma]
      rw [List.flatMap_cons, List.count_append]
      rw [show c :: rest = [c] ++ rest from rfl, List.count_append]
      omega
  simp only [Json.quote, List.count_append]
  have := escaped s.toList
  omega

theorem itemsCommas (item : Json) (rest : List Json) :
    (Json.print item).count ',' ≤ (Json.printItems (item :: rest)).count ',' ∧
      (Json.printItems rest).count ',' ≤ (Json.printItems (item :: rest)).count ',' := by
  cases rest with
  | nil => simp [Json.printItems]
  | cons next rest => simp only [Json.printItems, List.count_append]; omega

theorem entriesCommas (key : String) (value : Json) (rest : List (String × Json)) :
    (Json.print value).count ',' ≤ (Json.printEntries ((key, value) :: rest)).count ',' ∧
      (Json.printEntries rest).count ',' ≤ (Json.printEntries ((key, value) :: rest)).count ',' := by
  cases rest with
  | nil => simp [Json.printEntries]
  | cons next rest => simp only [Json.printEntries, List.count_append]; omega

mutual
theorem holdsGrows {x : List Char} {a : Json} (holds : Holds x a) (n : Nat) :
    ∃ b, Agree a b ∧ n ≤ (Json.print b).count ',' := by
  cases holds with
  | str secret =>
    obtain ⟨t, masked, many⟩ := secretGrows secret n
    refine ⟨.str (String.ofList t), .str (by rwa [String.toList_ofList]), many.trans ?_⟩
    simpa [Json.print] using quoteCommas (String.ofList t)
  | arr inside =>
    obtain ⟨ys, agree, many⟩ := itemsGrow inside n
    refine ⟨.arr ys, .arr agree, many.trans ?_⟩
    simp only [Json.print, List.count_append]
    omega
  | obj inside =>
    obtain ⟨ys, agree, many⟩ := entriesGrow inside n
    refine ⟨.obj ys, .obj agree, many.trans ?_⟩
    simp only [Json.print, List.count_append]
    omega
theorem itemsGrow {x : List Char} {xs : List Json} (holds : HoldsItems x xs) (n : Nat) :
    ∃ ys, AgreeItems xs ys ∧ n ≤ (Json.printItems ys).count ',' := by
  cases holds with
  | head inside =>
    obtain ⟨b, agree, many⟩ := holdsGrows inside n
    exact ⟨_, .cons agree (itemsRefl _), many.trans (itemsCommas b _).1⟩
  | tail inside =>
    obtain ⟨ys, agree, many⟩ := itemsGrow inside n
    exact ⟨_, .cons (.same _) agree, many.trans (itemsCommas _ ys).2⟩
theorem entriesGrow {x : List Char} {xs : List (String × Json)} (holds : HoldsEntries x xs) (n : Nat) :
    ∃ ys, AgreeEntries xs ys ∧ n ≤ (Json.printEntries ys).count ',' := by
  cases holds with
  | head inside =>
    obtain ⟨b, agree, many⟩ := holdsGrows inside n
    exact ⟨_, .cons _ agree (entriesRefl _), many.trans (entriesCommas _ b _).1⟩
  | tail inside =>
    obtain ⟨ys, agree, many⟩ := entriesGrow inside n
    exact ⟨_, .cons _ (.same _) agree, many.trans (entriesCommas _ _ ys).2⟩
end

theorem redactionAvoids : Avoids ',' redactEmail ∧ Avoids ',' redactKey ∧ Avoids ',' redactSecret ∧
    Avoids ',' redactHex := by decide

-- No redaction rule touches a comma.
theorem redactCommas (raw : String) (tags : List String) :
    (redactContent raw tags).toList.count ',' = raw.toList.count ',' := by
  unfold redactContent
  split
  · simp only [List.foldl_cons, List.foldl_nil]
    obtain ⟨email, key, secret, hex⟩ := redactionAvoids
    rw [replaceAllCount hex (by decide), replaceAllCount secret (by decide), replaceAllCount key (by decide),
      replaceAllCount email (by decide)]
  · rfl

inductive SamePublic (e : EventEnvelope) : EventEnvelope → Prop where
  | same : SamePublic e e
  | masked {xs ys} (payload : e.payload = some xs) (agree : AgreeEntries xs ys) :
      SamePublic e {e with payload := some ys}

-- What a reader sees of an event the call took in, and the copy handed to replication.
structure Visible where
  titles : List (Option String)
  contents : List (String × String)
  fullText : List (String × Option String × String)
  nuggets : List (Nat × String)
  payloads : List String
  replicated : Option String
  deriving DecidableEq, Repr

def Visible.columns (v : Visible) : List String :=
  v.titles.flatMap Option.toList ++ v.contents.flatMap (fun row => [row.1, row.2]) ++
    v.fullText.flatMap (fun row => row.2.1.toList ++ [row.2.2]) ++ v.nuggets.map Prod.snd ++ v.payloads ++
    v.replicated.toList

def replicated : Outcome → Option String
  | .created _ copy _ => some copy.payloadJson
  | _ => none

def eventIdOf (env : Ambient) (e : EventEnvelope) : String := Js.trim ((truthy e.eventId).getD env.freshId)

def visible (host : Host) (env : Ambient) (allowQueue : Bool) (e : EventEnvelope) (db : Db) : Option Visible :=
  let (after, outcome) := recordEvent host env allowQueue e db
  let observationId := "obs_" ++ eventIdOf env e
  let observations := after.observations.filter (fun row => row.id = observationId)
  if accepted outcome then
    some { titles := observations.map Observation.title
           contents := observations.map (fun row => (row.content, row.contentRedacted))
           fullText := observations.map Observation.ftsRow
           nuggets := (after.nuggets.filter (fun row => row.observationId = observationId)).map
             (fun row => (row.seq, row.content))
           payloads := (after.events.filter (fun row => row.eventId = eventIdOf env e)).map Event.payloadJson
           replicated := replicated outcome }
  else none

-- Two runs that differ inside private blocks store the same, and no piece of a block is stored.
def Concealed (host : Host) (env : Ambient) (allowQueue : Bool) (e : EventEnvelope) (db : Db) : Prop :=
  (∀ e', SamePublic e e' → visible host env allowQueue e' db = visible host env allowQueue e db) ∧
    ∀ x, HoldsEntries x (payloadOf e) → ∀ piece, piece ≠ [] → piece <:+: x →
      ∀ v ∈ visible host env allowQueue e db, ∀ column ∈ v.columns, ¬ piece <:+: column.toList

def payloadText (host : Host) (e : EventEnvelope) : String :=
  redactContent (Json.stringify (.obj (payloadOf e))) (normalizeTags host e.privacyTags)

theorem payloadTextCommas (host : Host) (e : EventEnvelope) :
    (payloadText host e).toList.count ',' = (Json.printEntries (payloadOf e)).count ',' := by
  rw [payloadText, redactCommas, Json.stringify, String.toList_ofList, Json.print]
  simp

-- Either the replicated copy or, for an event linked to an older observation, the event's
-- own row is the payload's text.
theorem visibleText {host : Host} {env : Ambient} {allowQueue : Bool} {e : EventEnvelope} {db : Db} {v : Visible}
    (seen : visible host env allowQueue e db = some v) :
    v.replicated = some (payloadText host e) ∨ v.replicated = none ∧ v.payloads = [payloadText host e] := by
  unfold visible at seen
  have effect := recordEffect host env allowQueue e db
  generalize recordEvent host env allowQueue e db = result at seen effect
  obtain ⟨after, outcome⟩ := result
  simp only at seen effect
  split at seen
  · rename_i accept
    obtain rfl := Option.some.inj seen
    cases effect with
    | refused rows refusal => rw [refusal] at accept; cases accept
    | stored named rows wrote new answered =>
      rename_i recorded project temporal before
      subst answered
      cases wrote with
      | duplicateEvent => exact absurd rfl new
      | created => exact .inl rfl
      | duplicateContent id fresh found events observations =>
        refine .inr ⟨rfl, ?_⟩
        change List.map Event.payloadJson (after.events.filter (fun row => row.eventId = (draft host env e project).eventId)) = _
        rw [events, Tables.filterInserted (fun row mem => decide_eq_false (fresh row mem).1)
          (decide_eq_true (by rfl))]
        rfl
  · cases seen

theorem sameText {host : Host} {env : Ambient} {allowQueue : Bool} {e e' : EventEnvelope} {db : Db} {v : Visible}
    (seen : visible host env allowQueue e db = some v) (seen' : visible host env allowQueue e' db = some v) :
    payloadText host e' = payloadText host e := by
  rcases visibleText seen with copy | ⟨none, row⟩
  · rcases visibleText seen' with copy' | ⟨none', _⟩
    · exact Option.some.inj (copy'.symm.trans copy)
    · rw [copy] at none'
      cases none'
  · rcases visibleText seen' with copy' | ⟨_, row'⟩
    · rw [copy'] at none
      cases none
    · exact List.singleton_inj.mp (row'.symm.trans row)

theorem concealedIffNoBlock (host : Host) (calls : List Call) (env : Ambient) (allowQueue : Bool)
    (e : EventEnvelope) :
    let db := Runs.run (step host) Db.empty calls
    accepted (recordEvent host env allowQueue e db).2 = true →
      (Concealed host env allowQueue e db ↔ ∀ x, ¬ HoldsEntries x (payloadOf e)) := by
  intro db accept
  obtain ⟨v, seen⟩ : ∃ v, visible host env allowQueue e db = some v := by
    unfold visible
    generalize recordEvent host env allowQueue e db = result at accept
    exact ⟨_, if_pos accept⟩
  constructor
  · rintro ⟨equal, _⟩ x held
    obtain ⟨xs, payload⟩ : ∃ xs, e.payload = some xs := by
      cases shape : e.payload with
      | none => rw [payloadOf, shape] at held; cases held
      | some xs => exact ⟨xs, rfl⟩
    rw [payloadOf, payload, Option.getD_some] at held
    obtain ⟨ys, agree, many⟩ := entriesGrow held ((payloadText host e).toList.count ',' + 1)
    have seen' := (equal _ (.masked payload agree)).trans seen
    have more := payloadTextCommas host {e with payload := some ys}
    rw [sameText seen seen'] at more
    simp only [payloadOf, Option.getD_some] at more
    omega
  · intro none
    refine ⟨fun e' alike => ?_, fun x held => absurd held (none x)⟩
    cases alike with
    | same => rfl
    | masked payload agree =>
      rw [payloadOf, payload, Option.getD_some] at none
      rw [entriesSame agree none, ← payload]

theorem concealedNoBlock :
    let e := plainEvent "a" "alpha" [("prompt", .str "hi")]
    Concealed plainHost plainAmbient true e Db.empty ↔ ∀ x, ¬ HoldsEntries x (payloadOf e) :=
  concealedIffNoBlock plainHost [] plainAmbient true (plainEvent "a" "alpha" [("prompt", .str "hi")])
    (by decide +kernel)

theorem loneLetter {c : Char} (plain : opens [c] = false ∧ closes [c] = false) : TagFree [c] := by
  intro tail suffix
  rcases List.suffix_cons_iff.mp suffix with rfl | empty
  · exact plain
  · obtain rfl := List.suffix_nil.mp empty
    decide

-- The content loses the block; the title, the event row and the replicated copy keep it.
theorem blockLeaks :
    let first := plainEvent "a" "p" [("prompt", .str "<private>x</private>")]
    let second := plainEvent "a" "p" [("prompt", .str "<private>y</private>")]
    SamePublic first second ∧
      (visible plainHost plainAmbient true first Db.empty).map
        (fun v => (v.titles, v.contents, v.payloads, v.replicated)) =
          some ([some "<private>x</private>"], [("", "")], ["\x7b\"prompt\":\"<private>x</private>\"\x7d"],
            some "\x7b\"prompt\":\"<private>x</private>\"\x7d") ∧
      (visible plainHost plainAmbient true second Db.empty).map
        (fun v => (v.titles, v.contents, v.payloads, v.replicated)) =
          some ([some "<private>y</private>"], [("", "")], ["\x7b\"prompt\":\"<private>y</private>\"\x7d"],
            some "\x7b\"prompt\":\"<private>y</private>\"\x7d") := by
  have opening : OpenTag "<private>".toList := ⟨openName, [], by decide, by decide, rfl, rfl, by simp⟩
  have closing : CloseTag closeTag := ⟨by decide, rfl⟩
  have masked : Masked "<private>x</private>".toList "<private>y</private>".toList :=
    .block ['x'] ['y'] opening (loneLetter (by decide)) (loneLetter (by decide)) closing .done
  exact ⟨.masked rfl (.cons "prompt" (.str masked) .nil), by decide +kernel, by decide +kernel⟩

end HarnessMem.PrivateIngest
