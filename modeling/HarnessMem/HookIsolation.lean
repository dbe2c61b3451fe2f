import HarnessMem.HookEvents

/-! What one bad record does to a chunk of Cursor's hook file: which lines make the parser throw, and what
the other lines get when none does. -/
namespace HarnessMem.CursorHooks
open Js Text JsonLines LineStream

-- The places a time is looked for, in order.
def timeValues (parsed : List (String × Json)) : List (Option Json) :=
  let time := toRecord (Json.get parsed "time")
  [Json.get parsed "ts", Json.get parsed "timestamp", Json.get parsed "created_at", Json.get parsed "time",
    Json.get time "iso", Json.get parsed "time_created", Json.get parsed "timeCreated", Json.get parsed "created",
    Json.get time "created", Json.get time "completed"]

-- More milliseconds than a date holds.
def beyondDates (spool : Spool) (text : String) : Bool := (epochMillis spool text).any (fun millis => (toIso millis).isNone)

-- A number, or a text of digits, that is no time of any date.
def outOfRange (spool : Spool) : Option Json → Bool
  | some (.num text) => beyondDates spool text
  | some (.str text) => trim text ≠ "" && allDigits (trim text) && beyondDates spool (trim text)
  | _ => false

-- The first place with something that reads as a number of that kind, none before it having a time.
def Untimely (spool : Spool) (values : List (Option Json)) : Prop :=
  ∃ before value after, values = before ++ value :: after ∧ (∀ earlier ∈ before, isoValue spool toISOString earlier = .ok "") ∧
    outOfRange spool value = true

def Poisoned (spool : Spool) (raw : List UInt8) : Prop :=
  ∃ rawLine parsed, lineObject spool.toHost raw = some (rawLine, parsed) ∧ resolveHookEventName spool parsed ≠ "" ∧
    Untimely spool (timeValues parsed)

theorem printThrows (millis : Number) : (∃ thrown, toISOString millis = .error thrown) ↔ (toIso millis).isNone = true := by
  unfold toISOString
  split
  · rename_i iso printed
    simp [printed]
  · rename_i none
    simp [none]

theorem epochThrows (spool : Spool) (text : String) :
    (∃ thrown, (match epochMillis spool text with
      | some millis => toISOString millis
      | none => .ok "") = .error thrown) ↔ beyondDates spool text = true := by
  unfold beyondDates
  cases epochMillis spool text with
  | none => simp
  | some millis => exact printThrows millis

theorem isoThrows (spool : Spool) (value : Option Json) :
    (∃ thrown, isoValue spool toISOString value = .error thrown) ↔ outOfRange spool value = true := by
  unfold isoValue outOfRange
  split
  · exact epochThrows spool _
  · rename_i text
    change (∃ thrown, (if trim text = "" then Except.ok "" else if allDigits (trim text) then
        match epochMillis spool (trim text) with
        | some millis => toISOString millis
        | none => .ok ""
      else .ok (((spool.parseDate (trim text)).map isoText).getD "")) = .error thrown) ↔
      (decide (trim text ≠ "") && allDigits (trim text) && beyondDates spool (trim text)) = true
    by_cases empty : trim text = ""
    · simp [empty]
    · by_cases digits : allDigits (trim text) = true
      · rw [if_neg empty, if_pos digits, digits, decide_eq_true empty, Bool.true_and, Bool.true_and]
        exact epochThrows spool (trim text)
      · simp [empty, digits]
  · simp

theorem firstIsoThrows (spool : Spool) (now : String) (values : List (Option Json)) :
    (∃ thrown, firstIso spool toISOString now values = .error thrown) ↔ Untimely spool values := by
  induction values with
  | nil =>
    refine iff_of_false (fun ⟨_, impossible⟩ => by cases impossible) ?_
    rintro ⟨before, value, after, same, -⟩
    exact absurd same (by simp)
  | cons value others ih =>
    have split : Untimely spool (value :: others) ↔
        outOfRange spool value = true ∨ isoValue spool toISOString value = .ok "" ∧ Untimely spool others := by
      constructor
      · rintro ⟨before, bad, after, same, blank, out⟩
        cases before with
        | nil =>
          obtain ⟨rfl, -⟩ := List.cons.inj same
          exact .inl out
        | cons first before =>
          obtain ⟨rfl, rest⟩ := List.cons.inj same
          exact .inr ⟨blank _ List.mem_cons_self, before, bad, after, rest, fun v mem => blank v (List.mem_cons_of_mem _ mem), out⟩
      · rintro (out | ⟨here, before, bad, after, rfl, blank, out⟩)
        · exact ⟨[], value, others, rfl, by simp, out⟩
        · exact ⟨value :: before, bad, after, rfl, List.forall_mem_cons.mpr ⟨here, blank⟩, out⟩
    rw [split, ← isoThrows, firstIso]
    cases read : isoValue spool toISOString value with
    | error thrown => simp [bind, Except.bind]
    | ok iso =>
      by_cases blank : iso = ""
      · simp [bind, Except.bind, blank, ih]
      · simp [bind, Except.bind, blank, pure, Except.pure]

section
variable (spool : Spool) (sourceKey : String) (now : Nat → String) (baseOffset : Nat) (chunk : String)

def hookLine (lineOffset : Nat) (raw : List UInt8) : Except String (Unit × List IngestEvent) :=
  jsonLine spool.toHost (handle spool sourceKey now) () lineOffset raw

-- No exception; every complete line consumed; what each line yields by itself among the events, in order; and each of them
-- with a time its record has, or the fallback.
def Isolates : Prop := ∃ parsed, parseCursorHooksChunk spool sourceKey now baseOffset chunk = .ok parsed ∧
  parsed.consumed = upToLast newline (buffer chunk) ∧
  (ownEvents (hookLine spool sourceKey now) baseOffset (lines newline (buffer chunk))).Sublist parsed.events ∧
  ∀ event ∈ parsed.events, event.timestamp = now event.lineOffset ∨
    ∃ value ∈ timeValues event.parsed, isoValue spool toISOString value = .ok event.timestamp

end

section
variable {spool : Spool} {sourceKey : String} {now : Nat → String} {baseOffset : Nat} {chunk : String}

theorem firstIsoFound {clock time : String} {values : List (Option Json)} (ok : firstIso spool toISOString clock values = .ok time) :
    time = clock ∨ ∃ value ∈ values, isoValue spool toISOString value = .ok time := by
  induction values with
  | nil => exact .inl (Except.ok.inj ok).symm
  | cons value others ih =>
    obtain ⟨iso, read, ok⟩ := bindOk ok
    split at ok
    · obtain rfl := Except.ok.inj ok
      exact .inr ⟨value, List.mem_cons_self, read⟩
    · exact (ih ok).imp_right (fun ⟨other, mem, read⟩ => ⟨other, List.mem_cons_of_mem _ mem, read⟩)

theorem lineOkIff (lineOffset : Nat) (raw : List UInt8) :
    (∃ done, hookLine spool sourceKey now lineOffset raw = .ok done) ↔ ¬ Poisoned spool raw := by
  unfold hookLine jsonLine Poisoned
  cases object : lineObject spool.toHost raw with
  | none => simp
  | some found =>
    obtain ⟨rawLine, parsed⟩ := found
    simp only [Option.some.injEq, Prod.mk.injEq, exists_eq_left', exists_and_left, and_assoc]
    have thrown := firstIsoThrows spool (now lineOffset) (timeValues parsed)
    unfold handle
    by_cases unnamed : resolveHookEventName spool parsed = ""
    · simp [unnamed]
    · rw [if_neg unnamed]
      rw [← thrown]
      change (∃ done, Except.map _ (firstIso spool toISOString (now lineOffset) (timeValues parsed)) = .ok done) ↔ _
      cases firstIso spool toISOString (now lineOffset) (timeValues parsed) with
      | error e => simp [Except.map, unnamed]
      | ok time => simp [Except.map]

theorem lineTimes (lineOffset : Nat) (raw : List UInt8) (done : Unit × List IngestEvent)
    (ok : hookLine spool sourceKey now lineOffset raw = .ok done) : ∀ event ∈ done.2, event.timestamp = now event.lineOffset ∨
      ∃ value ∈ timeValues event.parsed, isoValue spool toISOString value = .ok event.timestamp := by
  intro event mem
  unfold hookLine jsonLine at ok
  split at ok
  · obtain rfl := Except.ok.inj ok
    cases mem
  · unfold handle at ok
    dsimp only at ok
    split at ok
    · obtain rfl := Except.ok.inj ok
      cases mem
    · obtain ⟨time, read, made⟩ := mapOk ok
      subst made
      split at mem
      · cases mem
      · obtain rfl := List.mem_singleton.mp mem
        exact firstIsoFound read

theorem isolatesIff (spool : Spool) (sourceKey : String) (now : Nat → String) (baseOffset : Nat) (chunk : String) :
    Isolates spool sourceKey now baseOffset chunk ↔ ∀ raw ∈ lines newline (buffer chunk), ¬ Poisoned spool raw := by
  have folds := @foldOkIff _ _ _ _ (fun _ : Unit => hookLine spool sourceKey now) _ (fun _ => lineOkIff) () baseOffset
  rw [← folds]
  constructor
  · rintro ⟨parsed, ok, -⟩
    obtain ⟨done, folded, -⟩ := mapOk ok
    exact ⟨done, folded⟩
  · rintro ⟨done, folded⟩
    have own := foldOwn folded
    refine ⟨⟨done.2, consumed newline (buffer chunk), done.1⟩, ?_, consumedUpToLast newline _, ?_, ?_⟩
    · unfold parseCursorHooksChunk parseChunk scan
      rw [show jsonLine spool.toHost (handle spool sourceKey now) = fun _ => hookLine spool sourceKey now from rfl, folded]
      rfl
    · rw [← own]
    · rw [own]
      exact ownForall lineTimes _ _

end

-- A stop event in the year 318857, and one without a time.
def lateLine : String := "\x7b\"event\":\"stop\",\"ts\":10000000000000000\x7d"
def stopLine : String := "\x7b\"event\":\"stop\"\x7d"
def lateSpool : Spool :=
  {stopSpool with
    toLowerCase := id
    parseJson := fun text =>
      if text = lateLine then some (.obj [("event", .str "stop"), ("ts", .num "10000000000000000")])
      else if text = stopLine then some (.obj [("event", .str "stop")])
      else none
    number := fun text => if text = "10000000000000000" then .fin 10000000000000000 else .nan}

theorem lateThrows : ¬ Isolates lateSpool "k" (fun _ => "2026-01-01T00:00:00.000Z") 0 (lateLine ++ "\n" ++ stopLine ++ "\n") ∧
    (ownEvents (hookLine lateSpool "k" (fun _ => "2026-01-01T00:00:00.000Z")) 0
      (lines newline (buffer (lateLine ++ "\n" ++ stopLine ++ "\n")))).length = 1 := by
  constructor
  · rintro ⟨parsed, ok, -⟩
    have thrown : (parseCursorHooksChunk lateSpool "k" (fun _ => "2026-01-01T00:00:00.000Z") 0
        (lateLine ++ "\n" ++ stopLine ++ "\n")).toOption.isNone = true := by decide
    rw [ok] at thrown
    cases thrown
  · decide

end HarnessMem.CursorHooks
