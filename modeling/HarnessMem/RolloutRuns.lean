import HarnessMem.CodexRollouts
import HarnessMem.Lib.Runs

/-! Runs of polls over a growing rollout file: what a failure-free pass records, and no other. -/
namespace HarnessMem.CodexRollouts
open Js Text JsonLines LineStream CodexSessions IngestOffsets

theorem recordForm {answers : Nat → Answer} (index : Nat) {events : List IngestEvent}
    (returns : ∀ later < events.length, answers (index + later) ≠ .thrown) (offset : Nat) (committed : SessionContext)
    (next : Nat) : recordEntries answers offset index committed next events =
      ⟨granted answers index events, some ((granted answers index events).foldl commit committed,
        match events.drop (granted answers index events).length with
        | [] => next
        | entry :: _ => max offset entry.lineOffset)⟩ := by
  induction events generalizing index committed with
  | nil => rfl
  | cons entry others ih =>
    have later := ih (index + 1) (fun later within => by
      have := returns (later + 1) (by rw [List.length_cons]; omega)
      rwa [show index + 1 + later = index + (later + 1) by omega])
    have here := returns 0 (by rw [List.length_cons]; omega)
    rw [recordEntries, granted]
    cases answer : answers index with
    | thrown => exact absurd answer here
    | failed => rfl
    | ok => simp only [later, if_pos, List.foldl_cons, List.length_cons, List.drop_succ_cons]

theorem grantedPrefix (answers : Nat → Answer) (index : Nat) (events : List IngestEvent) :
    granted answers index events <+: events := by
  induction events generalizing index with
  | nil => exact List.nil_prefix
  | cons entry others ih =>
    rw [granted]
    split
    · exact List.cons_prefix_cons.mpr ⟨rfl, ih (index + 1)⟩
    · exact List.nil_prefix

theorem grantedAll {answers : Nat → Answer} (index : Nat) {events : List IngestEvent}
    (ok : ∀ later < events.length, answers (index + later) = .ok) : granted answers index events = events := by
  induction events generalizing index with
  | nil => rfl
  | cons entry others ih =>
    have here : answers index = .ok := ok 0 (by rw [List.length_cons]; omega)
    have later : granted answers (index + 1) others = others := ih (index + 1) (fun later within => by
      have := ok (later + 1) (by rw [List.length_cons]; omega)
      rwa [show index + 1 + later = index + (later + 1) by omega])
    rw [granted, if_pos here, later]

section
variable {r : Rollout} {s : Progress SessionContext IngestEvent} {p : Poll}

theorem takenLeft : taken r s p ++ left r s p = (readOn r s p).2 :=
  List.prefix_iff_eq_append.mp (grantedPrefix p.answers 0 (readOn r s p).2)

def committed (r : Rollout) (s : Progress SessionContext IngestEvent) (p : Poll) : SessionContext :=
  (taken r s p).foldl commit
    ⟨firstOf [(readOn r s p).1.sessionId, fallbackSessionId r s.context],
      firstOf [(readOn r s p).1.project, r.defaultProject], s.context.lastUserPrompt, s.context.lastAssistantContent⟩

theorem notSkipped (reads : s.offset ≠ none ∨ p.stale = false) : (s.offset.isNone && p.stale) = false := by
  rcases reads with known | recent
  · cases at_ : s.offset with
    | none => exact absurd at_ known
    | some _ => rfl
  · rw [recent, Bool.and_false]

theorem ingestForm (settled : s.context.Settled) (reads : s.offset ≠ none ∨ p.stale = false)
    (valid : ∀ l ∈ newLines s p, Valid l) (returns : ∀ index < (readOn r s p).2.length, p.answers index ≠ .thrown)
    (more : startOffset s p ≠ p.bytes.length) : ingestRollout r s p =
      ⟨some (stop r s p), storeContext s.context (committed r s p), s.accepted ++ taken r s p⟩ := by
  have parsed := parseSteps r (sourceOf r s.context) p.clock (startOffset s p) settled valid
  have looped := recordForm 0 (fun later within => by rw [Nat.zero_add]; exact returns later within) (startOffset s p)
    ⟨firstOf [(readOn r s p).1.sessionId, fallbackSessionId r s.context],
      firstOf [(readOn r s p).1.project, r.defaultProject], s.context.lastUserPrompt, s.context.lastAssistantContent⟩
    (startOffset s p + consumed newline (p.bytes.drop (startOffset s p)))
  unfold ingestRollout
  rw [if_neg (by simp [notSkipped reads])]
  simp only [if_neg more]
  unfold readOn newLines at looped
  rw [parsed]
  simp only [looped]
  rfl

theorem rememberedSettled {c : SessionContext} (settled : c.Settled) (events : List IngestEvent) :
    (events.foldl rememberEntry c).Settled := by
  induction events generalizing c with
  | nil => exact settled
  | cons event others ih => exact ih (rememberSettled settled event.eventType event.payload)

theorem firstOfNone {first second : String} (none : firstOf [first, second] = "") : second = "" := by
  by_cases empty : first = ""
  · rw [empty, firstOfSkip] at none
    by_contra some
    exact some ((firstOfCons some []).symm.trans none)
  · exact absurd ((firstOfCons empty [second]).symm.trans none) empty

-- A text once remembered stays, or gives way to another.
theorem neverForgotten (events : List IngestEvent) (c : SessionContext) :
    ((events.foldl rememberEntry c).lastUserPrompt = "" → c.lastUserPrompt = "") ∧
      ((events.foldl rememberEntry c).lastAssistantContent = "" → c.lastAssistantContent = "") := by
  induction events generalizing c with
  | nil => exact ⟨id, id⟩
  | cons event others ih =>
    have step : ((rememberEntry c event).lastUserPrompt = "" → c.lastUserPrompt = "") ∧
        ((rememberEntry c event).lastAssistantContent = "" → c.lastAssistantContent = "") := by
      unfold rememberEntry remember
      split
      · exact ⟨firstOfNone, id⟩
      split
      · exact ⟨id, firstOfNone⟩
      · exact ⟨id, id⟩
    exact ⟨step.1 ∘ (ih _).1, step.2 ∘ (ih _).2⟩

theorem commitTexts (events : List IngestEvent) {c t : SessionContext} (texts : SameTexts c t) :
    SameTexts (events.foldl commit c) (events.foldl rememberEntry t) := by
  induction events generalizing c t with
  | nil => exact texts
  | cons event others ih =>
    have named : SameTexts {c with
        sessionId := firstOf [event.sessionId, c.sessionId]
        project := firstOf [event.project, c.project]} t := ⟨texts.prompt, texts.content⟩
    exact ih (rememberTexts named event.eventType event.payload)

theorem committedNames {name : String} (some : name ≠ "") :
    (((taken r s p).getLast?.map IngestEvent.sessionId).getD (readOn r s p).1.sessionId = name →
        (committed r s p).sessionId = name) ∧
      (((taken r s p).getLast?.map IngestEvent.project).getD (readOn r s p).1.project = name →
        (committed r s p).project = name) := by
  unfold committed
  rcases List.eq_nil_or_concat (taken r s p) with none | ⟨front, last, split⟩
  · rw [none]
    exact ⟨fun same => by rw [← firstOfCons some, ← same]; rfl, fun same => by rw [← firstOfCons some, ← same]; rfl⟩
  · rw [split, List.concat_eq_append, List.foldl_append, List.getLast?_concat]
    simp only [List.foldl_cons, List.foldl_nil, Option.map_some, Option.getD_some, commit]
    constructor
    · intro same
      rw [(rememberIds _ _ _).1, same]
      exact firstOfCons some _
    · intro same
      rw [(rememberIds _ _ _).2, same]
      exact firstOfCons some _

structure Kept (r : Rollout) (s : Progress SessionContext IngestEvent) (p : Poll) (t stored : SessionContext) : Prop where
  settled : stored.Settled
  session : t.sessionId ≠ "" → stored.sessionId = t.sessionId
  project : t.project ≠ "" → stored.project = t.project
  texts : SameTexts stored (latest r s p)

theorem kept (settled : s.context.Settled) (careful : Careful r s p) (pass : (named r p (stop r s p)).Settled) :
    Kept r s p (named r p (stop r s p)) (storeContext s.context (committed r s p)) := by
  obtain ⟨session, project, _, _⟩ := SessionContext.settledIff.mp pass
  have latestSettled : (latest r s p).Settled := rememberedSettled settled _
  obtain ⟨_, _, prompt, content⟩ := SessionContext.settledIff.mp latestSettled
  have texts : SameTexts (committed r s p) (latest r s p) := commitTexts _ ⟨rfl, rfl⟩
  have promptKept : slice (trim (committed r s p).lastUserPrompt) 0 4000 = (latest r s p).lastUserPrompt := by
    rw [texts.prompt, show trim (latest r s p).lastUserPrompt = _ from prompt]
    exact sliceWhole careful.short.1
  have contentKept : slice (trim (committed r s p).lastAssistantContent) 0 4000 = (latest r s p).lastAssistantContent := by
    rw [texts.content, show trim (latest r s p).lastAssistantContent = _ from content]
    exact sliceWhole careful.short.2
  have sessionKept : (named r p (stop r s p)).sessionId ≠ "" →
      trim (committed r s p).sessionId = (named r p (stop r s p)).sessionId := by
    intro some
    rw [(committedNames some).1 (careful.session some)]
    exact session
  have projectKept : (named r p (stop r s p)).project ≠ "" →
      trim (committed r s p).project = (named r p (stop r s p)).project := by
    intro some
    rw [(committedNames some).2 (careful.project some)]
    exact project
  by_cases none : (⟨trim (committed r s p).sessionId, trim (committed r s p).project, (latest r s p).lastUserPrompt,
      (latest r s p).lastAssistantContent⟩ : SessionContext) = SessionContext.none
  · have stays : storeContext s.context (committed r s p) = s.context := by
      rw [storeContext, promptKept, contentKept]
      exact if_pos none
    obtain ⟨noSession, noProject, noPrompt, noContent⟩ := SessionContext.mk.inj none
    have before := neverForgotten (taken r s p) s.context
    refine ⟨by rw [stays]; exact settled, fun some => absurd ((sessionKept some).symm.trans noSession) some,
      fun some => absurd ((projectKept some).symm.trans noProject) some, ?_⟩
    rw [stays]
    exact ⟨(before.1 noPrompt).trans noPrompt.symm, (before.2 noContent).trans noContent.symm⟩
  · have stored : storeContext s.context (committed r s p) = ⟨trim (committed r s p).sessionId,
        trim (committed r s p).project, (latest r s p).lastUserPrompt, (latest r s p).lastAssistantContent⟩ := by
      rw [storeContext, promptKept, contentKept]
      exact if_neg none
    constructor
    · rw [stored]
      exact SessionContext.settledIff.mpr ⟨trimTrimmed _, trimTrimmed _, prompt, content⟩
    · rw [stored]
      exact sessionKept
    · rw [stored]
      exact projectKept
    · rw [stored]
      exact ⟨rfl, rfl⟩

-- The lines passed for good, the lines still to come, and the events already taken of the first
-- of those.
structure Stands (r : Rollout) (s : Progress SessionContext IngestEvent) (before after : List (List UInt8))
    (recorded : List IngestEvent) : Prop where
  offset : s.offset.getD 0 = (glue newline before).length
  accepted : s.accepted.map timeless = ((passed r before).2 ++ recorded).map timeless
  settled : s.context.Settled
  follows : Follows s.context recorded s.context (passed r before).1
  ended : after = [] → recorded = []
  resumable : ∀ first ∈ after.head?, Resumable s.context recorded
    (passLine r (passed r before).1 (glue newline before).length first).2

theorem noneSettled : SessionContext.none.Settled := show SessionContext.none.normal = SessionContext.none by decide

theorem passedAppend (r : Rollout) (a b : List (List UInt8)) :
    (passed r (a ++ b)).1 = (steps (passLine r) (passed r a).1 (glue newline a).length b).1 ∧
      (passed r (a ++ b)).2 = (passed r a).2 ++ (steps (passLine r) (passed r a).1 (glue newline a).length b).2 := by
  have split := stepsAppend newline (passLine r) SessionContext.none 0 a b
  rwa [Nat.zero_add] at split

theorem passedSettled (r : Rollout) (parts : List (List UInt8)) : (passed r parts).1.Settled := by
  unfold passed passLine
  exact stepsSettled noneSettled _ _ 0 parts

theorem standsUnread (r : Rollout) (parts : List (List UInt8)) : Stands r unread [] parts [] :=
  ⟨rfl, rfl, noneSettled, ⟨⟨fun _ => rfl, fun _ => rfl⟩, ⟨fun _ => rfl, fun _ => rfl⟩, SameTexts.refl _⟩,
    fun _ => rfl, fun _ _ => .inl rfl⟩

theorem Stands.grow {before after : List (List UInt8)} {recorded : List IngestEvent}
    (stands : Stands r s before after recorded) (more : List (List UInt8)) : Stands r s before (after ++ more) recorded := by
  refine ⟨stands.offset, stands.accepted, stands.settled, stands.follows, fun none => ?_, fun first mem => ?_⟩
  · exact stands.ended (List.append_eq_nil_iff.mp none).1
  · cases after with
    | nil => exact .inl (stands.ended rfl)
    | cons line others => exact stands.resumable first mem

-- What a state stands for: an initial part of what a pass over all the lines finds.
theorem Stands.accounts {before after : List (List UInt8)} {recorded : List IngestEvent}
    (stands : Stands r s before after recorded) :
    s.accepted.map timeless <+: (passed r (before ++ after)).2.map timeless ∧
      (after = [] → s.accepted.map timeless = (passed r (before ++ after)).2.map timeless) := by
  rw [stands.accepted, (passedAppend r before after).2]
  constructor
  · refine List.IsPrefix.map _ (List.prefix_append_right_inj _ |>.mpr ?_)
    cases after with
    | nil => rw [stands.ended rfl]; exact List.nil_prefix
    | cons first others =>
      rw [stepsCons]
      rcases stands.resumable first rfl with none | ⟨pending, whole, _⟩
      · rw [none]; exact List.nil_prefix
      · simp only [whole, List.append_assoc]
        exact List.prefix_append _ _
  · intro none
    rw [stands.ended none, none]
    rfl

theorem namedAt {a b : List (List UInt8)} (whole : lines newline p.bytes = a ++ b) :
    named r p (glue newline a).length = (passed r a).1 := by
  rw [named, (linesAt newline whole).1]

theorem startAt {before after : List (List UInt8)} {recorded : List IngestEvent}
    (stands : Stands r s before after recorded) (whole : lines newline p.bytes = before ++ after) :
    startOffset s p = (glue newline before).length := by
  have text := congrArg List.length (glueCut newline p.bytes)
  have size := (linesAt newline whole).2.2
  rw [List.length_append] at text
  rw [startOffset, stands.offset, if_neg]
  unfold consumed at size
  omega

theorem timelessKnown {context stored : SessionContext} (texts : SameTexts stored context) {event other : IngestEvent}
    (same : timeless other = timeless event) (new : knownText context other.eventType other.payload = false) :
    knownText stored event.eventType event.payload = false := by
  have type : other.eventType = event.eventType :=
    (congrArg IngestEvent.eventType same : (timeless other).eventType = (timeless event).eventType)
  have payload : other.payload = event.payload :=
    (congrArg IngestEvent.payload same : (timeless other).payload = (timeless event).payload)
  rw [knownTexts texts, ← type, ← payload, new]

-- Some event of the line is accepted, once one of its events is taken or was taken before.
theorem lineAccepted {before after : List (List UInt8)} {recorded : List IngestEvent}
    (stands : Stands r s before after recorded) {mid post : List (List UInt8)} {here : List UInt8} {sooner rest others : List IngestEvent}
    {c : SessionContext} {clock : Nat → String} (split : after = mid ++ here :: post)
    (takes : taken r s p = others ++ sooner)
    (found : (readLine r (sourceOf r s.context) clock c ((glue newline before).length + (glue newline mid).length) here).2 =
      sooner ++ rest) (some : stillTaken recorded mid ++ sooner ≠ []) :
    ∃ other ∈ s.accepted ++ taken r s p, other.lineOffset = (glue newline before).length + (glue newline mid).length := by
  by_cases none : sooner = []
  · rw [none, List.append_nil] at some
    cases mid with
    | cons line lines => exact absurd rfl some
    | nil =>
      obtain ⟨event, mem⟩ := List.exists_mem_of_ne_nil _ some
      rw [stillTaken] at some mem
      obtain ⟨pending, events, _⟩ := (stands.resumable here (by rw [split]; rfl)).resolve_left some
      have place := readOffsets (r := r) _ _ _ _ event (events ▸ List.mem_append_left _ mem)
      have listed : timeless event ∈ s.accepted.map timeless := by
        rw [stands.accepted, List.map_append]
        exact List.mem_append_right _ (List.mem_map_of_mem mem)
      obtain ⟨other, mine, same⟩ := List.mem_map.mp listed
      exact ⟨other, List.mem_append_left _ mine,
        (congrArg IngestEvent.lineOffset same : (timeless other).lineOffset = (timeless event).lineOffset).trans place⟩
  · obtain ⟨event, mem⟩ := List.exists_mem_of_ne_nil _ none
    refine ⟨event, List.mem_append_right _ ?_, readOffsets (r := r) _ _ _ _ event (found ▸ List.mem_append_left _ mem)⟩
    rw [takes]
    exact List.mem_append_right _ mem

section
variable {before after : List (List UInt8)} {recorded : List IngestEvent} (stands : Stands r s before after recorded)
  (whole : lines newline p.bytes = before ++ after)
include stands whole

-- The lines of a poll up to one of them: what they find, and the context they leave.
theorem readUpTo (careful : Careful r s p) {mid others : List (List UInt8)} (split : after = mid ++ others) :
    (recorded ++ (steps (readLine r (sourceOf r s.context) p.clock) s.context (glue newline before).length mid).2).map timeless =
        ((steps (passLine r) (passed r before).1 (glue newline before).length mid).2 ++ stillTaken recorded mid).map timeless ∧
      Follows s.context (stillTaken recorded mid)
        (steps (readLine r (sourceOf r s.context) p.clock) s.context (glue newline before).length mid).1
        (passed r (before ++ mid)).1 := by
  have fits := careful.fits
  rw [startAt stands whole, namedAt whole, newLines, startAt stands whole, (linesAt newline whole).2.1, split,
    placedAppend newline] at fits
  rw [(passedAppend r before mid).1]
  refine stepsFollow stands.follows stands.settled stands.settled (passedSettled r before) p.clock _
    (fun found mem => fits found (List.mem_append_left _ mem)) (fun first mem => stands.resumable first ?_)
  rw [split]
  cases mid with
  | nil => cases mem
  | cons line more => exact mem

theorem readAll : readOn r s p = steps (readLine r (sourceOf r s.context) p.clock) s.context (glue newline before).length after := by
  rw [readOn, newLines, startAt stands whole, (linesAt newline whole).2.1]

theorem newValid (careful : Careful r s p) : ∀ l ∈ newLines s p, Valid l := by
  rw [newLines, startAt stands whole, (linesAt newline whole).2.1]
  exact fun l mem => careful.valid l (whole ▸ List.mem_append_right _ mem)

-- A poll that takes every event: all lines are passed.
theorem standsAll (careful : Careful r s p) (busy : startOffset s p ≠ p.bytes.length) (all : left r s p = []) :
    Stands r (ingestRollout r s p) (before ++ after) [] [] := by
  obtain ⟨events, follows⟩ := readUpTo stands whole careful (List.append_nil after).symm
  have none : stillTaken recorded after = [] := by
    cases after with
    | nil => exact stands.ended rfl
    | cons line others => rfl
  rw [none] at events follows
  have takes : taken r s p = (readOn r s p).2 := by
    rw [← takenLeft, all, List.append_nil]
  have here : stop r s p = (glue newline (before ++ after)).length := by
    rw [stop, all, startAt stands whole, glueAppend, List.length_append, consumed, (linesAt newline whole).2.1]
  have at_ : named r p (stop r s p) = (passed r (before ++ after)).1 := by
    rw [here]
    exact namedAt (whole.trans (List.append_nil _).symm)
  have keeps := kept stands.settled careful (at_ ▸ passedSettled r _)
  rw [at_] at keeps
  have latestTexts : SameTexts (latest r s p) (passed r (before ++ after)).1 := by
    have texts := stepsTexts (r := r) (c := s.context) (sourceOf r s.context) p.clock (glue newline before).length after
    rw [latest, takes, readAll stands whole]
    exact texts.symm.trans follows.texts
  rw [ingestForm stands.settled careful.reads (newValid stands whole careful) careful.returns busy]
  generalize storeContext s.context (committed r s p) = stored at keeps ⊢
  refine ⟨?_, ?_, keeps.settled, ⟨⟨keeps.session, fun _ => rfl⟩, ⟨keeps.project, fun _ => rfl⟩,
    keeps.texts.trans latestTexts⟩, fun _ => rfl, fun _ _ => .inl rfl⟩
  · rw [Option.getD_some, here]
  · rw [List.map_append, stands.accepted, ← List.map_append, takes, readAll stands whole,
      (passedAppend r before after).2, List.append_assoc, List.append_nil, List.map_append, events, List.append_nil,
      ← List.map_append]


-- The line a poll stops at, in the pass: the events taken by now, and the others.
theorem stoppedLine (careful : Careful r s p) {mid post : List (List UInt8)} {here : List UInt8}
    {sooner rest : List IngestEvent} (split : after = mid ++ here :: post)
    (found : (readLine r (sourceOf r s.context) p.clock
        (steps (readLine r (sourceOf r s.context) p.clock) s.context (glue newline before).length mid).1
        ((glue newline before).length + (glue newline mid).length) here).2 = sooner ++ rest) :
    ∃ done pending, (passLine r (passed r (before ++ mid)).1
          ((glue newline before).length + (glue newline mid).length) here).2 = done ++ pending ∧
      done.map timeless = (stillTaken recorded mid ++ sooner).map timeless ∧ pending.map timeless = rest.map timeless := by
  obtain ⟨_, follows⟩ := readUpTo stands whole careful split
  have fits := careful.fits
  rw [startAt stands whole, namedAt whole, newLines, startAt stands whole, (linesAt newline whole).2.1, split,
    placedAppend newline, ← (passedAppend r before mid).1] at fits
  have resumable : Resumable
      (steps (readLine r (sourceOf r s.context) p.clock) s.context (glue newline before).length mid).1 (stillTaken recorded mid)
      (passLine r (passed r (before ++ mid)).1 ((glue newline before).length + (glue newline mid).length) here).2 := by
    cases mid with
    | cons line lines => exact .inl rfl
    | nil =>
      rw [List.append_nil]
      exact stands.resumable here (by rw [split]; rfl)
  obtain ⟨same, _⟩ := readSame follows stands.settled (stepsSettled stands.settled _ _ _ mid) (passedSettled r _) p.clock
    ((glue newline before).length + (glue newline mid).length) here
    (fun event mem => fits (_, event) (List.mem_append_right _ (List.mem_append_left _ (List.mem_map_of_mem mem)))) resumable
  rw [found, ← List.append_assoc, List.map_append] at same
  obtain ⟨done, pending, parts, taken, others⟩ := List.map_eq_append_iff.mp same
  exact ⟨done, pending, parts, taken, others⟩

-- A poll stopped at an event: the lines before its own are passed, and some events of its own
-- line may be taken.
theorem standsStopped (careful : Careful r s p) (busy : startOffset s p ≠ p.bytes.length) {entry : IngestEvent}
    {more : List IngestEvent} (stopped : left r s p = entry :: more) :
    ∃ mid others recorded', after = mid ++ others ∧ Stands r (ingestRollout r s p) (before ++ mid) others recorded' := by
  have all : (readOn r s p).2 = taken r s p ++ entry :: more := by rw [← stopped, takenLeft]
  rw [readAll stands whole] at all
  obtain ⟨mid, here, post, sooner, later, split, takes, within, found⟩ := stepsSplit newline all
  obtain ⟨events, follows⟩ := readUpTo stands whole careful split
  obtain ⟨done, pending, line, doneSame, pendingSame⟩ := stoppedLine stands whole careful split found
  have offsets : ∀ event ∈ sooner ++ entry :: later,
      event.lineOffset = (glue newline before).length + (glue newline mid).length := by
    rw [← found]
    exact readOffsets _ _ _ _
  have place : (glue newline (before ++ mid)).length = (glue newline before).length + (glue newline mid).length := by
    rw [glueAppend, List.length_append]
  have entryAt : entry.lineOffset = (glue newline (before ++ mid)).length :=
    (offsets entry (by simp)).trans place.symm
  have stopAt : stop r s p = (glue newline (before ++ mid)).length := by
    rw [stop, stopped, startAt stands whole]
    simp only [entryAt]
    omega
  have at_ : named r p (stop r s p) = (passed r (before ++ mid)).1 := by
    rw [stopAt]
    exact namedAt (b := here :: post) (by rw [whole, split, List.append_assoc])
  have keeps := kept stands.settled careful (at_ ▸ passedSettled r _)
  rw [at_] at keeps
  have latestTexts : SameTexts (latest r s p) (done.foldl rememberEntry (passed r (before ++ mid)).1) := by
    have read := stepsTexts (r := r) (c := s.context) (sourceOf r s.context) p.clock (glue newline before).length mid
    rw [latest, takes, List.foldl_append]
    have same : sooner.map timeless = sooner.map timeless := rfl
    refine (rememberAlike same (read.symm.trans follows.texts)).trans ?_
    rw [← List.foldl_append]
    exact rememberAlike doneSame.symm (SameTexts.refl _)
  refine ⟨mid, here :: post, done, split, ?_⟩
  rw [ingestForm stands.settled careful.reads (newValid stands whole careful) careful.returns busy]
  generalize storeContext s.context (committed r s p) = stored at keeps ⊢
  refine ⟨?_, ?_, keeps.settled, ⟨⟨keeps.session, fun _ => rfl⟩, ⟨keeps.project, fun _ => rfl⟩,
    keeps.texts.trans latestTexts⟩, fun none => (by cases none), ?_⟩
  · rw [Option.getD_some, stopAt]
  · rw [List.map_append, stands.accepted, takes, (passedAppend r before mid).2]
    have whole := congrArg (fun events => (passed r before).2.map timeless ++ (events ++ sooner.map timeless)) events
    simp only [List.map_append, List.append_assoc] at whole doneSame ⊢
    rw [doneSame]
    exact whole
  · intro first mem
    cases mem
    by_cases none : done = []
    · exact .inl none
    refine .inr ⟨pending, by rw [place, line], fun empty => ?_, fun event mem => ?_⟩
    · rw [empty] at pendingSame
      exact absurd pendingSame (by simp)
    · have some : stillTaken recorded mid ++ sooner ≠ [] := by
        intro empty
        rw [empty] at doneSame
        exact none (List.map_eq_nil_iff.mp doneSame)
      have listed : timeless event ∈ (entry :: later).map timeless := pendingSame ▸ List.mem_map_of_mem mem
      obtain ⟨other, own, same⟩ := List.mem_map.mp listed
      have inLeft : other ∈ left r s p := by
        rw [stopped]
        rcases List.mem_cons.mp own with rfl | after
        · exact List.mem_cons_self
        · exact List.mem_cons_of_mem _ (within.subset after)
      refine timelessKnown keeps.texts same (careful.distinct entry (by rw [stopped]; rfl) other inLeft ?_ ?_)
      · rw [entryAt, place]
        exact offsets other (List.mem_append_right _ own)
      · rw [entryAt, place]
        exact lineAccepted stands split takes found some

end

theorem idleForm (reads : s.offset ≠ none ∨ p.stale = false) (idle : startOffset s p = p.bytes.length) :
    ingestRollout r s p = s := by
  rw [ingestRollout, if_neg (by simp [notSkipped reads])]
  exact if_pos idle

-- One poll.
theorem polled {before after : List (List UInt8)} {recorded : List IngestEvent}
    (stands : Stands r s before after recorded) (whole : lines newline p.bytes = before ++ after) (careful : Careful r s p) :
    ∃ before' after' recorded', lines newline p.bytes = before' ++ after' ∧
      Stands r (ingestRollout r s p) before' after' recorded' ∧ ((∀ index, p.answers index = .ok) → after' = []) := by
  by_cases idle : startOffset s p = p.bytes.length
  · have none : after = [] := by
      have rest := (linesAt newline whole).2.1
      rw [← startAt stands whole, idle, List.drop_length] at rest
      exact rest.symm
    rw [idleForm careful.reads idle]
    exact ⟨before, after, recorded, whole, stands, fun _ => none⟩
  cases stopped : left r s p with
  | nil =>
    exact ⟨before ++ after, [], [], by rw [whole, List.append_nil], standsAll stands whole careful idle stopped, fun _ => rfl⟩
  | cons entry more =>
    obtain ⟨mid, others, recorded', split, next⟩ := standsStopped stands whole careful idle stopped
    refine ⟨before ++ mid, others, recorded', by rw [whole, split, List.append_assoc], next, fun ok => ?_⟩
    have all : taken r s p = (readOn r s p).2 := grantedAll 0 (fun _ _ => ok _)
    have nothing := takenLeft (r := r) (s := s) (p := p)
    rw [stopped, all] at nothing
    have more := congrArg List.length nothing
    simp at more

def Growing (polls : List Poll) : Prop := (polls.map Poll.bytes).IsChain (· <+: ·)

theorem runStands {polls : List Poll} {last : Poll} {bytes : List UInt8} {before after : List (List UInt8)}
    {recorded : List IngestEvent} (stands : Stands r s before after recorded) (whole : lines newline bytes = before ++ after)
    (grows : (bytes :: (polls ++ [last]).map Poll.bytes).IsChain (· <+: ·))
    (careful : Runs.Throughout (ingestRollout r) (Careful r) s (polls ++ [last])) :
    ∃ before' after' recorded', lines newline last.bytes = before' ++ after' ∧
      Stands r (Runs.run (ingestRollout r) s (polls ++ [last])) before' after' recorded' ∧
      ((∀ index, last.answers index = .ok) → after' = []) ∧ ∀ l ∈ lines newline last.bytes, Valid l := by
  induction polls generalizing s bytes before after recorded with
  | nil =>
    obtain ⟨⟨more, same⟩, _⟩ := List.isChain_cons_cons.mp grows
    have grown := (linesAppend newline bytes more).1
    rw [same, whole, List.append_assoc] at grown
    obtain ⟨before', after', recorded', split, next, done⟩ := polled (stands.grow _) grown careful.1
    exact ⟨before', after', recorded', split, next, done, careful.1.valid⟩
  | cons poll polls ih =>
    obtain ⟨⟨more, same⟩, later⟩ := List.isChain_cons_cons.mp grows
    have grown := (linesAppend newline bytes more).1
    rw [same, whole, List.append_assoc] at grown
    obtain ⟨before', after', recorded', split, next, _⟩ := polled (stands.grow _) grown careful.1
    exact ih next split later careful.2

-- The first poll of a file, where nothing fails.
theorem wholeFound (recent : p.stale = false) (ok : ∀ index, p.answers index = .ok)
    (valid : ∀ l ∈ lines newline p.bytes, Valid l) :
    (ingestRollout r unread p).accepted.map timeless = (passed r (lines newline p.bytes)).2.map timeless := by
  have start : startOffset unread p = 0 := by simp [startOffset, unread]
  by_cases idle : startOffset unread p = p.bytes.length
  · have empty : p.bytes = [] := List.length_eq_zero_iff.mp (idle.symm.trans start)
    rw [idleForm (.inr recent) idle, empty]
    rfl
  · have whole : newLines unread p = lines newline p.bytes := by rw [newLines, start, List.drop_zero]
    have takes : taken r unread p = (readOn r unread p).2 := grantedAll 0 (fun _ _ => ok _)
    have read : readOn r unread p =
        steps (readLine r (sourceOf r SessionContext.none) p.clock) SessionContext.none 0 (lines newline p.bytes) := by
      rw [readOn, whole, start]
      rfl
    have fits : ∀ found ∈ placed (passLine r) SessionContext.none 0 (lines newline p.bytes),
        Fits SessionContext.none found.1 found.2 := fun _ _ => ⟨fun _ => .inl rfl, fun _ => .inl rfl⟩
    obtain ⟨events, _⟩ := stepsFollow (standsUnread r []).follows noneSettled noneSettled noneSettled p.clock 0 fits
      (fun _ _ => .inl rfl)
    have none : stillTaken [] (lines newline p.bytes) = [] := by cases lines newline p.bytes <;> rfl
    rw [none, List.append_nil, List.nil_append] at events
    have form := ingestForm (r := r) (s := unread) (p := p) noneSettled (.inr recent) (by rwa [whole])
      (fun index _ => by simp [ok index]) idle
    rw [form, takes, read]
    exact events

-- A run of careful polls has recorded an initial part of what one failure-free pass over the
-- same file records, and all of it where the last poll meets no failure.
theorem failureTransparent (r : Rollout) (polls : List Poll) (last : Poll) (clock : Nat → String)
    (grows : Growing (polls ++ [last]))
    (careful : Runs.Throughout (ingestRollout r) (Careful r) unread (polls ++ [last])) :
    (recordedEvents (Runs.run (ingestRollout r) unread (polls ++ [last]))).map timeless <+:
        (recordedEvents (failureFree r last.bytes clock)).map timeless ∧
      ((∀ index, last.answers index = .ok) →
        (recordedEvents (Runs.run (ingestRollout r) unread (polls ++ [last]))).map timeless =
          (recordedEvents (failureFree r last.bytes clock)).map timeless) := by
  have chained : ([] :: (polls ++ [last]).map Poll.bytes).IsChain (· <+: ·) := by
    cases polls with
    | nil => exact List.isChain_cons_cons.mpr ⟨List.nil_prefix, grows⟩
    | cons poll polls => exact List.isChain_cons_cons.mpr ⟨List.nil_prefix, grows⟩
  obtain ⟨before, after, recorded, whole, stands, done, valid⟩ :=
    runStands (standsUnread r []) (show lines newline [] = [] ++ [] from rfl) chained careful
  have found : (failureFree r last.bytes clock).accepted.map timeless = (passed r (lines newline last.bytes)).2.map timeless :=
    wholeFound rfl (fun _ => rfl) valid
  obtain ⟨part, full⟩ := stands.accounts
  rw [← whole, ← found] at part full
  rw [recordedEvents, recordedEvents, firstByHashTimeless, firstByHashTimeless]
  exact ⟨firstByHashPrefix [] part, fun ok => by rw [full (done ok)]⟩

-- A line as `JSON.stringify` writes it is read back as its object.
theorem lineWritten {host : Host} {entries : List (String × Json)}
    (parses : host.parseJson (Json.stringify (.obj entries)) = some (.obj entries)) :
    lineObject host (buffer (Json.stringify (.obj entries))) = some (Json.stringify (.obj entries), entries) := by
  have text : (Json.stringify (.obj entries)).toList = '{' :: (Json.printEntries entries ++ ['}']) := String.toList_ofList
  have whole : bufferText (buffer (Json.stringify (.obj entries))) = Json.stringify (.obj entries) := by
    rw [bufferText, buffer, Utf8.decodeEncode, String.ofList_toList]
  have plain : cutReturn (Json.stringify (.obj entries)) = Json.stringify (.obj entries) := by
    rw [cutReturn, text, ← List.cons_append, List.getLast?_concat]
    exact if_neg (by decide)
  have trimmed : trim (Json.stringify (.obj entries)) = Json.stringify (.obj entries) := by
    have start : trimStart ('{' :: (Json.printEntries entries ++ ['}'])) = '{' :: (Json.printEntries entries ++ ['}']) :=
      List.dropWhile_cons_of_neg (by decide)
    rw [trim, text, start, trimEnd, ← List.cons_append, List.reverse_append]
    rw [List.reverse_singleton, List.singleton_append, List.dropWhile_cons_of_neg (by decide), ← List.singleton_append,
      ← List.reverse_singleton, ← List.reverse_append, List.reverse_reverse, List.cons_append, ← text, String.ofList_toList]
  have some : Json.stringify (.obj entries) ≠ "" := by
    intro empty
    rw [empty] at text
    cases text
  unfold lineObject
  simp only [whole, plain, trimmed, if_neg some, parses]

def describe (event : IngestEvent) : String × String × String × String × String :=
  (event.eventType, event.sessionId, event.project, promptOf event.payload, contentOf event.payload)

-- Two sessions in one file.
def headed (id cwd : String) : List (String × Json) :=
  [("type", .str "session_meta"), ("payload", .obj [("id", .str id), ("cwd", .str cwd)])]
def said (text : String) : List (String × Json) :=
  [("type", .str "event_msg"), ("payload", .obj [("type", .str "agent_message"), ("message", .str text)])]

def rolloutHost : Host where
  sha256 := id
  toLowerCase := String.toLower
  parseJson := fun text => ([headed "s1" "/a", said "one", headed "s2" "/b"].map Json.obj).find? (fun value =>
    Json.print value = text.toList)
  parseDate := fun _ => none
  millis := fun _ => .nan
  tokenize := fun _ => []
  similar := fun _ _ => false

def rollout : Rollout := ⟨rolloutHost, "k", "rollout-.jsonl", "/default"⟩
def written (entries : List (String × Json)) : List UInt8 := buffer (Json.stringify (.obj entries))
def file (all : List (List (String × Json))) : List UInt8 := glue newline (all.map written)
def refusing (refused : Nat) : Nat → Answer := fun index => if index = refused then .failed else .ok

def entriesKnown : List (List (String × Json)) := [headed "s1" "/a", said "one", headed "s2" "/b"]

theorem knownRead {entries : List (String × Json)} (known : entries ∈ entriesKnown) (source : Source)
    (clock : Nat → String) (context : SessionContext) (offset : Nat) :
    readLine rollout source clock context offset (written entries) =
      handled rolloutHost source clock context offset (Json.stringify (.obj entries)) entries := by
  have parses : rolloutHost.parseJson (Json.stringify (.obj entries)) = some (.obj entries) := by
    have text : (Json.stringify (.obj entries)).toList = Json.print (.obj entries) := String.toList_ofList
    simp only [rolloutHost, text]
    simp only [entriesKnown, List.mem_cons, List.not_mem_nil, or_false] at known
    rcases known with rfl | rfl | rfl <;> rfl
  have object : lineObject rollout.host (written entries) = some (Json.stringify (.obj entries), entries) := lineWritten parses
  unfold readLine
  rw [object]
  rfl

theorem saidKnown : ∀ entries ∈ [said "one"], entries ∈ entriesKnown := by
  intro entries mem
  rw [List.mem_singleton.mp mem]
  exact .tail _ (.head _)

theorem knownLines {all : List (List (String × Json))} (known : ∀ entries ∈ all, entries ∈ entriesKnown) :
    lines newline (file all) = all.map written := by
  have free : ∀ line ∈ all.map written, newline ∉ line := by
    intro line mem
    obtain ⟨entries, listed, rfl⟩ := List.mem_map.mp mem
    have text : (Json.stringify (.obj entries)).toList = Json.print (.obj entries) := String.toList_ofList
    have one := known entries listed
    rw [written, buffer, newlineInside, text]
    simp only [entriesKnown, List.mem_cons, List.not_mem_nil, or_false] at one
    rcases one with rfl | rfl | rfl <;> decide
  have whole := cutGlue newline free []
  rw [List.append_nil] at whole
  rw [lines, file, whole]
  exact List.append_nil _

theorem knownValid {all : List (List (String × Json))} (known : ∀ entries ∈ all, entries ∈ entriesKnown) :
    ∀ l ∈ lines newline (file all), Valid l := by
  rw [knownLines known]
  intro l mem
  obtain ⟨entries, _, rfl⟩ := List.mem_map.mp mem
  exact ⟨_, rfl⟩

theorem headedSays (source : Source) (clock : Nat → String) (context : SessionContext) (offset : Nat) (raw : String) :
    handled rolloutHost source clock context offset raw (headed "s1" "/a") =
        (⟨"s1", "/a", context.lastUserPrompt, context.lastAssistantContent⟩, []) ∧
      handled rolloutHost source clock context offset raw (headed "s2" "/b") =
        (⟨"s2", "/b", context.lastUserPrompt, context.lastAssistantContent⟩, []) := ⟨rfl, rfl⟩

def oneSaid (source : Source) (clock : Nat → String) (context : SessionContext) (offset : Nat) (raw : String) : IngestEvent :=
  ingested rolloutHost source clock offset raw (said "one")
    (createAssistantCheckpoint ⟨said "one", toRecord (Json.get (said "one") "payload"), source⟩ context "event_msg" "one"
      "assistant_response" (some "agent_message"))

theorem oneSays (source : Source) (clock : Nat → String) {context : SessionContext} (new : context.lastAssistantContent = "")
    (offset : Nat) (raw : String) :
    handled rolloutHost source clock context offset raw (said "one") =
      ({context with lastAssistantContent := "one"}, [oneSaid source clock context offset raw]) := by
  have type : str (Json.get (said "one") "type") = "event_msg" := show trim "event_msg" = _ by decide
  have kind : str (Json.get (toRecord (Json.get (said "one") "payload")) "type") = "agent_message" :=
    show trim "agent_message" = _ by decide
  have text : str (Json.get (toRecord (Json.get (said "one") "payload")) "message") = "one" := show trim "one" = _ by decide
  have blank : trim context.lastAssistantContent = "" := by rw [new]; decide
  have event : normalizeEvents ⟨said "one", toRecord (Json.get (said "one") "payload"), source⟩ context =
      [createAssistantCheckpoint ⟨said "one", toRecord (Json.get (said "one") "payload"), source⟩ context "event_msg" "one"
        "assistant_response" (some "agent_message")] := by
    simp [normalizeEvents, normalizeEvent, type, kind, text, blank, firstOfCons]
  simp only [handled, type, event, List.foldl_cons, List.foldl_nil, List.map_cons, List.map_nil]
  rfl

def sessions : List (List (String × Json)) := [headed "s1" "/a", said "one", headed "s2" "/b"]

theorem sessionsRead (source : Source) (clock : Nat → String) {context : SessionContext}
    (new : context.lastAssistantContent = "") (base : Nat) :
    steps (readLine rollout source clock) context base ([said "one", headed "s2" "/b"].map written) =
      (⟨"s2", "/b", context.lastUserPrompt, "one"⟩,
        [oneSaid source clock context base (Json.stringify (.obj (said "one")))]) := by
  rw [List.map_cons, List.map_cons, List.map_nil, stepsCons, stepsCons, steps, knownRead (by simp [entriesKnown]),
    knownRead (by simp [entriesKnown]), oneSays source clock new, (headedSays _ _ _ _ _).2]
  rfl

theorem oneDescribed (source : Source) (clock : Nat → String) (offset : Nat) (raw : String) :
    describe (oneSaid source clock ⟨"s1", "/a", "", ""⟩ offset raw) = ("checkpoint", "s1", "/a", "one", "one") ∧
      describe (oneSaid source clock ⟨"s2", "/b", "", ""⟩ offset raw) = ("checkpoint", "s2", "/b", "one", "one") :=
  ⟨rfl, rfl⟩

def pollOf (answers : Nat → Answer) : Poll := ⟨file sessions, false, fun _ => "", answers⟩

-- One event, refused in the first of two polls.
def onePoll (answers : Nat → Answer) : Poll := ⟨file [said "one"], false, fun _ => "", answers⟩

theorem oneLines : lines newline (file [said "one"]) = [written (said "one")] :=
  show _ = [said "one"].map written from knownLines saidKnown

theorem oneValid (answers : Nat → Answer) : ∀ l ∈ lines newline (onePoll answers).bytes, Valid l := by
  rw [onePoll]
  exact knownValid saidKnown

theorem oneRead {s : Progress SessionContext IngestEvent} (start : s.offset.getD 0 = 0)
    (blank : s.context.lastAssistantContent = "") (answers : Nat → Answer) :
    startOffset s (onePoll answers) = 0 ∧ newLines s (onePoll answers) = [written (said "one")] ∧
      readOn rollout s (onePoll answers) = ({s.context with lastAssistantContent := "one"},
        [oneSaid (sourceOf rollout s.context) (fun _ => "") s.context 0 (Json.stringify (.obj (said "one")))]) := by
  have zero : startOffset s (onePoll answers) = 0 := by simp [startOffset, start]
  have all : newLines s (onePoll answers) = [written (said "one")] := by
    rw [newLines, zero, List.drop_zero, onePoll, oneLines]
  refine ⟨zero, all, ?_⟩
  rw [readOn, all, zero, stepsCons, steps, knownRead (by simp [entriesKnown]), oneSays _ _ blank]
  rfl

theorem onePasses : passLine rollout SessionContext.none 0 (written (said "one")) = (⟨"", "", "", "one"⟩,
    [oneSaid (sourceOf rollout SessionContext.none) (fun _ => "") SessionContext.none 0 (Json.stringify (.obj (said "one")))]) := by
  rw [passLine, knownRead (by simp [entriesKnown]), oneSays _ _ rfl]
  rfl

def oneRefused : Progress SessionContext IngestEvent := ⟨some 0, ⟨"", "/default", "", ""⟩, []⟩

theorem oneCareful : Careful rollout unread (onePoll (refusing 0)) := by
  obtain ⟨start, all, read⟩ := oneRead (s := unread) rfl rfl (refusing 0)
  have takes : taken rollout unread (onePoll (refusing 0)) = [] := by
    rw [taken, read]
    rfl
  have stops : stop rollout unread (onePoll (refusing 0)) = 0 := by
    rw [stop, left, takes, read, start]
    rfl
  have blank : named rollout (onePoll (refusing 0)) 0 = SessionContext.none := rfl
  constructor
  · exact .inr rfl
  · exact oneValid _
  · rw [read]
    exact fun index _ => by unfold onePoll refusing; dsimp only; split <;> decide
  · exact fun _ _ => ⟨fun _ => .inl rfl, fun _ => .inl rfl⟩
  · rw [stops, blank]
    exact fun some => absurd rfl some
  · rw [stops, blank]
    exact fun some => absurd rfl some
  · rw [latest, takes]
    decide
  · rw [takes]
    exact fun _ _ _ _ _ ⟨_, mem, _⟩ => absurd mem List.not_mem_nil

theorem oneStored : ingestRollout rollout unread (onePoll (refusing 0)) = oneRefused := by
  obtain ⟨start, all, read⟩ := oneRead (s := unread) rfl rfl (refusing 0)
  have takes : taken rollout unread (onePoll (refusing 0)) = [] := by
    rw [taken, read]
    rfl
  have stops : stop rollout unread (onePoll (refusing 0)) = 0 := by
    rw [stop, left, takes, read, start]
    rfl
  have keeps : storeContext unread.context (committed rollout unread (onePoll (refusing 0))) = ⟨"", "/default", "", ""⟩ := by
    rw [committed, takes, read]
    decide
  have valid : ∀ l ∈ newLines unread (onePoll (refusing 0)), Valid l := by
    rw [all, ← oneLines]
    exact knownValid saidKnown
  have busy : startOffset unread (onePoll (refusing 0)) ≠ (onePoll (refusing 0)).bytes.length := by
    rw [start, onePoll, file, List.map_cons, glueCons]
    simp
  have form := ingestForm (r := rollout) (s := unread) (p := onePoll (refusing 0)) noneSettled (.inr rfl) valid
    oneCareful.returns busy
  rw [form, stops, keeps, takes]
  rfl

theorem oneRetried : Careful rollout oneRefused (onePoll (fun _ => .ok)) := by
  obtain ⟨start, all, read⟩ := oneRead (s := oneRefused) rfl rfl (fun _ => .ok)
  have takes : taken rollout oneRefused (onePoll (fun _ => .ok)) = (readOn rollout oneRefused (onePoll (fun _ => .ok))).2 :=
    grantedAll 0 (fun _ _ => rfl)
  have none : left rollout oneRefused (onePoll (fun _ => .ok)) = [] := by
    rw [left, takes, List.drop_length]
  have stops : stop rollout oneRefused (onePoll (fun _ => .ok)) = (glue newline [written (said "one")]).length := by
    rw [stop, none, start, Nat.zero_add]
    exact congrArg (fun all => (glue newline all).length) oneLines
  have ends := namedAt (r := rollout) (p := onePoll (fun _ => .ok)) (b := []) (oneLines.trans (List.append_nil _).symm)
  rw [passed, stepsCons, steps, onePasses, ← stops] at ends
  constructor
  · exact .inr rfl
  · exact oneValid _
  · exact fun _ _ => by simp [onePoll]
  · rw [start, all, show named rollout (onePoll (fun _ => .ok)) 0 = SessionContext.none from rfl, placed, placed, onePasses]
    intro found mem
    obtain rfl := List.mem_singleton.mp mem
    exact ⟨fun _ => .inl rfl, fun _ => .inr rfl⟩
  · rw [ends]
    exact fun some => absurd rfl some
  · rw [ends]
    exact fun some => absurd rfl some
  · rw [latest, takes, read]
    decide
  · rw [none]
    exact fun _ mem => by cases mem

theorem failureTransparentOnce :
    Growing ([onePoll (refusing 0)] ++ [onePoll (fun _ => .ok)]) ∧
      (recordedEvents (Runs.run (ingestRollout rollout) unread ([onePoll (refusing 0)] ++ [onePoll (fun _ => .ok)]))).map timeless =
        (recordedEvents (failureFree rollout (onePoll (fun _ => .ok)).bytes (fun _ => ""))).map timeless := by
  have grows : Growing ([onePoll (refusing 0)] ++ [onePoll (fun _ => .ok)]) :=
    List.isChain_cons_cons.mpr ⟨List.prefix_refl _, .singleton _⟩
  exact ⟨grows, (failureTransparent rollout [onePoll (refusing 0)] (onePoll (fun _ => .ok)) (fun _ => "") grows
    ⟨oneCareful, oneStored ▸ oneRetried, trivial⟩).2 (fun _ => rfl)⟩

theorem sessionsLines : lines newline (file sessions) = sessions.map written := knownLines (fun _ mem => mem)

theorem sessionsWhole (clock : Nat → String) :
    steps (readLine rollout (sourceOf rollout SessionContext.none) clock) SessionContext.none 0 (sessions.map written) =
      (⟨"s2", "/b", "", "one"⟩, [oneSaid (sourceOf rollout SessionContext.none) clock ⟨"s1", "/a", "", ""⟩
        ((written (headed "s1" "/a")).length + 1) (Json.stringify (.obj (said "one")))]) := by
  rw [sessions, List.map_cons, stepsCons, knownRead (by simp [entriesKnown]), (headedSays _ _ _ _ _).1,
    sessionsRead _ _ rfl, Nat.zero_add]
  rfl

theorem sessionsUnread (answers : Nat → Answer) : startOffset unread (pollOf answers) = 0 ∧
    readOn rollout unread (pollOf answers) =
      (⟨"s2", "/b", "", "one"⟩, [oneSaid (sourceOf rollout SessionContext.none) (fun _ => "") ⟨"s1", "/a", "", ""⟩
        ((written (headed "s1" "/a")).length + 1) (Json.stringify (.obj (said "one")))]) := by
  have start : startOffset unread (pollOf answers) = 0 := by simp [startOffset, unread]
  refine ⟨start, ?_⟩
  rw [readOn, newLines, start, List.drop_zero, show unread.context = SessionContext.none from rfl]
  exact (congrArg _ sessionsLines).trans (sessionsWhole _)

theorem sessionsFirst (answers : Nat → Answer) (returns : answers 0 ≠ .thrown) :
    ingestRollout rollout unread (pollOf answers) =
      ⟨some (stop rollout unread (pollOf answers)),
        storeContext unread.context (committed rollout unread (pollOf answers)),
        unread.accepted ++ taken rollout unread (pollOf answers)⟩ := by
  obtain ⟨start, read⟩ := sessionsUnread answers
  refine ingestForm noneSettled (.inr rfl) ?_ ?_ ?_
  · rw [newLines, start, List.drop_zero, pollOf]
    exact knownValid (fun _ mem => mem)
  · intro index within
    rw [read] at within
    obtain rfl : index = 0 := by simpa using within
    exact returns
  · rw [start, pollOf, file, sessions, List.map_cons, glueCons]
    simp

def refusedOnce : Progress SessionContext IngestEvent :=
  ⟨some ((written (headed "s1" "/a")).length + 1), ⟨"s2", "/b", "", ""⟩, []⟩

theorem refusedStored : ingestRollout rollout unread (pollOf (refusing 0)) =
    refusedOnce := by
  obtain ⟨start, read⟩ := sessionsUnread (refusing 0)
  have takes : taken rollout unread (pollOf (refusing 0)) = [] := by
    rw [taken, read]
    rfl
  have stops : stop rollout unread (pollOf (refusing 0)) = (written (headed "s1" "/a")).length + 1 := by
    rw [stop, left, takes, read, start]
    exact Nat.zero_max _
  have keeps : storeContext unread.context (committed rollout unread (pollOf (refusing 0))) = ⟨"s2", "/b", "", ""⟩ := by
    rw [committed, takes, read]
    decide
  rw [sessionsFirst (refusing 0) (by decide), stops, keeps, takes]
  rfl

theorem retriedStored (source : Source) (same : source = sourceOf rollout refusedOnce.context) :
    (ingestRollout rollout refusedOnce (pollOf (fun _ => .ok))).accepted =
      [oneSaid source (fun _ => "") ⟨"s2", "/b", "", ""⟩ ((written (headed "s1" "/a")).length + 1)
        (Json.stringify (.obj (said "one")))] := by
  have split : lines newline (file sessions) =
      [written (headed "s1" "/a")] ++ [said "one", headed "s2" "/b"].map written := sessionsLines
  have first : (glue newline [written (headed "s1" "/a")]).length = (written (headed "s1" "/a")).length + 1 := by simp
  obtain ⟨_, rest, size⟩ := linesAt newline split
  rw [first] at rest size
  have text := congrArg List.length (glueCut newline (file sessions))
  rw [List.length_append] at text
  unfold consumed at size
  have start : startOffset refusedOnce (pollOf (fun _ => .ok)) = (written (headed "s1" "/a")).length + 1 :=
    if_neg (show ¬ (file sessions).length < (written (headed "s1" "/a")).length + 1 by omega)
  have all : newLines refusedOnce (pollOf (fun _ => .ok)) = [said "one", headed "s2" "/b"].map written := by
    rw [newLines, start]
    exact rest
  have blank : refusedOnce.context.lastAssistantContent = "" := rfl
  have read := sessionsRead source (pollOf (fun _ => .ok)).clock blank ((written (headed "s1" "/a")).length + 1)
  have takes : taken rollout refusedOnce (pollOf (fun _ => .ok)) = (readOn rollout refusedOnce (pollOf (fun _ => .ok))).2 :=
    grantedAll 0 (fun _ _ => rfl)
  have busy : startOffset refusedOnce (pollOf (fun _ => .ok)) ≠ (file sessions).length := by
    intro idle
    rw [start] at idle
    rw [idle, List.drop_length] at rest
    cases rest
  have settled : refusedOnce.context.Settled := show refusedOnce.context.normal = refusedOnce.context by decide
  have valid : ∀ l ∈ newLines refusedOnce (pollOf (fun _ => .ok)), Valid l := by
    rw [all]
    exact fun l mem => knownValid (fun _ mem => mem) l (split ▸ List.mem_append_right _ mem)
  rw [ingestForm settled (.inr rfl) valid (fun _ _ => by simp [pollOf]) busy, takes, readOn, all, start, ← same]
  rw [read, show refusedOnce.accepted = [] from rfl, List.nil_append]
  rfl

-- The only event is refused once: it comes out under the session and project the file ends with.
theorem refusedMisattributed :
    (recordedEvents (Runs.run (ingestRollout rollout) unread [pollOf (refusing 0), pollOf (fun _ => .ok)])).map describe =
        [("checkpoint", "s2", "/b", "one", "one")] ∧
      (recordedEvents (failureFree rollout (file sessions) (fun _ => ""))).map describe =
        [("checkpoint", "s1", "/a", "one", "one")] := by
  constructor
  · rw [Runs.runCons, Runs.runCons, Runs.runNil, refusedStored, recordedEvents, retriedStored _ rfl]
    exact congrArg (fun one => [one]) (oneDescribed _ _ _ _).2
  · have takes : taken rollout unread (pollOf (fun _ => .ok)) = (readOn rollout unread (pollOf (fun _ => .ok))).2 :=
      grantedAll 0 (fun _ _ => rfl)
    rw [failureFree, show (⟨file sessions, false, fun _ => "", fun _ => .ok⟩ : Poll) = pollOf (fun _ => .ok) from rfl,
      sessionsFirst _ (by decide), takes, (sessionsUnread _).2, recordedEvents]
    exact congrArg (fun one => [one]) (oneDescribed _ _ _ _).1

end

end HarnessMem.CodexRollouts
