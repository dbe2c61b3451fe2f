import HarnessMem.CodexHistory
import HarnessMem.CodexSessions
import HarnessMem.HookEvents
import HarnessMem.Lib.Runs

/-! Polling a growing file: read from the stored offset, parse, record every event, store the
next offset. The four ingesters that never look back at what `recordEvent` answered. -/
namespace HarnessMem.IngestOffsets
open Js Text JsonLines LineStream

-- What `recordEvent` does with one event: its `ok` flag, or an exception.
inductive Answer where | ok | failed | thrown
  deriving DecidableEq, Repr

-- What one poll meets. A stale file was last written before the backfill cutoff.
structure Poll where
  bytes : List UInt8
  stale : Bool
  clock : Nat → String
  answers : Nat → Answer

-- Claude Code's options: read from the start again, and read at most so many bytes.
structure Options where
  replay : Bool
  limit : Option Nat
def Options.whole : Options := ⟨false, none⟩

-- The events recorded and whether an exception cut the loop short.
def recordAll {Event : Type} (answers : Nat → Answer) : Nat → List Event → List Event × Bool
  | _, [] => ([], false)
  | index, event :: others =>
    match answers index with
    | .thrown => ([], true)
    | .failed => recordAll answers (index + 1) others
    | .ok =>
      let later := recordAll answers (index + 1) others
      (event :: later.1, later.2)

theorem recordThrown {Event : Type} (answers : Nat → Answer) (index : Nat) (events : List Event) :
    (recordAll answers index events).2 = true ↔
      ∃ later event, events[later]? = some event ∧ answers (index + later) = .thrown := by
  induction events generalizing index with
  | nil => simp [recordAll]
  | cons event others ih =>
    have step : (∃ later found, (event :: others)[later]? = some found ∧ answers (index + later) = .thrown) ↔
        answers index = .thrown ∨ ∃ later found, others[later]? = some found ∧ answers (index + 1 + later) = .thrown := by
      constructor
      · rintro ⟨later, found, at_, thrown⟩
        cases later with
        | zero => exact .inl thrown
        | succ later => exact .inr ⟨later, found, at_, by rwa [Nat.add_right_comm]⟩
      · rintro (thrown | ⟨later, found, at_, thrown⟩)
        · exact ⟨0, event, rfl, thrown⟩
        · exact ⟨later + 1, found, at_, by rwa [Nat.add_right_comm] at thrown⟩
    rw [step, recordAll]
    cases here : answers index with
    | thrown => simp
    | failed => simpa [here] using ih (index + 1)
    | ok => simpa [here] using ih (index + 1)

theorem recordTaken {Event : Type} {answers : Nat → Answer} {index : Nat} {events : List Event}
    (whole : (recordAll answers index events).2 = false) (found : Event) :
    found ∈ (recordAll answers index events).1 ↔
      ∃ later, events[later]? = some found ∧ answers (index + later) = .ok := by
  induction events generalizing index with
  | nil => simp [recordAll]
  | cons event others ih =>
    have step : (∃ later, (event :: others)[later]? = some found ∧ answers (index + later) = .ok) ↔
        (event = found ∧ answers index = .ok) ∨ ∃ later, others[later]? = some found ∧ answers (index + 1 + later) = .ok := by
      constructor
      · rintro ⟨later, at_, ok⟩
        cases later with
        | zero => exact .inl ⟨Option.some.inj at_, ok⟩
        | succ later => exact .inr ⟨later, at_, by rwa [Nat.add_right_comm]⟩
      · rintro (⟨rfl, ok⟩ | ⟨later, at_, ok⟩)
        · exact ⟨0, rfl, ok⟩
        · exact ⟨later + 1, at_, by rwa [Nat.add_right_comm] at ok⟩
    rw [step]
    rw [recordAll] at whole ⊢
    cases here : answers index with
    | thrown => simp [here] at whole
    | failed =>
      simp only [here] at whole ⊢
      simpa using ih whole
    | ok =>
      simp only [here] at whole ⊢
      rw [List.mem_cons, ih whole]
      simp [eq_comm]

-- One ingester: how it parses, line by line where the lines are valid text, what it keeps of the
-- context, whether it skips old files, and whether it stores an offset that did not move.
structure Ingester (Ctx Event : Type) where
  parse : (Nat → String) → Nat → Ctx → String → Except String (Scan Ctx Event)
  start : Ctx → Ctx
  line : (Nat → String) → Nat → Ctx → Nat → List UInt8 → Except String (Ctx × List Event)
  lawful : ∀ clock base context bytes, (∀ l ∈ lines newline bytes, Valid l) →
    parse clock base context (bufferText bytes) = scan newline (line clock base) base (start context) bytes
  fresh : Ctx
  keep : Ctx → Ctx → Ctx
  backfills : Bool
  always : Bool

-- The stored row of one source, its context, and all events recorded so far.
structure Progress (Ctx Event : Type) where
  offset : Option Nat
  context : Ctx
  accepted : List Event

section
variable {Ctx Event : Type} (g : Ingester Ctx Event) (s : Progress Ctx Event) (o : Options) (p : Poll)

def startOffset : Nat := if p.bytes.length < s.offset.getD 0 then 0 else s.offset.getD 0
def readOffset : Nat := if o.replay then 0 else startOffset s p
def readSize : Nat :=
  let remaining := p.bytes.length - readOffset s o p
  match o.limit with
  | none => remaining
  | some limit => min remaining limit
def chunk : List UInt8 := (p.bytes.drop (readOffset s o p)).take (readSize s o p)
def loaded : Ctx := if o.replay then g.fresh else s.context

def skipped : Bool := s.offset.isNone && g.backfills && !o.replay && p.stale
def idle : Bool := (!o.replay && startOffset s p = p.bytes.length) || readSize s o p = 0

structure Outcome (Ctx Event : Type) where
  stored : Option Nat
  context : Ctx
  recorded : List Event

def outcome : Outcome Ctx Event :=
  if skipped g s o p then ⟨some p.bytes.length, s.context, []⟩
  else if idle s o p then ⟨none, s.context, []⟩
  else match g.parse p.clock (readOffset s o p) (loaded g s o) (bufferText (chunk s o p)) with
    | .error _ => ⟨none, s.context, []⟩
    | .ok parsed =>
      let done := recordAll p.answers 0 parsed.events
      if done.2 then ⟨none, s.context, done.1⟩
      else
        let next := readOffset s o p + parsed.consumed
        ⟨if g.always || 0 < parsed.consumed then some (max (startOffset s p) next) else none,
          g.keep s.context parsed.context, done.1⟩

def ingestFile : Progress Ctx Event :=
  let out := outcome g s o p
  ⟨out.stored.orElse (fun _ => s.offset), out.context, s.accepted ++ out.recorded⟩

-- Reading the file on from where this poll reads, the line that ends at `fin` yields the event.
def LineYields (text : List UInt8) (fin : Nat) (event : Event) : Prop :=
  Yields (g.line p.clock (readOffset s o p)) (readOffset s o p) (g.start (loaded g s o)) (lines newline text) fin event

-- No line is passed whose event has not been recorded.
def Faithful : Prop :=
  ∀ stop ∈ (outcome g s o p).stored, ∀ fin event, LineYields g s o p (p.bytes.drop (readOffset s o p)) fin event →
    startOffset s p < fin → fin ≤ stop → event ∈ (ingestFile g s o p).accepted

def Readable : Prop := ∀ l ∈ lines newline (p.bytes.drop (readOffset s o p)), Valid l

-- Every event read past the offset is answered ok or known already, and so is every event of a
-- skipped file; an exception, in the parser or from `recordEvent`, stores no offset at all.
def Unfailing : Prop :=
  if skipped g s o p then ∀ fin event, LineYields g s o p p.bytes fin event → event ∈ s.accepted
  else idle s o p = false → ∀ parsed,
    g.parse p.clock (readOffset s o p) (loaded g s o) (bufferText (chunk s o p)) = .ok parsed →
      (∃ index event, parsed.events[index]? = some event ∧ p.answers index = .thrown) ∨
        ∀ fin event, LineYields g s o p (chunk s o p) fin event → startOffset s p < fin →
          (∃ index, parsed.events[index]? = some event ∧ p.answers index = .ok) ∨ event ∈ s.accepted

variable {g s o p}

theorem chunkLines : lines newline (p.bytes.drop (readOffset s o p)) =
    lines newline (chunk s o p) ++ lines newline (rest newline (chunk s o p) ++
      (p.bytes.drop (readOffset s o p)).drop (readSize s o p)) := by
  rw [← (linesAppend newline _ _).1, chunk, List.take_append_drop]

-- Up to where the poll stops consuming, the file's lines are the lines of the chunk.
theorem yieldsChunk {fin : Nat} {event : Event} : LineYields g s o p (chunk s o p) fin event ↔
    LineYields g s o p (p.bytes.drop (readOffset s o p)) fin event ∧
      fin ≤ readOffset s o p + consumed newline (chunk s o p) := by
  unfold LineYields
  rw [chunkLines]
  exact ⟨fun yields => ⟨yieldsAppend yields _, (yieldsBound newline yields).2⟩,
    fun ⟨yields, within⟩ => yieldsWithin newline yields within⟩

theorem skippedStart (skip : skipped g s o p = true) : startOffset s p = 0 ∧ readOffset s o p = 0 := by
  simp only [skipped, Bool.and_eq_true, Option.isNone_iff_eq_none] at skip
  have zero : startOffset s p = 0 := by simp [startOffset, skip.1.1.1]
  exact ⟨zero, by unfold readOffset; split <;> simp [zero]⟩

theorem faithfulSkipped (skip : skipped g s o p = true) : Faithful g s o p ↔ Unfailing g s o p := by
  obtain ⟨start, read⟩ := skippedStart skip
  unfold Faithful Unfailing ingestFile outcome
  rw [if_pos skip, if_pos skip, read, List.drop_zero, start]
  simp only [List.append_nil, Option.mem_def, Option.some.injEq]
  constructor
  · intro faithful fin event yields
    have bound := yieldsBound newline yields
    have size : (glue newline (lines newline p.bytes)).length ≤ p.bytes.length := by
      have whole := congrArg List.length (glueCut newline p.bytes)
      rw [List.length_append] at whole
      omega
    rw [read] at bound
    exact faithful _ rfl fin event yields (by omega) (by omega)
  · intro known stop _ fin event yields _ _
    exact known fin event yields

theorem faithfulRead (readable : Readable s o p) (reads : skipped g s o p = false) (busy : idle s o p = false)
    {parsed : Scan Ctx Event}
    (ok : g.parse p.clock (readOffset s o p) (loaded g s o) (bufferText (chunk s o p)) = .ok parsed) :
    Faithful g s o p ↔ Unfailing g s o p := by
  have valid : ∀ l ∈ lines newline (chunk s o p), Valid l := fun l mem =>
    readable l (chunkLines ▸ List.mem_append_left _ mem)
  have law := g.lawful p.clock (readOffset s o p) (loaded g s o) (chunk s o p) valid
  rw [ok] at law
  obtain ⟨done, folded, same⟩ := mapOk law.symm
  have events : ∀ event, event ∈ parsed.events ↔ ∃ fin, LineYields g s o p (chunk s o p) fin event := by
    intro event
    rw [← same]
    exact foldYields folded
  have stop : parsed.consumed = consumed newline (chunk s o p) := by rw [← same]
  have thrown := recordThrown p.answers 0 parsed.events
  simp only [Nat.zero_add] at thrown
  unfold Faithful Unfailing ingestFile outcome
  rw [if_neg (by simp [reads]), if_neg (by simp [busy]), if_neg (by simp [reads])]
  simp only [ok, Except.ok.injEq, forall_eq', busy, true_implies]
  by_cases broken : (recordAll p.answers 0 parsed.events).2 = true
  · rw [if_pos broken]
    refine ⟨fun _ => .inl (thrown.mp broken), fun _ stop none => ?_⟩
    cases none
  · have taken := fun event => recordTaken (Bool.eq_false_of_not_eq_true broken) event
    simp only [Nat.zero_add] at taken
    rw [if_neg broken, or_iff_right (fun some => broken (thrown.mpr some))]
    simp only [stop, List.mem_append, taken]
    constructor
    · intro faithful fin event yields past
      obtain ⟨whole, within⟩ := yieldsChunk.mp yields
      have moved : (g.always || decide (0 < consumed newline (chunk s o p))) = true := by
        have := yieldsBound newline yields
        have : 0 < consumed newline (chunk s o p) := by unfold consumed; omega
        simp [this]
      rw [if_pos moved] at faithful
      rw [or_comm]
      exact faithful _ rfl fin event whole past (by omega)
    · intro answered stop at_ fin event yields past within
      split at at_
      · cases at_
        have inside : fin ≤ readOffset s o p + consumed newline (chunk s o p) := by omega
        rw [or_comm]
        exact answered fin event (yieldsChunk.mpr ⟨yields, inside⟩) past
      · cases at_

theorem faithfulIff (readable : Readable s o p) : Faithful g s o p ↔ Unfailing g s o p := by
  by_cases skip : skipped g s o p = true
  · exact faithfulSkipped skip
  have reads := Bool.eq_false_of_not_eq_true skip
  by_cases rests : idle s o p = true
  · unfold Faithful Unfailing outcome
    rw [if_neg skip, if_pos rests, if_neg skip]
    exact ⟨fun _ busy => absurd (rests.symm.trans busy) (by decide), fun _ stop none => (by cases none)⟩
  have busy := Bool.eq_false_of_not_eq_true rests
  cases ok : g.parse p.clock (readOffset s o p) (loaded g s o) (bufferText (chunk s o p)) with
  | ok parsed => exact faithfulRead readable reads busy ok
  | error thrown =>
    unfold Faithful Unfailing outcome
    rw [if_neg skip, if_neg rests, if_neg skip]
    simp only [ok]
    exact ⟨fun _ _ parsed impossible => (by cases impossible), fun _ stop none => (by cases none)⟩

end

section
variable {Ctx Event : Type} (g : Ingester Ctx Event)

def poll (s : Progress Ctx Event) (input : Options × Poll) : Progress Ctx Event := ingestFile g s input.1 input.2

-- Over any run whose polls read valid lines: nothing is passed unrecorded in any of them exactly
-- when none of them meets a failure.
def ExactOver (polls : List (Options × Poll)) : Prop :=
  ∀ s : Progress Ctx Event, Runs.Throughout (poll g) (fun s input => Readable s input.1 input.2) s polls →
    (Runs.Throughout (poll g) (fun s input => Faithful g s input.1 input.2) s polls ↔
      Runs.Throughout (poll g) (fun s input => Unfailing g s input.1 input.2) s polls)

theorem exactOver (polls : List (Options × Poll)) : ExactOver g polls :=
  fun _ readable => Runs.throughoutIff (poll g) (fun _ _ here => faithfulIff here) readable

end

def claudeCode (host : Host) (source : Source) : Ingester SessionContext IngestEvent where
  parse := ClaudeCodeSessions.parseClaudeCodeChunk host source
  start := SessionContext.normal
  line := fun clock _ => jsonLine host (ClaudeCodeSessions.handle host source clock)
  lawful := fun clock base context _ valid =>
    parseRead host (ClaudeCodeSessions.handle host source clock) base context.normal valid
  fresh := SessionContext.none
  keep := fun kept parsed => storeContext kept {parsed with
    sessionId := firstOf [parsed.sessionId, source.defaultSessionId]
    project := firstOf [parsed.project, source.defaultProject]}
  backfills := true
  always := true

def cursorHooks (spool : Spool) (sourceKey : String) : Ingester Unit IngestEvent where
  parse := fun clock base _ chunk => CursorHooks.parseCursorHooksChunk spool sourceKey clock base chunk
  start := id
  line := fun clock _ => jsonLine spool.toHost (CursorHooks.handle spool sourceKey clock)
  lawful := fun clock base _ _ valid => parseRead spool.toHost (CursorHooks.handle spool sourceKey clock) base () valid
  fresh := ()
  keep := fun kept _ => kept
  backfills := true
  always := false

def geminiEvents (spool : Spool) (sourceKey : String) : Ingester Unit IngestEvent where
  parse := fun clock base _ chunk => GeminiEvents.parseGeminiEventsChunk spool sourceKey clock base chunk
  start := id
  line := fun clock _ => jsonLine spool.toHost (GeminiEvents.handle spool sourceKey clock)
  lawful := fun clock base _ _ valid => parseRead spool.toHost (GeminiEvents.handle spool sourceKey clock) base () valid
  fresh := ()
  keep := fun kept _ => kept
  backfills := true
  always := false

def legacyCodexHistory (host : Host) (sourceKey : String) : Ingester Nat CodexHistory.CodexHistoryEvent where
  parse := CodexHistory.readChunk host sourceKey
  start := fun _ => 0
  line := CodexHistory.lineBytes host sourceKey
  lawful := fun clock base context _ valid => CodexHistory.readChunkLines host sourceKey clock base context valid
  fresh := 0
  keep := fun kept _ => kept
  backfills := false
  always := true

-- One file of one poll of each source.
def ingestClaudeCodeSessions (host : Host) (source : Source) := ingestFile (claudeCode host source)
def ingestCursorHooksEvents (spool : Spool) (sourceKey : String) (s : Progress Unit IngestEvent) :=
  ingestFile (cursorHooks spool sourceKey) s Options.whole
def ingestGeminiEvents (spool : Spool) (sourceKey : String) (s : Progress Unit IngestEvent) :=
  ingestFile (geminiEvents spool sourceKey) s Options.whole
def ingestLegacyCodexHistoryFile (host : Host) (sourceKey : String) (s : Progress Nat CodexHistory.CodexHistoryEvent) :=
  ingestFile (legacyCodexHistory host sourceKey) s Options.whole

-- The other three always read the whole of what is new.
def wholly (polls : List Poll) : List (Options × Poll) := polls.map (fun p => (Options.whole, p))

theorem offsetsExact (host : Host) (source : Source) (spool : Spool) (sourceKey : String) :
    (∀ polls, ExactOver (claudeCode host source) polls) ∧
      (∀ polls, ExactOver (cursorHooks spool sourceKey) (wholly polls)) ∧
      (∀ polls, ExactOver (geminiEvents spool sourceKey) (wholly polls)) ∧
      ∀ polls, ExactOver (legacyCodexHistory host sourceKey) (wholly polls) :=
  ⟨fun polls => exactOver _ polls, fun polls => exactOver _ (wholly polls), fun polls => exactOver _ (wholly polls),
    fun polls => exactOver _ (wholly polls)⟩

def untouched : Progress Unit IngestEvent := ⟨none, (), []⟩
def refusedPoll : Poll := ⟨buffer "x\n", false, fun _ => "", fun _ => .failed⟩

def yielded (done : Except String (Unit × List IngestEvent)) : Nat :=
  match done with
  | .ok result => result.2.length
  | .error _ => 0

theorem stopYields : ∃ event, LineYields (cursorHooks stopSpool "k") untouched Options.whole refusedPoll
    (buffer "x\n") 2 event := by
  have one : yielded (jsonLine stopSpool.toHost (CursorHooks.handle stopSpool "k" (fun _ => "")) () 0 (buffer "x")) = 1 := by
    decide +kernel
  cases found : jsonLine stopSpool.toHost (CursorHooks.handle stopSpool "k" (fun _ => "")) () 0 (buffer "x") with
  | error thrown => rw [found] at one; cases one
  | ok result =>
    rw [found] at one
    obtain ⟨event, single⟩ := List.length_eq_one_iff.mp one
    exact ⟨event, .here found (single ▸ List.mem_singleton_self event)⟩

-- The only event is refused, and the offset moves past it all the same.
theorem refusedSkipped :
    (outcome (cursorHooks stopSpool "k") untouched Options.whole refusedPoll).stored = some 2 ∧
      (ingestCursorHooksEvents stopSpool "k" untouched refusedPoll).accepted.length = 0 ∧
      ¬ Faithful (cursorHooks stopSpool "k") untouched Options.whole refusedPoll := by
  have stored : (outcome (cursorHooks stopSpool "k") untouched Options.whole refusedPoll).stored = some 2 := by
    decide +kernel
  have nothing : (ingestCursorHooksEvents stopSpool "k" untouched refusedPoll).accepted.length = 0 := by decide +kernel
  refine ⟨stored, nothing, fun faithful => ?_⟩
  obtain ⟨event, yields⟩ := stopYields
  have mem : event ∈ (ingestCursorHooksEvents stopSpool "k" untouched refusedPoll).accepted :=
    faithful 2 stored 2 event yields (by decide) (le_refl 2)
  rw [List.length_eq_zero_iff.mp nothing] at mem
  exact absurd mem List.not_mem_nil

end HarnessMem.IngestOffsets
