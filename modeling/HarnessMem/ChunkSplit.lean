import HarnessMem.CodexSessions
import HarnessMem.HookEvents

/-! A file parsed in several reads, cut at any bytes, against the same file parsed in one. -/
namespace HarnessMem.ChunkSplit
open Js Text JsonLines LineStream

section
variable {Ctx : Type}

-- A chunk parser: the clock of the call, the base offset, the context, the chunk.
abbrev Parser (Ctx : Type) := (Nat → String) → Nat → Ctx → String → Except String (Scan Ctx IngestEvent)

-- Successive reads, each under its own clock: a read starts where the one before stopped consuming.
def readPiece (parse : Parser Ctx) (piece : (Nat → String) × List UInt8) :
    (Nat → Ctx → List UInt8 → Except String (Scan Ctx IngestEvent)) × List UInt8 :=
  (fun base context bytes => parse piece.1 base context (bufferText bytes), piece.2)
def readAll (parse : Parser Ctx) (base : Nat) (context : Ctx) (pieces : List ((Nat → String) × List UInt8)) :
    Except String (Scan Ctx IngestEvent) := reads base context [] (pieces.map (readPiece parse))

def SplitInvariant (alike : (Nat → String) → (Nat → String) → Prop) (parse : Parser Ctx) : Prop :=
  ∀ now base context text pieces, pieces ≠ [] → (pieces.map Prod.snd).flatten = Utf8.encode text →
    (∀ piece ∈ pieces, alike now piece.1) →
      (readAll parse base context pieces).map (Scan.map timeless) =
        (parse now base context (String.ofList text)).map (Scan.map timeless)

def ConsumesLines (parse : Parser Ctx) : Prop :=
  ∀ now base context bytes result, (∀ line ∈ lines newline bytes, Valid line) →
    parse now base context (bufferText bytes) = .ok result → result.consumed = upToLast newline bytes

def anyClock : (Nat → String) → (Nat → String) → Prop := fun _ _ => True
-- All readings fall on one day.
def sameDay : (Nat → String) → (Nat → String) → Prop :=
  fun now other => ∀ offset, slice (other offset) 0 10 = slice (now offset) 0 10

theorem consumesLines (host : Host) (handle : (Nat → String) → Handler Ctx) (normal : Ctx → Ctx) :
    ConsumesLines (fun now base context chunk => parseChunk host (handle now) base (normal context) chunk) := by
  intro now base context bytes result valid ok
  simp only [parseRead host (handle now) base (normal context) valid, scan] at ok
  obtain ⟨done, _, rfl⟩ := mapOk ok
  exact consumedUpToLast newline bytes

theorem lineThrough {host : Host} {handle other : Handler Ctx}
    (same : ∀ context offset rawLine parsed,
      through timeless (other context offset rawLine parsed) = through timeless (handle context offset rawLine parsed)) :
    (fun context offset bytes => through timeless (jsonLine host other context offset bytes)) =
      fun context offset bytes => through timeless (jsonLine host handle context offset bytes) := by
  funext context offset bytes
  unfold jsonLine
  split
  · rfl
  · exact same _ _ _ _

def timelessPiece (parse : Parser Ctx) (piece : (Nat → String) × List UInt8) :
    (Nat → Ctx → List UInt8 → Except String (Scan Ctx IngestEvent)) × List UInt8 :=
  (fun base context bytes => ((readPiece parse piece).1 base context bytes).map (Scan.map timeless), piece.2)

theorem splitInvariant (host : Host) {handle : (Nat → String) → Handler Ctx} {normal : Ctx → Ctx}
    {alike : (Nat → String) → (Nat → String) → Prop} (idem : ∀ context, normal (normal context) = normal context)
    (keep : ∀ {now context offset rawLine parsed next events}, normal context = context →
      handle now context offset rawLine parsed = .ok (next, events) → normal next = next)
    (same : ∀ {now other}, alike now other → ∀ context offset rawLine parsed,
      through timeless (handle other context offset rawLine parsed) =
        through timeless (handle now context offset rawLine parsed)) :
    SplitInvariant alike (fun now base context chunk => parseChunk host (handle now) base (normal context) chunk) := by
  intro now base context text pieces nonempty flat clocks
  let parse : Parser Ctx := fun now base context chunk => parseChunk host (handle now) base (normal context) chunk
  let line := fun context offset bytes => through timeless (jsonLine host (handle now) context offset bytes)
  have agree : ∀ read ∈ pieces.map (timelessPiece parse), ∀ base context bytes,
      (∀ l ∈ lines newline bytes, Valid l) → read.1 base context bytes = scan newline line base (normal context) bytes := by
    intro read mem base context bytes valid
    obtain ⟨piece, held, rfl⟩ := List.mem_map.mp mem
    change (parseChunk host (handle piece.1) base (normal context) (bufferText bytes)).map (Scan.map timeless) = _
    rw [parseRead host (handle piece.1) base (normal context) valid, scanThrough,
      lineThrough (same (clocks piece held))]
  have keepLine : ∀ {context offset bytes next events}, normal context = context →
      line context offset bytes = .ok (next, events) → normal next = next := by
    intro context offset bytes next events settled ok
    obtain ⟨done, handled, same⟩ := mapOk ok
    cases same
    unfold jsonLine at handled
    split at handled
    · cases handled; exact settled
    · exact keep settled handled
  have cut : ((pieces.map (timelessPiece parse)).map Prod.snd).flatten = Utf8.encode text := by
    rw [List.map_map]
    exact flat
  -- The first read settles the context; every later one is handed a settled one.
  have settle : reads base context [] (pieces.map (timelessPiece parse)) =
      reads base (normal context) [] (pieces.map (timelessPiece parse)) := by
    cases pieces with
    | nil => exact absurd rfl nonempty
    | cons piece others => simp only [List.map_cons, reads, timelessPiece, readPiece, parse, idem]
  have all : reads base (normal context) [] (pieces.map (timelessPiece parse)) =
      scan newline line base (normal context) ([] ++ ((pieces.map (timelessPiece parse)).map Prod.snd).flatten) :=
    readsWhole newline agree keepLine base List.not_mem_nil (idem context) (by rw [cut]; exact linesValid text)
  rw [cut] at all
  calc (readAll parse base context pieces).map (Scan.map timeless)
      = reads base context [] (pieces.map (timelessPiece parse)) := by
        rw [readAll, readsThrough, List.map_map]
        rfl
    _ = scan newline line base (normal context) (Utf8.encode text) := settle.trans all
    _ = (parse now base context (String.ofList text)).map (Scan.map timeless) := by
        rw [show parse now base context (String.ofList text) =
          parseChunk host (handle now) base (normal context) (String.ofList text) from rfl,
          parseChunk, scanThrough, buffer, String.toList_ofList]

end

-- The two formats without a context, as parsers that carry none.
def cursorParser (spool : Spool) (sourceKey : String) : Parser Unit :=
  fun now base _ chunk => CursorHooks.parseCursorHooksChunk spool sourceKey now base chunk
def geminiParser (spool : Spool) (sourceKey : String) : Parser Unit :=
  fun now base _ chunk => GeminiEvents.parseGeminiEventsChunk spool sourceKey now base chunk

theorem claudeSplit (host : Host) (source : Source) :
    SplitInvariant anyClock (ClaudeCodeSessions.parseClaudeCodeChunk host source) :=
  splitInvariant host SessionContext.normalIdem ClaudeCodeSessions.handleSettled
    (fun _ => ClaudeCodeSessions.handleTimeless host source _ _)

theorem codexSplit (host : Host) (source : Source) :
    SplitInvariant anyClock (CodexSessions.parseCodexSessionsChunk host source) :=
  splitInvariant host SessionContext.normalIdem CodexSessions.handleSettled
    (fun _ => CodexSessions.handleTimeless host source _ _)

theorem cursorSplit (spool : Spool) (sourceKey : String) : SplitInvariant sameDay (cursorParser spool sourceKey) :=
  splitInvariant spool.toHost (fun _ => rfl) (fun _ _ => rfl)
    (fun day context offset rawLine parsed =>
      CursorHooks.handleTimeless spool sourceKey context offset rawLine parsed (day offset))

theorem geminiSplit (spool : Spool) (sourceKey : String) : SplitInvariant anyClock (geminiParser spool sourceKey) :=
  splitInvariant spool.toHost (fun _ => rfl) (fun _ _ => rfl)
    (fun _ => GeminiEvents.handleTimeless spool sourceKey _ _)

theorem chunksSplit (host : Host) (source : Source) (spool : Spool) (sourceKey : String) :
    (SplitInvariant anyClock (ClaudeCodeSessions.parseClaudeCodeChunk host source) ∧
        ConsumesLines (ClaudeCodeSessions.parseClaudeCodeChunk host source)) ∧
      (SplitInvariant anyClock (CodexSessions.parseCodexSessionsChunk host source) ∧
        ConsumesLines (CodexSessions.parseCodexSessionsChunk host source)) ∧
      (SplitInvariant sameDay (cursorParser spool sourceKey) ∧ ConsumesLines (cursorParser spool sourceKey)) ∧
      SplitInvariant anyClock (geminiParser spool sourceKey) ∧ ConsumesLines (geminiParser spool sourceKey) :=
  ⟨⟨claudeSplit host source, consumesLines host (ClaudeCodeSessions.handle host source) SessionContext.normal⟩,
    ⟨codexSplit host source, consumesLines host (CodexSessions.handle host source) SessionContext.normal⟩,
    ⟨cursorSplit spool sourceKey, consumesLines spool.toHost (CursorHooks.handle spool sourceKey) id⟩,
    geminiSplit spool sourceKey, consumesLines spool.toHost (GeminiEvents.handle spool sourceKey) id⟩

def evening : Nat → String := fun _ => "2026-01-01T23:59:59.000Z"
def morning : Nat → String := fun _ => "2026-01-02T00:00:01.000Z"
def stopLine : List UInt8 := buffer "x\n"

def sessions (result : Except String (Scan Unit IngestEvent)) : List String :=
  match result with
  | .ok done => done.events.map IngestEvent.sessionId
  | .error _ => []

-- Read before and after midnight, the two lines fall into two sessions; read at once, into one.
theorem cursorMidnight : ¬ SplitInvariant anyClock (cursorParser stopSpool "k") := by
  intro invariant
  have same := invariant evening 0 () "x\nx\n".toList [(evening, stopLine), (morning, stopLine)] (by simp)
    (by decide) (fun _ _ => trivial)
  have split : sessions ((readAll (cursorParser stopSpool "k") 0 () [(evening, stopLine), (morning, stopLine)]).map
      (Scan.map timeless)) = ["cursor:unknown:2026-01-01", "cursor:unknown:2026-01-02"] := by decide +kernel
  have whole : sessions ((cursorParser stopSpool "k" evening 0 () (String.ofList "x\nx\n".toList)).map
      (Scan.map timeless)) = ["cursor:unknown:2026-01-01", "cursor:unknown:2026-01-01"] := by decide +kernel
  rw [same, whole] at split
  revert split
  decide

end HarnessMem.ChunkSplit
