import HarnessMem.IngestOffsets

/-! Progress over a session log that is read a window at a time: when a poll moves the stored offset,
and when polls come to the file's last newline. -/
namespace HarnessMem.IngestOffsets
open Js Text JsonLines LineStream

-- The default of `maxBytesPerFile`.
def maxBytesPerFile : Nat := 2 * 1024 * 1024
def Options.capped (limit : Nat) : Options := ⟨false, some limit⟩

-- A newline at or after the stored offset, and one that the window of a poll holds.
def HasLine (stored : Nat) (bytes : List UInt8) : Prop := ∃ i, stored ≤ i ∧ bytes[i]? = some newline
def FitsWindow (limit stored : Nat) (bytes : List UInt8) : Prop := ∃ i, stored ≤ i ∧ i < stored + limit ∧ bytes[i]? = some newline

section
variable (host : Host) (source : Source) (limit : Nat) (s : Progress SessionContext IngestEvent) (p : Poll)

-- `recordEvent` throws for one of the events of the window.
def Breaks : Prop := ∃ parsed, ClaudeCodeSessions.parseClaudeCodeChunk host source p.clock (readOffset s (Options.capped limit) p) s.context
    (bufferText (chunk s (Options.capped limit) p)) = .ok parsed ∧
  ∃ index event, parsed.events[index]? = some event ∧ p.answers index = .thrown

-- The poll gets past the first complete line, and records what it has read.
def Moves : Prop := FitsWindow limit (s.offset.getD 0) p.bytes ∧ ¬ Breaks host source limit s p

def pollCapped : Progress SessionContext IngestEvent := ingestClaudeCodeSessions host source s (Options.capped limit) p

end

variable {host : Host} {source : Source} {limit : Nat} {s : Progress SessionContext IngestEvent} {p : Poll}

theorem handleTotal (host : Host) (source : Source) (now : Nat → String) (context : SessionContext) (lineOffset : Nat) (bytes : List UInt8) :
    ∃ done, jsonLine host (ClaudeCodeSessions.handle host source now) context lineOffset bytes = .ok done := by
  unfold jsonLine
  split
  · exact ⟨_, rfl⟩
  · unfold ClaudeCodeSessions.handle
    dsimp only
    split
    · exact ⟨_, rfl⟩
    · exact ⟨_, rfl⟩

-- Claude Code's parser never throws, and consumes the complete lines of what it is given.
theorem parseTotal (host : Host) (source : Source) (now : Nat → String) (baseOffset : Nat) (context : SessionContext) (text : String) :
    ∃ parsed, ClaudeCodeSessions.parseClaudeCodeChunk host source now baseOffset context text = .ok parsed ∧
      parsed.consumed = consumed newline (buffer text) := by
  have total : ∀ ctx lineOffset raw, (∃ done, jsonLine host (ClaudeCodeSessions.handle host source now) ctx lineOffset raw = .ok done) ↔
      ¬ False := fun ctx lineOffset raw => iff_of_true (handleTotal host source now ctx lineOffset raw) not_false
  obtain ⟨done, ok⟩ := (foldOkIff total context.normal baseOffset (lines newline (buffer text))).mpr (fun _ _ => not_false)
  unfold ClaudeCodeSessions.parseClaudeCodeChunk parseChunk scan
  rw [ok]
  exact ⟨_, rfl, rfl⟩

theorem newlineKept (bytes : List UInt8) : newline ∈ buffer (bufferText bytes) ↔ newline ∈ bytes := by
  rw [buffer, bufferText, String.toList_ofList, newlineInside]
  constructor
  · intro mem
    by_contra free
    exact newlineDecoded free mem
  · intro mem
    obtain ⟨before, after, rfl⟩ := List.append_of_mem mem
    rw [Utf8.decode, Utf8.decodeAscii (by decide) (by simp)]
    exact List.mem_append_right _ List.mem_cons_self

-- The window of a poll that starts at the stored offset.
theorem windowRead (within : s.offset.getD 0 ≤ p.bytes.length) :
    startOffset s p = s.offset.getD 0 ∧ readOffset s (Options.capped limit) p = s.offset.getD 0 ∧
      readSize s (Options.capped limit) p = min (p.bytes.length - s.offset.getD 0) limit ∧
        chunk s (Options.capped limit) p = (p.bytes.drop (s.offset.getD 0)).take limit := by
  have start : startOffset s p = s.offset.getD 0 := if_neg (by omega)
  have reads : readOffset s (Options.capped limit) p = s.offset.getD 0 := start
  have size : readSize s (Options.capped limit) p = min (p.bytes.length - s.offset.getD 0) limit := by
    unfold readSize
    rw [reads]
    rfl
  refine ⟨start, reads, size, ?_⟩
  rw [chunk, reads, size, ← List.length_drop, Nat.min_comm]
  exact (List.take_eq_take_min ..).symm

theorem fitsChunk (within : s.offset.getD 0 ≤ p.bytes.length) :
    newline ∈ chunk s (Options.capped limit) p ↔ FitsWindow limit (s.offset.getD 0) p.bytes := by
  rw [(windowRead within).2.2.2, List.mem_iff_getElem?]
  constructor
  · rintro ⟨k, here⟩
    rw [List.getElem?_take] at here
    split at here
    · rw [List.getElem?_drop] at here
      exact ⟨s.offset.getD 0 + k, by omega, by omega, here⟩
    · cases here
  · rintro ⟨i, low, high, here⟩
    refine ⟨i - s.offset.getD 0, ?_⟩
    rw [List.getElem?_take, if_pos (by omega), List.getElem?_drop, Nat.add_sub_cancel' low]
    exact here

theorem lineWithin (line : HasLine (s.offset.getD 0) p.bytes) : s.offset.getD 0 < p.bytes.length := by
  obtain ⟨i, low, here⟩ := line
  exact Nat.lt_of_le_of_lt low (List.getElem?_eq_some_iff.mp here).1

-- A poll that reads the file with a complete line ahead moves the offset exactly where its window holds a newline and
-- nothing throws; it never moves it back.
theorem pollMoves (reads : skipped (claudeCode host source) s (Options.capped limit) p = false)
    (line : HasLine (s.offset.getD 0) p.bytes) :
    (s.offset.getD 0 < (pollCapped host source limit s p).offset.getD 0 ↔ Moves host source limit s p) ∧
      s.offset.getD 0 ≤ (pollCapped host source limit s p).offset.getD 0 := by
  have less := lineWithin line
  obtain ⟨start, reads_, size, -⟩ := @windowRead limit s p less.le
  have fits := @fitsChunk limit s p less.le
  unfold pollCapped ingestClaudeCodeSessions ingestFile outcome
  rw [if_neg (by simp [reads])]
  by_cases rests : idle s (Options.capped limit) p = true
  · rw [if_pos rests]
    have none : limit = 0 := by
      rw [idle, start, size, Bool.or_eq_true, Bool.and_eq_true, decide_eq_true_eq, decide_eq_true_eq] at rests
      omega
    refine ⟨iff_of_false (Nat.lt_irrefl _) ?_, Nat.le_refl _⟩
    rintro ⟨⟨i, low, high, -⟩, -⟩
    omega
  · rw [if_neg rests]
    obtain ⟨parsed, ok, size⟩ := parseTotal host source p.clock (readOffset s (Options.capped limit) p) s.context
      (bufferText (chunk s (Options.capped limit) p))
    have parses : (claudeCode host source).parse = ClaudeCodeSessions.parseClaudeCodeChunk host source := rfl
    have context : loaded (claudeCode host source) s (Options.capped limit) = s.context := rfl
    rw [parses, context, ok]
    have breaks : Breaks host source limit s p ↔ (recordAll p.answers 0 parsed.events).2 = true := by
      rw [recordThrown, Breaks]
      simp only [ok, Except.ok.injEq, exists_eq_left', Nat.zero_add]
    have some : 0 < parsed.consumed ↔ FitsWindow limit (s.offset.getD 0) p.bytes := by
      rw [size, consumedUpToLast, upToLastPositive, newlineKept, fits]
    rw [Moves, breaks, ← some]
    by_cases broken : (recordAll p.answers 0 parsed.events).2 = true
    · simp [broken]
    · simp only [broken, reads_, start, claudeCode]
      simp

theorem aheadIff {stored : Nat} {bytes : List UInt8} : HasLine stored bytes ↔ stored < upToLast newline bytes := aheadLast newline bytes

theorem pollSkipped (skip : skipped (claudeCode host source) s (Options.capped limit) p = true) :
    (pollCapped host source limit s p).offset.getD 0 = p.bytes.length := by
  unfold pollCapped ingestClaudeCodeSessions ingestFile outcome
  rw [if_pos skip]
  rfl

section
variable {bytes : List UInt8} {polls : List Poll}

-- A file that no longer grows, polled with each poll moving as long as there is a complete line ahead.
theorem runReaches (same : ∀ p ∈ polls, p.bytes = bytes)
    (moves : Runs.Throughout (pollCapped host source limit) (fun s p => skipped (claudeCode host source) s (Options.capped limit) p = false →
      HasLine (s.offset.getD 0) p.bytes → Moves host source limit s p) s polls)
    (enough : upToLast newline bytes ≤ s.offset.getD 0 + polls.length) :
    ∃ before, before <+: polls ∧ upToLast newline bytes ≤ (Runs.run (pollCapped host source limit) s before).offset.getD 0 := by
  induction polls generalizing s with
  | nil => exact ⟨[], List.prefix_refl _, enough⟩
  | cons p rest ih =>
    by_cases there : upToLast newline bytes ≤ s.offset.getD 0
    · exact ⟨[], List.nil_prefix, there⟩
    have file : p.bytes = bytes := same p List.mem_cons_self
    have line : HasLine (s.offset.getD 0) p.bytes := by
      rw [file, aheadIff]
      omega
    cases skip : skipped (claudeCode host source) s (Options.capped limit) p with
    | true =>
      refine ⟨[p], List.cons_prefix_cons.mpr ⟨rfl, List.nil_prefix⟩, ?_⟩
      rw [Runs.runCons, Runs.runNil, pollSkipped skip, file]
      exact upToLastWithin newline bytes
    | false =>
      have moved := (pollMoves skip line).1.mpr (moves.1 skip line)
      rw [List.length_cons] at enough
      obtain ⟨before, short, reached⟩ := ih (fun q mem => same q (List.mem_cons_of_mem _ mem)) moves.2 (by omega)
      exact ⟨p :: before, List.cons_prefix_cons.mpr ⟨rfl, short⟩, reached⟩

-- A line that does not fit the window holds the offset for ever.
theorem runStuck (same : ∀ p ∈ polls, p.bytes = bytes ∧ p.stale = false) (line : HasLine (s.offset.getD 0) bytes)
    (long : ¬ FitsWindow limit (s.offset.getD 0) bytes) :
    (Runs.run (pollCapped host source limit) s polls).offset.getD 0 = s.offset.getD 0 := by
  induction polls generalizing s with
  | nil => rfl
  | cons p rest ih =>
    obtain ⟨file, fresh⟩ := same p List.mem_cons_self
    have reads : skipped (claudeCode host source) s (Options.capped limit) p = false := by simp [skipped, fresh]
    obtain ⟨moved, kept⟩ := pollMoves reads (file ▸ line)
    have stays : (pollCapped host source limit s p).offset.getD 0 = s.offset.getD 0 := by
      refine Nat.le_antisymm (Nat.le_of_not_lt fun less => long ?_) kept
      exact file ▸ (moved.mp less).1
    rw [Runs.runCons, ih (fun q mem => same q (List.mem_cons_of_mem _ mem)) (by rwa [stays]) (by rwa [stays]), stays]

end

theorem cappedProgress (host : Host) (source : Source) (limit : Nat) :
    (∀ s p, skipped (claudeCode host source) s (Options.capped limit) p = false → HasLine (s.offset.getD 0) p.bytes →
      (s.offset.getD 0 < (pollCapped host source limit s p).offset.getD 0 ↔ Moves host source limit s p)) ∧
    ∀ (bytes : List UInt8) (polls : List Poll) (s : Progress SessionContext IngestEvent), (∀ p ∈ polls, p.bytes = bytes) →
      Runs.Throughout (pollCapped host source limit) (fun s p => skipped (claudeCode host source) s (Options.capped limit) p = false →
        HasLine (s.offset.getD 0) p.bytes → Moves host source limit s p) s polls →
      upToLast newline bytes ≤ s.offset.getD 0 + polls.length →
        ∃ before, before <+: polls ∧ upToLast newline bytes ≤ (Runs.run (pollCapped host source limit) s before).offset.getD 0 :=
  ⟨fun _ _ reads line => (pollMoves reads line).1, fun _ _ _ same moves enough => runReaches same moves enough⟩

def unread : Progress SessionContext IngestEvent := ⟨none, SessionContext.none, []⟩
theorem unthrown (taken : ∀ i, p.answers i = .ok) : ¬ Breaks host source limit s p := by
  rintro ⟨parsed, -, index, event, -, thrown⟩
  rw [taken] at thrown
  cases thrown

def anySource : Source := ⟨"k", "", ""⟩
def shortPoll : Poll := ⟨buffer "ab\nc", false, fun _ => "", fun _ => .ok⟩

theorem cappedProgressShort :
    (0 < (pollCapped stopSpool.toHost anySource 3 unread shortPoll).offset.getD 0 ↔ Moves stopSpool.toHost anySource 3 unread shortPoll) ∧
      ∃ before, before <+: [shortPoll, shortPoll, shortPoll] ∧
        upToLast newline (buffer "ab\nc") ≤ (Runs.run (pollCapped stopSpool.toHost anySource 3) unread before).offset.getD 0 := by
  obtain ⟨moves, reaches⟩ := cappedProgress stopSpool.toHost anySource 3
  have line : HasLine 0 shortPoll.bytes := ⟨2, by decide, by decide⟩
  refine ⟨moves unread shortPoll rfl line, reaches (buffer "ab\nc") _ unread (by simp [shortPoll]) ?_ (by decide)⟩
  have atStart : Moves stopSpool.toHost anySource 3 unread shortPoll := ⟨⟨2, by decide, by decide, by decide⟩, unthrown (fun _ => rfl)⟩
  have past : ∀ s : Progress SessionContext IngestEvent, s.offset = some 3 → ¬ HasLine (s.offset.getD 0) shortPoll.bytes := by
    intro s offset line
    rw [offset, aheadIff] at line
    exact absurd line (by decide)
  have first : (pollCapped stopSpool.toHost anySource 3 unread shortPoll).offset = some 3 := by decide
  have second : (pollCapped stopSpool.toHost anySource 3 (pollCapped stopSpool.toHost anySource 3 unread shortPoll) shortPoll).offset = some 3 := by
    decide
  exact ⟨fun _ _ => atStart, fun _ line => absurd line (past _ first), fun _ line => absurd line (past _ second), trivial⟩

-- A line of as many bytes as the window has, its newline not counted.
def longLine : List UInt8 := List.replicate maxBytesPerFile 97 ++ [newline]

theorem longLineStuck : HasLine 0 longLine ∧ ∀ (host : Host) (source : Source) (polls : List Poll),
    (∀ p ∈ polls, p.bytes = longLine ∧ p.stale = false) →
      (Runs.run (pollCapped host source maxBytesPerFile) unread polls).offset.getD 0 = 0 := by
  have line : HasLine 0 longLine := by
    refine ⟨maxBytesPerFile, Nat.zero_le _, ?_⟩
    rw [longLine, List.getElem?_append_right (by rw [List.length_replicate]), List.length_replicate, Nat.sub_self]
    rfl
  refine ⟨line, fun host source polls same => runStuck (s := unread) same line ?_⟩
  rintro ⟨i, -, short, here⟩
  have inside : i < (List.replicate maxBytesPerFile (97 : UInt8)).length := by
    rw [List.length_replicate]
    simpa [unread] using short
  rw [longLine, List.getElem?_append_left inside, List.getElem?_eq_getElem inside, List.getElem_replicate] at here
  exact absurd here (by decide)

end HarnessMem.IngestOffsets
