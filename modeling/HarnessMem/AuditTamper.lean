import HarnessMem.AuditChain
import HarnessMem.Lib.HashChain
import HarnessMem.Lib.Runs

/-! What `verifyAuditChain` says of a log that appends built, whole or in part, and of the same
log after somebody changed its chained rows. -/
namespace HarnessMem.AuditChain
open HashChain

def stored (row : Audit) : String := row.prevHash.getD ""
def content (row : Audit) : List String :=
  [row.action, row.targetType, row.targetId, row.detailsJson, row.createdAt]
def input (link : String × Audit) : String := separator.intercalate (link.1 :: content link.2)
def digest (host : Host) (text : String) : String := Text.slice (host.sha256 text) 0 hashLen

abbrev Chain (host : Host) (rows : List Audit) : Prop := Linked stored input (digest host) "" rows
def chained (rows : List Audit) : List Audit := rows.filter (fun row => row.prevHash.isSome)

-- The two ways a row is written: bound to the chain, or without a hash.
inductive Write where
  | append (createdAt action targetType targetId detailsJson actor : String)
  | legacy (createdAt action targetType targetId detailsJson actor : String)

def write (host : Host) (log : List Audit) : Write → List Audit
  | .append createdAt action targetType targetId detailsJson actor =>
    appendAuditChain host createdAt action targetType targetId detailsJson actor log
  | .legacy createdAt action targetType targetId detailsJson actor =>
    log ++ [⟨action, actor, targetType, targetId, detailsJson, createdAt, none⟩]

def built (host : Host) (writes : List Write) : List Audit := Runs.run (write host) [] writes

-- Rows of an untouched table are numbered from 1.
def numbered (log : List Audit) : List (Nat × Audit) := (log.zipIdx 1).map Prod.swap

section
variable {host : Host}

theorem chainHashDigest (prev : String) (row : Audit) :
    chainHash host prev row.action row.targetType row.targetId row.detailsJson row.createdAt = digest host (input (prev, row)) := rfl

theorem lastStored (log : List Audit) : lastPrevHash log = head stored "" (chained log) := by
  induction log using List.reverseRecOn with
  | nil => rfl
  | append_singleton init row ih =>
    unfold lastPrevHash at ih ⊢
    rw [List.reverse_append, List.reverse_singleton, List.singleton_append, List.findSome?_cons]
    cases held : row.prevHash with
    | none =>
      have same : chained (init ++ [row]) = chained init := by simp [chained, held]
      rw [same]
      exact ih
    | some hash =>
      have same : chained (init ++ [row]) = chained init ++ [row] := by simp [chained, held]
      rw [same, headSnoc]
      simp [stored, held]

theorem writeChain (log : List Audit) (w : Write) (linked : Chain host (chained log)) : Chain host (chained (write host log w)) := by
  cases w with
  | append createdAt action targetType targetId detailsJson actor =>
    have grown : chained (write host log (.append createdAt action targetType targetId detailsJson actor)) =
        chained log ++ [⟨action, actor, targetType, targetId, detailsJson, createdAt,
          some (chainHash host (lastPrevHash log) action targetType targetId detailsJson createdAt)⟩] := by
      simp [write, appendAuditChain, chained]
    rw [grown]
    refine (linkedAppend ..).mpr ⟨linked, ?_, trivial⟩
    rw [lastStored]
    rfl
  | legacy createdAt action targetType targetId detailsJson actor =>
    have same : chained (write host log (.legacy createdAt action targetType targetId detailsJson actor)) = chained log := by
      simp [write, chained]
    rw [same]
    exact linked

theorem builtChain (host : Host) (writes : List Write) : Chain host (chained (built host writes)) :=
  Runs.invariant (write host) writeChain (show Chain host (chained []) from trivial) writes

-- The loop accepts exactly the linked rows, and counts them.
theorem verifyLoopOk (prev : String) (count : Nat) {rows : List (Nat × Audit)} (hashed : ∀ row ∈ rows, row.2.prevHash.isSome) :
    (Linked stored input (digest host) prev (rows.map Prod.snd) → verifyLoop host prev count rows = .ok (count + rows.length)) ∧
      (∀ n, verifyLoop host prev count rows = .ok n → Linked stored input (digest host) prev (rows.map Prod.snd)) := by
  induction rows generalizing prev count with
  | nil => exact ⟨fun _ => rfl, fun _ _ => trivial⟩
  | cons row rest ih =>
    obtain ⟨id, row⟩ := row
    obtain ⟨hash, given⟩ := Option.isSome_iff_exists.mp (hashed (id, row) List.mem_cons_self)
    have value : stored row = hash := by
      change row.prevHash.getD "" = hash
      rw [given]
      rfl
    obtain ⟨accept, linked⟩ := ih (stored row) (count + 1)
      (fun other mem => hashed other (List.mem_cons_of_mem _ mem))
    unfold verifyLoop
    simp only [List.map_cons, Linked]
    rw [chainHashDigest]
    by_cases same : some (digest host (input (prev, row))) = row.prevHash
    · rw [if_neg (not_not_intro same)]
      have step : stored row = digest host (input (prev, row)) := by
        rw [given] at same
        rw [value, Option.some.inj same]
      exact ⟨fun both => by rw [show row.prevHash.getD "" = stored row from rfl, accept both.2, List.length_cons]; congr 1; omega,
        fun n ok => ⟨step, linked n ok⟩⟩
    · rw [if_pos same]
      refine ⟨fun both => absurd ?_ same, fun n ok => by cases ok⟩
      rw [← both.1, value, given]

-- A list on which `p` never turns off again is what comes before it turns on, then the rest.
theorem splitMonotone {α : Type*} {p : α → Bool} {rows : List α} (stays : rows.Pairwise (fun a b => p a → p b)) :
    rows = rows.filter (fun row => !p row) ++ rows.filter p := by
  induction rows with
  | nil => rfl
  | cons row rest ih =>
    obtain ⟨here, later⟩ := List.pairwise_cons.mp stays
    cases on : p row with
    | true =>
      have none : rest.filter (fun row => !p row) = [] :=
        List.filter_eq_nil_iff.mpr (fun other mem => by simp [here other mem on])
      have all : rest.filter p = rest := List.filter_eq_self.mpr (fun other mem => here other mem on)
      simp [on, none, all]
    | false => simpa [on] using ih later

theorem reachesMono (fromId : Js.Number) {id later : Nat} (le : id ≤ later) (on : reaches fromId id) : reaches fromId later := by
  cases fromId with
  | fin q => exact decide_eq_true (le_trans (of_decide_eq_true on) (by exact_mod_cast le))
  | _ => exact on

theorem numberedSnd (log : List Audit) : (numbered log).map Prod.snd = log := by
  simp [numbered, Function.comp_def]

theorem numberedIds (log : List Audit) : (numbered log).Pairwise (fun a b => a.1 < b.1) := by
  have ids : (numbered log).map Prod.fst = List.range' 1 log.length := by
    rw [numbered, List.map_map]
    change (log.zipIdx 1).map Prod.snd = _
    rw [List.zipIdx_map_snd]
  have sorted : ((numbered log).map Prod.fst).Pairwise (· < ·) := by
    rw [ids]
    exact List.pairwise_lt_range'
  exact List.pairwise_map.mp sorted

def chainedFrom (fromId : Js.Number) (table : List (Nat × Audit)) : List (Nat × Audit) :=
  table.filter (fun (id, row) => reaches fromId id && row.prevHash.isSome)
def chainedBefore (fromId : Js.Number) (table : List (Nat × Audit)) : List (Nat × Audit) :=
  table.filter (fun (id, row) => !reaches fromId id && row.prevHash.isSome)

theorem chainedSplit (log : List Audit) (fromId : Js.Number) : chained log =
    (chainedBefore fromId (numbered log)).map Prod.snd ++ (chainedFrom fromId (numbered log)).map Prod.snd := by
  have stays : (numbered log).Pairwise (fun a b => reaches fromId a.1 → reaches fromId b.1) :=
    (numberedIds log).imp (fun lt on => reachesMono fromId lt.le on)
  have split := splitMonotone (p := fun row : Nat × Audit => reaches fromId row.1) stays
  have rows : chained log = ((numbered log).filter (fun row => row.2.prevHash.isSome)).map Prod.snd := by
    conv_lhs => rw [← numberedSnd log]
    rw [chained, List.filter_map]
    rfl
  rw [rows, split, List.filter_append, List.map_append, List.filter_filter, List.filter_filter]
  simp only [chainedBefore, chainedFrom, ← split, Bool.and_comm]

-- The first chained row from `fromId` on hashes from the empty value as from the value before it.
def RestartsAlike (host : Host) (table : List (Nat × Audit)) (fromId : Js.Number) : Prop :=
  ∀ id row, (chainedFrom fromId table).head? = some (id, row) →
    digest host (input ("", row)) = digest host (input (lastPrevHash ((chainedBefore fromId table).map Prod.snd), row))

theorem verifyExact (host : Host) (writes : List Write) (fromId : Js.Number) :
    verifyAuditChain host (numbered (built host writes)) fromId =
        .ok (chainedFrom fromId (numbered (built host writes))).length ↔
      chainedFrom fromId (numbered (built host writes)) = [] ∨ chainedBefore fromId (numbered (built host writes)) = [] ∨
        RestartsAlike host (numbered (built host writes)) fromId := by
  generalize shown : numbered (built host writes) = table
  have linked := builtChain host writes
  rw [chainedSplit _ fromId, shown] at linked
  obtain ⟨-, later⟩ := (linkedAppend stored input (digest host) "" _ _).mp linked
  have hashed : ∀ row ∈ chainedFrom fromId table, row.2.prevHash.isSome := fun row mem =>
    (Bool.and_eq_true_iff.mp (List.mem_filter.mp mem).2).2
  have earlier : chained ((chainedBefore fromId table).map Prod.snd) = (chainedBefore fromId table).map Prod.snd := by
    refine List.filter_eq_self.mpr (fun row mem => ?_)
    obtain ⟨entry, held, rfl⟩ := List.mem_map.mp mem
    exact (Bool.and_eq_true_iff.mp (List.mem_filter.mp held).2).2
  rw [← earlier, ← lastStored] at later
  obtain ⟨accept, sound⟩ := verifyLoopOk "" 0 hashed
  change verifyLoop host "" 0 (chainedFrom fromId table) = _ ↔ _
  have fresh : chainedBefore fromId table = [] → lastPrevHash ((chainedBefore fromId table).map Prod.snd) = "" := by
    intro none
    rw [none]
    rfl
  unfold RestartsAlike
  cases rows : chainedFrom fromId table with
  | nil => exact iff_of_true rfl (.inl rfl)
  | cons first rest =>
    obtain ⟨id, row⟩ := first
    rw [rows] at later accept sound
    simp only [List.map_cons, Linked] at later accept sound
    constructor
    · intro ok
      refine .inr (.inr fun _ _ at_ => ?_)
      cases at_
      rw [← (sound _ ok).1, later.1]
    · intro condition
      have alike : digest host (input ("", row)) =
          digest host (input (lastPrevHash ((chainedBefore fromId table).map Prod.snd), row)) := by
        rcases condition with empty | none | alike
        · cases empty
        · rw [fresh none]
        · exact alike id row rfl
      have ok := accept ⟨by rw [later.1, alike], later.2⟩
      rwa [Nat.zero_add] at ok

-- A host that knows the SHA-256 values of the texts the samples below hash.
def sampleDigests : List (String × String) :=
  [(separator.intercalate ["", "privacy_strip", "observation", "obs_1", "{}", "2026-01-01T00:00:00.000Z"],
    "ec547d014c85a60dbca5a962abdf58f2bdb7fd45ef771f76fe1008609abf16b7"),
   (separator.intercalate ["ec547d014c85a60dbca5a962abdf58f2", "privacy_strip", "observation", "obs_2", "{}", "2026-01-02T00:00:00.000Z"],
    "6fcd44ee9505932ac7bb7ef59236b6fd961b683a1bce06e0402443fdf21eacf3"),
   (separator.intercalate ["", "privacy_strip", "observation", "obs_9", "{}", "2026-01-01T00:00:00.000Z"],
    "392fe1d8af4fef515b2625b2a60cd929dbc1b8accfe8f82e041cfd7a9cb88cbe"),
   (separator.intercalate ["", "privacy_strip", "observation", "obs_2", "{}", "2026-01-02T00:00:00.000Z"],
    "8ae2e56860b6e7596ac9d9844c35d4f71b19a8182aa009d362c2e256232b894d")]
def sampleHost : Host where
  sha256 text := ((sampleDigests.find? (fun known => known.1 == text)).map Prod.snd).getD (String.ofList (List.replicate 64 '0'))
  toLowerCase := id
  parseJson _ := none
  parseDate _ := none
  millis _ := .nan
  tokenize _ := []
  similar _ _ := false
def sampleWrites : List Write :=
  [.append "2026-01-01T00:00:00.000Z" "privacy_strip" "observation" "obs_1" "{}" "system",
   .append "2026-01-02T00:00:00.000Z" "privacy_strip" "observation" "obs_2" "{}" "system"]
def sampleLog : List Audit :=
  [⟨"privacy_strip", "system", "observation", "obs_1", "{}", "2026-01-01T00:00:00.000Z", some "ec547d014c85a60dbca5a962abdf58f2"⟩,
   ⟨"privacy_strip", "system", "observation", "obs_2", "{}", "2026-01-02T00:00:00.000Z", some "6fcd44ee9505932ac7bb7ef59236b6fd"⟩]

theorem sampleBuilt : built sampleHost sampleWrites = sampleLog := by decide +kernel

theorem restartFails : ¬ ∀ (host : Host) (writes : List Write) (fromId : Js.Number),
    verifyAuditChain host (numbered (built host writes)) fromId =
      .ok (chainedFrom fromId (numbered (built host writes))).length := by
  intro every
  have second := every sampleHost sampleWrites (.fin 2)
  rw [sampleBuilt] at second
  revert second
  decide +kernel

-- One change to the chained rows, in id order, that the chain is meant to show. A last row can
-- be edited and hashed anew, and a row clears `prev_hash` by leaving the chain.
inductive Tampered : List Audit → List Audit → Prop where
  | edited (before after : List Audit) (row other : Audit)
      (changed : content other ≠ content row ∨ other.prevHash ≠ row.prevHash)
      (bound : other.prevHash = row.prevHash ∨ content other = content row ∨ after ≠ []) :
      Tampered (before ++ row :: after) (before ++ other :: after)
  | removed (before after : List Audit) (row : Audit) (more : after ≠ []) :
      Tampered (before ++ row :: after) (before ++ after)
  | inserted (before after : List Audit) (row : Audit) (more : after ≠ []) :
      Tampered (before ++ after) (before ++ row :: after)
  | reordered (rows others : List Audit) (perm : rows.Perm others) (moved : rows ≠ others) : Tampered rows others

def hexDigits : String := "0123456789abcdef"
def IsSha256 (text : String) : Prop := text.toList.length = 64 ∧ ∀ c ∈ text.toList, c ∈ hexDigits.toList

-- The texts that a check of the rows hashes.
def hashed (rows : List Audit) : List String := (links stored "" rows).map input
def CollisionFree (host : Host) (texts : List String) : Prop :=
  ∀ text ∈ texts, ∀ other ∈ texts, digest host text = digest host other → text = other

def mark : Char := Char.ofNat 31
def MarkFree (text : String) : Prop := mark ∉ text.toList
def Write.fields : Write → List String
  | .append createdAt action targetType targetId detailsJson _ => [action, targetType, targetId, detailsJson, createdAt]
  | .legacy .. => []

theorem hexPlain : ∀ c ∈ hexDigits.toList, Text.wide c = false ∧ c ≠ mark := by
  have all : hexDigits.toList.all (fun c => decide (Text.wide c = false ∧ c ≠ mark)) = true := by decide
  exact fun c mem => of_decide_eq_true (List.all_eq_true.mp all c mem)

theorem digestHex (hex : ∀ text, IsSha256 (host.sha256 text)) (text : String) :
    digest host text ≠ "" ∧ MarkFree (digest host text) := by
  obtain ⟨length, digits⟩ := hex text
  have chars : (digest host text).toList = (host.sha256 text).toList.take hashLen := by
    rw [digest, Text.slice, String.toList_ofList, Text.dropUnits, Nat.sub_zero]
    exact Text.takeUnitsPlain (fun c mem => (hexPlain c (digits c mem)).1) hashLen
  refine ⟨fun empty => ?_, fun mem => ?_⟩
  · rw [empty] at chars
    have zero := congrArg List.length chars
    rw [List.length_take, length] at zero
    cases zero
  · rw [chars] at mem
    exact (hexPlain mark (digits mark (List.mem_of_mem_take mem))).2 rfl

theorem inputChars (link : String × Audit) :
    (input link).toList = [mark].intercalate ((link.1 :: content link.2).map String.toList) := by
  rw [input, String.toList_intercalate]
  rfl

theorem inputInjective {link other : String × Audit} (free : ∀ part ∈ link.1 :: content link.2, MarkFree part)
    (same : input link = input other) : link.1 = other.1 ∧ content link.2 = content other.2 := by
  have chars := congrArg String.toList same
  rw [inputChars, inputChars] at chars
  have clean : ∀ part ∈ (link.1 :: content link.2).map String.toList, mark ∉ part := by
    intro part mem
    obtain ⟨text, held, rfl⟩ := List.mem_map.mp mem
    exact free text held
  have lengths : ((link.1 :: content link.2).map String.toList).length = ((other.1 :: content other.2).map String.toList).length := rfl
  have parts := joinInjective clean lengths chars
  exact List.cons.inj ((List.map_injective_iff.mpr fun _ _ => String.toList_inj.mp) parts)

theorem writeFree (log : List Audit) (w : Write) (ok : ∀ field ∈ w.fields, MarkFree field)
    (held : ∀ row ∈ chained log, ∀ field ∈ content row, MarkFree field) :
    ∀ row ∈ chained (write host log w), ∀ field ∈ content row, MarkFree field := by
  intro row mem
  obtain ⟨within, hash⟩ := List.mem_filter.mp mem
  cases w with
  | append createdAt action targetType targetId detailsJson actor =>
    rcases List.mem_append.mp within with old | new
    · exact held row (List.mem_filter.mpr ⟨old, hash⟩)
    · rw [List.mem_singleton.mp new]
      exact ok
  | legacy createdAt action targetType targetId detailsJson actor =>
    rcases List.mem_append.mp within with old | new
    · exact held row (List.mem_filter.mpr ⟨old, hash⟩)
    · rw [List.mem_singleton.mp new] at hash
      cases hash

theorem contentFree {writes : List Write} (free : ∀ w ∈ writes, ∀ field ∈ w.fields, MarkFree field) :
    ∀ row ∈ chained (built host writes), ∀ field ∈ content row, MarkFree field :=
  Runs.invariantOn (write host) writeFree (fun _ mem => by cases mem) writes free

theorem linksFree (hex : ∀ text, IsSha256 (host.sha256 text)) {rows : List Audit} (linked : Chain host rows)
    (free : ∀ row ∈ rows, ∀ field ∈ content row, MarkFree field) {link : String × Audit} (mem : link ∈ links stored "" rows) :
    ∀ part ∈ link.1 :: content link.2, MarkFree part := by
  intro part within
  rcases List.mem_cons.mp within with rfl | field
  · rcases linksBefore linked mem with start | ⟨text, value⟩
    · rw [start]
      exact List.not_mem_nil
    · rw [value]
      exact (digestHex hex text).2
  · refine free link.2 ?_ part field
    have held := List.mem_map_of_mem (f := Prod.snd) mem
    rwa [linksRows] at held

-- Where equal images of `f` give equal images of `g`, equal lists of the former give equal ones of the latter.
theorem mapDetermined {α β γ : Type*} {f : α → β} {g : α → γ} {xs ys : List α}
    (determined : ∀ x ∈ xs, ∀ y ∈ ys, f x = f y → g x = g y) (same : xs.map f = ys.map f) : xs.map g = ys.map g := by
  induction xs generalizing ys with
  | nil => rw [List.map_eq_nil_iff.mp same.symm]
  | cons x xs ih =>
    cases ys with
    | nil => cases same
    | cons y ys =>
      obtain ⟨first, rest⟩ := List.cons.inj same
      rw [List.map_cons, List.map_cons, determined x List.mem_cons_self y List.mem_cons_self first,
        ih (fun x mem y mem' => determined x (List.mem_cons_of_mem _ mem) y (List.mem_cons_of_mem _ mem')) rest]

section
variable {log table : List Audit} (hex : ∀ text, IsSha256 (host.sha256 text)) (linked : Chain host log)
  (free : ∀ row ∈ log, ∀ field ∈ content row, MarkFree field) (apart : CollisionFree host (hashed log ++ hashed table))
include hex linked free apart

theorem apartRows : Apart input (digest host) "" (links stored "" log) (links stored "" table) := by
  refine ⟨fun link _ => (digestHex hex (input link)).1, fun link mem other mem' => ?_, fun link mem other _ same => ?_⟩
  · exact apart _ (List.mem_append_left _ (List.mem_map_of_mem mem)) _ (List.mem_append_right _ (List.mem_map_of_mem mem'))
  · exact (inputInjective (linksFree hex linked free mem) same).1

-- What a log shares with a table that passes the check and ends in the same stored value.
theorem sameHead (passed : Chain host table) (last : head stored "" log = head stored "" table) :
    log.map content = table.map content ∧ log.map stored = table.map stored := by
  have inputs := headDetermines (apartRows hex linked free apart) linked passed last
  refine ⟨?_, by rw [linkedStored linked, linkedStored passed, inputs]⟩
  have contents := mapDetermined (g := fun link : String × Audit => content link.2)
    (fun link mem other _ same => (inputInjective (linksFree hex linked free mem) same).2) inputs
  rw [← linksRows stored "" log, ← linksRows stored "" table, List.map_map, List.map_map]
  exact contents

theorem editedBreaks {before after : List Audit} {row other : Audit} (whole : log = before ++ row :: after)
    (forged : table = before ++ other :: after) (some : row.prevHash.isSome) (some' : other.prevHash.isSome)
    (changed : content other ≠ content row ∨ other.prevHash ≠ row.prevHash)
    (bound : other.prevHash = row.prevHash ∨ content other = content row ∨ after ≠ []) : ¬ Chain host table := by
  intro passed
  have value : stored other = stored row → other.prevHash = row.prevHash := by
    obtain ⟨hash, given⟩ := Option.isSome_iff_exists.mp some
    obtain ⟨hash', given'⟩ := Option.isSome_iff_exists.mp some'
    intro same
    rw [stored, stored, given, given'] at same
    rw [given, given']
    exact congrArg Option.some same
  have last : head stored "" log = head stored "" table := by
    rw [whole, forged]
    by_cases more : after = []
    · subst more
      rw [headSnoc, headSnoc]
      rcases bound with kept | same | more
      · rw [stored, stored, kept]
      · subst whole forged
        rw [((linkedAppend ..).mp linked).2.1, ((linkedAppend ..).mp passed).2.1, input, input, same]
      · exact absurd rfl more
    · rw [List.append_cons before row, List.append_cons before other, headLast stored "" "" _ more, headLast stored "" "" _ more]
  obtain ⟨contents, values⟩ := sameHead hex linked free apart passed last
  rw [whole, forged, List.map_append, List.map_append, List.map_cons, List.map_cons] at contents values
  have sameContent := (List.cons.inj (List.append_cancel_left contents)).1
  have sameStored := (List.cons.inj (List.append_cancel_left values)).1
  rcases changed with differs | differs
  · exact differs sameContent.symm
  · exact differs (value sameStored.symm)

theorem resizedBreaks (lengths : log.length ≠ table.length) (last : head stored "" log = head stored "" table) :
    ¬ Chain host table := by
  intro passed
  have same := congrArg List.length (sameHead hex linked free apart passed last).2
  rw [List.length_map, List.length_map] at same
  exact lengths same

theorem reorderedBreaks (perm : log.Perm table) (moved : log ≠ table) : ¬ Chain host table := by
  intro passed
  -- The table's last row ends a part of the log, and that part is the whole of it.
  have last : head stored "" log = head stored "" table := by
    rcases List.eq_nil_or_concat table with none | ⟨rest, row, whole⟩
    · subst none
      rw [List.perm_nil.mp perm]
    · rw [List.concat_eq_append] at whole
      obtain ⟨front, back, split⟩ := List.append_of_mem (perm.mem_iff.mpr (whole ▸ by simp : row ∈ table))
      rw [List.append_cons] at split
      have linkedFront : Chain host (front ++ [row]) := ((linkedAppend ..).mp (split ▸ linked)).1
      have part : hashed (front ++ [row]) ⊆ hashed log := by
        rw [split, hashed, hashed, linksAppend _ _ (front ++ [row]), List.map_append]
        exact List.subset_append_left _ _
      have apartFront : CollisionFree host (hashed (front ++ [row]) ++ hashed table) := by
        have within : hashed (front ++ [row]) ++ hashed table ⊆ hashed log ++ hashed table :=
          List.append_subset.mpr ⟨List.subset_append_of_subset_left _ part, List.subset_append_right _ _⟩
        exact fun text mem other mem' => apart text (within mem) other (within mem')
      have ends : head stored "" (front ++ [row]) = head stored "" table := by rw [whole, headSnoc, headSnoc]
      have same := congrArg List.length (sameHead hex linkedFront (fun row mem => free row (split ▸ List.mem_append_left _ mem))
        apartFront passed ends).2
      rw [List.length_map, List.length_map, ← perm.length_eq, split] at same
      have none : back = [] := List.length_eq_zero_iff.mp (by simp only [List.length_append] at same; omega)
      rw [split, none, List.append_nil, ends]
  have values := (sameHead hex linked free apart passed last).2
  have apartLog : Apart input (digest host) "" (links stored "" log) (links stored "" log) :=
    apartRows hex linked free (fun text mem other mem' => apart text (List.mem_append_left _ ((List.mem_append.mp mem).elim id id))
      other (List.mem_append_left _ ((List.mem_append.mp mem').elim id id)))
  have distinct := storedNodup apartLog linked
  refine moved ?_
  have rows := mapDetermined (g := id) (fun x mem y mem' same =>
    List.inj_on_of_nodup_map distinct mem (perm.mem_iff.mpr mem') same) values
  rwa [List.map_id, List.map_id] at rows

theorem tamperedBreaks (hashed : ∀ row ∈ log ++ table, row.prevHash.isSome) (tampered : Tampered log table) :
    ¬ Chain host table := by
  cases tampered with
  | edited before after row other changed bound =>
    exact editedBreaks hex linked free apart rfl rfl (hashed row (by simp)) (hashed other (by simp)) changed bound
  | removed before after row more =>
    refine resizedBreaks hex linked free apart (by simp) ?_
    rw [List.append_cons, headLast stored "" "" _ more, headLast stored "" "" _ more]
  | inserted before after row more =>
    refine resizedBreaks hex linked free apart (by simp) ?_
    rw [List.append_cons, headLast stored "" "" _ more, headLast stored "" "" _ more]
  | reordered rows others perm moved => exact reorderedBreaks hex linked free apart perm moved

end

theorem tamperEvident (hex : ∀ text, IsSha256 (host.sha256 text)) (writes : List Write)
    (free : ∀ w ∈ writes, ∀ field ∈ w.fields, MarkFree field) (table : List (Nat × Audit))
    (apart : CollisionFree host (hashed (chained (built host writes)) ++ hashed (chained (table.map Prod.snd))))
    (tampered : Tampered (chained (built host writes)) (chained (table.map Prod.snd))) :
    ∃ id, verifyAuditChain host table (.fin 0) = .broken id := by
  have everywhere : table.filter (fun (id, row) => reaches (.fin 0) id && row.prevHash.isSome) =
      table.filter (fun row => row.2.prevHash.isSome) := by
    refine List.filter_congr fun row _ => ?_
    have zero : reaches (.fin 0) row.1 = true := decide_eq_true (Nat.cast_nonneg _)
    exact congrArg (· && row.2.prevHash.isSome) zero
  have rows : chained (table.map Prod.snd) = (table.filter (fun row => row.2.prevHash.isSome)).map Prod.snd := by
    rw [chained, List.filter_map]
    rfl
  cases verdict : verifyAuditChain host table (.fin 0) with
  | broken id => exact ⟨id, rfl⟩
  | ok count =>
    refine absurd ?_ (tamperedBreaks hex (builtChain host writes) (contentFree free) apart (fun row mem => ?_) tampered)
    · rw [verifyAuditChain, everywhere] at verdict
      rw [rows]
      exact (verifyLoopOk "" 0 (fun row mem => (List.mem_filter.mp mem).2)).2 count verdict
    · exact (List.mem_append.mp mem).elim (fun held => (List.mem_filter.mp held).2) (fun held => (List.mem_filter.mp held).2)

end

def forgedRow : Audit :=
  ⟨"privacy_strip", "system", "observation", "obs_9", "{}", "2026-01-01T00:00:00.000Z", some "ec547d014c85a60dbca5a962abdf58f2"⟩
def forgedLog : List (Nat × Audit) := numbered (forgedRow :: sampleLog.tail)

instance : DecidablePred IsSha256 := fun text =>
  decidable_of_iff (text.toList.length = 64 ∧ text.toList.all (fun c => decide (c ∈ hexDigits.toList)) = true)
    (and_congr_right (fun _ => by simp only [List.all_eq_true, decide_eq_true_eq]))
instance : DecidablePred MarkFree := fun _ => inferInstanceAs (Decidable (¬ _))
instance (host : Host) : DecidablePred (CollisionFree host) := fun _ => inferInstanceAs (Decidable (∀ _ ∈ _, _))

theorem sampleHex (text : String) : IsSha256 (sampleHost.sha256 text) := by
  have known : ∀ pair ∈ sampleDigests, IsSha256 pair.2 := by decide +kernel
  cases found : sampleDigests.find? (fun known => known.1 == text) with
  | none =>
    simp only [sampleHost, found]
    decide +kernel
  | some pair =>
    simp only [sampleHost, found]
    exact known pair (List.mem_of_find?_eq_some found)

theorem tamperEvidentEdit : ∃ id, verifyAuditChain sampleHost forgedLog (.fin 0) = .broken id := by
  have rows : chained (built sampleHost sampleWrites) = sampleLog := by rw [sampleBuilt, chained]; exact List.filter_eq_self.mpr (by decide)
  have rows' : chained (forgedLog.map Prod.snd) = forgedRow :: sampleLog.tail := rfl
  refine tamperEvident sampleHex sampleWrites (by decide) forgedLog (by rw [rows, rows']; decide +kernel) ?_
  rw [rows, rows']
  exact Tampered.edited [] sampleLog.tail (sampleLog.head (by decide)) forgedRow (.inl (by decide)) (.inl rfl)

-- A rewritten actor and an unchained last row both pass.
theorem tamperMissed :
    verifyAuditChain sampleHost (numbered ((built sampleHost sampleWrites).map ({ · with actor := "operator" }))) (.fin 0) = .ok 2 ∧
      verifyAuditChain sampleHost (numbered ((built sampleHost sampleWrites).modify 1 ({ · with prevHash := none }))) (.fin 0) = .ok 1 ∧
      (built sampleHost sampleWrites).map Audit.actor = ["system", "system"] ∧
      CollisionFree sampleHost (hashed sampleLog) := by
  rw [sampleBuilt]
  decide +kernel

end HarnessMem.AuditChain
