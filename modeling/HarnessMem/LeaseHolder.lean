import HarnessMem.IsoTexts
import HarnessMem.Lease
import Mathlib.Tactic.Linarith
import Mathlib.Data.Rat.Cast.Order
import Mathlib.Algebra.Order.Field.Basic

/-! The holder of a lease: what an acquire leaves in the rows, and how long release and renew answer to
the agent it was acquired for. -/
namespace HarnessMem.Lease
open IsoTexts Js

theorem toIsoOf {now : Number} {ms : Int} (clipped : timeClip now = some ms) : toIso now = some (isoText ms) := by
  rw [toIso, clipped]
  rfl

theorem clipRange (q : ℚ) (bound : Nat) : q.num.natAbs ≤ bound * q.den ↔ |q| ≤ bound := by
  have pos : (0 : ℚ) < q.den := by exact_mod_cast q.den_pos
  rw [Rat.abs_def, Rat.divInt_eq_div, div_le_iff₀ (by exact_mod_cast q.den_pos)]
  exact_mod_cast Iff.rfl

theorem truncateNear (q : ℚ) : (truncate q : ℚ) - 1 < q ∧ q < truncate q + 1 := by
  unfold truncate
  split
  · have low := Int.floor_le q
    have high := Int.lt_floor_add_one q
    constructor <;> linarith
  · have low := Int.ceil_lt_add_one q
    have high := Int.le_ceil q
    constructor <;> linarith

-- A clock reading of a four-digit year can be moved on by any allowed duration.
theorem clipLater {now : Number} {ms : Int} (clipped : timeClip now = some ms) (four : FourDigits ms) {ttl : ℚ} (some : 0 < ttl)
    (most : ttl ≤ maxLeaseTtlMs) : ∃ later, timeClip (now.add (.fin ttl)) = .some later := by
  cases now with
  | nan => cases clipped
  | negInf => cases clipped
  | posInf => cases clipped
  | fin q =>
    simp only [timeClip] at clipped
    split at clipped
    · have same := Option.some.inj clipped
      obtain ⟨near, above⟩ := truncateNear q
      rw [same] at near above
      have low : (-62167219200000 : ℚ) ≤ ms := by exact_mod_cast four.1
      have high : (ms : ℚ) ≤ 253402300799999 := by exact_mod_cast four.2
      have range : |q + ttl| ≤ (8640000000000000 : Nat) := by
        unfold maxLeaseTtlMs at most
        rw [abs_le]
        constructor <;> norm_num <;> linarith
      exact ⟨truncate (q + ttl), by simp only [Number.add, timeClip, if_pos ((clipRange _ _).mpr range)]⟩
    · cases clipped

def Reads (now : Number) (ms : Int) : Prop := timeClip now = some ms ∧ FourDigits ms

theorem isoReading {now : Number} {nowIso : String} (dated : toIso now = some nowIso) : ∃ ms, timeClip now = some ms ∧ nowIso = isoText ms := by
  obtain ⟨ms, clipped, same⟩ := Option.map_eq_some_iff.mp dated
  exact ⟨ms, clipped, same.symm⟩

theorem acquireLeased {now : Number} {id : String} {req : AcquireRequest} {rows after : List Row} {lease : LeaseRow}
    (ok : acquire now id req rows = (after, .ok (.leased lease))) :
    (acquireTtl req).exceeds maxLeaseTtlMs = false ∧ ∃ nowIso expiresAt, toIso now = some nowIso ∧
      toIso (now.add (acquireTtl req)) = some expiresAt ∧ (∀ row ∈ sweepExpired nowIso rows, row.leaseId ≠ id) ∧
      after = sweepExpired nowIso rows ++ [newRow id nowIso expiresAt req] ∧ lease = parseRow (newRow id nowIso expiresAt req) := by
  unfold acquire at ok
  split at ok
  · cases ok
  split at ok
  · cases ok
  split at ok
  · cases ok
  rename_i fits
  split at ok
  · cases ok
  rename_i nowIso dated
  simp only at ok
  split at ok
  · cases ok
  split at ok
  · cases ok
  rename_i expiresAt ends
  split at ok
  · cases ok
  · rename_i unused
    cases ok
    refine ⟨Bool.eq_false_of_not_eq_true fits, nowIso, expiresAt, dated, ends, fun row mem same => unused ?_, rfl, rfl⟩
    exact List.any_eq_true.mpr ⟨row, mem, by simpa using same⟩

theorem findUpdate {choose : Row → Bool} {change : Row → Row} (same : ∀ row, (change row).leaseId = row.leaseId) (id : String)
    (rows : List Row) :
    findRow id (Tables.update choose change rows) = (findRow id rows).map (fun row => if choose row then change row else row) := by
  have kept : ∀ row, (if choose row then change row else row).leaseId = row.leaseId := by
    intro row
    split
    · exact same row
    · rfl
  unfold findRow Tables.update
  rw [List.find?_map]
  exact congrArg _ (congrArg (fun p => List.find? p rows) (funext fun row => by simp only [Function.comp, kept]))

-- The row of a lease held for an agent, not to end before `bound`.
structure Held (leaseId agentId : String) (tenant : TenantScope) (bound : Int) (rows : List Row) (row : Row) (expiry : Int) : Prop where
  found : findRow leaseId rows = some row
  agent : row.agentId = agentId
  tenant : matchesTenant row (some tenant) = true
  active : row.status = .active
  expires : row.expiresAt = isoText expiry
  late : bound ≤ expiry
  four : FourDigits expiry
  ttl : ∃ q, row.ttlMs = .fin q ∧ 0 < q ∧ q ≤ maxLeaseTtlMs

def Holds (leaseId agentId : String) (tenant : TenantScope) (bound : Int) (rows : List Row) : Prop :=
  ∃ row expiry, Held leaseId agentId tenant bound rows row expiry

theorem allowedTtl {ttl : Number} (positive : ttl.positive = true) (fits : ttl.exceeds maxLeaseTtlMs = false) :
    ∃ q, ttl = .fin q ∧ 0 < q ∧ q ≤ maxLeaseTtlMs := by
  cases ttl with
  | nan => cases positive
  | negInf => cases positive
  | posInf => cases fits
  | fin q => exact ⟨q, rfl, by simpa [Number.positive] using positive, by simpa [Number.exceeds] using fits⟩

theorem acquireTtlPositive (req : AcquireRequest) : (acquireTtl req).positive = true := by
  unfold acquireTtl
  split
  · split
    · assumption
    · rfl
  · rfl

section
variable {leaseId agentId : String} {tenant : TenantScope} {bound : Int} {rows : List Row}

theorem leasedHolds {now : Number} {req : AcquireRequest} {after : List Row} {lease : LeaseRow} {expiry : Int}
    (ok : acquire now leaseId req rows = (after, .ok (.leased lease)))
    (ends : timeClip (now.add (acquireTtl req)) = some expiry) (four : FourDigits expiry) :
    Holds leaseId (trim req.agentId) ⟨req.userId, req.teamId⟩ expiry after := by
  obtain ⟨fits, nowIso, expiresAt, dated, ended, fresh, rfl, -⟩ := acquireLeased ok
  rw [toIsoOf ends] at ended
  refine ⟨newRow leaseId nowIso expiresAt req, expiry, ?_, rfl, ?_, rfl, (Option.some.inj ended).symm, le_refl _, four,
    allowedTtl (acquireTtlPositive req) fits⟩
  · have absent : findRow leaseId (sweepExpired nowIso rows) = none :=
      List.find?_eq_none.mpr (fun row mem => by simpa using fresh row mem)
    unfold findRow at absent ⊢
    rw [List.find?_append, absent]
    simp [newRow]
  · cases user : req.userId <;> cases team : req.teamId <;> simp [matchesTenant, untagged, newRow, user, team, sqlEq]

-- A change to the rows of other leases, or a sweep before the lease ends, leaves it held.
theorem holdsUpdate {choose : Row → Bool} {change : Row → Row} (same : ∀ row, (change row).leaseId = row.leaseId)
    (spares : ∀ row expiry, Held leaseId agentId tenant bound rows row expiry → choose row = false)
    (held : Holds leaseId agentId tenant bound rows) : Holds leaseId agentId tenant bound (Tables.update choose change rows) := by
  obtain ⟨row, expiry, held⟩ := held
  refine ⟨row, expiry, ?_, held.agent, held.tenant, held.active, held.expires, held.late, held.four, held.ttl⟩
  rw [findUpdate same, held.found, Option.map_some, spares row expiry held]
  rfl

theorem holdsSweep {ms : Int} (four : FourDigits ms) (before : ms < bound) (held : Holds leaseId agentId tenant bound rows) :
    Holds leaseId agentId tenant bound (sweepExpired (isoText ms) rows) := by
  refine holdsUpdate (expireHarmless _).leaseId (fun row expiry held => ?_) held
  have open_ : ¬ isoText expiry ≤ isoText ms := by
    rw [fourDigitsLe held.four four]
    have late := held.late
    omega
  simp [lapsed, held.active, held.expires, open_]

theorem heldId {row : Row} {expiry : Int} (held : Held leaseId agentId tenant bound rows row expiry) : row.leaseId = leaseId := by
  have found := held.found
  unfold findRow at found
  simpa using List.find?_some found

theorem holdsSet {id : String} {change : Row → Row} (same : ∀ row, (change row).leaseId = row.leaseId) (other : id ≠ leaseId)
    (held : Holds leaseId agentId tenant bound rows) : Holds leaseId agentId tenant bound (setRow id change rows) :=
  holdsUpdate same (fun _ _ held => decide_eq_false (fun own => other (own.symm.trans (heldId held)))) held

theorem holdsInsert {row : Row} (held : Holds leaseId agentId tenant bound rows) : Holds leaseId agentId tenant bound (rows ++ [row]) := by
  obtain ⟨own, expiry, held⟩ := held
  refine ⟨own, expiry, ?_, held.agent, held.tenant, held.active, held.expires, held.late, held.four, held.ttl⟩
  have found := held.found
  unfold findRow at found ⊢
  rw [List.find?_append, found]
  rfl

theorem releaseRefused {now : Number} {id agent : String} {scope : Option TenantScope}
    (refused : ∀ lease, (release now id agent scope rows).2 ≠ .ok (.ok lease)) : (release now id agent scope rows).1 = rows := by
  unfold release at refused ⊢
  split
  · rfl
  rename_i row found
  simp only [found] at refused
  split
  · rfl
  rename_i seen
  split
  · rfl
  rename_i own
  split
  · rfl
  rename_i nowIso dated
  simp only [if_neg seen, if_neg own, dated] at refused
  exact absurd rfl (refused _)

theorem renewWrites (now : Number) (id agent : String) (ttlMs : Option Number) (scope : Option TenantScope) (rows : List Row) :
    (renew now id agent ttlMs scope rows).1 = rows ∨ ∃ row nowIso expiry, findRow id rows = some row ∧
      timeClip (now.add (renewTtl row ttlMs)) = some expiry ∧ (renewTtl row ttlMs).exceeds maxLeaseTtlMs = false ∧
      (renew now id agent ttlMs scope rows).1 = setRow id (extend nowIso (isoText expiry) (renewTtl row ttlMs)) rows := by
  unfold renew
  split
  · exact .inl rfl
  rename_i row found
  split
  · exact .inl rfl
  split
  · exact .inl rfl
  split
  · exact .inl rfl
  rename_i nowIso _
  split
  · exact .inl rfl
  split
  · exact .inl rfl
  rename_i fits
  split
  · exact .inl rfl
  rename_i expiresAt ends
  obtain ⟨expiry, clipped, rfl⟩ := isoReading ends
  exact .inr ⟨row, nowIso, expiry, found, clipped, Bool.eq_false_of_not_eq_true fits, rfl⟩

theorem renewTtlPositive {row : Row} {ttlMs : Option Number} (own : row.ttlMs.positive = true) : (renewTtl row ttlMs).positive = true := by
  unfold renewTtl
  split
  · split
    · assumption
    · exact own
  · exact own

def Call.now : Call → Number
  | .acquire now _ _ | .release now _ _ _ | .renew now _ _ _ _ | .get now _ | .listActive now _ => now

def Released (leaseId : String) (rows : List Row) : Call → Prop
  | .release now id agent scope => id = leaseId ∧ ∃ lease, (release now id agent scope rows).2 = .ok (.ok lease)
  | _ => False

-- A renewal of the lease that has it end before `bound`.
def Shortened (leaseId : String) (bound : Int) (rows : List Row) : Call → Prop
  | .renew now id _ ttlMs _ => id = leaseId ∧ ∃ row expiry, findRow leaseId rows = some row ∧
      timeClip (now.add (renewTtl row ttlMs)) = some expiry ∧ ¬ (FourDigits expiry ∧ bound ≤ expiry)
  | _ => False

-- A call before `bound` that neither releases the lease nor shortens it.
structure Calm (leaseId : String) (bound : Int) (rows : List Row) (call : Call) : Prop where
  clock : ∀ ms, timeClip call.now = some ms → FourDigits ms ∧ ms < bound
  unreleased : ¬ Released leaseId rows call
  unshortened : ¬ Shortened leaseId bound rows call

theorem holdsSwept {now : Number} {nowIso : String} (dated : toIso now = some nowIso)
    (clock : ∀ ms, timeClip now = some ms → FourDigits ms ∧ ms < bound) (held : Holds leaseId agentId tenant bound rows) :
    Holds leaseId agentId tenant bound (sweepExpired nowIso rows) := by
  obtain ⟨ms, clipped, rfl⟩ := isoReading dated
  obtain ⟨four, before⟩ := clock ms clipped
  exact holdsSweep four before held

theorem holdsStep (call : Call) (calm : Calm leaseId bound rows call) (held : Holds leaseId agentId tenant bound rows) :
    Holds leaseId agentId tenant bound (step rows call) := by
  cases call with
  | acquire now id req =>
    rcases acquireCases now id req rows with same | ⟨nowIso, dated, swept | ⟨expiresAt, _, leased⟩⟩
    · rwa [step, same]
    · rw [step, swept]
      exact holdsSwept dated calm.clock held
    · rw [step, leased]
      exact holdsInsert (holdsSwept dated calm.clock held)
  | release now id agent scope =>
    by_cases own : id = leaseId
    · have refused : ∀ lease, (release now id agent scope rows).2 ≠ .ok (.ok lease) :=
        fun lease ok => calm.unreleased ⟨own, lease, ok⟩
      rwa [step, releaseRefused refused]
    · rcases releaseCases now id agent scope rows with same | ⟨nowIso, row, _, _, finished⟩
      · rwa [step, same]
      · rw [step, finished]
        exact holdsSet (finishHarmless _).leaseId own held
  | renew now id agent ttlMs scope =>
    rcases renewWrites now id agent ttlMs scope rows with same | ⟨row, nowIso, expiry, found, ends, fits, extended⟩
    · rwa [step, same]
    rw [step, extended]
    by_cases own : id = leaseId
    · subst own
      obtain ⟨other, expired, held⟩ := held
      obtain rfl : other = row := Option.some.inj (held.found.symm.trans found)
      have late : FourDigits expiry ∧ bound ≤ expiry :=
        not_not.mp (fun short => calm.unshortened ⟨rfl, other, expiry, found, ends, short⟩)
      obtain ⟨q, ttl, positive, _⟩ := held.ttl
      have own : other.ttlMs.positive = true := by simpa [ttl, Number.positive] using positive
      refine ⟨extend nowIso (isoText expiry) (renewTtl other ttlMs) other, expiry, ?_, held.agent, held.tenant, held.active, rfl,
        late.2, late.1, allowedTtl (renewTtlPositive own) fits⟩
      unfold setRow
      rw [findUpdate (extendHarmless _ _ _).leaseId, found, Option.map_some, if_pos (decide_eq_true (heldId held))]
    · exact holdsSet (extendHarmless _ _ _).leaseId own held
  | get now id =>
    simp only [step, get]
    split
    · exact held
    · exact holdsSwept (by assumption) calm.clock held
  | listActive now target =>
    simp only [step, listActive]
    split
    · exact held
    · exact holdsSwept (by assumption) calm.clock held

theorem holdsRun {calls : List Call} (calm : Runs.Throughout step (Calm leaseId bound) rows calls)
    (held : Holds leaseId agentId tenant bound rows) : Holds leaseId agentId tenant bound (Runs.run step rows calls) := by
  induction calls generalizing rows with
  | nil => exact held
  | cons call rest ih => exact ih calm.2 (holdsStep call calm.1 held)

-- The two answers a holder counts on.
structure Answers (now : Number) (leaseId agent : String) (ttlMs : Option Number) (tenant : TenantScope) (rows : List Row) : Prop where
  release : ∃ lease, (release now leaseId agent (some tenant) rows).2 = .ok (.ok lease)
  renew : ∃ lease, (renew now leaseId agent ttlMs (some tenant) rows).2 = .ok (.ok lease)

theorem holdsAnswers {now : Number} {ms : Int} (reads : Reads now ms) (before : ms < bound) {ttlMs : Option Number}
    (fits : ∀ ttl, ttlMs = some ttl → ttl.exceeds maxLeaseTtlMs = false) (held : Holds leaseId agentId tenant bound rows) :
    Answers now leaseId agentId ttlMs tenant rows := by
  obtain ⟨row, expiry, held⟩ := held
  have open_ : ¬ (row.status ≠ .active ∨ row.expiresAt ≤ isoText ms) := by
    have late := held.late
    rw [held.active, held.expires, fourDigitsLe held.four reads.2]
    simp only [ne_eq, not_true_eq_false, false_or]
    omega
  obtain ⟨q, ttl, positive, most⟩ := held.ttl
  have allowed : (renewTtl row ttlMs).exceeds maxLeaseTtlMs = false := by
    have own : row.ttlMs.exceeds maxLeaseTtlMs = false := by simpa [ttl, Number.exceeds] using most
    cases given : ttlMs with
    | none => exact own
    | some other =>
      unfold renewTtl
      simp only
      split
      · exact fits other given
      · exact own
  obtain ⟨p, same, more, least⟩ := allowedTtl (renewTtlPositive (by simpa [ttl, Number.positive] using positive)) allowed
  obtain ⟨later, ends⟩ := clipLater reads.1 reads.2 more least
  rw [← same] at ends
  have owner : ¬ row.agentId ≠ agentId := not_not.mpr held.agent
  constructor
  · simp only [release, held.found, held.tenant, Bool.true_eq_false, if_false, if_neg owner, toIsoOf reads.1]
    exact ⟨_, rfl⟩
  · simp only [renew, held.found, held.tenant, Bool.true_eq_false, if_false, if_neg owner, toIsoOf reads.1, if_neg open_, allowed,
      Bool.false_eq_true, toIsoOf ends]
    exact ⟨_, rfl⟩
end

-- A release writes nothing if it is refused, or repeats one made at the same reading.
structure Idle (now : Number) (agentId : String) (tenant : Option TenantScope) (row : Row) : Prop where
  idle : matchesTenant row tenant = false ∨ row.agentId ≠ agentId ∨ timeClip now = none ∨
    row.status = .released ∧ row.releasedAt = toIso now

theorem releaseIdle {now : Number} {leaseId agentId : String} {tenant : Option TenantScope} {rows : List Row} {row : Row}
    (keys : (rows.map Row.leaseId).Nodup) (found : findRow leaseId rows = some row) :
    (release now leaseId agentId tenant rows).1 = rows ↔ Idle now agentId tenant row := by
  have mem : row ∈ rows := List.mem_of_find?_eq_some found
  have id : row.leaseId = leaseId := by
    unfold findRow at found
    simpa using List.find?_some found
  by_cases seen : matchesTenant row tenant = false
  · exact iff_of_true (by simp only [release, found, seen, if_true]) ⟨.inl seen⟩
  by_cases own : row.agentId ≠ agentId
  · exact iff_of_true (by simp only [release, found, if_neg seen, if_pos own]) ⟨.inr (.inl own)⟩
  cases dated : toIso now with
  | none =>
    refine iff_of_true (by simp only [release, found, if_neg seen, if_neg own, dated]) ⟨.inr (.inr (.inl ?_))⟩
    exact Option.map_eq_none_iff.mp dated
  | some nowIso =>
    obtain ⟨ms, clipped, -⟩ := isoReading dated
    simp only [release, found, if_neg seen, if_neg own, dated]
    constructor
    · intro same
      have here : finish nowIso row = row := by
        have kept : findRow leaseId (Tables.update (fun row => row.leaseId = leaseId) (finish nowIso) rows) = _ :=
          findUpdate (finishHarmless nowIso).leaseId leaseId rows
        unfold setRow at same
        rw [same, found, Option.map_some, if_pos (decide_eq_true id)] at kept
        exact (Option.some.inj kept).symm
      refine ⟨.inr (.inr (.inr ⟨?_, ?_⟩))⟩
      · rw [← here]
        rfl
      · rw [← here, dated]
        rfl
    · rintro ⟨hidden | foreign | undated | ⟨closed, stamped⟩⟩
      · exact absurd hidden seen
      · exact absurd foreign own
      · rw [clipped] at undated
        cases undated
      · have fixed : ∀ other ∈ rows, (if other.leaseId = leaseId then finish nowIso other else other) = other := by
          intro other held
          by_cases same : other.leaseId = leaseId
          · rw [Tables.keyUnique keys held mem (same.trans id.symm), if_pos id, finish, ← closed, ← dated, ← stamped]
          · rw [if_neg same]
        simp only [setRow, Tables.update, decide_eq_true_eq]
        exact (List.map_congr_left fixed).trans (List.map_id rows)

def start : Number := .fin 1767225600000
def padded (agentId : String) : AcquireRequest := ⟨"file:a.ts", agentId, none, some (.fin 1000), none, none, none⟩
def heldRow (agentId : String) : Row := newRow "L" "2026-01-01T00:00:00.000Z" "2026-01-01T00:00:01.000Z" (padded agentId)

theorem acquiredHere (agentId : String) (named : trim agentId ≠ "") :
    acquire start "L" (padded agentId) [] = ([heldRow agentId], .ok (.leased (parseRow (heldRow agentId)))) := by
  have dated : toIso start = some "2026-01-01T00:00:00.000Z" := by decide
  have ends : toIso (start.add (acquireTtl (padded agentId))) = some "2026-01-01T00:00:01.000Z" :=
    (by decide +kernel : toIso (start.add (.fin 1000)) = some "2026-01-01T00:00:01.000Z")
  have target : trim (padded agentId).target ≠ "" := (by decide : trim "file:a.ts" ≠ "")
  have fits : ¬ (acquireTtl (padded agentId)).exceeds maxLeaseTtlMs = true := (by decide : ¬ (Number.fin 1000).exceeds maxLeaseTtlMs = true)
  unfold acquire
  rw [if_neg target, if_neg (by exact named), if_neg fits, dated]
  simp only [ends]
  rfl

end HarnessMem.Lease
