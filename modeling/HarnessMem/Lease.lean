import HarnessMem.Json
import HarnessMem.Lib.Runs
import HarnessMem.Lib.Tables

/-! The lease store: `mem_leases` and the five calls on it. A thrown error (an invalid clock
reading, a lease id already taken) leaves the rows as the statements before it left them. -/
namespace HarnessMem.Lease
open Js

def defaultLeaseTtlMs : Number := .fin 600000
def maxLeaseTtlMs : ℚ := 3600000

inductive Status where | active | released | expired
  deriving DecidableEq, Repr

structure Row where
  leaseId : String
  target : String
  agentId : String
  project : Option String
  status : Status
  ttlMs : Number
  acquiredAt : String
  renewedAt : Option String
  expiresAt : String
  releasedAt : Option String
  metadata : Option Json
  userId : Option String
  teamId : Option String

structure LeaseRow where
  leaseId : String
  target : String
  agentId : String
  project : Option String
  status : Status
  ttlMs : Number
  acquiredAt : String
  renewedAt : Option String
  expiresAt : String
  releasedAt : Option String
  metadata : Option Json

def parseRow (row : Row) : LeaseRow :=
  ⟨row.leaseId, row.target, row.agentId, row.project, row.status, row.ttlMs, row.acquiredAt,
    row.renewedAt, row.expiresAt, row.releasedAt, row.metadata⟩

structure AcquireRequest where
  target : String
  agentId : String
  project : Option String
  ttlMs : Option Number
  metadata : Option Json
  userId : Option String
  teamId : Option String

structure TenantScope where
  userId : Option String
  teamId : Option String

inductive Thrown where | invalidDate | duplicateKey
  deriving DecidableEq, Repr
inductive AcquireResponse where
  | leased (lease : LeaseRow)
  | alreadyLeased (heldBy expiresAt leaseId : String)
  | invalidTarget (details : String)
  | invalidAgentId (details : String)
  | invalidTtl (details : String)
inductive ReleaseError where | notFound | notOwner
  deriving DecidableEq, Repr
inductive RenewError where | notFound | notOwner | expired | invalidTtl
  deriving DecidableEq, Repr

-- `column = ?`: a NULL on either side is never true.
def sqlEq : Option String → Option String → Bool
  | some a, some b => a = b
  | _, _ => false

theorem sqlEqSome {a b : Option String} : sqlEq a b = true ↔ ∃ v, a = some v ∧ b = some v := by
  cases a <;> cases b <;> simp [sqlEq, eq_comm]

theorem sqlEqComm (a b : Option String) : sqlEq a b = sqlEq b a := by
  cases a <;> cases b <;> simp [sqlEq, eq_comm]

def lapsed (currentIso : String) (row : Row) : Bool :=
  row.status = .active && row.expiresAt ≤ currentIso
def expire (currentIso : String) (row : Row) : Row :=
  {row with status := .expired, releasedAt := row.releasedAt.orElse (fun _ => some currentIso)}
def sweepExpired (currentIso : String) (rows : List Row) : List Row :=
  Tables.update (lapsed currentIso) (expire currentIso) rows

def sameProject (row : Row) (project : Option String) : Bool :=
  (row.project.isNone && project.isNone) || sqlEq row.project project

def untagged (row : Row) : Bool := row.userId.isNone && row.teamId.isNone

-- The tenant clause is only added when the caller carries a user or a team.
def tenantClause (req : AcquireRequest) (row : Row) : Bool :=
  if req.userId.isSome || req.teamId.isSome then
    untagged row || sqlEq row.userId req.userId || sqlEq row.teamId req.teamId
  else true

def contends (nowIso : String) (req : AcquireRequest) (row : Row) : Bool :=
  row.target = trim req.target && row.status = .active && nowIso < row.expiresAt &&
    sameProject row req.project && tenantClause req row

def existing (nowIso : String) (req : AcquireRequest) (rows : List Row) : Option Row :=
  (Tables.orderBy (fun a b => b.acquiredAt ≤ a.acquiredAt) (rows.filter (contends nowIso req))).head?

def acquireTtl (req : AcquireRequest) : Number :=
  match req.ttlMs with
  | some ttl => if ttl.positive then ttl else defaultLeaseTtlMs
  | none => defaultLeaseTtlMs

def newRow (id nowIso expiresAt : String) (req : AcquireRequest) : Row :=
  ⟨id, trim req.target, trim req.agentId, req.project, .active, acquireTtl req, nowIso, none,
    expiresAt, none, req.metadata, req.userId, req.teamId⟩

def acquire (now : Number) (id : String) (req : AcquireRequest) (rows : List Row) :
    List Row × Except Thrown AcquireResponse :=
  if trim req.target = "" then (rows, .ok (.invalidTarget "target must be a non-empty string"))
  else if trim req.agentId = "" then
    (rows, .ok (.invalidAgentId "agent_id must be a non-empty string"))
  else if (acquireTtl req).exceeds maxLeaseTtlMs then
    (rows, .ok (.invalidTtl "ttl_ms must be ≤ 3600000"))
  else match toIso now with
    | none => (rows, .error .invalidDate)
    | some nowIso =>
      let swept := sweepExpired nowIso rows
      match existing nowIso req swept with
      | some held => (swept, .ok (.alreadyLeased held.agentId held.expiresAt held.leaseId))
      | none =>
        match toIso (now.add (acquireTtl req)) with
        | none => (swept, .error .invalidDate)
        | some expiresAt =>
          if swept.any (fun row => row.leaseId = id) then (swept, .error .duplicateKey)
          else
            let row := newRow id nowIso expiresAt req
            (swept ++ [row], .ok (.leased (parseRow row)))

def matchesTenant (row : Row) : Option TenantScope → Bool
  | none => true
  | some tenant =>
    (tenant.userId.isNone && tenant.teamId.isNone) || untagged row ||
      sqlEq row.userId tenant.userId || sqlEq row.teamId tenant.teamId

def findRow (leaseId : String) (rows : List Row) : Option Row :=
  rows.find? (fun row => row.leaseId = leaseId)
def setRow (leaseId : String) (change : Row → Row) (rows : List Row) : List Row :=
  Tables.update (fun row => row.leaseId = leaseId) change rows

def finish (nowIso : String) (row : Row) : Row :=
  {row with status := .released, releasedAt := some nowIso}
def extend (nowIso expiresAt : String) (ttlMs : Number) (row : Row) : Row :=
  {row with renewedAt := some nowIso, expiresAt, ttlMs}

def release (now : Number) (leaseId agentId : String) (tenant : Option TenantScope) (rows : List Row) :
    List Row × Except Thrown (Except ReleaseError LeaseRow) :=
  match findRow leaseId rows with
  | none => (rows, .ok (.error .notFound))
  | some row =>
    if matchesTenant row tenant = false then (rows, .ok (.error .notFound))
    else if row.agentId ≠ agentId then (rows, .ok (.error .notOwner))
    else match toIso now with
      | none => (rows, .error .invalidDate)
      | some nowIso =>
        (setRow leaseId (finish nowIso) rows, .ok (.ok (parseRow (finish nowIso row))))

def renewTtl (row : Row) (ttlMs : Option Number) : Number :=
  match ttlMs with
  | some ttl => if ttl.positive then ttl else row.ttlMs
  | none => row.ttlMs

def renew (now : Number) (leaseId agentId : String) (ttlMs : Option Number) (tenant : Option TenantScope)
    (rows : List Row) : List Row × Except Thrown (Except RenewError LeaseRow) :=
  match findRow leaseId rows with
  | none => (rows, .ok (.error .notFound))
  | some row =>
    if matchesTenant row tenant = false then (rows, .ok (.error .notFound))
    else if row.agentId ≠ agentId then (rows, .ok (.error .notOwner))
    else match toIso now with
      | none => (rows, .error .invalidDate)
      | some nowIso =>
        if row.status ≠ .active ∨ row.expiresAt ≤ nowIso then (rows, .ok (.error .expired))
        else if (renewTtl row ttlMs).exceeds maxLeaseTtlMs then (rows, .ok (.error .invalidTtl))
        else match toIso (now.add (renewTtl row ttlMs)) with
          | none => (rows, .error .invalidDate)
          | some expiresAt =>
            let longer := extend nowIso expiresAt (renewTtl row ttlMs)
            (setRow leaseId longer rows, .ok (.ok (parseRow (longer row))))

def get (now : Number) (leaseId : String) (rows : List Row) :
    List Row × Except Thrown (Option LeaseRow) :=
  match toIso now with
  | none => (rows, .error .invalidDate)
  | some nowIso =>
    let swept := sweepExpired nowIso rows
    (swept, .ok ((findRow leaseId swept).map parseRow))

-- An empty target counts as no target.
def listActive (now : Number) (target : Option String) (rows : List Row) :
    List Row × Except Thrown (List LeaseRow) :=
  match toIso now with
  | none => (rows, .error .invalidDate)
  | some nowIso =>
    let swept := sweepExpired nowIso rows
    let wanted := fun row : Row => row.status = .active &&
      (match target with | none => true | some t => t = "" || row.target = t)
    (swept, .ok ((Tables.orderBy (fun a b => b.acquiredAt ≤ a.acquiredAt)
      (swept.filter wanted)).map parseRow))

inductive Call where
  | acquire (now : Number) (id : String) (req : AcquireRequest)
  | release (now : Number) (leaseId agentId : String) (tenant : Option TenantScope)
  | renew (now : Number) (leaseId agentId : String) (ttlMs : Option Number) (tenant : Option TenantScope)
  | get (now : Number) (leaseId : String)
  | listActive (now : Number) (target : Option String)

def step (rows : List Row) : Call → List Row
  | .acquire now id req => (acquire now id req rows).1
  | .release now leaseId agentId tenant => (release now leaseId agentId tenant rows).1
  | .renew now leaseId agentId ttlMs tenant => (renew now leaseId agentId ttlMs tenant rows).1
  | .get now leaseId => (get now leaseId rows).1
  | .listActive now target => (listActive now target rows).1

-- What one call can do to the rows, in one place: every invariant below reads this only.
inductive Effect (rows : List Row) : List Row → Prop where
  | same : Effect rows rows
  | swept (nowIso : String) : Effect rows (sweepExpired nowIso rows)
  | leased (nowIso expiresAt id : String) (req : AcquireRequest)
      (free : existing nowIso req (sweepExpired nowIso rows) = none)
      (fresh : ∀ row ∈ sweepExpired nowIso rows, row.leaseId ≠ id) :
      Effect rows (sweepExpired nowIso rows ++ [newRow id nowIso expiresAt req])
  | released (leaseId nowIso : String) :
      Effect rows (setRow leaseId (finish nowIso) rows)
  | renewed (leaseId nowIso expiresAt : String) (ttl : Number) :
      Effect rows (setRow leaseId (extend nowIso expiresAt ttl) rows)

theorem acquireEffect (now : Number) (id : String) (req : AcquireRequest) (rows : List Row) :
    Effect rows (acquire now id req rows).1 := by
  unfold acquire
  split
  · exact .same
  split
  · exact .same
  split
  · exact .same
  split
  · exact .same
  rename_i nowIso _
  simp only
  split
  · exact .swept nowIso
  rename_i free
  split
  · exact .swept nowIso
  rename_i expiresAt _
  split
  · exact .swept nowIso
  · rename_i unused
    refine .leased nowIso expiresAt id req free (fun row mem same => unused ?_)
    exact List.any_eq_true.mpr ⟨row, mem, by simpa using same⟩

theorem releaseEffect (now : Number) (leaseId agentId : String) (tenant : Option TenantScope)
    (rows : List Row) : Effect rows (release now leaseId agentId tenant rows).1 := by
  unfold release
  split
  · exact .same
  split
  · exact .same
  split
  · exact .same
  split
  · exact .same
  · exact .released leaseId _

theorem renewEffect (now : Number) (leaseId agentId : String) (ttlMs : Option Number)
    (tenant : Option TenantScope) (rows : List Row) :
    Effect rows (renew now leaseId agentId ttlMs tenant rows).1 := by
  unfold renew
  split
  · exact .same
  split
  · exact .same
  split
  · exact .same
  split
  · exact .same
  split
  · exact .same
  split
  · exact .same
  split
  · exact .same
  · exact .renewed leaseId _ _ _

theorem stepEffect (rows : List Row) (call : Call) : Effect rows (step rows call) := by
  cases call with
  | acquire now id req => exact acquireEffect now id req rows
  | release now leaseId agentId tenant => exact releaseEffect now leaseId agentId tenant rows
  | renew now leaseId agentId ttlMs tenant => exact renewEffect now leaseId agentId ttlMs tenant rows
  | get now leaseId =>
    simp only [step, get]
    split
    · exact .same
    · exact .swept _
  | listActive now target =>
    simp only [step, listActive]
    split
    · exact .same
    · exact .swept _

-- What the calls of a tenant write, with the clock reading and the row they act on.
theorem acquireCases (now : Number) (id : String) (req : AcquireRequest) (rows : List Row) :
    (acquire now id req rows).1 = rows ∨ ∃ nowIso, toIso now = some nowIso ∧
      ((acquire now id req rows).1 = sweepExpired nowIso rows ∨ ∃ expiresAt, (∀ row ∈ sweepExpired nowIso rows, row.leaseId ≠ id) ∧
        (acquire now id req rows).1 = sweepExpired nowIso rows ++ [newRow id nowIso expiresAt req]) := by
  unfold acquire
  split
  · exact .inl rfl
  split
  · exact .inl rfl
  split
  · exact .inl rfl
  split
  · exact .inl rfl
  rename_i nowIso dated
  refine .inr ⟨nowIso, dated, ?_⟩
  simp only
  split
  · exact .inl rfl
  split
  · exact .inl rfl
  rename_i expiresAt _
  split
  · exact .inl rfl
  · rename_i unused
    refine .inr ⟨expiresAt, fun row mem same => unused ?_, rfl⟩
    exact List.any_eq_true.mpr ⟨row, mem, by simpa using same⟩

theorem releaseCases (now : Number) (leaseId agentId : String) (tenant : Option TenantScope) (rows : List Row) :
    (release now leaseId agentId tenant rows).1 = rows ∨ ∃ nowIso row, findRow leaseId rows = some row ∧
      matchesTenant row tenant = true ∧ (release now leaseId agentId tenant rows).1 = setRow leaseId (finish nowIso) rows := by
  unfold release
  split
  · exact .inl rfl
  rename_i row found
  split
  · exact .inl rfl
  rename_i seen
  split
  · exact .inl rfl
  split
  · exact .inl rfl
  · exact .inr ⟨_, row, found, Bool.eq_true_of_not_eq_false seen, rfl⟩

theorem renewCases (now : Number) (leaseId agentId : String) (ttlMs : Option Number) (tenant : Option TenantScope)
    (rows : List Row) : (renew now leaseId agentId ttlMs tenant rows).1 = rows ∨ ∃ nowIso expiresAt ttl row,
      findRow leaseId rows = some row ∧ matchesTenant row tenant = true ∧
        (renew now leaseId agentId ttlMs tenant rows).1 = setRow leaseId (extend nowIso expiresAt ttl) rows := by
  unfold renew
  split
  · exact .inl rfl
  rename_i row found
  split
  · exact .inl rfl
  rename_i seen
  split
  · exact .inl rfl
  split
  · exact .inl rfl
  split
  · exact .inl rfl
  split
  · exact .inl rfl
  split
  · exact .inl rfl
  · exact .inr ⟨_, _, _, row, found, Bool.eq_true_of_not_eq_false seen, rfl⟩

-- Two rows whose tenants can see each other: one of them is untagged, or they share a tag.
def Overlap (a b : Row) : Prop :=
  untagged a = true ∨ untagged b = true ∨ (∃ u, a.userId = some u ∧ b.userId = some u) ∨
    ∃ t, a.teamId = some t ∧ b.teamId = some t

def Clash (a b : Row) : Prop :=
  a.status = .active ∧ b.status = .active ∧ trim a.target = trim b.target ∧
    a.project = b.project ∧ Overlap a b

structure Sound (rows : List Row) : Prop where
  keys : rows.Pairwise (fun a b => a.leaseId ≠ b.leaseId)
  trimmed : ∀ row ∈ rows, trim row.target = row.target
  apart : rows.Pairwise (fun a b => ¬ Clash a b)

-- Any change that keeps id, target, project and tenant and never activates a row is harmless.
structure Harmless (change : Row → Row) : Prop where
  leaseId : ∀ row, (change row).leaseId = row.leaseId
  target : ∀ row, (change row).target = row.target
  project : ∀ row, (change row).project = row.project
  userId : ∀ row, (change row).userId = row.userId
  teamId : ∀ row, (change row).teamId = row.teamId
  status : ∀ row, (change row).status = .active → row.status = .active

theorem clashLeft {change : Row → Row} (ok : Harmless change) {a b : Row}
    (clash : Clash (change a) b) : Clash a b := by
  obtain ⟨active, other, target, project, overlap⟩ := clash
  refine ⟨ok.status a active, other, by rw [← ok.target a]; exact target,
    by rw [← ok.project a]; exact project, ?_⟩
  simpa only [Overlap, untagged, ok.userId, ok.teamId] using overlap

theorem clashSymm {a b : Row} (clash : Clash a b) : Clash b a := by
  obtain ⟨ha, hb, target, project, overlap⟩ := clash
  refine ⟨hb, ha, target.symm, project.symm, ?_⟩
  rcases overlap with left | right | ⟨u, hu, hv⟩ | ⟨t, ht, hw⟩
  · exact .inr (.inl left)
  · exact .inl right
  · exact .inr (.inr (.inl ⟨u, hv, hu⟩))
  · exact .inr (.inr (.inr ⟨t, hw, ht⟩))

theorem updateSound {choose : Row → Bool} {change : Row → Row} (ok : Harmless change)
    {rows : List Row} (sound : Sound rows) : Sound (Tables.update choose change rows) where
  keys := Tables.updatePairwise (fun a b _ ne => by rwa [ok.leaseId a])
    (fun a b _ ne => by rwa [ok.leaseId b]) sound.keys
  trimmed := Tables.updateAll (fun row _ eq => by rwa [ok.target row]) sound.trimmed
  apart := Tables.updatePairwise (fun a b _ no clash => no (clashLeft ok clash))
    (fun a b _ no clash => no (clashSymm (clashLeft ok (clashSymm clash)))) sound.apart

theorem expireHarmless (nowIso : String) : Harmless (expire nowIso) :=
  ⟨fun _ => rfl, fun _ => rfl, fun _ => rfl, fun _ => rfl, fun _ => rfl,
    fun _ active => by simp [expire] at active⟩
theorem finishHarmless (nowIso : String) : Harmless (finish nowIso) :=
  ⟨fun _ => rfl, fun _ => rfl, fun _ => rfl, fun _ => rfl, fun _ => rfl,
    fun _ active => by simp [finish] at active⟩
theorem extendHarmless (nowIso expiresAt : String) (ttl : Number) :
    Harmless (extend nowIso expiresAt ttl) :=
  ⟨fun _ => rfl, fun _ => rfl, fun _ => rfl, fun _ => rfl, fun _ => rfl, fun _ active => active⟩

theorem sweepSound (nowIso : String) {rows : List Row} (sound : Sound rows) :
    Sound (sweepExpired nowIso rows) := updateSound (expireHarmless nowIso) sound

-- After a sweep at `nowIso` the rows still active are exactly those the contention query sees.
theorem sweptLive {nowIso : String} {rows : List Row} {row : Row}
    (mem : row ∈ sweepExpired nowIso rows) (active : row.status = .active) :
    nowIso < row.expiresAt := by
  obtain ⟨old, _, rfl⟩ := Tables.memUpdate.mp mem
  by_cases late : lapsed nowIso old
  · simp [late, expire] at active
  · simp only [late, Bool.false_eq_true, if_false] at active ⊢
    simpa [lapsed, active] using late

theorem clashContends {nowIso expiresAt id : String} {req : AcquireRequest} {old : Row}
    (trimmed : trim old.target = old.target) (live : nowIso < old.expiresAt)
    (clash : Clash old (newRow id nowIso expiresAt req)) : contends nowIso req old = true := by
  obtain ⟨active, _, target, project, overlap⟩ := clash
  have sameTarget : old.target = trim req.target := by
    rw [← trimmed, target]
    exact trimIdem req.target
  have inProject : sameProject old req.project = true := by
    have eq : old.project = req.project := project
    cases value : req.project <;> simp [sameProject, eq, value, sqlEq]
  have shared : tenantClause req old = true := by
    unfold tenantClause
    split
    · rename_i tagged
      rcases overlap with free | free | ⟨u, hu, hr⟩ | ⟨t, ht, hr⟩
      · simp [free]
      · simp only [untagged, newRow, Bool.and_eq_true, Option.isNone_iff_eq_none] at free
        simp [free.1, free.2] at tagged
      · have user : sqlEq old.userId req.userId = true := sqlEqSome.mpr ⟨u, hu, hr⟩
        simp [user]
      · have team : sqlEq old.teamId req.teamId = true := sqlEqSome.mpr ⟨t, ht, hr⟩
        simp [team]
    · rfl
  simp only [contends, Bool.and_eq_true, decide_eq_true_eq]
  exact ⟨⟨⟨⟨sameTarget, active⟩, live⟩, inProject⟩, shared⟩

theorem leasedSound {nowIso expiresAt id : String} {req : AcquireRequest} {rows : List Row}
    (sound : Sound rows) (free : existing nowIso req (sweepExpired nowIso rows) = none)
    (fresh : ∀ row ∈ sweepExpired nowIso rows, row.leaseId ≠ id) :
    Sound (sweepExpired nowIso rows ++ [newRow id nowIso expiresAt req]) := by
  have swept := sweepSound nowIso sound
  have silent := Tables.orderByFirstNone.mp free
  refine ⟨Tables.insertPairwise swept.keys fresh, ?_, Tables.insertPairwise swept.apart ?_⟩
  · intro row mem
    rcases List.mem_append.mp mem with old | new
    · exact swept.trimmed row old
    · rw [List.mem_singleton.mp new]
      exact trimIdem req.target
  · intro old mem clash
    have seen := clashContends (swept.trimmed old mem) (sweptLive mem clash.1) clash
    rw [silent old mem] at seen
    exact absurd seen (by decide)

theorem effectSound {rows after : List Row} (effect : Effect rows after) (sound : Sound rows) :
    Sound after := by
  cases effect with
  | same => exact sound
  | swept nowIso => exact sweepSound nowIso sound
  | leased nowIso expiresAt id req free fresh => exact leasedSound sound free fresh
  | released leaseId nowIso => exact updateSound (finishHarmless nowIso) sound
  | renewed leaseId nowIso expiresAt ttl =>
    exact updateSound (extendHarmless nowIso expiresAt ttl) sound

theorem soundEmpty : Sound [] := ⟨.nil, by simp, .nil⟩

theorem runSound (calls : List Call) : Sound (Runs.run step [] calls) :=
  Runs.invariant step (fun rows call sound => effectSound (stepEffect rows call) sound) soundEmpty calls

theorem leasesExclusive (calls : List Call) :
    (Runs.run step [] calls).Pairwise (fun a b => a.leaseId ≠ b.leaseId ∧ ¬ Clash a b) :=
  (runSound calls).keys.and (runSound calls).apart

end HarnessMem.Lease
