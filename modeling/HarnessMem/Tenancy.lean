import HarnessMem.Lib.Unwinding
import HarnessMem.Signals

/-! Two tenants on one lease store and one signal store: what the calls of the one change for the
answers the other one gets. -/
namespace HarnessMem.Tenancy
open Js
open Lease (sqlEq)

structure Desk where
  leases : List Lease.Row
  signals : List Signals.Row

inductive Call where
  | acquire (now : Number) (id : String) (req : Lease.AcquireRequest)
  | release (now : Number) (leaseId agentId : String) (tenant : Lease.TenantScope)
  | renew (now : Number) (leaseId agentId : String) (ttlMs : Option Number) (tenant : Lease.TenantScope)
  | send (now : Number) (id : String) (req : Signals.SendRequest)
  | read (now : Number) (req : Signals.ReadRequest)
  | ack (now : Number) (req : Signals.AckRequest)

inductive Response where
  | acquired (response : Except Lease.Thrown Lease.AcquireResponse)
  | released (response : Except Lease.Thrown (Except Lease.ReleaseError Lease.LeaseRow))
  | renewed (response : Except Lease.Thrown (Except Lease.RenewError Lease.LeaseRow))
  | sent (response : Except Signals.Thrown (Except Signals.SendError Signals.SignalRow))
  | found (response : Except Signals.Thrown (List Signals.SignalRow))
  | acked (response : Except Signals.Thrown (Except Signals.AckError Signals.SignalRow))

def answer (desk : Desk) : Call → Desk × Response
  | .acquire now id req =>
    let result := Lease.acquire now id req desk.leases
    ({desk with leases := result.1}, .acquired result.2)
  | .release now leaseId agentId tenant =>
    let result := Lease.release now leaseId agentId (some tenant) desk.leases
    ({desk with leases := result.1}, .released result.2)
  | .renew now leaseId agentId ttlMs tenant =>
    let result := Lease.renew now leaseId agentId ttlMs (some tenant) desk.leases
    ({desk with leases := result.1}, .renewed result.2)
  | .send now id req =>
    let result := Signals.send now id req desk.signals
    ({desk with signals := result.1}, .sent result.2)
  | .read now req => (desk, .found (Signals.read now req desk.signals))
  | .ack now req =>
    let result := Signals.ack now req desk.signals
    ({desk with signals := result.1}, .acked result.2)

-- The user ids and team ids a tenant's calls may carry.
structure Tenant where
  users : String → Bool
  teams : String → Bool

-- A scope that names somebody, and nobody outside the tenant.
def Tenant.owns (tenant : Tenant) (userId teamId : Option String) : Bool :=
  (userId.isSome || teamId.isSome) && userId.all tenant.users && teamId.all tenant.teams

def Call.scope : Call → Option String × Option String
  | .acquire _ _ req => (req.userId, req.teamId)
  | .release _ _ _ tenant => (tenant.userId, tenant.teamId)
  | .renew _ _ _ _ tenant => (tenant.userId, tenant.teamId)
  | .send _ _ req => (req.userId, req.teamId)
  | .read _ req => (req.userId, req.teamId)
  | .ack _ req => (req.userId, req.teamId)

def Tenant.calls (tenant : Tenant) (call : Call) : Bool := tenant.owns call.scope.1 call.scope.2

def Disjoint (a b : Tenant) : Prop :=
  (∀ user, ¬ (a.users user = true ∧ b.users user = true)) ∧ ∀ team, ¬ (a.teams team = true ∧ b.teams team = true)

theorem disjointSymm {a b : Tenant} (apart : Disjoint a b) : Disjoint b a :=
  ⟨fun user both => apart.1 user both.symm, fun team both => apart.2 team both.symm⟩

section
variable {mine theirs : Tenant} (apart : Disjoint mine theirs)
include apart

-- The tag test that all the tenant predicates share.
theorem tagsApart {userId teamId userId' teamId' : Option String} (own : mine.owns userId teamId = true)
    (other : theirs.owns userId' teamId' = true) :
    (userId.isNone && teamId.isNone) = false ∧ (userId'.isNone && teamId'.isNone) = false ∧
      sqlEq userId userId' = false ∧ sqlEq teamId teamId' = false := by
  simp only [Tenant.owns, Bool.and_eq_true] at own other
  obtain ⟨⟨tagged, users⟩, teams⟩ := own
  obtain ⟨⟨tagged', users'⟩, teams'⟩ := other
  refine ⟨?_, ?_, ?_, ?_⟩
  · cases userId <;> cases teamId <;> simp at tagged ⊢
  · cases userId' <;> cases teamId' <;> simp at tagged' ⊢
  · refine Bool.eq_false_of_not_eq_true fun same => ?_
    obtain ⟨user, rfl, rfl⟩ := Lease.sqlEqSome.mp same
    exact apart.1 user ⟨users, users'⟩
  · refine Bool.eq_false_of_not_eq_true fun same => ?_
    obtain ⟨team, rfl, rfl⟩ := Lease.sqlEqSome.mp same
    exact apart.2 team ⟨teams, teams'⟩

theorem notBoth {userId teamId : Option String} (other : theirs.owns userId teamId = true) : mine.owns userId teamId = false := by
  refine Bool.eq_false_of_not_eq_true fun own => ?_
  obtain ⟨named, -, user, team⟩ := tagsApart apart own other
  rw [Signals.sqlEqSelf] at user team
  rw [← Option.not_isSome, ← Option.not_isSome, user, team] at named
  cases named

def ownSignal (tenant : Tenant) (row : Signals.Row) : Bool := tenant.owns row.userId row.teamId

-- A tenant's rows, then the whole of what the two tenants' calls can tell apart.
theorem strangerSignal {row : Signals.Row} {userId teamId : Option String} (own : mine.owns userId teamId = true)
    (other : ownSignal theirs row = true) : Signals.matchesTenant userId teamId row = false := by
  obtain ⟨named, tagged, user, team⟩ := tagsApart apart own other
  rw [Signals.matchesTenant, named, Signals.untagged, tagged, Lease.sqlEqComm, user, Lease.sqlEqComm, team]
  rfl

end

theorem ackedOwner (tenant : Tenant) (nowIso agentId : String) (row : Signals.Row) :
    ownSignal tenant (Signals.markAcked nowIso agentId row) = ownSignal tenant row := rfl

structure SignalsAgree (mine theirs : Tenant) (whole thin : List Signals.Row) : Prop where
  keys : (whole.map Signals.Row.signalId).Nodup
  owned : ∀ row ∈ whole, ownSignal mine row = true ∨ ownSignal theirs row = true
  part : thin = whole.filter (ownSignal mine)

section
variable {mine theirs : Tenant} {whole thin : List Signals.Row} (apart : Disjoint mine theirs)
  (agree : SignalsAgree mine theirs whole thin)
include apart agree

-- A signal looked up by id is the same one in both, or none the caller may see.
theorem findAgrees {userId teamId : Option String} (own : mine.owns userId teamId = true) (id : String) :
    (∃ row, Signals.findRow id whole = some row ∧ Signals.findRow id thin = some row ∧ ownSignal mine row = true) ∨
      Signals.findRow id thin = none ∧ ∀ row, Signals.findRow id whole = some row → Signals.matchesTenant userId teamId row = false := by
  have lookup : Signals.findRow id thin = (Signals.findRow id whole).filter (ownSignal mine) := by
    rw [agree.part]
    exact Tables.findFilter agree.keys id
  cases found : Signals.findRow id whole with
  | none => exact .inr ⟨by rw [lookup, found]; rfl, fun _ same => by cases same⟩
  | some row =>
    cases held : ownSignal mine row with
    | true => exact .inl ⟨row, rfl, by rw [lookup, found, Option.filter_some_pos held], held⟩
    | false =>
      refine .inr ⟨by rw [lookup, found, Option.filter_some_neg held], fun other same => ?_⟩
      cases same
      have theirs_ := (agree.owned row (List.mem_of_find?_eq_some found)).resolve_left (by rw [held]; exact Bool.false_ne_true)
      exact strangerSignal apart own theirs_

theorem scopeAgrees {req : Signals.SendRequest} (own : mine.owns req.userId req.teamId = true) :
    Signals.replyScope req whole = Signals.replyScope req thin := by
  simp only [Signals.replyScope]
  cases req.replyTo with
  | none => rfl
  | some replyTo =>
    rcases findAgrees apart agree own replyTo with ⟨row, inWhole, inThin, -⟩ | ⟨inThin, stranger⟩
    · simp only [inWhole, inThin]
    · simp only [inThin]
      cases found : Signals.findRow replyTo whole with
      | none => rfl
      | some row => simp only [stranger row found, if_true, ite_self]

theorem readAgrees {now : Number} {req : Signals.ReadRequest} (own : mine.owns req.userId req.teamId = true) :
    Signals.read now req whole = Signals.read now req thin := by
  have same : ∀ nowIso, whole.filter (Signals.readable nowIso req) = thin.filter (Signals.readable nowIso req) := by
    intro nowIso
    rw [agree.part, List.filter_filter]
    refine List.filter_congr fun row mem => ?_
    rcases agree.owned row mem with held | other
    · rw [held, Bool.and_true]
    · have hidden : Signals.readable nowIso req row = false := by
        simp only [Signals.readable, strangerSignal apart own other, Bool.and_false, Bool.false_and]
      rw [hidden, Bool.false_and]
  unfold Signals.read
  simp only [same]

-- A send of the tenant adds the same rows and answers the same in both.
theorem sendAgrees (now : Number) {id : String} {req : Signals.SendRequest} (own : mine.owns req.userId req.teamId = true)
    (fresh : ∀ row ∈ whole, row.signalId ≠ id) : ∃ added response, Signals.send now id req whole = (whole ++ added, response) ∧
      Signals.send now id req thin = (thin ++ added, response) ∧ ∀ row ∈ added, ownSignal mine row = true := by
  have unused : ∀ rows : List Signals.Row, (∀ row ∈ rows, row ∈ whole) → rows.any (fun row => row.signalId = id) = false := by
    intro rows within
    exact List.any_eq_false.mpr fun row mem same => fresh row (within row mem) (of_decide_eq_true same)
  have inWhole := unused whole (fun _ mem => mem)
  have inThin := unused thin (fun row mem => by
    rw [agree.part] at mem
    exact List.mem_of_mem_filter mem)
  unfold Signals.send
  rw [← scopeAgrees apart agree own, inWhole, inThin]
  have none : ∀ rows : List Signals.Row, rows = rows ++ [] := fun rows => (List.append_nil rows).symm
  split
  · exact ⟨[], _, congrArg (·, _) (none whole), congrArg (·, _) (none thin), fun _ mem => by cases mem⟩
  split
  · exact ⟨[], _, congrArg (·, _) (none whole), congrArg (·, _) (none thin), fun _ mem => by cases mem⟩
  split
  · exact ⟨[], _, congrArg (·, _) (none whole), congrArg (·, _) (none thin), fun _ mem => by cases mem⟩
  split
  · exact ⟨[], _, congrArg (·, _) (none whole), congrArg (·, _) (none thin), fun _ mem => by cases mem⟩
  split
  · exact ⟨[], _, congrArg (·, _) (none whole), congrArg (·, _) (none thin), fun _ mem => by cases mem⟩
  · exact ⟨_, _, rfl, rfl, fun row mem => List.mem_singleton.mp mem ▸ own⟩

theorem sendKept (now : Number) {id : String} {req : Signals.SendRequest} (own : mine.owns req.userId req.teamId = true)
    (fresh : ∀ row ∈ whole, row.signalId ≠ id) : (Signals.send now id req whole).2 = (Signals.send now id req thin).2 ∧
      SignalsAgree mine theirs (Signals.send now id req whole).1 (Signals.send now id req thin).1 := by
  have keys := Signals.keysStep whole (.send now id req) agree.keys
  obtain ⟨added, response, first, second, held⟩ := sendAgrees apart agree now own fresh
  rw [Signals.step, first] at keys
  rw [first, second]
  refine ⟨rfl, keys, fun row mem => ?_, ?_⟩
  · rcases List.mem_append.mp mem with old | new
    · exact agree.owned row old
    · exact .inl (held row new)
  · rw [List.filter_append, List.filter_eq_self.mpr held, agree.part]

theorem sendDropped {now : Number} {id : String} {req : Signals.SendRequest} (other : theirs.owns req.userId req.teamId = true) :
    SignalsAgree mine theirs (Signals.send now id req whole).1 thin := by
  have keys := Signals.keysStep whole (.send now id req) agree.keys
  rcases Signals.sendCases now id req whole with ⟨same, -⟩ | ⟨threadId, project, sentAt, expiresAt, -, -, -, -, sent⟩
  · rw [same]
    exact agree
  · rw [Signals.step, sent] at keys
    rw [sent]
    have stranger : ownSignal mine (Signals.newRow id threadId project sentAt expiresAt req) = false :=
      notBoth apart other
    refine ⟨keys, fun row mem => ?_, ?_⟩
    · rcases List.mem_append.mp mem with old | new
      · exact agree.owned row old
      · exact .inr (List.mem_singleton.mp new ▸ other)
    · rw [List.filter_append, List.filter_cons_of_neg (by rw [stranger]; exact Bool.false_ne_true), List.filter_nil,
        List.append_nil]
      exact agree.part

omit apart in
theorem ackedAgrees {nowIso agentId signalId : String} :
    SignalsAgree mine theirs (Tables.update (fun row => row.signalId = signalId) (Signals.markAcked nowIso agentId) whole)
      (Tables.update (fun row => row.signalId = signalId) (Signals.markAcked nowIso agentId) thin) := by
  refine ⟨?_, Tables.updateAll (fun _ _ owned => owned) agree.owned, ?_⟩
  · rw [Tables.updateColumn Signals.Row.signalId
      (fun row => show (Signals.markAcked nowIso agentId row).signalId = row.signalId from rfl)]
    exact agree.keys
  · rw [agree.part]
    exact (Tables.filterUpdate (ackedOwner mine nowIso agentId) whole).symm

theorem ackKept (now : Number) {req : Signals.AckRequest} (own : mine.owns req.userId req.teamId = true) :
    (Signals.ack now req whole).2 = (Signals.ack now req thin).2 ∧
      SignalsAgree mine theirs (Signals.ack now req whole).1 (Signals.ack now req thin).1 := by
  unfold Signals.ack
  rcases findAgrees apart agree own req.signalId with ⟨row, inWhole, inThin, -⟩ | ⟨inThin, stranger⟩
  · simp only [inWhole, inThin]
    split
    · exact ⟨rfl, agree⟩
    split
    · exact ⟨rfl, agree⟩
    split
    · exact ⟨rfl, agree⟩
    split
    · exact ⟨rfl, agree⟩
    · exact ⟨rfl, ackedAgrees agree⟩
  · simp only [inThin]
    cases found : Signals.findRow req.signalId whole with
    | none => exact ⟨rfl, agree⟩
    | some row =>
      simp only [stranger row found, if_true]
      exact ⟨trivial, agree⟩

theorem ackDropped {now : Number} {req : Signals.AckRequest} (other : theirs.owns req.userId req.teamId = true) :
    SignalsAgree mine theirs (Signals.ack now req whole).1 thin := by
  have keys := Signals.keysStep whole (.ack now req) agree.keys
  rcases Signals.ackCases now req whole with same | ⟨nowIso, row, found, seen, acked⟩
  · rw [same]
    exact agree
  · rw [Signals.step, acked] at keys
    rw [acked]
    refine ⟨keys, Tables.updateAll (fun _ _ owned => owned) agree.owned, ?_⟩
    rw [Tables.filterOutside (ackedOwner mine nowIso req.agentId) (fun held mem chosen => ?_), agree.part]
    -- The one row with that id was visible to the other tenant.
    have same : held = row := Tables.keyUnique agree.keys mem (List.mem_of_find?_eq_some found) (by
      have id := List.find?_some found
      rw [of_decide_eq_true chosen, of_decide_eq_true id])
    refine Bool.eq_false_of_not_eq_true fun own => ?_
    rw [strangerSignal (disjointSymm apart) other (same ▸ own)] at seen
    cases seen

end
end HarnessMem.Tenancy
