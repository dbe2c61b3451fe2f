import HarnessMem.Tenancy

/-! The lease half of the two-tenant comparison, and the answers of the whole desk. A sweep by
either tenant expires the rows of both, so the halves agree up to leases that are over anyway. -/
namespace HarnessMem.Tenancy
open Js
open Lease (Row sweepExpired lapsed expire setRow finish extend findRow)

def ownLease (tenant : Tenant) (row : Row) : Bool := tenant.owns row.userId row.teamId

-- What no sweep writes.
def bare (row : Row) : Row := {row with status := .active, releasedAt := none}

-- The same lease, but in the first table it may have been swept by a reading up to `bound`.
structure Alike (bound : String) (a b : Row) : Prop where
  core : bare a = bare b
  life : (a.status = b.status ∧ (a.status = .active → a.releasedAt = b.releasedAt)) ∨
    (a.status = .expired ∧ b.status = .active ∧ b.expiresAt ≤ bound)

structure Even (a b : Row) : Prop where
  core : bare a = bare b
  status : a.status = b.status
  live : a.status = .active → a.releasedAt = b.releasedAt

theorem Even.alike {a b : Row} (even : Even a b) (bound : String) : Alike bound a b :=
  ⟨even.core, .inl ⟨even.status, even.live⟩⟩

theorem Even.equal {a b : Row} (even : Even a b) (active : a.status = .active) : a = b := by
  have core := even.core
  have status := even.status
  have released := even.live active
  cases a
  cases b
  simp only [bare, Row.mk.injEq] at core status released ⊢
  simp [core, status, released]

theorem alikeMono {bound later : String} (le : bound ≤ later) {a b : Row} (alike : Alike bound a b) : Alike later a b :=
  ⟨alike.core, alike.life.imp_right fun ⟨ended, active, past⟩ => ⟨ended, active, String.le_trans past le⟩⟩

section
variable {bound : String} {a b : Row} (alike : Alike bound a b)
include alike

theorem alikeId : a.leaseId = b.leaseId := by
  have same := congrArg Row.leaseId alike.core
  exact same
theorem alikeAgent : a.agentId = b.agentId := by
  have same := congrArg Row.agentId alike.core
  exact same
theorem alikeExpiry : a.expiresAt = b.expiresAt := by
  have same := congrArg Row.expiresAt alike.core
  exact same
theorem alikeTenant (tenant : Option Lease.TenantScope) : Lease.matchesTenant a tenant = Lease.matchesTenant b tenant := by
  have sameUser := congrArg Row.userId alike.core
  have sameTeam := congrArg Row.teamId alike.core
  have user : a.userId = b.userId := sameUser
  have team : a.teamId = b.teamId := sameTeam
  simp only [Lease.matchesTenant, Lease.untagged, user, team]

-- Both tables sweep: whatever was over is now expired in both.
theorem alikeSweep {nowIso : String} (le : bound ≤ nowIso) :
    Even (if lapsed nowIso a then expire nowIso a else a) (if lapsed nowIso b then expire nowIso b else b) := by
  have expiry := alikeExpiry alike
  rcases alike.life with ⟨same, live⟩ | ⟨ended, active, past⟩
  · have both : lapsed nowIso a = lapsed nowIso b := by simp only [lapsed, same, expiry]
    rw [both]
    split
    · exact ⟨alike.core, rfl, fun active => by cases active⟩
    · exact ⟨alike.core, same, live⟩
  · have first : lapsed nowIso a = false := by simp [lapsed, ended]
    have second : lapsed nowIso b = true := by
      simp only [lapsed, active, decide_true, Bool.true_and, decide_eq_true_eq]
      exact String.le_trans past le
    rw [first, second]
    rw [if_neg Bool.false_ne_true, if_pos rfl]
    exact ⟨alike.core, ended, fun live => by rw [ended] at live; cases live⟩

-- Only the first table sweeps.
theorem alikeSwept {nowIso : String} (le : bound ≤ nowIso) :
    Alike nowIso (if lapsed nowIso a then expire nowIso a else a) b := by
  split
  · rename_i late
    simp only [lapsed, Bool.and_eq_true, decide_eq_true_eq] at late
    rcases alike.life with ⟨same, -⟩ | ⟨ended, -, -⟩
    · exact ⟨alike.core, .inr ⟨rfl, same.symm.trans late.1, alikeExpiry alike ▸ late.2⟩⟩
    · rw [ended] at late
      cases late.1
  · exact alikeMono le alike

theorem alikeFinish (nowIso : String) : finish nowIso a = finish nowIso b := by
  have same := congrArg (finish nowIso) alike.core
  exact same

end

structure LeasesAgree (mine theirs : Tenant) (bound : String) (whole thin : List Row) : Prop where
  keys : (whole.map Row.leaseId).Nodup
  owned : ∀ row ∈ whole, ownLease mine row = true ∨ ownLease theirs row = true
  part : List.Forall₂ (Alike bound) (whole.filter (ownLease mine)) thin

theorem expireOwner (tenant : Tenant) (nowIso : String) (row : Row) : ownLease tenant (expire nowIso row) = ownLease tenant row := rfl

theorem agreeMono {mine theirs : Tenant} {bound later : String} (le : bound ≤ later) {whole thin : List Row}
    (agree : LeasesAgree mine theirs bound whole thin) : LeasesAgree mine theirs later whole thin :=
  ⟨agree.keys, agree.owned, agree.part.imp fun _ _ alike => alikeMono le alike⟩

section
variable {mine theirs : Tenant} {bound : String} {whole thin : List Row} (apart : Disjoint mine theirs)
  (agree : LeasesAgree mine theirs bound whole thin)
include apart

theorem strangerLease {row : Row} {tenant : Lease.TenantScope} (own : mine.owns tenant.userId tenant.teamId = true)
    (other : ownLease theirs row = true) : Lease.matchesTenant row (some tenant) = false := by
  obtain ⟨named, tagged, user, team⟩ := tagsApart apart own other
  rw [Lease.matchesTenant, named, Lease.untagged, tagged, Lease.sqlEqComm, user, Lease.sqlEqComm, team]
  rfl

theorem strangerClause {row : Row} {req : Lease.AcquireRequest} (own : mine.owns req.userId req.teamId = true)
    (other : ownLease theirs row = true) : Lease.tenantClause req row = false := by
  obtain ⟨named, tagged, user, team⟩ := tagsApart apart own other
  have asked : req.userId.isSome || req.teamId.isSome := by
    rw [← Option.not_isSome, ← Option.not_isSome, ← Bool.not_or, Bool.not_eq_false'] at named
    exact named
  rw [Lease.tenantClause, if_pos asked, Lease.untagged, tagged, Lease.sqlEqComm, user, Lease.sqlEqComm, team]
  rfl

include agree

-- A lease looked up by id is the tenant's own in both, or none the caller may touch.
theorem leaseAgrees {tenant : Lease.TenantScope} (own : mine.owns tenant.userId tenant.teamId = true) (id : String) :
    (∃ a b, findRow id whole = some a ∧ findRow id thin = some b ∧ Alike bound a b) ∨
      findRow id thin = none ∧ ∀ row, findRow id whole = some row → Lease.matchesTenant row (some tenant) = false := by
  have lookup : findRow id (whole.filter (ownLease mine)) = (findRow id whole).filter (ownLease mine) :=
    Tables.findFilter agree.keys id
  have related : Option.Rel (Alike bound) (findRow id (whole.filter (ownLease mine))) (findRow id thin) :=
    Tables.findRelated (fun a b alike => by rw [alikeId alike]) agree.part
  rw [lookup] at related
  cases found : findRow id whole with
  | none =>
    rw [found] at related
    cases thinFound : findRow id thin with
    | none => exact .inr ⟨rfl, fun _ same => by cases same⟩
    | some b => rw [thinFound] at related; cases related
  | some a =>
    rw [found] at related
    cases held : ownLease mine a with
    | true =>
      rw [Option.filter_some_pos held] at related
      cases thinFound : findRow id thin with
      | none => rw [thinFound] at related; cases related
      | some b =>
        rw [thinFound] at related
        cases related with
        | some alike => exact .inl ⟨a, b, rfl, rfl, alike⟩
    | false =>
      rw [Option.filter_some_neg held] at related
      have stranger := (agree.owned a (List.mem_of_find?_eq_some found)).resolve_left (by rw [held]; exact Bool.false_ne_true)
      cases thinFound : findRow id thin with
      | none => exact .inr ⟨rfl, fun row same => Option.some.inj same ▸ strangerLease apart own stranger⟩
      | some b => rw [thinFound] at related; cases related

omit apart in
theorem agreeSet {id : String} {change : Row → Row} (owner : ∀ tenant row, ownLease tenant (change row) = ownLease tenant row)
    (keyed : ∀ row, (change row).leaseId = row.leaseId)
    (hit : ∀ a b, a ∈ whole → Alike bound a b → a.leaseId = id → Alike bound (change a) (change b)) :
    LeasesAgree mine theirs bound (setRow id change whole) (setRow id change thin) := by
  refine ⟨?_, Tables.updateAll (fun row _ owned => by rwa [owner, owner]) agree.owned, ?_⟩
  · rw [setRow, Tables.updateColumn Row.leaseId keyed]
    exact agree.keys
  · rw [setRow, Tables.filterUpdate (owner mine)]
    exact Tables.updateRelated (fun a b alike => by rw [alikeId alike])
      (fun a b mem alike chosen => hit a b (List.mem_of_mem_filter mem) alike (of_decide_eq_true chosen))
      (fun _ _ alike _ => alike) agree.part

theorem releaseKept (now : Number) (leaseId agentId : String) {tenant : Lease.TenantScope}
    (own : mine.owns tenant.userId tenant.teamId = true) :
    (Lease.release now leaseId agentId (some tenant) whole).2 = (Lease.release now leaseId agentId (some tenant) thin).2 ∧
      LeasesAgree mine theirs bound (Lease.release now leaseId agentId (some tenant) whole).1
        (Lease.release now leaseId agentId (some tenant) thin).1 := by
  unfold Lease.release
  rcases leaseAgrees apart agree own leaseId with ⟨a, b, inWhole, inThin, alike⟩ | ⟨inThin, stranger⟩
  · simp only [inWhole, inThin, alikeTenant alike, alikeAgent alike]
    split
    · exact ⟨rfl, agree⟩
    split
    · exact ⟨rfl, agree⟩
    split
    · exact ⟨rfl, agree⟩
    · rename_i nowIso _
      rw [alikeFinish alike nowIso]
      refine ⟨rfl, agreeSet agree (fun _ _ => rfl) (fun _ => rfl) fun a b _ alike _ => ?_⟩
      rw [alikeFinish alike nowIso]
      exact ⟨rfl, .inl ⟨rfl, fun _ => rfl⟩⟩
  · simp only [inThin]
    cases found : findRow leaseId whole with
    | none => exact ⟨rfl, agree⟩
    | some row =>
      simp only [stranger row found, if_true]
      exact ⟨trivial, agree⟩

theorem renewKept {now : Number} (leaseId agentId : String) (ttlMs : Option Number) {tenant : Lease.TenantScope}
    (own : mine.owns tenant.userId tenant.teamId = true) (steady : ∀ nowIso, toIso now = some nowIso → bound ≤ nowIso) :
    (Lease.renew now leaseId agentId ttlMs (some tenant) whole).2 = (Lease.renew now leaseId agentId ttlMs (some tenant) thin).2 ∧
      LeasesAgree mine theirs bound (Lease.renew now leaseId agentId ttlMs (some tenant) whole).1
        (Lease.renew now leaseId agentId ttlMs (some tenant) thin).1 := by
  unfold Lease.renew
  rcases leaseAgrees apart agree own leaseId with ⟨a, b, inWhole, inThin, alike⟩ | ⟨inThin, stranger⟩
  · simp only [inWhole, inThin, alikeTenant alike, alikeAgent alike]
    split
    · exact ⟨rfl, agree⟩
    split
    · exact ⟨rfl, agree⟩
    split
    · exact ⟨rfl, agree⟩
    rename_i nowIso dated
    have ended : (a.status ≠ .active ∨ a.expiresAt ≤ nowIso) ↔ (b.status ≠ .active ∨ b.expiresAt ≤ nowIso) := by
      rcases alike.life with ⟨same, -⟩ | ⟨ended, active, past⟩
      · rw [same, alikeExpiry alike]
      · exact iff_of_true (.inl (by rw [ended]; decide)) (.inr (String.le_trans past (steady nowIso dated)))
    by_cases done : b.status ≠ .active ∨ b.expiresAt ≤ nowIso
    · rw [if_pos (ended.mpr done), if_pos done]
      exact ⟨rfl, agree⟩
    · rw [if_neg (fun late => done (ended.mp late)), if_neg done]
      obtain ⟨active, -⟩ := not_or.mp done
      have equal : a = b := by
        rcases alike.life with ⟨same, live⟩ | ⟨ended, -, past⟩
        · exact Even.equal ⟨alike.core, same, live⟩ (same.trans (not_not.mp active))
        · exact absurd (.inr (String.le_trans past (steady nowIso dated))) done
      subst equal
      split
      · exact ⟨rfl, agree⟩
      split
      · exact ⟨rfl, agree⟩
      · refine ⟨rfl, agreeSet agree (fun _ _ => rfl) (fun _ => rfl) fun c d held alike' same => ?_⟩
        have found : a.leaseId = leaseId := by simpa using List.find?_some (show List.find? _ whole = some a from inWhole)
        obtain rfl := Tables.keyUnique agree.keys held (List.mem_of_find?_eq_some inWhole) (same.trans found.symm)
        have equal : c = d := by
          rcases alike'.life with ⟨status, live⟩ | ⟨expired, -, -⟩
          · exact Even.equal ⟨alike'.core, status, live⟩ (not_not.mp active)
          · exact absurd (fun live => by rw [expired] at live; cases live) active
        exact equal ▸ ⟨rfl, .inl ⟨rfl, fun _ => rfl⟩⟩
  · simp only [inThin]
    cases found : findRow leaseId whole with
    | none => exact ⟨rfl, agree⟩
    | some row =>
      simp only [stranger row found, if_true]
      exact ⟨trivial, agree⟩

omit apart in
theorem ownedSweep (nowIso : String) : ∀ row ∈ sweepExpired nowIso whole, ownLease mine row = true ∨ ownLease theirs row = true := by
  intro row mem
  obtain ⟨old, held, rfl⟩ := Tables.memUpdate.mp mem
  have owned := agree.owned old held
  split
  · exact owned
  · exact owned

omit apart in
theorem sweepEven {nowIso : String} (le : bound ≤ nowIso) :
    List.Forall₂ Even ((sweepExpired nowIso whole).filter (ownLease mine)) (sweepExpired nowIso thin) := by
  rw [sweepExpired, Tables.filterUpdate (expireOwner mine nowIso)]
  exact List.forall₂_map_left_iff.mpr (List.forall₂_map_right_iff.mpr (agree.part.imp fun _ _ alike => alikeSweep alike le))

-- The contention query sees the tenant's own live leases only, the same ones in both.
theorem existingAgrees {nowIso : String} {req : Lease.AcquireRequest} (own : mine.owns req.userId req.teamId = true)
    (le : bound ≤ nowIso) : Lease.existing nowIso req (sweepExpired nowIso whole) = Lease.existing nowIso req (sweepExpired nowIso thin) := by
  have mineOnly : (sweepExpired nowIso whole).filter (Lease.contends nowIso req) =
      ((sweepExpired nowIso whole).filter (ownLease mine)).filter (Lease.contends nowIso req) := by
    rw [List.filter_filter]
    refine List.filter_congr fun row mem => ?_
    rcases ownedSweep agree nowIso row mem with held | other
    · rw [held, Bool.and_true]
    · have hidden : Lease.contends nowIso req row = false := by rw [Lease.contends, strangerClause apart own other, Bool.and_false]
      rw [hidden, Bool.false_and]
  have same : ∀ a b, Even a b → Lease.contends nowIso req a = Lease.contends nowIso req b := by
    intro a b even
    have core := even.core
    simp only [bare, Row.mk.injEq] at core
    obtain ⟨-, target, -, project, -, -, -, -, expiry, -, -, user, team⟩ := core
    simp only [Lease.contends, Lease.sameProject, Lease.tenantClause, Lease.untagged, even.status, target, project, expiry, user, team]
  have equal := Tables.filterRelated same (fun a b even live => even.equal (by
    simp only [Lease.contends, Bool.and_eq_true, decide_eq_true_eq] at live
    exact live.1.1.1.2)) (sweepEven agree le)
  rw [Lease.existing, mineOnly, equal]
  rfl

omit apart in
theorem thinIds : (whole.filter (ownLease mine)).map Row.leaseId = thin.map Row.leaseId := by
  have both : List.Forall₂ (· = ·) ((whole.filter (ownLease mine)).map Row.leaseId) (thin.map Row.leaseId) :=
    List.forall₂_map_left_iff.mpr (List.forall₂_map_right_iff.mpr (agree.part.imp fun _ _ alike => alikeId alike))
  rwa [List.forall₂_eq_eq_eq] at both

omit apart in
theorem thinFresh {id : String} (fresh : ∀ row ∈ whole, row.leaseId ≠ id) : ∀ row ∈ thin, row.leaseId ≠ id := by
  intro row mem same
  have inside : id ∈ (whole.filter (ownLease mine)).map Row.leaseId := thinIds agree ▸ same ▸ List.mem_map_of_mem mem
  obtain ⟨other, held, sameId⟩ := List.mem_map.mp inside
  exact fresh other (List.mem_of_mem_filter held) sameId

omit apart in
theorem sweptAgrees {nowIso : String} (le : bound ≤ nowIso) :
    LeasesAgree mine theirs nowIso (sweepExpired nowIso whole) (sweepExpired nowIso thin) := by
  refine ⟨?_, ownedSweep agree nowIso, (sweepEven agree le).imp fun _ _ even => even.alike nowIso⟩
  rw [sweepExpired, Tables.updateColumn Row.leaseId (fun row => show (expire nowIso row).leaseId = row.leaseId from rfl)]
  exact agree.keys

omit apart in
theorem appendKeys {row : Row} (fresh : ∀ old ∈ whole, old.leaseId ≠ row.leaseId) : ((whole ++ [row]).map Row.leaseId).Nodup := by
  rw [List.map_append, List.map_singleton]
  refine List.nodup_append.mpr ⟨agree.keys, List.nodup_singleton _, fun key mem other last same => ?_⟩
  obtain ⟨old, held, rfl⟩ := List.mem_map.mp mem
  exact fresh old held (same.trans (List.mem_singleton.mp last))

omit apart in
theorem appendAgrees {row : Row} (own : ownLease mine row = true) (fresh : ∀ old ∈ whole, old.leaseId ≠ row.leaseId) :
    LeasesAgree mine theirs bound (whole ++ [row]) (thin ++ [row]) := by
  refine ⟨appendKeys agree fresh, fun other mem => ?_, ?_⟩
  · rcases List.mem_append.mp mem with old | new
    · exact agree.owned other old
    · exact .inl (List.mem_singleton.mp new ▸ own)
  · have kept : [row].filter (ownLease mine) = [row] := List.filter_cons_of_pos own
    rw [List.filter_append, kept]
    exact List.rel_append agree.part (.cons ⟨rfl, .inl ⟨rfl, fun _ => rfl⟩⟩ .nil)

-- An acquire of the tenant sweeps both tables, adds the same rows and answers the same.
theorem acquireKept {now : Number} {id : String} {req : Lease.AcquireRequest} (own : mine.owns req.userId req.teamId = true)
    (fresh : ∀ row ∈ whole, row.leaseId ≠ id) (steady : ∀ nowIso, toIso now = some nowIso → bound ≤ nowIso) :
    (Lease.acquire now id req whole).2 = (Lease.acquire now id req thin).2 ∧
      LeasesAgree mine theirs ((toIso now).getD bound) (Lease.acquire now id req whole).1 (Lease.acquire now id req thin).1 := by
  have stay : LeasesAgree mine theirs ((toIso now).getD bound) whole thin := by
    cases dated : toIso now with
    | none => exact agree
    | some nowIso => exact agreeMono (steady nowIso dated) agree
  unfold Lease.acquire
  split
  · exact ⟨rfl, stay⟩
  split
  · exact ⟨rfl, stay⟩
  split
  · exact ⟨rfl, stay⟩
  cases dated : toIso now with
  | none => exact ⟨rfl, agree⟩
  | some nowIso =>
    have swept := sweptAgrees agree (steady nowIso dated)
    have sweptFresh : ∀ row ∈ sweepExpired nowIso whole, row.leaseId ≠ id :=
      Tables.updateAll (show ∀ row, lapsed nowIso row = true → row.leaseId ≠ id → (expire nowIso row).leaseId ≠ id from
        fun _ _ unused => unused) fresh
    have inWhole : (sweepExpired nowIso whole).any (fun row => row.leaseId = id) = false :=
      List.any_eq_false.mpr fun row mem same => sweptFresh row mem (of_decide_eq_true same)
    have inThin : (sweepExpired nowIso thin).any (fun row => row.leaseId = id) = false :=
      List.any_eq_false.mpr fun row mem same => thinFresh swept sweptFresh row mem (of_decide_eq_true same)
    simp only [Option.getD_some]
    rw [existingAgrees apart agree own (steady nowIso dated)]
    split
    · exact ⟨rfl, swept⟩
    split
    · exact ⟨rfl, swept⟩
    · rw [inWhole, inThin]
      exact ⟨rfl, appendAgrees swept own sweptFresh⟩

-- What the other tenant's calls leave of the tenant's own leases.
theorem acquireDropped {now : Number} {id : String} {req : Lease.AcquireRequest} (other : theirs.owns req.userId req.teamId = true)
    (steady : ∀ nowIso, toIso now = some nowIso → bound ≤ nowIso) :
    LeasesAgree mine theirs ((toIso now).getD bound) (Lease.acquire now id req whole).1 thin := by
  have sweptOnly : ∀ nowIso, toIso now = some nowIso → LeasesAgree mine theirs nowIso (sweepExpired nowIso whole) thin := by
    intro nowIso dated
    refine ⟨(sweptAgrees agree (steady nowIso dated)).keys, ownedSweep agree nowIso, ?_⟩
    rw [sweepExpired, Tables.filterUpdate (expireOwner mine nowIso)]
    exact List.forall₂_map_left_iff.mpr (agree.part.imp fun _ _ alike => alikeSwept alike (steady nowIso dated))
  rcases Lease.acquireCases now id req whole with same | ⟨nowIso, dated, swept | ⟨expiresAt, fresh, leased⟩⟩
  · rw [same]
    cases dated : toIso now with
    | none => exact agree
    | some nowIso => exact agreeMono (steady nowIso dated) agree
  · rw [swept, dated]
    exact sweptOnly nowIso dated
  · rw [leased, dated]
    have swept := sweptOnly nowIso dated
    refine ⟨appendKeys swept fresh, fun row mem => ?_, ?_⟩
    · rcases List.mem_append.mp mem with old | new
      · exact swept.owned row old
      · exact .inr (List.mem_singleton.mp new ▸ other)
    · have stranger : ownLease mine (Lease.newRow id nowIso expiresAt req) = false := notBoth apart other
      have none : [Lease.newRow id nowIso expiresAt req].filter (ownLease mine) = [] :=
        List.filter_cons_of_neg (by rw [stranger]; exact Bool.false_ne_true)
      rw [List.filter_append, none, List.append_nil]
      exact swept.part

theorem setDropped {id : String} {change : Row → Row} {row : Row} {tenant : Lease.TenantScope}
    (other : theirs.owns tenant.userId tenant.teamId = true) (owner : ∀ tenant row, ownLease tenant (change row) = ownLease tenant row)
    (keyed : ∀ row, (change row).leaseId = row.leaseId) (found : findRow id whole = some row)
    (seen : Lease.matchesTenant row (some tenant) = true) : LeasesAgree mine theirs bound (setRow id change whole) thin := by
  refine ⟨?_, Tables.updateAll (fun row _ owned => by rwa [owner, owner]) agree.owned, ?_⟩
  · rw [setRow, Tables.updateColumn Row.leaseId keyed]
    exact agree.keys
  · have outside : ∀ held ∈ whole, decide (held.leaseId = id) = true → ownLease mine held = false := by
      intro held mem chosen
      have sameId : row.leaseId = id := by simpa using List.find?_some (show List.find? _ whole = some row from found)
      obtain rfl := Tables.keyUnique agree.keys mem (List.mem_of_find?_eq_some found) ((of_decide_eq_true chosen).trans sameId.symm)
      refine Bool.eq_false_of_not_eq_true fun own => ?_
      rw [strangerLease (disjointSymm apart) other own] at seen
      cases seen
    rw [setRow, Tables.filterOutside (owner mine) outside]
    exact agree.part

theorem releaseDropped {now : Number} {leaseId agentId : String} {tenant : Lease.TenantScope}
    (other : theirs.owns tenant.userId tenant.teamId = true) :
    LeasesAgree mine theirs bound (Lease.release now leaseId agentId (some tenant) whole).1 thin := by
  rcases Lease.releaseCases now leaseId agentId (some tenant) whole with same | ⟨nowIso, row, found, seen, released⟩
  · rw [same]
    exact agree
  · rw [released]
    exact setDropped apart agree other (fun _ _ => rfl) (fun _ => rfl) found seen

theorem renewDropped {now : Number} {leaseId agentId : String} {ttlMs : Option Number} {tenant : Lease.TenantScope}
    (other : theirs.owns tenant.userId tenant.teamId = true) :
    LeasesAgree mine theirs bound (Lease.renew now leaseId agentId ttlMs (some tenant) whole).1 thin := by
  rcases Lease.renewCases now leaseId agentId ttlMs (some tenant) whole with same | ⟨nowIso, expiresAt, ttl, row, found, seen, renewed⟩
  · rw [same]
    exact agree
  · rw [renewed]
    exact setDropped apart agree other (fun _ _ => rfl) (fun _ => rfl) found seen

end

def Call.leaseKey : Call → Option String
  | .acquire _ id _ => some id
  | _ => none
def Call.signalKey : Call → Option String
  | .send _ id _ => some id
  | _ => none
-- The clock text that a call compares expiry times with.
def Call.reading : Call → Option String
  | .acquire now _ _ => toIso now
  | .renew now _ _ _ _ => toIso now
  | _ => none

-- Fresh ids, a clock that does not run back, and no call without its tenant.
structure Interleaving (mine theirs : Tenant) (calls : List Call) : Prop where
  leaseKeys : (calls.filterMap Call.leaseKey).Nodup
  signalKeys : (calls.filterMap Call.signalKey).Nodup
  steady : (calls.filterMap Call.reading).Pairwise (· ≤ ·)
  owned : ∀ call ∈ calls, mine.calls call = true ∨ theirs.calls call = true

structure Aligned (mine theirs : Tenant) (whole thin : Desk) (rest : List Call) : Prop where
  future : Interleaving mine theirs rest
  leases : ∃ bound, LeasesAgree mine theirs bound whole.leases thin.leases ∧ ∀ text ∈ rest.filterMap Call.reading, bound ≤ text
  signals : SignalsAgree mine theirs whole.signals thin.signals
  freshLeases : ∀ row ∈ whole.leases, row.leaseId ∉ rest.filterMap Call.leaseKey
  freshSignals : ∀ row ∈ whole.signals, row.signalId ∉ rest.filterMap Call.signalKey

theorem alignedOf {mine theirs : Tenant} {bound : String} {leases leases' : List Row} {signals signals' : List Signals.Row}
    {rest : List Call} (future : Interleaving mine theirs rest) (agree : LeasesAgree mine theirs bound leases leases')
    (before : ∀ text ∈ rest.filterMap Call.reading, bound ≤ text) (same : SignalsAgree mine theirs signals signals')
    (freshLeases : ∀ row ∈ leases, row.leaseId ∉ rest.filterMap Call.leaseKey)
    (freshSignals : ∀ row ∈ signals, row.signalId ∉ rest.filterMap Call.signalKey) :
    Aligned mine theirs ⟨leases, signals⟩ ⟨leases', signals'⟩ rest :=
  ⟨future, ⟨bound, agree, before⟩, same, freshLeases, freshSignals⟩

theorem futureTail {mine theirs : Tenant} {call : Call} {rest : List Call} (future : Interleaving mine theirs (call :: rest)) :
    Interleaving mine theirs rest := by
  have tail : ∀ f : Call → Option String, (rest.filterMap f).Sublist ((call :: rest).filterMap f) := fun f =>
    (List.sublist_cons_self call rest).filterMap f
  exact ⟨future.leaseKeys.sublist (tail _), future.signalKeys.sublist (tail _), future.steady.sublist (tail _),
    fun other mem => future.owned other (List.mem_cons_of_mem _ mem)⟩

-- Later readings are no earlier than the one a call worked with.
theorem laterReadings {mine theirs : Tenant} {call : Call} {rest : List Call} (future : Interleaving mine theirs (call :: rest))
    {text : String} (read : call.reading = some text) : ∀ later ∈ rest.filterMap Call.reading, text ≤ later := by
  have steady := future.steady
  rw [List.filterMap_cons_some read] at steady
  exact (List.pairwise_cons.mp steady).1

-- Every id in the tables was there before or is the one the call brings.
theorem leaseIdsStep (desk : Desk) (call : Call) :
    ∀ row ∈ (answer desk call).1.leases, row.leaseId ∈ desk.leases.map Row.leaseId ∨ call.leaseKey = some row.leaseId := by
  have kept : ∀ (change : Row → Row) (_ : ∀ row, (change row).leaseId = row.leaseId) (choose : Row → Bool),
      ∀ row ∈ Tables.update choose change desk.leases, row.leaseId ∈ desk.leases.map Row.leaseId := by
    intro change same choose row mem
    rw [← Tables.updateColumn Row.leaseId same]
    exact List.mem_map_of_mem mem
  have held : ∀ row ∈ desk.leases, row.leaseId ∈ desk.leases.map Row.leaseId := fun row mem => List.mem_map_of_mem mem
  intro row mem
  cases call with
  | acquire now id req =>
    simp only [answer] at mem
    rcases Lease.acquireCases now id req desk.leases with same | ⟨nowIso, -, swept | ⟨expiresAt, -, leased⟩⟩
    · exact .inl (held row (same ▸ mem))
    · exact .inl (kept (expire nowIso) (fun _ => rfl) _ row (swept ▸ mem))
    · rw [leased] at mem
      rcases List.mem_append.mp mem with old | new
      · exact .inl (kept (expire nowIso) (fun _ => rfl) _ row old)
      · exact .inr (by rw [List.mem_singleton.mp new]; rfl)
  | release now leaseId agentId tenant =>
    simp only [answer] at mem
    rcases Lease.releaseCases now leaseId agentId (some tenant) desk.leases with same | ⟨nowIso, _, -, -, released⟩
    · exact .inl (held row (same ▸ mem))
    · exact .inl (kept (finish nowIso) (fun _ => rfl) _ row (released ▸ mem))
  | renew now leaseId agentId ttlMs tenant =>
    simp only [answer] at mem
    rcases Lease.renewCases now leaseId agentId ttlMs (some tenant) desk.leases with same | ⟨nowIso, expiresAt, ttl, _, -, -, renewed⟩
    · exact .inl (held row (same ▸ mem))
    · exact .inl (kept (extend nowIso expiresAt ttl) (fun _ => rfl) _ row (renewed ▸ mem))
  | send now id req =>
    simp only [answer] at mem
    exact .inl (held row mem)
  | read now req =>
    simp only [answer] at mem
    exact .inl (held row mem)
  | ack now req =>
    simp only [answer] at mem
    exact .inl (held row mem)

theorem signalIdsStep (desk : Desk) (call : Call) :
    ∀ row ∈ (answer desk call).1.signals, row.signalId ∈ desk.signals.map Signals.Row.signalId ∨ call.signalKey = some row.signalId := by
  have held : ∀ row ∈ desk.signals, row.signalId ∈ desk.signals.map Signals.Row.signalId := fun row mem => List.mem_map_of_mem mem
  intro row mem
  cases call with
  | send now id req =>
    simp only [answer] at mem
    rcases Signals.sendCases now id req desk.signals with ⟨same, -⟩ | ⟨threadId, project, sentAt, expiresAt, -, -, -, -, sent⟩
    · exact .inl (held row (same ▸ mem))
    · rw [sent] at mem
      rcases List.mem_append.mp mem with old | new
      · exact .inl (held row old)
      · exact .inr (by rw [List.mem_singleton.mp new]; rfl)
  | ack now req =>
    simp only [answer] at mem
    rcases Signals.ackCases now req desk.signals with same | ⟨nowIso, _, -, -, acked⟩
    · exact .inl (held row (same ▸ mem))
    · rw [acked] at mem
      obtain ⟨old, was, rfl⟩ := Tables.memUpdate.mp mem
      refine .inl ?_
      split
      · exact held old was
      · exact held old was
  | acquire now id req =>
    simp only [answer] at mem
    exact .inl (held row mem)
  | release now leaseId agentId tenant =>
    simp only [answer] at mem
    exact .inl (held row mem)
  | renew now leaseId agentId ttlMs tenant =>
    simp only [answer] at mem
    exact .inl (held row mem)
  | read now req =>
    simp only [answer] at mem
    exact .inl (held row mem)

section
variable {mine theirs : Tenant} {whole thin : Desk} {call : Call} {rest : List Call} (apart : Disjoint mine theirs)

theorem freshLeasesStep (future : Interleaving mine theirs (call :: rest))
    (fresh : ∀ row ∈ whole.leases, row.leaseId ∉ (call :: rest).filterMap Call.leaseKey) :
    ∀ row ∈ (answer whole call).1.leases, row.leaseId ∉ rest.filterMap Call.leaseKey := by
  intro row mem later
  rcases leaseIdsStep whole call row mem with old | new
  · obtain ⟨held, was, same⟩ := List.mem_map.mp old
    refine fresh held was ?_
    rw [same]
    exact ((List.sublist_cons_self call rest).filterMap Call.leaseKey).subset later
  · have nodup := future.leaseKeys
    rw [List.filterMap_cons_some new] at nodup
    exact (List.nodup_cons.mp nodup).1 later

theorem freshSignalsStep (future : Interleaving mine theirs (call :: rest))
    (fresh : ∀ row ∈ whole.signals, row.signalId ∉ (call :: rest).filterMap Call.signalKey) :
    ∀ row ∈ (answer whole call).1.signals, row.signalId ∉ rest.filterMap Call.signalKey := by
  intro row mem later
  rcases signalIdsStep whole call row mem with old | new
  · obtain ⟨held, was, same⟩ := List.mem_map.mp old
    refine fresh held was ?_
    rw [same]
    exact ((List.sublist_cons_self call rest).filterMap Call.signalKey).subset later
  · have nodup := future.signalKeys
    rw [List.filterMap_cons_some new] at nodup
    exact (List.nodup_cons.mp nodup).1 later

-- The bound an acquire leaves: its own reading, when it has one.
theorem boundStep {bound : String} (now : Number) (future : Interleaving mine theirs (call :: rest))
    (reads : call.reading = toIso now) (before : ∀ text ∈ (call :: rest).filterMap Call.reading, bound ≤ text) :
    (∀ nowIso, toIso now = some nowIso → bound ≤ nowIso) ∧ ∀ text ∈ rest.filterMap Call.reading, (toIso now).getD bound ≤ text := by
  refine ⟨fun nowIso dated => before nowIso ?_, fun text mem => ?_⟩
  · rw [List.filterMap_cons_some (reads.trans dated)]
    exact List.mem_cons_self
  · cases dated : toIso now with
    | none => exact before text (((List.sublist_cons_self call rest).filterMap Call.reading).subset mem)
    | some nowIso => exact laterReadings future (reads.trans dated) text mem

include apart

theorem alignedKept (own : mine.calls call = true) (aligned : Aligned mine theirs whole thin (call :: rest)) :
    (answer whole call).2 = (answer thin call).2 ∧ Aligned mine theirs (answer whole call).1 (answer thin call).1 rest := by
  obtain ⟨bound, leases, before⟩ := aligned.leases
  have tail := futureTail aligned.future
  have freshLeases := freshLeasesStep aligned.future aligned.freshLeases
  have freshSignals := freshSignalsStep aligned.future aligned.freshSignals
  have later : ∀ text ∈ rest.filterMap Call.reading, bound ≤ text := fun text mem =>
    before text (((List.sublist_cons_self call rest).filterMap Call.reading).subset mem)
  cases call with
  | acquire now id req =>
    simp only [answer] at freshLeases freshSignals ⊢
    obtain ⟨steady, next⟩ := boundStep now aligned.future rfl before
    have fresh : ∀ row ∈ whole.leases, row.leaseId ≠ id := fun row mem same => aligned.freshLeases row mem (by
      rw [same, List.filterMap_cons_some (show (Call.acquire now id req).leaseKey = some id from rfl)]
      exact List.mem_cons_self)
    obtain ⟨same, agree⟩ := acquireKept apart leases own fresh steady
    exact ⟨congrArg Response.acquired same, alignedOf tail agree next aligned.signals freshLeases freshSignals⟩
  | release now leaseId agentId tenant =>
    simp only [answer] at freshLeases freshSignals ⊢
    obtain ⟨same, agree⟩ := releaseKept apart leases now leaseId agentId own
    exact ⟨congrArg Response.released same, alignedOf tail agree later aligned.signals freshLeases freshSignals⟩
  | renew now leaseId agentId ttlMs tenant =>
    simp only [answer] at freshLeases freshSignals ⊢
    obtain ⟨steady, -⟩ := boundStep now aligned.future rfl before
    obtain ⟨same, agree⟩ := renewKept apart leases leaseId agentId ttlMs own steady
    exact ⟨congrArg Response.renewed same, alignedOf tail agree later aligned.signals freshLeases freshSignals⟩
  | send now id req =>
    simp only [answer] at freshLeases freshSignals ⊢
    have fresh : ∀ row ∈ whole.signals, row.signalId ≠ id := fun row mem same => aligned.freshSignals row mem (by
      rw [same, List.filterMap_cons_some (show (Call.send now id req).signalKey = some id from rfl)]
      exact List.mem_cons_self)
    obtain ⟨same, agree⟩ := sendKept apart aligned.signals now own fresh
    exact ⟨congrArg Response.sent same, alignedOf tail leases later agree freshLeases freshSignals⟩
  | read now req =>
    simp only [answer] at freshLeases freshSignals ⊢
    exact ⟨congrArg Response.found (readAgrees apart aligned.signals own), alignedOf tail leases later aligned.signals freshLeases freshSignals⟩
  | ack now req =>
    simp only [answer] at freshLeases freshSignals ⊢
    obtain ⟨same, agree⟩ := ackKept apart aligned.signals now own
    exact ⟨congrArg Response.acked same, alignedOf tail leases later agree freshLeases freshSignals⟩

theorem alignedDropped (other : theirs.calls call = true) (aligned : Aligned mine theirs whole thin (call :: rest)) :
    Aligned mine theirs (answer whole call).1 thin rest := by
  obtain ⟨bound, leases, before⟩ := aligned.leases
  have tail := futureTail aligned.future
  have freshLeases := freshLeasesStep aligned.future aligned.freshLeases
  have freshSignals := freshSignalsStep aligned.future aligned.freshSignals
  have later : ∀ text ∈ rest.filterMap Call.reading, bound ≤ text := fun text mem =>
    before text (((List.sublist_cons_self call rest).filterMap Call.reading).subset mem)
  cases call with
  | acquire now id req =>
    simp only [answer] at freshLeases freshSignals ⊢
    obtain ⟨steady, next⟩ := boundStep now aligned.future rfl before
    exact alignedOf tail (acquireDropped apart leases other steady) next aligned.signals freshLeases freshSignals
  | release now leaseId agentId tenant =>
    simp only [answer] at freshLeases freshSignals ⊢
    exact alignedOf tail (releaseDropped apart leases other) later aligned.signals freshLeases freshSignals
  | renew now leaseId agentId ttlMs tenant =>
    simp only [answer] at freshLeases freshSignals ⊢
    exact alignedOf tail (renewDropped apart leases other) later aligned.signals freshLeases freshSignals
  | send now id req =>
    simp only [answer] at freshLeases freshSignals ⊢
    exact alignedOf tail leases later (sendDropped apart aligned.signals other) freshLeases freshSignals
  | read now req =>
    simp only [answer] at freshLeases freshSignals ⊢
    exact alignedOf tail leases later aligned.signals freshLeases freshSignals
  | ack now req =>
    simp only [answer] at freshLeases freshSignals ⊢
    exact alignedOf tail leases later (ackDropped apart aligned.signals other) freshLeases freshSignals

end

theorem tenantsIndependent (mine theirs : Tenant) (apart : Disjoint mine theirs) (calls : List Call)
    (interleaving : Interleaving mine theirs calls) :
    (Unwinding.answers answer ⟨[], []⟩ calls).filter (fun answered => mine.calls answered.1) =
      Unwinding.answers answer ⟨[], []⟩ (calls.filter mine.calls) := by
  have start : Aligned mine theirs ⟨[], []⟩ ⟨[], []⟩ calls := by
    have first : ∃ bound, ∀ text ∈ calls.filterMap Call.reading, bound ≤ text := by
      have steady := interleaving.steady
      cases readings : calls.filterMap Call.reading with
      | nil => exact ⟨"", fun _ mem => (List.not_mem_nil mem).elim⟩
      | cons text rest =>
        rw [readings] at steady
        exact ⟨text, fun other mem => (List.mem_cons.mp mem).elim (fun same => same ▸ String.le_refl text)
          ((List.pairwise_cons.mp steady).1 other)⟩
    obtain ⟨bound, before⟩ := first
    exact ⟨interleaving, ⟨bound, ⟨List.nodup_nil, fun _ mem => (List.not_mem_nil mem).elim, .nil⟩, before⟩,
      ⟨List.nodup_nil, fun _ mem => (List.not_mem_nil mem).elim, rfl⟩, fun _ mem => (List.not_mem_nil mem).elim,
      fun _ mem => (List.not_mem_nil mem).elim⟩
  refine Unwinding.unwinding answer (R := Aligned mine theirs) (fun whole thin call rest own aligned => alignedKept apart own aligned)
    (fun whole thin call rest stranger aligned => ?_) calls start
  refine alignedDropped apart ((aligned.future.owned call List.mem_cons_self).resolve_left ?_) aligned
  rw [stranger]
  exact Bool.false_ne_true

def soleUser (user : String) : Tenant := ⟨fun other => other = user, fun _ => false⟩
def ask (user target : String) : Lease.AcquireRequest := ⟨target, user, none, some (.fin 1000), none, some user, none⟩
-- The second tenant's reading lies after the first one's lease ends; the renewal's before it.
def clockBack (renewed : Number) : List Call :=
  [.acquire (.fin 0) "l1" (ask "a" "t"), .acquire (.fin 5000) "l2" (ask "b" "u"), .renew renewed "l1" "a" none ⟨some "a", none⟩]

theorem soleApart : Disjoint (soleUser "a") (soleUser "b") :=
  ⟨fun user both => absurd ((of_decide_eq_true both.1).symm.trans (of_decide_eq_true both.2)) (by decide),
    fun team both => by cases both.1⟩

theorem soleOwned (renewed : Number) :
    ∀ call ∈ clockBack renewed, (soleUser "a").calls call = true ∨ (soleUser "b").calls call = true := by
  intro call mem
  simp only [clockBack, List.mem_cons, List.not_mem_nil, or_false] at mem
  rcases mem with rfl | rfl | rfl
  · exact .inl (by simp [Tenant.calls, Tenant.owns, Call.scope, soleUser, ask])
  · exact .inr (by simp [Tenant.calls, Tenant.owns, Call.scope, soleUser, ask])
  · exact .inl (by simp [Tenant.calls, Tenant.owns, Call.scope, soleUser])

theorem tenantsIndependentSteady :
    (Unwinding.answers answer ⟨[], []⟩ (clockBack (.fin 6000))).filter (fun answered => (soleUser "a").calls answered.1) =
      Unwinding.answers answer ⟨[], []⟩ ((clockBack (.fin 6000)).filter (soleUser "a").calls) := by
  refine tenantsIndependent (soleUser "a") (soleUser "b") soleApart (clockBack (.fin 6000))
    ⟨by decide, List.nodup_nil, ?_, soleOwned (.fin 6000)⟩
  have readings : (clockBack (.fin 6000)).filterMap Call.reading =
      ["1970-01-01T00:00:00.000Z", "1970-01-01T00:00:05.000Z", "1970-01-01T00:00:06.000Z"] := by decide
  rw [readings]
  decide

def Response.renewal : Response → Bool
  | .renewed (.ok (.ok _)) => true
  | _ => false

theorem clockBackShows : ((clockBack (.fin 500)).filterMap Call.leaseKey).Nodup ∧
    (Unwinding.answers answer ⟨[], []⟩ (clockBack (.fin 500))).filter (fun answered => (soleUser "a").calls answered.1) ≠
      Unwinding.answers answer ⟨[], []⟩ ((clockBack (.fin 500)).filter (soleUser "a").calls) := by
  refine ⟨by decide, fun same => ?_⟩
  have renewals := congrArg (List.map fun answered => answered.2.renewal) same
  revert renewals
  decide +kernel

end HarnessMem.Tenancy
