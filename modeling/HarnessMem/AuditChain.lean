import HarnessMem.Schema
import HarnessMem.Text

/-! The attestation chain of `mem_audit_log`: each appended row is bound to the hash of the
last row that carries one. -/
namespace HarnessMem.AuditChain

def hashLen : Nat := 32
def separator : String := String.singleton (Char.ofNat 31)

def chainHash (host : Host) (prev action targetType targetId detailsJson createdAt : String) : String :=
  Text.slice (host.sha256 (separator.intercalate
    [prev, action, targetType, targetId, detailsJson, createdAt])) 0 hashLen

def lastPrevHash (log : List Audit) : String := (log.reverse.findSome? Audit.prevHash).getD ""

def appendAuditChain (host : Host) (createdAt action targetType targetId detailsJson actor : String)
    (log : List Audit) : List Audit :=
  log ++ [⟨action, actor, targetType, targetId, detailsJson, createdAt,
    some (chainHash host (lastPrevHash log) action targetType targetId detailsJson createdAt)⟩]

inductive Verdict where
  | ok (count : Nat)
  | broken (brokenAt : Nat)
  deriving DecidableEq, Repr

-- `id >= ?`; NaN is bound as NULL.
def reaches (fromId : Js.Number) (id : Nat) : Bool :=
  match fromId with
  | .fin q => q ≤ id
  | .negInf => true
  | .posInf | .nan => false

def verifyLoop (host : Host) : String → Nat → List (Nat × Audit) → Verdict
  | _, count, [] => .ok count
  | prev, count, (id, row) :: rest =>
    let expected := chainHash host prev row.action row.targetType row.targetId row.detailsJson row.createdAt
    if some expected ≠ row.prevHash then .broken id
    else verifyLoop host (row.prevHash.getD "") (count + 1) rest

-- The table lists its rows with their ids, in id order.
def verifyAuditChain (host : Host) (table : List (Nat × Audit)) (fromId : Js.Number) : Verdict :=
  verifyLoop host "" 0 (table.filter (fun (id, row) => reaches fromId id && row.prevHash.isSome))

end HarnessMem.AuditChain
