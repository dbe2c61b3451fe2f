import HarnessMem.Sync
import HarnessMem.Lib.Runs
import Mathlib.Data.List.Induction

/-! Devices that pull with the cursor their last pull ended at, any number of them against one
store, and what a device misses. -/
namespace HarnessMem.SyncCursor
open Sync

variable {Other : Type*}

structure Device (Other : Type*) where
  cursor : Option String
  received : List (SyncRecord Other)

structure Network (Other : Type*) where
  store : SyncStore Other
  device : String → Device Other

inductive Call (Other : Type*) where
  | push (remote : Changeset Other) (policy : ConflictPolicy)
  | pull (device : String)

def createSyncStore : SyncStore Other := ⟨[], by simp⟩
def start : Network Other := ⟨createSyncStore, fun _ => ⟨none, []⟩⟩

-- `ended` is the cursor a device keeps after a pull: which one is its own affair.
def pullInto (ended : Option String → Changeset Other → Option String) (store : SyncStore Other) (name : String)
    (device : Device Other) : Device Other :=
  let changes := handleSyncPull store name device.cursor
  ⟨ended device.cursor changes, device.received ++ changes.records⟩

def call (ended : Option String → Changeset Other → Option String) (net : Network Other) : Call Other → Network Other
  | .push remote policy => { net with store := (handleSyncPush net.store remote policy).1 }
  | .pull name => { net with device := fun other =>
      if other = name then pullInto ended net.store name (net.device name) else net.device other }

-- The usual cursor: the newest timestamp seen so far.
def newest (cursor : Option String) (changes : Changeset Other) : Option String :=
  changes.records.foldl (fun held r => match held with
    | none => some r.updatedAt
    | some text => if Js.less text r.updatedAt then some r.updatedAt else some text) cursor

def Selects (since : Option String) (r : SyncRecord Other) : Prop :=
  ∀ text, since = some text → text = "" ∨ Js.less text r.updatedAt = true

theorem selectedIff {store : SyncStore Other} {name : String} {since : Option String} {r : SyncRecord Other} :
    r ∈ (handleSyncPull store name since).records ↔ r ∈ store.records ∧ Selects since r := by
  unfold handleSyncPull buildChangeset Selects
  cases since with
  | none => simp
  | some text =>
    by_cases empty : text = ""
    · simp [empty]
    · simp [empty]

-- The push made `r` current when its timestamp was not past the device's cursor.
def PushedLate (name : String) (r : SyncRecord Other) (net : Network Other) : Call Other → Prop
  | .push remote policy => r ∉ net.store.records ∧ r ∈ (handleSyncPush net.store remote policy).1.records ∧
      ¬ Selects (net.device name).cursor r
  | .pull _ => False

section
variable {ended : Option String → Changeset Other → Option String} {name : String} {r : SyncRecord Other}

def LateIn (ended : Option String → Changeset Other → Option String) (name : String) (r : SyncRecord Other)
    (calls : List (Call Other)) : Prop :=
  ∃ before late after, calls = before ++ late :: after ∧ PushedLate name r (Runs.run (call ended) start before) late

theorem lateEarlier {calls : List (Call Other)} (late : LateIn ended name r calls) (next : Call Other) :
    LateIn ended name r (calls ++ [next]) := by
  obtain ⟨before, push, after, rfl, pushed⟩ := late
  exact ⟨before, push, after ++ [next], by simp, pushed⟩

theorem receivedKept {net : Network Other} (held : r ∈ (net.device name).received) (next : Call Other) :
    r ∈ ((call ended net next).device name).received := by
  cases next with
  | push remote policy => exact held
  | pull other =>
    simp only [call]
    split
    · rename_i same
      rw [← same]
      exact List.mem_append_left _ held
    · exact held

theorem pulled {net : Network Other} (inStore : r ∈ net.store.records) (selects : Selects (net.device name).cursor r) :
    r ∈ ((call ended net (.pull name)).device name).received := by
  simp only [call, if_pos]
  exact List.mem_append_right _ (selectedIff.mpr ⟨inStore, selects⟩)

-- What a device is owed of the store: held, still ahead of its cursor, or late.
def Owed (ended : Option String → Changeset Other → Option String) (name : String) (r : SyncRecord Other)
    (calls : List (Call Other)) (net : Network Other) : Prop :=
  r ∈ (net.device name).received ∨ Selects (net.device name).cursor r ∨ LateIn ended name r calls

theorem owedStep {calls : List (Call Other)} (next : Call Other)
    (owed : r ∈ (Runs.run (call ended) start calls).store.records →
      Owed ended name r calls (Runs.run (call ended) start calls))
    (inStore : r ∈ (Runs.run (call ended) start (calls ++ [next])).store.records) :
    Owed ended name r (calls ++ [next]) (Runs.run (call ended) start (calls ++ [next])) := by
  have here : PushedLate name r (Runs.run (call ended) start calls) next → LateIn ended name r (calls ++ [next]) :=
    fun late => ⟨calls, next, [], rfl, late⟩
  rw [Runs.runSnoc] at inStore ⊢
  generalize Runs.run (call ended) start calls = net at owed inStore here ⊢
  by_cases known : r ∈ net.store.records
  · rcases owed known with held | ahead | late
    · exact .inl (receivedKept held next)
    · cases next with
      | push remote policy => exact .inr (.inl ahead)
      | pull other =>
        by_cases same : other = name
        · exact .inl (same ▸ pulled known (same.symm ▸ ahead))
        · refine .inr (.inl ?_)
          simp only [call, if_neg (Ne.symm same)]
          exact ahead
    · exact .inr (.inr (lateEarlier late next))
  · cases next with
    | pull other => exact absurd inStore known
    | push remote policy =>
      by_cases ahead : Selects (net.device name).cursor r
      · exact .inr (.inl ahead)
      · exact .inr (.inr (here ⟨known, inStore, ahead⟩))

variable (name) in
theorem owedRun (calls : List (Call Other)) (inStore : r ∈ (Runs.run (call ended) start calls).store.records) :
    Owed ended name r calls (Runs.run (call ended) start calls) := by
  induction calls using List.reverseRecOn with
  | nil => exact absurd inStore List.not_mem_nil
  | append_singleton calls next ih => exact owedStep next ih inStore

theorem pulledOrLate (ended : Option String → Changeset Other → Option String) (name : String) (calls : List (Call Other)) :
    ∀ r ∈ (Runs.run (call ended) start (calls ++ [.pull name])).store.records,
      r ∈ ((Runs.run (call ended) start (calls ++ [.pull name])).device name).received ∨ LateIn ended name r calls := by
  intro r inStore
  rw [Runs.runSnoc] at inStore ⊢
  rcases owedRun name calls inStore with held | ahead | late
  · exact .inl (receivedKept held _)
  · exact .inl (pulled inStore ahead)
  · exact .inr late

-- A pull that finds nothing changes nothing.
theorem idlePull {net : Network Other} (idle : (handleSyncPull net.store name (net.device name).cursor).records = []) :
    call newest net (.pull name) = net := by
  have same : pullInto newest net.store name (net.device name) = net.device name := by
    simp only [pullInto, newest, idle, List.foldl_nil, List.append_nil]
  simp only [call, same]
  refine congrArg (Network.mk net.store) (funext fun other => ?_)
  split
  · rename_i here
    rw [here]
  · rfl

theorem idlePulls {net : Network Other} (idle : (handleSyncPull net.store name (net.device name).cursor).records = [])
    (n : Nat) : Runs.run (call newest) net (List.replicate n (.pull name)) = net := by
  induction n with
  | zero => rfl
  | succ n ih => rw [List.replicate_succ, Runs.runCons, idlePull idle, ih]

end

def note (id updatedAt : String) : SyncRecord Unit := ⟨id, id, updatedAt, "laptop", ()⟩
def pushNote (id updatedAt : String) : Call Unit := .push ⟨"laptop", none, [note id updatedAt]⟩ .lastWriteWins

theorem pulledOrLateOnce :
    note "n1" "2026-01-01T00:00:00Z" ∈ ((Runs.run (call newest) start
      ([pushNote "n1" "2026-01-01T00:00:00Z"] ++ [.pull "phone"])).device "phone").received ∨
      LateIn newest "phone" (note "n1" "2026-01-01T00:00:00Z") [pushNote "n1" "2026-01-01T00:00:00Z"] :=
  pulledOrLate newest "phone" [pushNote "n1" "2026-01-01T00:00:00Z"] _ (List.mem_of_head? rfl)

-- The older version arrives after the pull that moved the cursor past it.
def lateCalls : List (Call Unit) :=
  [pushNote "n2" "2026-02-01T00:00:00Z", .pull "phone", pushNote "n1" "2026-01-01T00:00:00Z"]

theorem lateNeverPulled :
    (Runs.run (call newest) start lateCalls).store.records.map SyncRecord.id = ["n2", "n1"] ∧
      ∀ n, ((Runs.run (call newest) start (lateCalls ++ List.replicate n (.pull "phone"))).device "phone").received.map
        SyncRecord.id = ["n2"] := by
  refine ⟨by decide, fun n => ?_⟩
  have idle : (handleSyncPull (Runs.run (call newest) start lateCalls).store "phone"
      ((Runs.run (call newest) start lateCalls).device "phone").cursor).records.isEmpty = true := by decide
  rw [Runs.runAppend, idlePulls (List.isEmpty_iff.mp idle)]
  decide

end HarnessMem.SyncCursor
