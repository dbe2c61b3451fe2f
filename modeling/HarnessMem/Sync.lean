import HarnessMem.Js
import HarnessMem.Lib.KeyedList

/-! Cross-device sync: change sets, the conflict policies, the merge and the store behind the
push and pull routes. -/
namespace HarnessMem.Sync
open KeyedList

-- A record's further properties are opaque to the engine.
structure SyncRecord (Other : Type*) where
  id : String
  content : String
  updatedAt : String
  deviceId : String
  other : Other

section
variable {Other : Type*}

structure Changeset (Other : Type*) where
  deviceId : String
  since : Option String
  records : List (SyncRecord Other)

structure ConflictInfo (Other : Type*) where
  id : String
  held : SyncRecord Other
  remote : SyncRecord Other
  winner : SyncRecord Other

inductive ConflictPolicy where | lastWriteWins | localWins | remoteWins
  deriving DecidableEq, Repr

-- `r.updated_at > since`; an empty `since` is falsy.
def buildChangeset (records : List (SyncRecord Other)) (deviceId : String) (since : Option String) : Changeset Other :=
  let filtered := match since with
    | none => records
    | some text => if text = "" then records else records.filter (fun r => Js.less text r.updatedAt)
  ⟨deviceId, since, filtered⟩

def resolveConflict (held remote : SyncRecord Other) : ConflictPolicy → SyncRecord Other
  | .localWins => held
  | .remoteWins => remote
  | .lastWriteWins => if Js.less held.updatedAt remote.updatedAt then remote else held

def mergeRecord (policy : ConflictPolicy) (state : List (SyncRecord Other) × List (ConflictInfo Other))
    (remoteRec : SyncRecord Other) : List (SyncRecord Other) × List (ConflictInfo Other) :=
  match get SyncRecord.id remoteRec.id state.1 with
  | none => (put SyncRecord.id remoteRec state.1, state.2)
  | some localRec =>
    if localRec.updatedAt ≠ remoteRec.updatedAt then
      let winner := resolveConflict localRec remoteRec policy
      (put SyncRecord.id winner state.1, state.2 ++ [⟨remoteRec.id, localRec, remoteRec, winner⟩])
    else state

structure MergeResult (Other : Type*) where
  merged : List (SyncRecord Other)
  conflicts : List (ConflictInfo Other)

def mergeChangeset (localRecords : List (SyncRecord Other)) (remote : Changeset Other) (policy : ConflictPolicy) :
    MergeResult Other :=
  let final := remote.records.foldl (mergeRecord policy) (putAll SyncRecord.id localRecords [], [])
  ⟨final.1, final.2⟩

-- The store behind the routes: a map, so one record to an id.
structure SyncStore (Other : Type*) where
  records : List (SyncRecord Other)
  unique : (records.map SyncRecord.id).Nodup

def handleSyncPush (store : SyncStore Other) (remote : Changeset Other) (policy : ConflictPolicy) :
    SyncStore Other × MergeResult Other :=
  let result := mergeChangeset store.records remote policy
  (⟨putAll SyncRecord.id result.merged [], putAllUnique (by simp) _⟩, result)
def handleSyncPull (store : SyncStore Other) (deviceId : String) (since : Option String) : Changeset Other :=
  buildChangeset store.records deviceId since

-- What a remote record leaves under its id.
def settle (policy : ConflictPolicy) (held : Option (SyncRecord Other)) (remote : SyncRecord Other) : SyncRecord Other :=
  match held with
  | none => remote
  | some held => if held.updatedAt ≠ remote.updatedAt then resolveConflict held remote policy else held

theorem resolveEither (held remote : SyncRecord Other) (policy : ConflictPolicy) :
    resolveConflict held remote policy = held ∨ resolveConflict held remote policy = remote := by
  cases policy with
  | localWins => exact .inl rfl
  | remoteWins => exact .inr rfl
  | lastWriteWins =>
    simp only [resolveConflict]
    split
    · exact .inr rfl
    · exact .inl rfl

theorem resolveId {held remote : SyncRecord Other} (policy : ConflictPolicy) (same : held.id = remote.id) :
    (resolveConflict held remote policy).id = remote.id := by
  rcases resolveEither held remote policy with eq | eq
  · rw [eq, same]
  · rw [eq]

section
variable {policy : ConflictPolicy} {state : List (SyncRecord Other) × List (ConflictInfo Other)}

theorem mergeGet (k : String) (remote : SyncRecord Other) :
    get SyncRecord.id k (mergeRecord policy state remote).1 =
      if remote.id = k then some (settle policy (get SyncRecord.id k state.1) remote) else get SyncRecord.id k state.1 := by
  unfold mergeRecord
  split
  · rename_i absent
    rw [getPut]
    by_cases here : remote.id = k
    · rw [if_pos here, if_pos here, ← here, absent]
      rfl
    · rw [if_neg here, if_neg here]
  · rename_i held found
    have same := (getMem found).2
    split
    · rename_i apart
      rw [getPut, resolveId policy same]
      by_cases here : remote.id = k
      · rw [if_pos here, if_pos here, ← here, found, settle, if_pos apart]
      · rw [if_neg here, if_neg here]
    · rename_i tied
      by_cases here : remote.id = k
      · rw [if_pos here, ← here, found, settle, if_neg tied]
      · rw [if_neg here]

theorem mergeUnique (unique : (state.1.map SyncRecord.id).Nodup) (remote : SyncRecord Other) :
    ((mergeRecord policy state remote).1.map SyncRecord.id).Nodup := by
  unfold mergeRecord
  split
  · exact putUnique unique _
  · split
    · exact putUnique unique _
    · exact unique

theorem foldUnique (policy : ConflictPolicy) (state : List (SyncRecord Other) × List (ConflictInfo Other))
    (unique : (state.1.map SyncRecord.id).Nodup) (remote : List (SyncRecord Other)) :
    ((remote.foldl (mergeRecord policy) state).1.map SyncRecord.id).Nodup := by
  induction remote generalizing state with
  | nil => exact unique
  | cons first rest ih => exact ih _ (mergeUnique unique first)

-- A change set with one record to an id settles that id once.
theorem foldGet (policy : ConflictPolicy) (state : List (SyncRecord Other) × List (ConflictInfo Other))
    {remote : List (SyncRecord Other)} (unique : (remote.map SyncRecord.id).Nodup) (k : String) :
    get SyncRecord.id k (remote.foldl (mergeRecord policy) state).1 =
      match get SyncRecord.id k remote with
      | none => get SyncRecord.id k state.1
      | some record => some (settle policy (get SyncRecord.id k state.1) record) := by
  induction remote generalizing state with
  | nil => rfl
  | cons first rest ih =>
    rw [List.map_cons, List.nodup_cons] at unique
    rw [List.foldl_cons, ih _ unique.2, mergeGet]
    by_cases here : first.id = k
    · have absent : get SyncRecord.id k rest = none :=
        getNone.mpr (fun row mem same => unique.1 (here.trans same.symm ▸ List.mem_map_of_mem mem))
      have front : get SyncRecord.id k (first :: rest) = some first := List.find?_cons_of_pos (by simpa using here)
      rw [absent, front, if_pos here]
    · have front : get SyncRecord.id k (first :: rest) = get SyncRecord.id k rest :=
        List.find?_cons_of_neg (by simpa using here)
      rw [front, if_neg here]

end

-- A version of the record is held that the remote one does not beat.
def Settled (rows : List (SyncRecord Other)) (remote : SyncRecord Other) : Prop :=
  ∃ held, get SyncRecord.id remote.id rows = some held ∧ Js.less held.updatedAt remote.updatedAt = false

theorem settleNotOlder (held : Option (SyncRecord Other)) (remote : SyncRecord Other) :
    Js.less (settle .lastWriteWins held remote).updatedAt remote.updatedAt = false := by
  have self : ∀ text, Js.less text text = false := fun text => decide_eq_false (lt_irrefl _)
  unfold settle
  split
  · exact self _
  · split
    · simp only [resolveConflict]
      split
      · exact self _
      · rename_i older
        exact Bool.eq_false_of_not_eq_true older
    · rename_i held tied
      rw [not_ne_iff.mp tied]
      exact self _

theorem settleNotEarlier (held remote : SyncRecord Other) :
    Js.less (settle .lastWriteWins (some held) remote).updatedAt held.updatedAt = false := by
  have self : ∀ text, Js.less text text = false := fun text => decide_eq_false (lt_irrefl _)
  simp only [settle, resolveConflict]
  split
  · split
    · rename_i newer
      exact Js.lessAsymm newer
    · exact self _
  · exact self _

theorem settledStays {state : List (SyncRecord Other) × List (ConflictInfo Other)} {remote : SyncRecord Other}
    (settled : Settled state.1 remote) (next : SyncRecord Other) : Settled (mergeRecord .lastWriteWins state next).1 remote := by
  obtain ⟨held, found, kept⟩ := settled
  by_cases here : next.id = remote.id
  · refine ⟨_, (mergeGet remote.id next).trans (if_pos here), ?_⟩
    rw [found]
    refine Bool.eq_false_of_not_eq_true fun older => ?_
    have notEarlier := settleNotEarlier held next
    by_cases same : (settle .lastWriteWins (some held) next).updatedAt = held.updatedAt
    · rw [same, kept] at older
      cases older
    · rcases Js.lessTotal same with earlier | later
      · rw [notEarlier] at earlier
        cases earlier
      · rw [Js.lessTrans later older] at kept
        cases kept
  · exact ⟨held, ((mergeGet remote.id next).trans (if_neg here)).trans found, kept⟩

theorem settledAfter (state : List (SyncRecord Other) × List (ConflictInfo Other)) (remote : SyncRecord Other) :
    Settled (mergeRecord .lastWriteWins state remote).1 remote :=
  ⟨_, (mergeGet remote.id remote).trans (if_pos rfl), settleNotOlder _ _⟩

theorem settledMerge {state : List (SyncRecord Other) × List (ConflictInfo Other)} {remote : SyncRecord Other}
    (settled : Settled state.1 remote) : (mergeRecord .lastWriteWins state remote).1 = state.1 := by
  obtain ⟨held, found, kept⟩ := settled
  simp only [mergeRecord, found]
  split
  · have winner : resolveConflict held remote .lastWriteWins = held := by simp [resolveConflict, kept]
    rw [winner]
    exact putHeld ((getMem found).2 ▸ found)
  · rfl

theorem foldSettled (state : List (SyncRecord Other) × List (ConflictInfo Other)) (done : List (SyncRecord Other))
    (settled : ∀ r ∈ done, Settled state.1 r) (remote : List (SyncRecord Other)) :
    ∀ r ∈ done ++ remote, Settled (remote.foldl (mergeRecord .lastWriteWins) state).1 r := by
  induction remote generalizing state done with
  | nil => simpa using settled
  | cons first rest ih =>
    have next : ∀ r ∈ done ++ [first], Settled (mergeRecord .lastWriteWins state first).1 r := by
      intro r mem
      rcases List.mem_append.mp mem with old | new
      · exact settledStays (settled r old) first
      · rw [List.mem_singleton.mp new]
        exact settledAfter state first
    rw [List.append_cons]
    exact ih _ _ next

theorem foldUnchanged {state : List (SyncRecord Other) × List (ConflictInfo Other)} {remote : List (SyncRecord Other)}
    (settled : ∀ r ∈ remote, Settled state.1 r) : (remote.foldl (mergeRecord .lastWriteWins) state).1 = state.1 := by
  induction remote generalizing state with
  | nil => rfl
  | cons first rest ih =>
    have same := settledMerge (settled first List.mem_cons_self)
    rw [List.foldl_cons, ih (fun r mem => same.symm ▸ settled r (List.mem_cons_of_mem _ mem)), same]

theorem mergeTwice (records : List (SyncRecord Other)) (remote : Changeset Other) :
    (mergeChangeset (mergeChangeset records remote .lastWriteWins).merged remote .lastWriteWins).merged =
      (mergeChangeset records remote .lastWriteWins).merged := by
  have start : ((putAll SyncRecord.id records []).map SyncRecord.id).Nodup := putAllUnique (by simp) records
  have unique := foldUnique .lastWriteWins (putAll SyncRecord.id records [], []) start remote.records
  have settled := foldSettled (putAll SyncRecord.id records [], []) [] (by simp) remote.records
  simp only [mergeChangeset]
  rw [putAllSelf (by simpa using unique), List.nil_append]
  exact foldUnchanged settled

theorem settleAgree (a b : SyncRecord Other) : settle .lastWriteWins (some a) b = settle .lastWriteWins (some b) a ↔
    (a.updatedAt = b.updatedAt → a = b) := by
  simp only [settle, resolveConflict]
  by_cases tied : a.updatedAt = b.updatedAt
  · rw [if_neg (not_not_intro tied), if_neg (not_not_intro tied.symm)]
    exact ⟨fun same _ => same, fun same => same tied⟩
  · rw [if_pos tied, if_pos (Ne.symm tied)]
    refine iff_of_true ?_ (fun same => absurd same tied)
    rcases Js.lessTotal tied with newer | newer
    · rw [if_pos newer, if_neg (by rw [Js.lessAsymm newer]; exact Bool.false_ne_true)]
    · rw [if_neg (by rw [Js.lessAsymm newer]; exact Bool.false_ne_true), if_pos newer]

theorem pushRecords (store : SyncStore Other) (remote : Changeset Other) (policy : ConflictPolicy) :
    (handleSyncPush store remote policy).1.records = (mergeChangeset store.records remote policy).merged := by
  have start : ((putAll SyncRecord.id store.records []).map SyncRecord.id).Nodup := putAllUnique (by simp) store.records
  have unique := foldUnique policy (putAll SyncRecord.id store.records [], []) start remote.records
  exact (putAllSelf ((List.nil_append _).symm ▸ unique)).trans (List.nil_append _)

theorem pushPullGet (store other : SyncStore Other) (deviceId id : String) :
    get SyncRecord.id id (handleSyncPush store (handleSyncPull other deviceId none) .lastWriteWins).1.records =
      match get SyncRecord.id id other.records with
      | none => get SyncRecord.id id store.records
      | some record => some (settle .lastWriteWins (get SyncRecord.id id store.records) record) := by
  rw [pushRecords]
  have whole : putAll SyncRecord.id store.records [] = store.records := putAllSelf (by simpa using store.unique)
  have settled := foldGet .lastWriteWins (putAll SyncRecord.id store.records [], []) other.unique id
  rw [whole] at settled
  simp only [mergeChangeset, whole]
  exact settled

theorem syncConverges (a b : SyncStore Other) (aDevice bDevice : String) :
    (∀ id, get SyncRecord.id id (handleSyncPush a (handleSyncPull b bDevice none) .lastWriteWins).1.records =
          get SyncRecord.id id (handleSyncPush b (handleSyncPull a aDevice none) .lastWriteWins).1.records ↔
        ∀ x ∈ a.records, ∀ y ∈ b.records, x.id = id → y.id = id → x.updatedAt = y.updatedAt → x = y) ∧
      ∀ remote : Changeset Other, (handleSyncPush (handleSyncPush a remote .lastWriteWins).1 remote .lastWriteWins).1.records =
        (handleSyncPush a remote .lastWriteWins).1.records := by
  refine ⟨fun id => ?_, fun remote => ?_⟩
  · rw [pushPullGet, pushPullGet]
    cases inA : get SyncRecord.id id a.records with
    | none =>
      refine iff_of_true ?_ (fun x mem _ _ same => absurd same (getNone.mp inA x mem))
      cases get SyncRecord.id id b.records <;> rfl
    | some x =>
      cases inB : get SyncRecord.id id b.records with
      | none => exact iff_of_true rfl (fun _ _ y mem _ same => absurd same (getNone.mp inB y mem))
      | some y =>
        change some (settle .lastWriteWins (some x) y) = some (settle .lastWriteWins (some y) x) ↔ _
        rw [Option.some_inj, settleAgree]
        obtain ⟨heldX, idX⟩ := getMem inA
        obtain ⟨heldY, idY⟩ := getMem inB
        constructor
        · intro agree x' mem y' mem' same same' tied
          rw [List.inj_on_of_nodup_map a.unique mem heldX (same.trans idX.symm),
            List.inj_on_of_nodup_map b.unique mem' heldY (same'.trans idY.symm)] at tied ⊢
          exact agree tied
        · exact fun agree => agree x heldX y heldY idX idY
  · rw [pushRecords, pushRecords]
    exact mergeTwice a.records remote

end

def noteStore (content : String) : SyncStore Unit := ⟨[⟨"n1", content, "2026-01-01T00:00:00Z", "laptop", ()⟩], by simp⟩

-- Two versions with one timestamp: each side keeps its own.
theorem syncDiverges :
    (handleSyncPush (noteStore "a") (handleSyncPull (noteStore "b") "d2" none) .lastWriteWins).1.records.map SyncRecord.content = ["a"] ∧
      (handleSyncPush (noteStore "b") (handleSyncPull (noteStore "a") "d1" none) .lastWriteWins).1.records.map SyncRecord.content = ["b"] := by
  decide

end HarnessMem.Sync
