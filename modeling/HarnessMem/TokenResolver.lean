import HarnessMem.JsonLines

/-! Bearer tokens: which identity a presented token stands for. Lengths are compared in UTF-16 units, and
what is compared afterwards are the UTF-8 bytes. -/
namespace HarnessMem.TokenResolver
open Js Text JsonLines

inductive TokenRole where | admin | member
  deriving DecidableEq, Repr

structure TokenEntry where
  userId : String
  teamId : Option String
  role : TokenRole
  deriving DecidableEq, Repr

structure ResolvedIdentity where
  userId : String
  teamId : Option String
  role : TokenRole
  deriving DecidableEq, Repr

-- The token map in the order `Object.entries` lists it.
structure AuthConfig where
  adminToken : String
  tokens : List (String × TokenEntry)

def adminIdentity : ResolvedIdentity := ⟨"admin", none, .admin⟩
def identityOf (entry : TokenEntry) : ResolvedIdentity := ⟨entry.userId, entry.teamId, entry.role⟩

def unequalBuffers : String := "RangeError: Input buffers must have the same byte length"
def timingSafeEqual (a b : List UInt8) : Except String Bool := if a.length = b.length then .ok (a = b) else .error unequalBuffers

-- One entry against the presented token: a blank entry or one of another length is passed over.
def compareToken (token configured : String) : Except String Bool :=
  if configured = "" ∨ length token ≠ length configured then .ok false else timingSafeEqual (buffer token) (buffer configured)

def resolveEntry (token : String) : List (String × TokenEntry) → Except String (Option ResolvedIdentity)
  | [] => .ok none
  | (mapToken, entry) :: rest => do
    if ← compareToken token mapToken then return some (identityOf entry)
    resolveEntry token rest

def resolveTokenIdentity (token : String) (config : AuthConfig) : Except String (Option ResolvedIdentity) :=
  if token = "" then .ok none
  else do
    if ← compareToken token (trim config.adminToken) then return some adminIdentity
    resolveEntry token config.tokens

-- Without a configuration only the administrator's token of the environment is known.
def resolveRequestIdentity (authConfig : Option AuthConfig) (adminToken token : String) : Except String (Option ResolvedIdentity) :=
  match authConfig with
  | some config => resolveTokenIdentity token config
  | none =>
    if trim adminToken = "" then .ok (some adminIdentity)
    else if token = "" ∨ length token ≠ length (trim adminToken) then .ok none
    else do
      if ← timingSafeEqual (buffer token) (buffer (trim adminToken)) then return some adminIdentity
      return none

-- The configured tokens with what each stands for, the administrator's first.
def entries (config : AuthConfig) : List (String × ResolvedIdentity) :=
  (trim config.adminToken, adminIdentity) :: config.tokens.map (fun entry => (entry.1, identityOf entry.2))

-- A blank text is no token.
inductive Exact (known : List (String × ResolvedIdentity)) (token : String) : Except String (Option ResolvedIdentity) → Prop where
  | found {identity : ResolvedIdentity} (named : token ≠ "") (held : (token, identity) ∈ known) : Exact known token (.ok (some identity))
  | missing (absent : token ≠ "" → ∀ identity, (token, identity) ∉ known) : Exact known token (.ok none)

-- Of the entries up to the first that equals the token, those with as many units have as many bytes.
def Comparable (known : List (String × ResolvedIdentity)) (token : String) : Prop :=
  ∀ entry ∈ known.takeWhile (fun entry => entry.1 ≠ token), length entry.1 = length token → (buffer entry.1).length = (buffer token).length

section
variable {token configured : String} {known : List (String × ResolvedIdentity)}

theorem bufferInjective {a b : String} (same : buffer a = buffer b) : a = b := by
  have decoded := congrArg Utf8.decode same
  rw [buffer, buffer, Utf8.decodeEncode, Utf8.decodeEncode] at decoded
  exact String.toList_inj.mp decoded

theorem compareSelf (named : token ≠ "") : compareToken token token = .ok true := by
  simp [compareToken, timingSafeEqual, named]

theorem lengthBlank : length "" = 0 := rfl

-- What another entry is answered with: not it, or the error of buffers of different sizes.
theorem compareOther (named : token ≠ "") (other : configured ≠ token) :
    compareToken token configured =
      if length configured = length token → (buffer configured).length = (buffer token).length then .ok false else .error unequalBuffers := by
  unfold compareToken timingSafeEqual
  have apart : buffer token ≠ buffer configured := fun same => other (bufferInjective same).symm
  by_cases blank : configured = ""
  · have positive : length token ≠ 0 := by
      intro zero
      apply named
      unfold length at zero
      cases chars : token.toList with
      | nil => exact String.toList_inj.mp chars
      | cons c rest =>
        rw [chars] at zero
        have step : units (c :: rest) = (if wide c then 2 else 1) + units rest := rfl
        rw [step] at zero
        split at zero <;> omega
    rw [if_pos (.inl blank), if_pos]
    intro same
    rw [blank, lengthBlank] at same
    exact absurd same.symm positive
  · by_cases sized : length token = length configured
    · rw [if_neg (not_or.mpr ⟨blank, not_not.mpr sized⟩)]
      by_cases bytes : (buffer token).length = (buffer configured).length
      · rw [if_pos bytes, if_pos (fun _ => bytes.symm), decide_eq_false apart]
      · rw [if_neg bytes, if_neg (fun all => bytes (all sized.symm).symm)]
    · rw [if_pos (.inr sized), if_pos (fun same => absurd same.symm sized)]

-- The search as one recursion over all the entries.
def search (token : String) : List (String × ResolvedIdentity) → Except String (Option ResolvedIdentity)
  | [] => .ok none
  | (configured, identity) :: rest => do
    if ← compareToken token configured then return some identity
    search token rest

theorem searchEntries (tokens : List (String × TokenEntry)) :
    resolveEntry token tokens = search token (tokens.map (fun entry => (entry.1, identityOf entry.2))) := by
  induction tokens with
  | nil => rfl
  | cons entry rest ih =>
    rw [List.map_cons, search, resolveEntry, ih]

theorem resolvedSearch (named : token ≠ "") (config : AuthConfig) :
    resolveTokenIdentity token config = search token (entries config) := by
  rw [resolveTokenIdentity, if_neg named, entries, search, searchEntries]

-- An entry of another token is nothing to go by.
theorem exactOther {identity : ResolvedIdentity} {rest : List (String × ResolvedIdentity)} (other : configured ≠ token)
    {result : Except String (Option ResolvedIdentity)} :
    Exact ((configured, identity) :: rest) token result ↔ Exact rest token result := by
  have held : ∀ identity', (token, identity') ∈ (configured, identity) :: rest ↔ (token, identity') ∈ rest := by
    intro identity'
    rw [List.mem_cons]
    exact or_iff_right (fun is => other (Prod.mk.inj is).1.symm)
  constructor
  · intro resolved
    cases resolved with
    | found named mem => exact .found named ((held _).mp mem)
    | missing absent => exact .missing (fun named identity' mem => absent named identity' ((held _).mpr mem))
  · intro resolved
    cases resolved with
    | found named mem => exact .found named ((held _).mpr mem)
    | missing absent => exact .missing (fun named identity' mem => absent named identity' ((held _).mp mem))

theorem searchExact (named : token ≠ "") : Exact known token (search token known) ↔ Comparable known token := by
  induction known with
  | nil => exact iff_of_true (.missing (fun _ _ => List.not_mem_nil)) (fun _ mem => absurd mem List.not_mem_nil)
  | cons entry rest ih =>
    obtain ⟨configured, identity⟩ := entry
    by_cases same : configured = token
    · subst same
      have first : search configured ((configured, identity) :: rest) = .ok (some identity) := by
        rw [search, compareSelf named]
        rfl
      rw [first]
      refine iff_of_true (.found named List.mem_cons_self) (fun entry mem => ?_)
      rw [List.takeWhile_cons_of_neg (by simp)] at mem
      cases mem
    · have kept : ((configured, identity) :: rest).takeWhile (fun entry => entry.1 ≠ token) =
          (configured, identity) :: rest.takeWhile (fun entry => entry.1 ≠ token) :=
        List.takeWhile_cons_of_pos (by simpa using same)
      rw [search, compareOther named same, Comparable, kept, List.forall_mem_cons]
      by_cases fits : length configured = length token → (buffer configured).length = (buffer token).length
      · rw [if_pos fits, and_iff_right fits]
        change Exact _ token (search token rest) ↔ Comparable rest token
        rw [← ih, exactOther same]
      · rw [if_neg fits]
        refine iff_of_false ?_ (fun both => fits both.1)
        intro resolved
        cases resolved
end

theorem resolutionExact (token : String) (config : AuthConfig) :
    Exact (entries config) token (resolveTokenIdentity token config) ↔ token = "" ∨ Comparable (entries config) token := by
  by_cases blank : token = ""
  · rw [resolveTokenIdentity, if_pos blank]
    exact iff_of_true (.missing (fun named => absurd blank named)) (.inl blank)
  · rw [resolvedSearch blank, searchExact blank, or_iff_right blank]

-- A configured token of as many units and fewer bytes ends the search with an exception, before the entry that equals the token.
theorem resolutionThrows :
    let config : AuthConfig := ⟨"", [("a", ⟨"alice", none, .member⟩), ("é", ⟨"bob", none, .member⟩)]⟩
    resolveTokenIdentity "é" config = .error unequalBuffers ∧ ("é", ⟨"bob", none, .member⟩) ∈ entries config ∧
      ¬ Exact (entries config) "é" (resolveTokenIdentity "é" config) := by
  have thrown : resolveTokenIdentity "é" ⟨"", [("a", ⟨"alice", none, .member⟩), ("é", ⟨"bob", none, .member⟩)]⟩ =
      .error unequalBuffers := by decide
  refine ⟨thrown, by decide, ?_⟩
  rw [thrown]
  intro resolved
  cases resolved

-- The environment's token alone is compared the same way.
theorem environmentExact {adminToken : String} (token : String) (configured : trim adminToken ≠ "") :
    Exact [(trim adminToken, adminIdentity)] token (resolveRequestIdentity none adminToken token) ↔
      token = "" ∨ Comparable [(trim adminToken, adminIdentity)] token := by
  rw [resolveRequestIdentity, if_neg configured]
  by_cases blank : token = ""
  · rw [if_pos (.inl blank)]
    exact iff_of_true (.missing (fun named => absurd blank named)) (.inl blank)
  · have same : (if token = "" ∨ length token ≠ length (trim adminToken) then .ok none
        else do
          if ← timingSafeEqual (buffer token) (buffer (trim adminToken)) then return some adminIdentity
          return none) = search token [(trim adminToken, adminIdentity)] := by
      rw [search, search, compareToken]
      by_cases sized : length token = length (trim adminToken)
      · rw [if_neg (by simp [blank, sized]), if_neg (by simp [configured, sized])]
        rfl
      · rw [if_pos (.inr sized), if_pos (.inr sized)]
        rfl
    rw [same, searchExact blank, or_iff_right blank]

end HarnessMem.TokenResolver
