import HarnessMem.SearchStages

/-! `buildProjectProfile` and the wake-up context drawn from it: which titles of a project's
recent observations are shown as stable facts and which as recent context. -/
namespace HarnessMem.Profile
open Js Text Recorder Visibility TemporalState

structure Clock where
  now : String
  tomorrow : String
  daysBefore : Nat → String

inductive Classification where | static | dynamic
  deriving DecidableEq, Repr

-- A title in the profile, with the row it is taken from.
structure Classified where
  row : Observation
  title : String
  classification : Classification
  tags : List String

-- `String(value)`
mutual
def shown : Json → String
  | .str value => value
  | .num text => text
  | .bool true => "true"
  | .bool false => "false"
  | .null => "null"
  | .obj _ => "[object Object]"
  | .arr items => ",".intercalate (shownItems items)
def shownItems : List Json → List String
  | [] => []
  | .null :: rest => "" :: shownItems rest
  | item :: rest => shown item :: shownItems rest
end

def parseTags (host : Host) (tagsJson : String) : List String :=
  match host.parseJson tagsJson with
  | some (.arr items) => items.map shown
  | _ => []

def tagged (host : Host) (names tags : List String) : Bool := tags.any (fun tag => names.contains (host.toLowerCase tag))

def staticTagSignals : List String :=
  ["decision", "convention", "architecture", "tech-stack", "tech_stack", "setup", "agreement", "standard", "policy"]
def staticContent : Regex.Re := said ["we use", "uses", "adopted", "stack is", "architecture:", "convention:",
  "our standard", "we agreed", "we follow", "team convention"]
def hasStaticContent (row : Observation) : Bool :=
  Regex.test staticContent (row.title.getD "" ++ " " ++ row.content)

def titleOf (row : Observation) : String := row.title.getD (slice row.content 0 80)

def classifyObs (host : Host) (clock : Clock) (row : Observation) (superseded : Bool) : Classification :=
  if row.expiresAt.isSome then .dynamic
  else if superseded then .dynamic
  else if tagged host staticTagSignals (parseTags host row.tagsJson) then .static
  else if hasStaticContent row then .static
  else if row.createdAt < clock.daysBefore 14 then .static
  else .dynamic

structure ProjectProfile where
  techStack : List Classified
  conventions : List Classified
  topFacts : List Classified
  currentSprint : List Classified
  recentDecisions : List Classified
  expiringSoon : List Classified

def estimateTokens (text : String) : Nat := (length text + 3) / 4
def cost (entry : Classified) : Nat := estimateTokens entry.title + 1

-- One list's share: entries in order while they fit, and what has been used with it.
def fitting (budget : Nat) : Nat → List Classified → List Classified × Nat
  | used, [] => ([], used)
  | used, entry :: rest =>
    if budget < used + cost entry then ([], used)
    else
      let tail := fitting budget (used + cost entry) rest
      (entry :: tail.1, tail.2)

def trimToTokenBudget (budget : Nat) : Nat → List (List Classified) → List (List Classified)
  | _, [] => []
  | used, list :: rest =>
    let kept := fitting budget used list
    kept.1 :: trimToTokenBudget budget kept.2 rest

def tokenBudget : Nat := 300

def profileRows (clock : Clock) (project : String) (db : Db) : List Observation :=
  (Tables.orderBy (fun a b : Observation => b.createdAt ≤ a.createdAt)
    (db.observations.filter (fun row => row.project = project && clock.daysBefore 90 ≤ row.createdAt))).take 500

-- The first entry of each session.
def firstOfSessions (entries : List Classified) : List Classified :=
  entries.foldl (fun kept entry =>
    if kept.any (fun old => old.row.sessionId = entry.row.sessionId) then kept else kept ++ [entry]) []

def expiring (clock : Clock) (entry : Classified) : Bool :=
  entry.row.expiresAt.any (fun expiry => clock.now < expiry && expiry ≤ clock.tomorrow)

def staleIds (db : Db) (ids : List String) : List String :=
  (db.links.filter (fun link => link.relation = "supersedes" && ids.contains link.toId)).map Link.toId

def classifiedRows (host : Host) (clock : Clock) (project : String) (db : Db) : List Classified :=
  let rows := profileRows clock project db
  let superseded := staleIds db (rows.map Observation.id)
  rows.map (fun row => ⟨row, titleOf row, classifyObs host clock row (superseded.contains row.id), parseTags host row.tagsJson⟩)

def buildProjectProfile (host : Host) (clock : Clock) (db : Db) (project : String) : ProjectProfile :=
  let rows := profileRows clock project db
  let superseded := staleIds db (rows.map Observation.id)
  let classified := classifiedRows host clock project db
  let static := classified.filter (fun entry => entry.classification = .static)
  let dynamic := classified.filter (fun entry => entry.classification = .dynamic)
  let recent := fun entry : Classified => clock.daysBefore 7 ≤ entry.row.createdAt
  let lists := trimToTokenBudget tokenBudget 0
    [(static.filter (fun entry => tagged host ["tech-stack", "tech_stack", "architecture", "setup"] entry.tags)).take 5,
      (static.filter (fun entry => tagged host ["decision", "convention", "agreement", "standard", "policy"] entry.tags)).take 5,
      static.take 10,
      (firstOfSessions (dynamic.filter (fun entry => recent entry))).take 7,
      (dynamic.filter (fun entry => recent entry && tagged host ["decision", "convention"] entry.tags ||
        superseded.contains entry.row.id)).take 5,
      (classified.filter (expiring clock)).take 5]
  let list := fun i => (lists[i]?).getD []
  ⟨list 0, list 1, list 2, list 3, list 4, list 5⟩

inductive DetailLevel where | l0 | l1 | full
  deriving DecidableEq, Repr

-- The lists a level leaves out are empty here.
structure WakeUpContext where
  project : String
  techStack : List Classified
  conventions : List Classified
  pendingCount : Nat
  recentObservations : List Classified
  recentDecisions : List Classified
  expiringSoon : List Classified
  topFacts : List Classified
  currentSprint : List Classified

def buildWakeUpContext (project : String) (profile : ProjectProfile) (level : DetailLevel) : WakeUpContext :=
  let from1 := fun list : List Classified => if level = .l0 then [] else list
  let fromFull := fun list : List Classified => if level = .full then list else []
  { project
    techStack := profile.techStack.take 3
    conventions := profile.conventions.take 3
    pendingCount := profile.currentSprint.length + profile.recentDecisions.length + profile.expiringSoon.length
    recentObservations := from1 (profile.currentSprint.take 5)
    recentDecisions := from1 (profile.recentDecisions.take 5)
    expiringSoon := from1 (profile.expiringSoon.take 3)
    topFacts := fromFull profile.topFacts
    currentSprint := fromFull profile.currentSprint }

def WakeUpContext.entries (context : WakeUpContext) : List Classified :=
  context.techStack ++ context.conventions ++ context.recentObservations ++ context.recentDecisions ++
    context.expiringSoon ++ context.topFacts ++ context.currentSprint

end HarnessMem.Profile
