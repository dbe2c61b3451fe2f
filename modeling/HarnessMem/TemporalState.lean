import HarnessMem.Visibility

/-! The temporal state a reader reports for an observation: from the links that supersede it,
its own validity columns, and the wording of its title and content. -/
namespace HarnessMem.TemporalState
open Js Text Regex Recorder

-- `.` matches anything but a line terminator.
def dot : Re := .set (fun c => !inSet "\n\r" c && c.toNat ≠ 0x2028 && c.toNat ≠ 0x2029)
def said (choices : List String) : Re := wholeWord (oneOf (choices.map wordI))

def currentCue : Re := said ["current", "currently", "now", "latest", "active", "in use", "used now"]
def japaneseCurrent : Re := words ["今", "現在", "今の", "現行", "最新", "使っている"]
def stillCue : Re :=
  wholeWord (oneOf [wordI "still", .seq (wordI "continue") (opt (wordI "s")), wordI "remaining", wordI "active",
    wordI "in use", wordI "used now"])
def japaneseStill : Re := words ["今も", "現在も", "まだ", "引き続き", "継続", "使い続け", "残っている"]
def noLongerCue : Re :=
  said ["no longer", "not used", "not in use", "deprecated", "removed", "inactive", "disabled", "superseded"]
def japaneseNoLonger : Re := oneOf [word "今は使っていない", word "使っていない", chain [word "もう", star dot, word "ない"],
  word "廃止", word "終了", word "無効", word "不要", word "やめた", word "なくなった"]
def previousCue : Re := said ["previously", "formerly", "used to", "prior", "earlier", "before"]
def japanesePrevious : Re := words ["以前", "前の", "前回", "前は", "もともと", "元は", "最初は", "当初", "当時", "直後",
  "初期", "変える前", "見直す前", "移す前", "切り替える前", "変更前"]
def firstCue : Re := said ["first", "earliest", "initial", "initially", "at launch", "launch"]
def afterCue : Re := said ["after", "right after", "following", "since"]
def beforeCue : Re := said ["before", "prior to", "until"]
def cued (cues : List Re) (text : String) : Bool := cues.any (fun cue => test cue text)

inductive State where | current | historical | superseded | unknown
  deriving DecidableEq, Repr

def observationTemporalText (host : Host) (row : Observation) : String :=
  host.toLowerCase (row.title.getD "" ++ " " ++ row.contentRedacted)

def dated (value : Option String) : Bool := (trimmed value).isSome

-- An observation is reported superseded for one of these reasons, and for no other.
def markedSuperseded (host : Host) (row : Observation) : Bool :=
  (truthy row.temporal.invalidatedAt).isSome || cued [noLongerCue, japaneseNoLonger] (observationTemporalText host row)

def temporalState (host : Host) (now : String) (asOf : Option String) (supersededIds : List String)
    (row : Observation) : State :=
  let text := observationTemporalText host row
  let expired := match host.parseDate ((truthy asOf).getD now), row.temporal.validTo.filter (fun s => trim s ≠ "") with
    | some asOfMs, some validTo => (host.parseDate validTo).any (fun validToMs => validToMs ≤ asOfMs)
    | _, _ => false
  if (row.id ≠ "" && supersededIds.contains row.id) || markedSuperseded host row then .superseded
  else if expired then .historical
  else if cued [currentCue, japaneseCurrent, stillCue, japaneseStill] text then .current
  else if cued [previousCue, japanesePrevious, firstCue, beforeCue, afterCue] text || dated row.temporal.eventTime ||
    dated row.temporal.validFrom then .historical
  else .unknown

-- The targets of `supersedes` links among the given observations.
def loadSupersededObservationIds (db : Db) (ids : List String) : List String :=
  ((db.links.filter (fun link => link.relation = "supersedes" && ids.contains link.toId)).map Link.toId).filter
    (fun id => id ≠ "")

theorem supersededState {host : Host} {now : String} {asOf : Option String} {supersededIds : List String}
    {row : Observation} : temporalState host now asOf supersededIds row = .superseded ↔
      row.id ≠ "" ∧ row.id ∈ supersededIds ∨ markedSuperseded host row = true := by
  unfold temporalState
  extract_lets text expired
  by_cases marked : ((row.id ≠ "" && supersededIds.contains row.id) || markedSuperseded host row) = true
  · rw [if_pos marked]
    simpa using marked
  · rw [if_neg marked]
    have other : ∀ (a b c : Bool), (if a then State.historical else if b then .current else if c then .historical
        else .unknown) ≠ .superseded := by decide
    refine iff_of_false (other _ _ _) (fun named => marked ?_)
    simpa using named

end HarnessMem.TemporalState
