import HarnessMem.Text

/-! The nugget splitter: a text is cut into sentences and the sentences are grouped, at most
three together and at most 500 characters long; nuggets under 20 characters are dropped. -/
namespace HarnessMem.Nuggets
open Js Regex Text

def minNuggetChars : Nat := 20
def maxNuggetChars : Nat := 500
def sentencesPerNugget : Nat := 3

structure Nugget where
  seq : Nat
  content : String
  contentHash : String
  deriving DecidableEq, Repr

def cjk (c : Char) : Bool :=
  (0x3040 ≤ c.toNat && c.toNat ≤ 0x30FF) || (0x3400 ≤ c.toNat && c.toNat ≤ 0x9FFF)
-- /(?<=[。！？])\s*|(?<=[.!?])\s+(?=[A-Z\u3040-\u30ff\u3400-\u9fff])/
def sentenceEnd : Re :=
  .alt (.seq (.behind (inSet "。！？")) (star space))
    (chain [.behind (inSet ".!?"), plus space, .ahead (.set (fun c => c.isUpper || cjk c))])

def splitIntoSentences (text : String) : List String :=
  (split (atLeast 2 (char '\n')) text).flatMap (fun paragraph =>
    if trim paragraph = "" then []
    else ((split sentenceEnd (trim paragraph)).map trim).filter (fun s => s ≠ ""))

structure Buffer where
  nuggets : List String
  buffer : List String
  bufferLength : Nat

def flush (b : Buffer) : Buffer :=
  if b.buffer = [] then b
  else
    let joined := trim (" ".intercalate b.buffer)
    ⟨if minNuggetChars ≤ length joined then b.nuggets ++ [joined] else b.nuggets, [], 0⟩

-- A sentence that is too long by itself is cut at every 500th character.
def chunks : Nat → String → List String
  | 0, _ => []
  | n + 1, sentence =>
    if sentence = "" then []
    else
      let chunk := trim (slice sentence 0 maxNuggetChars)
      (if minNuggetChars ≤ length chunk then [chunk] else []) ++
        chunks n (slice sentence maxNuggetChars (length sentence))

def addSentence (b : Buffer) (sentence : String) : Buffer :=
  if maxNuggetChars < length sentence then
    let flushed := flush b
    {flushed with nuggets := flushed.nuggets ++ chunks (length sentence) sentence}
  else
    let room := if maxNuggetChars < b.bufferLength + length sentence + 1 ∧ b.buffer ≠ [] then flush b else b
    let grown : Buffer := ⟨room.nuggets, room.buffer ++ [sentence], room.bufferLength + length sentence + 1⟩
    if sentencesPerNugget ≤ grown.buffer.length then flush grown else grown

def groupSentencesIntoNuggets (sentences : List String) : List String :=
  (flush (sentences.foldl addSentence ⟨[], [], 0⟩)).nuggets

-- A text whose hash has been seen is dropped; the others are numbered as they come.
def splitIntoNuggets (host : Host) (content : String) : List Nugget :=
  if content = "" ∨ length (trim content) < minNuggetChars then []
  else (groupSentencesIntoNuggets (splitIntoSentences content)).foldl (fun result text =>
    let hash := host.sha256 text
    if result.any (fun nugget => nugget.contentHash = hash) then result
    else result ++ [⟨result.length, text, hash⟩]) []

end HarnessMem.Nuggets
