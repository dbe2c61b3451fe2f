import HarnessMem.Js

/-! JSON values as `JSON.parse` builds them and as `JSON.stringify` prints them. A number is
the text `JSON.stringify` prints for it; an object lists its entries in enumeration order. -/
namespace HarnessMem

inductive Json where
  | null
  | bool (value : Bool)
  | num (text : String)
  | str (value : String)
  | arr (items : List Json)
  | obj (entries : List (String × Json))

namespace Json

def hex (n : Nat) : Char := if n < 10 then Char.ofNat (48 + n) else Char.ofNat (87 + n)

def escapeChar (c : Char) : List Char :=
  if c = '"' then ['\\','"']
  else if c = '\\' then ['\\','\\']
  else if c = '\n' then ['\\','n']
  else if c = '\r' then ['\\','r']
  else if c = '\t' then ['\\','t']
  else if c.toNat = 8 then ['\\','b']
  else if c.toNat = 12 then ['\\','f']
  else if c.toNat < 32 then ['\\','u','0','0',hex (c.toNat / 16),hex (c.toNat % 16)]
  else [c]

def quote (s : String) : List Char := ['"'] ++ s.toList.flatMap escapeChar ++ ['"']

mutual
def print : Json → List Char
  | .null => ['n','u','l','l']
  | .bool true => ['t','r','u','e']
  | .bool false => ['f','a','l','s','e']
  | .num text => text.toList
  | .str value => quote value
  | .arr items => ['['] ++ printItems items ++ [']']
  | .obj entries => ['{'] ++ printEntries entries ++ ['}']
def printItems : List Json → List Char
  | [] => []
  | [item] => print item
  | item :: rest => print item ++ [','] ++ printItems rest
def printEntries : List (String × Json) → List Char
  | [] => []
  | [(key, value)] => quote key ++ [':'] ++ print value
  | (key, value) :: rest => quote key ++ [':'] ++ print value ++ [','] ++ printEntries rest
end

def stringify (value : Json) : String := String.ofList (print value)

def get (entries : List (String × Json)) (key : String) : Option Json :=
  (entries.find? (fun entry => entry.1 = key)).map Prod.snd

def text? : Option Json → Option String
  | some (.str value) => some value
  | _ => none

-- `{ ...entries, key: value }`: an existing key keeps its place.
def put (entries : List (String × Json)) (key : String) (value : Json) : List (String × Json) :=
  if entries.any (fun entry => entry.1 = key) then
    entries.map (fun entry => if entry.1 = key then (key, value) else entry)
  else entries ++ [(key, value)]

example : stringify (.obj [("a", .arr [.num "1", .null]), ("b", .str "x\n\"y\"")]) =
    "\x7b\"a\":[1,null],\"b\":\"x\\n\\\"y\\\"\"\x7d" := by decide

end Json
end HarnessMem
