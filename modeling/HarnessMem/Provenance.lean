import HarnessMem.Text

/-! Code provenance of a `tool_use` event: which file its payload names, and what was done
to it. -/
namespace HarnessMem.Provenance
open Js Regex Text

def extToLanguage : List (String × String) :=
  [("ts", "typescript"), ("tsx", "typescript"), ("js", "javascript"), ("jsx", "javascript"),
    ("mjs", "javascript"), ("cjs", "javascript"), ("py", "python"), ("rb", "ruby"), ("rs", "rust"),
    ("go", "go"), ("java", "java"), ("kt", "kotlin"), ("swift", "swift"), ("cs", "csharp"),
    ("cpp", "cpp"), ("cc", "cpp"), ("c", "c"), ("h", "c"), ("hpp", "cpp"), ("php", "php"),
    ("sh", "shell"), ("bash", "shell"), ("zsh", "shell"), ("fish", "shell"), ("sql", "sql"),
    ("css", "css"), ("scss", "scss"), ("sass", "sass"), ("less", "less"), ("html", "html"),
    ("htm", "html"), ("xml", "xml"), ("json", "json"), ("yaml", "yaml"), ("yml", "yaml"),
    ("toml", "toml"), ("md", "markdown"), ("mdx", "markdown"), ("vue", "vue"), ("svelte", "svelte"),
    ("graphql", "graphql"), ("gql", "graphql"), ("proto", "protobuf"), ("tf", "terraform"),
    ("hcl", "hcl"), ("r", "r"), ("jl", "julia"), ("scala", "scala"), ("ex", "elixir"),
    ("exs", "elixir"), ("erl", "erlang"), ("hrl", "erlang"), ("hs", "haskell"), ("lua", "lua"),
    ("dart", "dart"), ("pl", "perl"), ("pm", "perl")]

def inferLanguage (host : Host) (filePath : String) : Option String :=
  if filePath.toList.contains '.' then
    let ext := host.toLowerCase (String.ofList (filePath.toList.reverse.takeWhile (fun c => c ≠ '.')).reverse)
    (extToLanguage.find? (fun entry => entry.1 = ext)).map Prod.snd
  else none

def extractFilePath (payload : List (String × Json)) : Option String :=
  (["file_path", "path", "filePath", "filename", "file"].filterMap
    (fun key => (Json.text? (Json.get payload key)).filter (fun val => trim val ≠ ""))).head?.map trim

def argument : Re := .group 1 (plus (.set (fun c => !isSpace c && notIn "|;&" c)))
-- /(?:touch|mkdir)\s+([^\s|;&]+)|(?:tee|>\s*)([^\s|;&]+)/
def createCmd : Re :=
  .alt (chain [words ["touch", "mkdir"], plus space, argument])
    (chain [.alt (word "tee") (.seq (char '>') (star space)), argument])
-- /rm\s+(?:-[a-zA-Z]*\s+)*([^\s|;&]+)/
def deleteCmd : Re :=
  chain [word "rm", plus space, star (chain [char '-', star (.set Char.isAlpha), plus space]), argument]
def readCmd : Re := chain [words ["cat", "less", "more", "head", "tail"], plus space, argument]
def filePath : Re := chain
  [.alt .start space,
    .group 1 (chain [opt (.alt (.alt (word "../") (word "./")) (char '/')),
      plus (.set (fun c => isWord c || inSet "./-" c)), char '.',
      words ["ts", "js", "tsx", "jsx", "py", "rb", "rs", "go", "java", "sh", "sql", "json", "yaml", "yml",
        "toml", "md", "html", "css", "txt", "log", "conf", "env"]]), .boundary]
def line : Re := .set (fun c => c ≠ '\n' && c ≠ '\r' && c.toNat ≠ 0x2028 && c.toNat ≠ 0x2029)
def writeWords : Re :=
  oneOf [word "write", chain [word "sed", plus space, word "-i"],
    chain [word "awk", star line, char '>', star space], chain [word "echo", star line, char '>'],
    chain [word "printf", star line, char '>']]

def group1 (re : Re) (command : String) : Option String := (exec re command).bind (fun m => capture 1 m.2)

def extractFromBashCommand (command : String) : Option (String × String) :=
  match (group1 deleteCmd command).filter (fun path => !path.startsWith "-") with
  | some path => some (path, "delete")
  | none =>
    match group1 createCmd command with
    | some path => some (path, "create")
    | none =>
      match group1 readCmd command with
      | some path => some (path, "read")
      | none =>
        (group1 filePath command).map (fun path => (path, if test writeWords command then "edit" else "read"))

structure CodeProvenance where
  filePath : String
  action : String
  modelId : Option String
  language : Option String

def CodeProvenance.toJson (p : CodeProvenance) : Json :=
  .obj ([("file_path", .str p.filePath), ("action", .str p.action)] ++
    (p.modelId.map (fun id => ("model_id", Json.str id))).toList ++
    (p.language.map (fun name => ("language", Json.str name))).toList)

def extractCodeProvenance (host : Host) (payload : List (String × Json)) : Option CodeProvenance :=
  let modelId := Json.text? (Json.get payload "model_id")
  let named := fun action => (extractFilePath payload).map
    (fun path => (⟨path, action, modelId, inferLanguage host path⟩ : CodeProvenance))
  match Json.text? (Json.get payload "tool_name") with
  | some "Write" => named "create"
  | some "Edit" => named "edit"
  | some "Read" => named "read"
  | some "Bash" =>
    let command := (Json.text? (Json.get payload "command")).orElse
      (fun _ => Json.text? (Json.get payload "cmd"))
    match command.filter (fun c => c ≠ "") with
    | none => none
    | some command => (extractFromBashCommand command).map
        (fun found => ⟨found.1, found.2, modelId, inferLanguage host found.1⟩)
  | _ =>
    if (Json.get payload "old_string").isSome ∨ (Json.get payload "new_string").isSome then
      (named "edit").orElse (fun _ => named "read")
    else named "read"

end HarnessMem.Provenance
