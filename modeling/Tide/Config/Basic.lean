import Tide.Config.Document
import Tide.Data.Plain
import Tide.Text.Path
import Tide.Text.Quoted

/-!
# Settings

A settings file has a section for sessions and one for runs. What a file leaves out keeps its
default. Everything in it that is not a known setting of the right kind is collected, in the order
of the file, before the file is refused; only a file without such mistakes is looked at for values
that make no sense.
-/
namespace Tide

inductive ColorMode where
  | auto
  | always
  | never
deriving DecidableEq, Repr, Inhabited

namespace ColorMode

def name : ColorMode → String
  | .auto => "auto"
  | .always => "always"
  | .never => "never"

def ofName? (s : Bytes) : Option ColorMode :=
  [ColorMode.auto, .always, .never].find? fun mode => utf8 mode.name == s

end ColorMode

structure Config where
  /-- The file it came from, and empty for the defaults. -/
  path : Bytes
  prompt : Bytes
  historyFile : Bytes
  color : ColorMode
  printResult : Bool

namespace Config

/-- Settings as a file spells them, before they are checked. -/
structure Draft where
  prompt : Bytes
  historyFile : Bytes
  color : Bytes
  printResult : Bool

def Draft.default : Draft where
  prompt := utf8 "tide> "
  historyFile := utf8 "~/.tide_history"
  color := utf8 ColorMode.auto.name
  printResult := true

def default : Config where
  path := []
  prompt := Draft.default.prompt
  historyFile := Draft.default.historyFile
  color := .auto
  printResult := Draft.default.printResult

/-! ### From a document to a draft -/

inductive ShapeFault where
  | unknownField (line : Nat) (name : Bytes) (type : String)
  /-- The text is left out for lists and maps. -/
  | mismatch (line : Nat) (tag : String) (text : Option Bytes) (type : String)
  | duplicateKey (line : Nat) (name : Bytes) (first : Nat)
deriving DecidableEq, Repr

namespace ShapeFault

/-- Long texts are cut down to their beginning. -/
def abridged (text : Bytes) : Bytes :=
  if text.length > 10 then text.take 7 ++ utf8 "..." else text

def text : ShapeFault → Bytes
  | .unknownField line name type =>
    utf8 "line " ++ Bytes.ofNat line ++ utf8 ": field " ++ name ++ utf8 " not found in type " ++
      utf8 type
  | .mismatch line tag text type =>
    utf8 "line " ++ Bytes.ofNat line ++ utf8 ": cannot unmarshal " ++ utf8 tag ++
      (text.map fun t => utf8 " \x60" ++ abridged t ++ utf8 "\x60").getD [] ++ utf8 " into " ++
      utf8 type
  | .duplicateKey line name first =>
    utf8 "line " ++ Bytes.ofNat line ++ utf8 ": mapping key " ++ quoteText name ++
      utf8 " already defined at line " ++ Bytes.ofNat first

end ShapeFault

/-- A change to the draft together with the faults met on the way. -/
abbrev Decode := Draft → Draft × List ShapeFault

def Decode.skip : Decode := fun draft => (draft, [])

def Decode.refuse (faults : List ShapeFault) : Decode := fun draft => (draft, faults)

def Decode.andThen (first second : Decode) : Decode := fun draft =>
  let (draft, before) := first draft
  let (draft, behind) := second draft
  (draft, before ++ behind)

/-- What a word is taken for; quotes make it a string. -/
def wordTag (text : Bytes) (bare : Bool) : PlainTag := if bare then Plain.tag text else .str

def mismatchWord (line : Nat) (text : Bytes) (bare : Bool) (type : String) : Decode :=
  .refuse [.mismatch line (wordTag text bare).name (some text) type]

def keyText : Setting → Bytes
  | .word _ text _ => text
  | _ => []

def sameShape : Setting → Setting → Bool
  | .word .., .word .. => true
  | .list .., .list .. => true
  | .map .., .map .. => true
  | _, _ => false

def duplicates : List Setting → List ShapeFault
  | [] => []
  | key :: rest =>
    (rest.filter fun other => sameShape key other && keyText key = keyText other).map
      (fun other => .duplicateKey other.line (keyText other) key.line) ++ duplicates rest

/-- A map is refused for its repeated keys before anything else is asked of it. -/
def withMap (entries : List (Setting × Setting)) (decode : Decode) : Decode :=
  match duplicates (entries.map (·.1)) with
  | [] => decode
  | faults => .refuse faults

def stringField (type : String) (store : Bytes → Draft → Draft) : Setting → Decode
  | .word _ text bare =>
    if wordTag text bare = .null then .skip else fun draft => (store text draft, [])
  | .list line _ => .refuse [.mismatch line "!!seq" none type]
  | .map line entries => withMap entries (.refuse [.mismatch line "!!map" none type])

/-- Truth values, in the words of older files as well. -/
def boolOf? (text : Bytes) (bare : Bool) : Option Bool :=
  match wordTag text bare with
  | .bool => some (Plain.isTrue text)
  | .str =>
    if Plain.isOldTrue text then some true
    else if Plain.isOldFalse text then some false
    else none
  | _ => none

def boolField (store : Bool → Draft → Draft) : Setting → Decode
  | .word line text bare =>
    if wordTag text bare = .null then .skip
    else match boolOf? text bare with
      | some b => fun draft => (store b draft, [])
      | none => mismatchWord line text bare "bool"
  | .list line _ => .refuse [.mismatch line "!!seq" none "bool"]
  | .map line entries => withMap entries (.refuse [.mismatch line "!!map" none "bool"])

/-- An entry is decoded by the field of its name; an empty key is passed over. -/
def entry (type : String) (fields : List (String × (Setting → Decode))) :
    Setting × Setting → Decode
  | (.word line name bare, value) =>
    if wordTag name bare = .null then .skip
    else match fields.find? fun (field, _) => utf8 field == name with
      | some (_, decode) => decode value
      | none => .refuse [.unknownField line name type]
  | (.list line _, _) => .refuse [.mismatch line "!!seq" none "string"]
  | (.map line entries, _) =>
    withMap entries (.refuse [.mismatch line "!!map" none "string"])

def record (type : String) (fields : List (String × (Setting → Decode))) : Setting → Decode
  | .word line text bare =>
    if wordTag text bare = .null then .skip else mismatchWord line text bare type
  | .list line _ => .refuse [.mismatch line "!!seq" none type]
  | .map _ entries =>
    withMap entries (entries.foldl (fun d e => d.andThen (entry type fields e)) .skip)

def sessionSection : Setting → Decode :=
  record "config.ReplConfig"
    [("prompt", stringField "string" fun s d => { d with prompt := s }),
     ("history_file", stringField "string" fun s d => { d with historyFile := s }),
     ("color", stringField "config.ColorMode" fun s d => { d with color := s })]

def runSection : Setting → Decode :=
  record "config.RunConfig" [("print_result", boolField fun b d => { d with printResult := b })]

def document : Setting → Decode :=
  record "config.Config" [("repl", sessionSection), ("run", runSection)]

/-! ### Checking a draft -/

inductive Issue where
  | badColor (color : Bytes)
  | emptyPrompt
deriving DecidableEq, Repr

def Issue.text : Issue → Bytes
  | .badColor color =>
    utf8 "repl.color must be auto, always or never, got " ++ quoteText color
  | .emptyPrompt => utf8 "repl.prompt must not be empty"

inductive Fault where
  | unreadable
  | misshapen (faults : List ShapeFault)
  | invalid (issues : List Issue)
deriving DecidableEq, Repr

/-- What a refused file is reported as. -/
def Fault.text (path : Bytes) : Fault → Bytes
  | .unreadable => utf8 "config: parse " ++ path ++ utf8 ": yaml: unreadable"
  | .misshapen faults =>
    utf8 "config: parse " ++ path ++ utf8 ": yaml: unmarshal errors:" ++
      faults.flatMap fun fault => utf8 "\n  " ++ fault.text
  | .invalid issues =>
    utf8 "config: " ++ path ++ utf8 " is invalid:" ++
      issues.flatMap fun issue => utf8 "\n- " ++ issue.text

def Draft.check (draft : Draft) (path : Bytes) : Except Fault Config :=
  let noPrompt := if draft.prompt = [] then [Issue.emptyPrompt] else []
  match ColorMode.ofName? draft.color, noPrompt with
  | some color, [] =>
    .ok ⟨path, draft.prompt, draft.historyFile, color, draft.printResult⟩
  | some _, issues => .error (.invalid issues)
  | none, issues => .error (.invalid (.badColor draft.color :: issues))

def decode (path content : Bytes) : Except Fault Config :=
  match Document.read? content with
  | none => .error .unreadable
  | some setting =>
    match document setting Draft.default with
    | (draft, []) => draft.check path
    | (_, faults) => .error (.misshapen faults)

/-! ### Using settings -/

/-- The file that keeps what was typed, with a leading `~` standing for the home directory; no
file when there is no home. -/
def historyPath (config : Config) (home : Bytes) : Bytes :=
  let path := config.historyFile
  if path = utf8 "~" ∨ (utf8 "~/").isPrefixOf path then
    if home = [] then [] else Path.join [home, path.drop 1]
  else path

def useColor (config : Config) (terminal : Bool) : Bool :=
  match config.color with
  | .always => true
  | .never => false
  | .auto => terminal

end Config
end Tide
