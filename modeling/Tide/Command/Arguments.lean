import Tide.Text.Bytes

/-!
# Arguments

The settings file may be named anywhere among the arguments, as two words or as one; the last name
counts. What remains is a command, a file and flags.
-/
namespace Tide

structure Arguments where
  words : List Bytes
  /-- The settings file, and empty if none is named. -/
  config : Bytes
deriving DecidableEq, Repr

namespace Arguments

def configFlag : Bytes := utf8 "--config"

/-- The name in a flag of one word, which must not be empty. -/
def configValue? (word : Bytes) : Option Bytes :=
  match (configFlag ++ utf8 "=").isPrefixOf? word with
  | some [] => none
  | found => found

/-- Nothing, if the last word announces a settings file. -/
def splitFrom (config : Bytes) : List Bytes → Option Arguments
  | [] => some ⟨[], config⟩
  | word :: rest =>
    if word = configFlag then
      match rest with
      | [] => none
      | path :: rest => splitFrom path rest
    else
      match configValue? word with
      | some path => splitFrom path rest
      | none => (splitFrom config rest).map fun args => { args with words := word :: args.words }

def split? (words : List Bytes) : Option Arguments := splitFrom [] words

def hasFlag (words : List Bytes) (flag : String) : Bool := words.contains (utf8 flag)

end Arguments
end Tide
