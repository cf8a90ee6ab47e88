import Tide.Config.Basic
import Tide.Files.Host

/-!
# Finding the settings

A settings file that is named has to be there. One that is not named is looked for in the working
directory and then among the user's settings; the first that exists counts, even if it turns out to
be unusable, and without any the defaults hold.
-/
namespace Tide.Config

inductive LoadFault where
  | file (path : Bytes) (fault : FileFault)
  | content (path : Bytes) (fault : Fault)
deriving DecidableEq, Repr

/-- A directory in the place of the file is noticed only when its content is asked for. -/
def LoadFault.text : LoadFault → Bytes
  | .file path .isDirectory =>
    utf8 "config: parse " ++ path ++ utf8 ": yaml: input error: " ++ FileFault.isDirectory.text path
  | .file path fault => utf8 "config: open " ++ path ++ utf8 ": " ++ fault.text path
  | .content path fault => fault.text path

/-- The settings in a file, given what came of reading it. -/
def load (path : Bytes) : Except FileFault Bytes → Except LoadFault Config
  | .error fault => .error (.file path fault)
  | .ok content => (decode path content).mapError (.content path)

def fileName : Bytes := utf8 "tide.yaml"

/-- Where a settings file is looked for. -/
def candidates {m : Type → Type} (host : Host m) : List Bytes :=
  (host.directory.map fun place => Path.join [place, fileName]).toList ++
    (host.settings.map fun place => Path.join [place, utf8 "tide", fileName]).toList

/-- The settings of the first file that exists. -/
def firstOf {m : Type → Type} [Monad m] (host : Host m) :
    List Bytes → m (Except LoadFault Config)
  | [] => return .ok default
  | path :: rest => do
    match ← host.read path with
    | .ok content => return load path (.ok content)
    | .error fault => if fault.isAbsence then firstOf host rest else return load path (.error fault)

/-- The settings of the named file, or of the one that is found if the name is empty. -/
def obtain {m : Type → Type} [Monad m] (host : Host m) (path : Bytes) :
    m (Except LoadFault Config) := do
  if path = [] then firstOf host (candidates host)
  else return load path (← host.read path)

end Tide.Config
