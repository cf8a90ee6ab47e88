import Tide.Text.Path

/-!
# The surroundings of a command

A command sees files, a standard input and two directories, and nothing else. It is written over
any such host, so that the same text runs on a disk and on files that are held in memory.
-/
namespace Tide

/-- Why a file cannot be read. -/
inductive FileFault where
  | missing
  /-- A step of the path leads through something that is no directory. -/
  | notDirectory
  | isDirectory
  | other (reason : Bytes)
deriving DecidableEq, Repr

namespace FileFault

/-- A directory can be opened and only then turns out to be unreadable. -/
def text (path : Bytes) : FileFault → Bytes
  | .missing => utf8 "open " ++ path ++ utf8 ": no such file or directory"
  | .notDirectory => utf8 "open " ++ path ++ utf8 ": not a directory"
  | .isDirectory => utf8 "read " ++ path ++ utf8 ": is a directory"
  | .other reason => utf8 "open " ++ path ++ utf8 ": " ++ reason

/-- Whether there is nothing at all under the path. -/
def isAbsence : FileFault → Bool
  | .missing | .notDirectory => true
  | _ => false

end FileFault

structure Host (m : Type → Type) where
  /-- The working directory, if it is known. -/
  directory : Option Bytes
  /-- Where a user keeps the settings of all programs, if there is such a place. -/
  settings : Option Bytes
  read : Bytes → m (Except FileFault Bytes)
  input : m Bytes

/-- Where a user keeps settings: the place that is set aside for them, which has to be a rooted
path, or else a part of the home directory. -/
def Host.settingsPlace (place home : Bytes) : Option Bytes :=
  if place ≠ [] then if Path.isRooted place then some place else none
  else if home ≠ [] then some (home ++ utf8 "/.config")
  else none

end Tide
