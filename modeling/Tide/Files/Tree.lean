import Tide.Files.Host
import Tide.Text.Path

/-!
# Files in memory

A tree of files is a list of rooted paths with their contents; its directories are whatever lies
on the way to a file, and the root. A path is followed step by step, so leading through a file is a
different mistake from leading nowhere.
-/
namespace Tide

structure FileTree where
  /-- Steps from the root to a file, and what the file holds. -/
  files : List (List Bytes × Bytes)

namespace FileTree

/-- Where a path has led so far. -/
inductive Place where
  | directory (steps : List Bytes)
  | file (content : Bytes)
deriving DecidableEq, Repr

/-- What stands at the end of the given steps. -/
def place (tree : FileTree) (steps : List Bytes) : Except FileFault Place :=
  match tree.files.lookup steps with
  | some content => .ok (.file content)
  | none =>
    if steps = [] ∨ tree.files.any (fun (path, _) => steps.isPrefixOf path) then
      .ok (.directory steps)
    else .error .missing

/-- One step further. The root is its own parent. -/
def enter (tree : FileTree) : Place → Bytes → Except FileFault Place
  | .file _, _ => .error .notDirectory
  | .directory steps, name =>
    if name = [] ∨ name = Path.dot then .ok (.directory steps)
    else if name = Path.dotDot then .ok (.directory steps.dropLast)
    else tree.place (steps ++ [name])

/-- Follows a path from the directory at the end of `base`. -/
def follow (tree : FileTree) (base : List Bytes) (path : Bytes) : Except FileFault Place :=
  if path = [] then .error .missing
  else
    let start := if Path.isRooted path then [] else base
    (Path.splitOn Path.slash path).foldlM tree.enter (.directory start)

def read (tree : FileTree) (base : List Bytes) (path : Bytes) : Except FileFault Bytes :=
  match tree.follow base path with
  | .ok (.file content) => .ok content
  | .ok (.directory _) => .error .isDirectory
  | .error fault => .error fault

/-- Files below a working directory, under the names that they have there. -/
def below (directory : Bytes) (files : List (Bytes × Bytes)) : FileTree :=
  ⟨files.map fun (path, content) => (Path.elements directory ++ Path.elements path, content)⟩

/-- A host with a given working directory, a given place for settings and a given input. -/
def host (tree : FileTree) (directory : Bytes) (settings : Option Bytes) (input : Bytes) :
    Host Id where
  directory := some directory
  settings
  read path := tree.read (Path.elements directory) path
  input := input

end FileTree
end Tide
