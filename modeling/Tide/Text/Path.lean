import Tide.Text.Bytes

/-!
# File paths

Paths are compared and joined as text. A clean path has no empty and no `.` elements, and `..` only
at the front of a relative path; nothing on disk is asked.
-/
namespace Tide

namespace Path

def slash : UInt8 := '/'.toUInt8

def dot : Bytes := utf8 "."

def dotDot : Bytes := utf8 ".."

def splitOn (separator : UInt8) : Bytes → List Bytes
  | [] => [[]]
  | b :: rest =>
    match splitOn separator rest with
    | [] => [[b]]
    | first :: more => if b = separator then [] :: first :: more else (b :: first) :: more

/-- The named steps of a path, in order. -/
def elements (path : Bytes) : List Bytes :=
  (splitOn slash path).filter fun e => e ≠ [] ∧ e ≠ dot

def isRooted (path : Bytes) : Bool := path.head? = some slash

/-- One more step behind the steps `done`, which are kept last first. -/
def step (rooted : Bool) (done : List Bytes) (element : Bytes) : List Bytes :=
  if element = dotDot then
    match done with
    | [] => if rooted then [] else [dotDot]
    | last :: before => if last = dotDot then dotDot :: done else before
  else element :: done

def clean (path : Bytes) : Bytes :=
  let rooted := isRooted path
  let steps := ((elements path).foldl (step rooted) []).reverse
  let body := Bytes.join [slash] steps
  if rooted then slash :: body else if steps.isEmpty then dot else body

/-- Empty parts are left out, and nothing joined is nothing. -/
def join (parts : List Bytes) : Bytes :=
  let parts := parts.filter (· ≠ [])
  if parts.isEmpty then [] else clean (Bytes.join [slash] parts)

end Path
end Tide
