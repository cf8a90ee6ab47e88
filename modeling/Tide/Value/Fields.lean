import Tide.Text.Bytes

/-!
# Fields in order of first appearance

The content of an object: keys with their values, each key once. Setting a key that is present
changes its value where it stands, and a new key goes to the end.
-/
namespace Tide

abbrev Fields (α : Type) := List (Bytes × α)

namespace Fields

variable {α : Type}

def set : Fields α → Bytes → α → Fields α
  | [], key, value => [(key, value)]
  | (k, v) :: rest, key, value =>
    if k = key then (k, value) :: rest else (k, v) :: set rest key value

def get? : Fields α → Bytes → Option α
  | [], _ => none
  | (k, v) :: rest, key => if k = key then some v else get? rest key

def keys (fields : Fields α) : List Bytes := fields.map (·.1)

def ofList (entries : List (Bytes × α)) : Fields α :=
  entries.foldl (fun fields entry => fields.set entry.1 entry.2) []

end Fields
end Tide
