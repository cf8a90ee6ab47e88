import Tide.Text.Bytes

/-!
# Plain data

What a tree becomes when it is written out for other programs: nothing but scalars, lists and
records. A record keeps its fields in the order in which they are to be written.
-/
namespace Tide

inductive Datum where
  | null
  | bool (b : Bool)
  | int (n : Int)
  | float (x : Float)
  | text (s : Bytes)
  | list (items : List Datum)
  | record (fields : List (String × Datum))

namespace Datum

def get? (d : Datum) (key : String) : Option Datum :=
  match d with
  | .record fields => fields.lookup key
  | _ => none

end Datum
end Tide
