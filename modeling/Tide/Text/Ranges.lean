/-!
# Character classes as ranges

A class of code points is a list of closed ranges in increasing order. Membership stops at the
first range that begins behind the code point, so the order matters for the answer and not only
for speed.
-/
namespace Tide

abbrev Ranges := List (Nat × Nat)

def Ranges.has : Ranges → Nat → Bool
  | [], _ => false
  | (low, high) :: rest, n => if n < low then false else n ≤ high || Ranges.has rest n

end Tide
