import Tide.Data.Json
import Tide.Data.Yaml
import Tide.Session.Report
import Tide.Token.Scan
import Tide.Tree.Outline

/-!
# Listings

What is shown of a source without running it: its tokens in columns or as data, and its tree as
data. Diagnostics are part of the data.
-/
namespace Tide

namespace Listing

/-- Filled up with blanks to a number of characters. -/
def padded (width : Nat) (s : Bytes) : Bytes :=
  s ++ List.replicate (width - Utf8.count s) ' '.toUInt8

def tokenLine (t : Token) : Bytes :=
  padded 12 t.kind.render ++ utf8 " " ++ padded 20 t.lexeme ++ utf8 " " ++ t.span.start.render ++
    utf8 "\n"

def tokenLines (tokens : List Token) : Bytes := tokens.flatMap tokenLine

def token (t : Token) : Datum :=
  .record [("kind", .text t.kind.render), ("lexeme", .text t.lexeme),
    ("line", .int t.span.start.line), ("column", .int t.span.start.column),
    ("offset", .int t.span.start.offset)]

def diagnostics (ds : List Diagnostic) : Datum := .list (ds.map Diagnostic.outline)

def tokens (tokens : List Token) (ds : List Diagnostic) : Datum :=
  .record [("diagnostics", diagnostics ds), ("tokens", .list (tokens.map token))]

/-- A tree, or null for a source that has none. -/
def tree (program : Option Node) (ds : List Diagnostic) : Datum :=
  .record [("ast", (program.map Node.outline).getD .null), ("diagnostics", diagnostics ds)]

end Listing
end Tide
