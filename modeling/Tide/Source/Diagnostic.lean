import Tide.Source.Span

/-!
# Diagnostics

What scanning and parsing have to say about a source: a stable code, a wording, the place, and
sometimes a hint. The first error ends the work; warnings are gathered beside it.
-/
namespace Tide

inductive Severity where
  | error
  | warning
deriving DecidableEq, Repr, Inhabited

namespace Severity

def name : Severity → String
  | .error => "error"
  | .warning => "warning"

def ofIndex? : Int → Option Severity
  | 0 => some .error
  | 1 => some .warning
  | _ => none

/-- The name a numbered severity goes by, known or not. -/
def nameOfIndex (index : Int) : String := (ofIndex? index).elim "unknown" name

end Severity

structure Diagnostic where
  code : String
  severity : Severity
  text : Bytes
  span : Span
  /-- Empty when there is nothing to add. -/
  hint : Bytes := []
deriving DecidableEq, Repr, Inhabited

namespace Diagnostic

def hintSuffix (d : Diagnostic) : Bytes :=
  if d.hint = [] then [] else utf8 " (hint: " ++ d.hint ++ utf8 ")"

def render (d : Diagnostic) : Bytes :=
  utf8 "[" ++ utf8 d.code ++ utf8 "] " ++ utf8 d.severity.name ++ utf8 " at " ++
    d.span.start.render ++ utf8 ": " ++ d.text ++ d.hintSuffix

end Diagnostic
end Tide
