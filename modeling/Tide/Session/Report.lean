import Tide.Data.Datum
import Tide.Eval.Machine
import Tide.Source.Diagnostic
import Tide.Tree.Outline

/-!
# Reporting trouble

One line per problem: the name of the source, then the message, in colour when colours are wanted.
Warnings are yellow and errors red, and what a program raised itself stands out in bold.
-/
namespace Tide

/-- Everything that can go wrong on the way from a source to its value. -/
inductive Trouble where
  | diagnostic (d : Diagnostic)
  | raised (message : Bytes) (span : Span)
  | runtime (text : Bytes) (span : Span)
  | plain (text : Bytes)

def Failure.trouble : Failure → Trouble
  | .runtime fault span => .runtime fault.text span
  | .raised message span => .raised message span
  | .exhausted => .plain Failure.exhausted.text

namespace Paint

def reset : Bytes := utf8 "\x1b[0m"
def red : Bytes := utf8 "\x1b[31m"
def green : Bytes := utf8 "\x1b[32m"
def yellow : Bytes := utf8 "\x1b[33m"
def cyan : Bytes := utf8 "\x1b[36m"
def bold : Bytes := utf8 "\x1b[1m"

def apply (color : Bool) (paint text : Bytes) : Bytes :=
  if color then paint ++ text ++ reset else text

end Paint

namespace Report

def line (source message : Bytes) : Bytes := source ++ utf8 ": " ++ message ++ utf8 "\n"

def severityPaint : Severity → Bytes
  | .error => Paint.red
  | .warning => Paint.yellow

def diagnostic (color : Bool) (source : Bytes) (d : Diagnostic) : Bytes :=
  line source (Paint.apply color (severityPaint d.severity) d.render)

def diagnostics (color : Bool) (source : Bytes) (ds : List Diagnostic) : Bytes :=
  ds.flatMap (diagnostic color source)

def trouble (color : Bool) (source : Bytes) : Trouble → Bytes
  | .diagnostic d => diagnostic color source d
  | .raised message span =>
    line source (Paint.apply color (Paint.bold ++ Paint.red)
      (utf8 "raised at " ++ span.start.render ++ utf8 ": " ++ message))
  | .runtime text span =>
    line source (Paint.apply color Paint.red
      (utf8 "runtime error at " ++ span.start.render ++ utf8 ": " ++ text))
  | .plain text => line source (Paint.apply color Paint.red text)

end Report

/-- A diagnostic as data, without the hint if it has none. -/
def Diagnostic.outline (d : Diagnostic) : Datum :=
  let hint := if d.hint = [] then [] else [("hint", .text d.hint)]
  .record ([("code", .text (utf8 d.code)), ("column", .int d.span.start.column)] ++ hint ++
    [("line", .int d.span.start.line), ("message", .text d.text),
     ("offset", .int d.span.start.offset), ("severity", .text (utf8 d.severity.name))])

end Tide
