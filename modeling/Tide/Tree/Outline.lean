import Tide.Data.Datum
import Tide.Tree.Node

/-!
# Trees as plain data

Every node becomes a record that names its kind and its span and holds its parts, with the fields
in alphabetical order. What a node leaves out is left out of the record: an initialiser, the value
of a shorthand property, the body behind the last `else`. Any other absent child is written as
null.
-/
namespace Tide

def Position.outline (p : Position) : Datum :=
  .record [("column", .int p.column), ("line", .int p.line), ("offset", .int p.offset)]

def Span.outline (s : Span) : Datum :=
  .record [("end", s.stop.outline), ("start", s.start.outline)]

def Family.kindName : Family → String
  | .arithmetic => "BinaryExpr"
  | .comparison => "BooleanExpr"
  | .logical => "ConditionalExpr"

def outlineNames (names : List Bytes) : Datum := .list (names.map .text)

def kindField (name : String) : String × Datum := ("kind", .text (utf8 name))

def spanField (span : Span) : String × Datum := ("span", span.outline)

mutual

def Node.outline : Node → Datum
  | .missing => .null
  | .program span body =>
    .record [("body", .list (outlineAll body)), kindField "Program", spanField span]
  | .declare span name constant value =>
    .record ([("constant", .bool constant), kindField "VarDecl", ("name", .text name),
      spanField span] ++ (if value.isMissing then [] else [("value", value.outline)]))
  | .function span name params body =>
    .record [("body", .list (outlineAll body)), kindField "FuncDecl", ("name", .text name),
      ("params", outlineNames params), spanField span]
  | .lambda span params body =>
    .record [("body", body.outline), kindField "LambdaDecl", ("params", outlineNames params),
      spanField span]
  | .choice span branches otherwise =>
    .record ([("branches", .list (outlineBranches branches))] ++ outlineElse otherwise ++
      [kindField "IfExpr", spanField span])
  | .ret span value =>
    .record [kindField "ReturnExpr", spanField span, ("value", value.outline)]
  | .del span name => .record [kindField "DelExpr", ("name", .text name), spanField span]
  | .raise span message =>
    .record [kindField "RaiseExpr", ("message", .text message), spanField span]
  | .assign span target value =>
    .record [kindField "AssignExpr", spanField span, ("target", target.outline),
      ("value", value.outline)]
  | .member span object property computed =>
    .record [("computed", .bool computed), kindField "MemberExpr", ("object", object.outline),
      ("property", property.outline), spanField span]
  | .call span callee arguments =>
    .record [("args", .list (outlineAll arguments)), ("callee", callee.outline),
      kindField "CallExpr", spanField span]
  | .operation span family operator left right =>
    .record [kindField family.kindName, ("left", left.outline), ("op", .text operator.render),
      ("right", right.outline), spanField span]
  | .name span name => .record [kindField "Ident", ("name", .text name), spanField span]
  | .number span value width =>
    .record [kindField "NumberLit", ("len", .int width), spanField span, ("value", .float value)]
  | .text span value length =>
    .record [kindField "StringLit", ("len", .int length), spanField span, ("value", .text value)]
  | .array span elements =>
    .record [("elements", .list (outlineAll elements)), kindField "ArrayLit", spanField span]
  | .object span properties =>
    .record [kindField "ObjectLit", ("properties", .list (outlineProperties properties)),
      spanField span]
  | .null span => .record [kindField "NullLit", spanField span]
  | .unknown _ => .record [kindField "Unknown"]

def outlineAll : List Node → List Datum
  | [] => []
  | node :: rest => node.outline :: outlineAll rest

def outlineBranches : List Branch → List Datum
  | [] => []
  | .mk span condition body :: rest =>
    .record [("body", .list (outlineAll body)), ("condition", condition.outline),
      kindField "IfBranch", spanField span] :: outlineBranches rest

def outlineElse : Option (List Node) → List (String × Datum)
  | none => []
  | some body => [("else", .list (outlineAll body))]

def outlineProperties : List Property → List Datum
  | [] => []
  | .mk span key value :: rest =>
    .record ([("key", .text key), kindField "Property", spanField span] ++
      (if value.isMissing then [] else [("value", value.outline)])) :: outlineProperties rest

end

end Tide
