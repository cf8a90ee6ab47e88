import Tide.Value.Basic

/-!
# Scopes

All scopes of a run live in one store and are known by their index in it. A scope is created
behind its parent, so following parents always leads to a smaller index and ends. A name is
resolved by the nearest scope on that way that binds it; assignment and deletion act on that
scope, declaration only ever on the scope at hand.

A scope keeps the values of its names and the names that are constant in two maps of their own.
Nothing but the changes themselves keeps the two in step: a declaration adds a marker or leaves the
markers alone, and a deletion takes the name out of both maps.
-/
namespace Tide

structure Binding where
  name : Bytes
  value : Value

structure Scope where
  parent : Option ScopeId
  bindings : List Binding
  /-- The names that are marked constant. -/
  constants : List Bytes
deriving Inhabited

namespace Scope

def find? (scope : Scope) (name : Bytes) : Option Binding :=
  scope.bindings.find? (·.name = name)

def binds (scope : Scope) (name : Bytes) : Bool := (scope.find? name).isSome

/-- Whether the name is marked constant. -/
def marks (scope : Scope) (name : Bytes) : Bool := name ∈ scope.constants

/-- A name that is not constant is not unmarked. -/
def declare (scope : Scope) (name : Bytes) (value : Value) (constant : Bool) : Scope :=
  { scope with
    bindings := scope.bindings ++ [⟨name, value⟩]
    constants := if constant then scope.constants.insert name else scope.constants }

def assign (scope : Scope) (name : Bytes) (value : Value) : Scope :=
  { scope with
    bindings := scope.bindings.map fun b => if b.name = name then { b with value } else b }

def delete (scope : Scope) (name : Bytes) : Scope :=
  { scope with
    bindings := scope.bindings.filter (·.name ≠ name)
    constants := scope.constants.filter (· ≠ name) }

def names (scope : Scope) : List Bytes := Bytes.sort (scope.bindings.map (·.name))

end Scope

inductive ScopeFault where
  | undefined (name : Bytes)
  | constant (name : Bytes)
  | redeclared (name : Bytes)
deriving DecidableEq, Repr

def ScopeFault.text : ScopeFault → Bytes
  | .undefined name => utf8 "undefined identifier " ++ Bytes.quoted name
  | .constant name => utf8 "cannot assign to constant " ++ Bytes.quoted name
  | .redeclared name => Bytes.quoted name ++ utf8 " already declared in this scope"

structure Store where
  scopes : Array Scope

namespace Store

/-- The scope that programs run in comes first and has no parent. -/
def globalScope : ScopeId := 0

def empty : Store := ⟨#[⟨none, [], []⟩]⟩

def scope? (store : Store) (s : ScopeId) : Option Scope := store.scopes[s]?

def parent? (store : Store) (s : ScopeId) : Option ScopeId := (store.scope? s).bind (·.parent)

/-- The new scope has the next free index. -/
def child (store : Store) (parent : ScopeId) : ScopeId × Store :=
  let next := store.scopes.size
  (next, ⟨store.scopes.push ⟨some parent, [], []⟩⟩)

def update (store : Store) (s : ScopeId) (f : Scope → Scope) : Store :=
  ⟨store.scopes.modify s f⟩

/-- Whether the scope itself marks the name constant. -/
def marks (store : Store) (s : ScopeId) (name : Bytes) : Bool :=
  ((store.scope? s).map (·.marks name)).getD false

/-- The nearest scope, from `s` outwards, that binds `name`. -/
def resolve (store : Store) (s : ScopeId) (name : Bytes) : Option ScopeId :=
  match store.scope? s with
  | none => none
  | some scope =>
    if scope.binds name then some s
    else match scope.parent with
      | none => none
      | some p => if p < s then store.resolve p name else none
termination_by s

def find? (store : Store) (s : ScopeId) (name : Bytes) : Option (ScopeId × Binding) := do
  let home ← store.resolve s name
  let scope ← store.scope? home
  let binding ← scope.find? name
  return (home, binding)

def lookup (store : Store) (s : ScopeId) (name : Bytes) : Except ScopeFault Value :=
  match store.find? s name with
  | some (_, binding) => .ok binding.value
  | none => .error (.undefined name)

/-! ### The three changes

Each comes as a test for what forbids it and a change that is total, so that a store which is held
in one place only can be changed where it stands. -/

def declareFault? (store : Store) (s : ScopeId) (name : Bytes) : Option ScopeFault :=
  if ((store.scope? s).map (·.binds name)).getD false then some (.redeclared name) else none

def assignFault? (store : Store) (s : ScopeId) (name : Bytes) : Option ScopeFault :=
  match store.resolve s name with
  | none => some (.undefined name)
  | some home => if store.marks home name then some (.constant name) else none

def deleteFault? (store : Store) (s : ScopeId) (name : Bytes) : Option ScopeFault :=
  if (store.resolve s name).isNone then some (.undefined name) else none

/-- Changes the scope that binds `name`, as seen from `s`. -/
def updateHome (store : Store) (s : ScopeId) (name : Bytes) (f : Scope → Scope) : Store :=
  match store.resolve s name with
  | some home => store.update home f
  | none => store

def declare (store : Store) (s : ScopeId) (name : Bytes) (value : Value) (constant : Bool) :
    Except ScopeFault Store :=
  match store.declareFault? s name with
  | some fault => .error fault
  | none => .ok (store.update s (·.declare name value constant))

def assign (store : Store) (s : ScopeId) (name : Bytes) (value : Value) :
    Except ScopeFault Store :=
  match store.assignFault? s name with
  | some fault => .error fault
  | none => .ok (store.updateHome s name (·.assign name value))

def delete (store : Store) (s : ScopeId) (name : Bytes) : Except ScopeFault Store :=
  match store.deleteFault? s name with
  | some fault => .error fault
  | none => .ok (store.updateHome s name (·.delete name))

def names (store : Store) (s : ScopeId) : List Bytes :=
  ((store.scope? s).map (·.names)).getD []

/-! ### What every program starts with -/

def builtins : List (Bytes × Value) :=
  [(utf8 "true", .bool true), (utf8 "false", .bool false), (utf8 "null", .null)] ++
    [Native.print, .type, .range].map fun f => (utf8 f.name, .native f)

/-- The built-in names are constants of the scope like any other. -/
def withBuiltins (store : Store) : Store :=
  store.update globalScope fun scope =>
    builtins.foldl (fun scope entry => scope.declare entry.1 entry.2 true) scope

def initial : Store := empty.withBuiltins

end Store
end Tide
