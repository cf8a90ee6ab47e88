import Tide.Eval.Run
import Tide.Session.Bracket
import Tide.Session.Report
import Tide.Text.Blank

/-!
# Interactive sessions

A session runs one line after another on one machine. Lines are held back as long as brackets are
open, and then run together. The value of what was run is shown unless it is null or the text ended
with a declaration. Lines such as `:env` speak to the session itself; they are only understood
while nothing is held back.
-/
namespace Tide

structure Session where
  machine : Machine
  /-- What went to the error output. -/
  errors : Bytes
  /-- Lines held back, joined by line feeds. -/
  pending : Bytes
  color : Bool

namespace Session

def start (color : Bool) : Session := ⟨.initial, [], [], color⟩

/-- The name under which a session's input is reported. -/
def sourceName : Bytes := utf8 "<repl>"

def complain (session : Session) (text : Bytes) : Session :=
  { session with errors := session.errors ++ text }

def write (session : Session) (text : Bytes) : Session :=
  { session with machine.output := session.machine.output ++ text }

def report (session : Session) (trouble : Trouble) : Session :=
  session.complain (Report.trouble session.color sourceName trouble)

/-- Whether the last statement is a declaration, whose value is not shown. -/
def declares : Node → Bool
  | .program _ body =>
    match body.getLast? with
    | some (.declare ..) | some (.function ..) => true
    | _ => false
  | _ => false

def isNull : Value → Bool
  | .null => true
  | _ => false

/-- Shows a value, unless it is not worth showing. -/
def echo (session : Session) (program : Node) (value : Value) : Session :=
  if isNull value || declares program then session
  else session.write (Paint.apply session.color Paint.green value.render ++ utf8 "\n")

def evaluate (session : Session) (depth : Nat) (source : Bytes) : Session :=
  let found := read source
  let session := session.complain
    (Report.diagnostics session.color sourceName found.warnings)
  match found.program with
  | .error d => session.report (.diagnostic d)
  | .ok program =>
    match session.machine.evaluate depth program with
    | (.ok value, machine) => { session with machine }.echo program value
    | (.error failure, machine) => { session with machine }.report failure.trouble

def isBlankText (s : Bytes) : Bool := (Utf8.pieces s).all Piece.isBlank

/-- What is held back together with one more line. -/
def joined (session : Session) (line : Bytes) : Bytes :=
  if session.pending = [] then line else session.pending ++ utf8 "\n" ++ line

/-- Takes a line and says whether the text is complete with it. -/
def feed (session : Session) (depth : Nat) (line : Bytes) : Bool × Session :=
  let source := session.joined line
  if bracketDepth source > 0 then (false, { session with pending := source })
  else
    let session := { session with pending := [] }
    (true, if isBlankText source then session else session.evaluate depth source)

def reset (session : Session) : Session := { session with pending := [] }

def environment (session : Session) : Bytes :=
  session.machine.globals.flatMap fun (name, value) =>
    Paint.apply session.color Paint.cyan name ++ utf8 " " ++ value ++ utf8 "\n"

inductive Command where
  | quit
  | environment
  | reset
deriving DecidableEq, Repr

def command? (line : Bytes) : Option Command :=
  let word := line.trim
  if word = utf8 "exit" ∨ word = utf8 ":quit" ∨ word = utf8 ":q" then some .quit
  else if word = utf8 ":env" then some .environment
  else if word = utf8 ":reset" then some .reset
  else none

def obey (session : Session) : Command → Session
  | .quit => session
  | .environment => session.write session.environment
  | .reset => session.reset

/-- What became of a line of input. -/
inductive Reply where
  | obeyed (command : Command)
  | fed (complete : Bool)
deriving DecidableEq, Repr

/-- One line of input: a command if nothing is held back, and program text otherwise. -/
def line (session : Session) (depth : Nat) (text : Bytes) : Reply × Session :=
  match if session.pending = [] then command? text else none with
  | some command => (.obeyed command, session.obey command)
  | none =>
    let (complete, session) := session.feed depth text
    (.fed complete, session)

/-! ### Input from a file -/

def isLineEnd (b : UInt8) : Bool := b = '\n'.toUInt8 || b = '\r'.toUInt8

/-- Lines with their bytes last first, `current` being the beginning of the first. What stands
behind the last line feed is a line only if more than line ends are left of it. -/
def reversedLines (current : Bytes) : Bytes → List Bytes
  | [] => if current.dropWhile isLineEnd = [] then [] else [current]
  | b :: rest =>
    if b = '\n'.toUInt8 then current :: reversedLines [] rest
    else reversedLines (b :: current) rest

/-- The lines of an input, without the line ends. -/
def splitLines (input : Bytes) : List Bytes :=
  (reversedLines [] input).map fun line => (line.dropWhile isLineEnd).reverse

/-- Runs all lines up to one that quits. Text that is still held back at the end is reported. -/
def runLines (session : Session) (depth : Nat) : List Bytes → Session
  | [] =>
    if session.pending = [] then session
    else session.report (.plain (utf8 "unexpected end of input"))
  | text :: rest =>
    match session.line depth text with
    | (.obeyed .quit, session) => session
    | (_, session) => session.runLines depth rest

end Session
end Tide
