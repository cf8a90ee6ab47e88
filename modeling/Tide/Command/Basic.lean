import Tide.Command.Arguments
import Tide.Command.Listing
import Tide.Config.Load
import Tide.Eval.Run
import Tide.Session.Basic
import Tide.Tree.Format

/-!
# Commands

A command line is one of four tasks on a file or a session over the standard input. Settings are
read before anything else is looked at, so a broken settings file is reported even if the rest of
the line makes no sense.
-/
namespace Tide

/-- What a command leaves behind. -/
structure Completion where
  status : UInt8
  output : Bytes
  errors : Bytes
deriving DecidableEq, Repr

inductive Task where
  | tokens (json : Bool)
  | parse (yaml : Bool)
  | format
  | run
deriving DecidableEq, Repr

inductive Request where
  | session
  | onFile (task : Task) (path : Bytes)
deriving DecidableEq, Repr

inductive CommandFault where
  | configWithoutPath
  | config (fault : Config.LoadFault)
  | noCommand
  | noFile
  | unknownCommand (name : Bytes)
  | unreadable (path : Bytes) (fault : FileFault)
deriving DecidableEq, Repr

namespace CommandFault

def usage : Bytes := utf8 <|
  "Usage:\n" ++
  "  tide tokens <file> [--json]   Tokenize and print tokens\n" ++
  "  tide parse  <file> [--yaml]   Parse and print AST (JSON by default)\n" ++
  "  tide fmt    <file>            Print the formatted source\n" ++
  "  tide run    <file>            Run a source file\n" ++
  "  tide repl                     Start interactive REPL\n" ++
  "Flags:\n" ++
  "  --config <path>               Use this tide.yaml\n"

/-- The fault in words; no words are lost on an empty command line. -/
def message : CommandFault → Bytes
  | .configWithoutPath => utf8 "--config needs a path"
  | .config fault => fault.text
  | .noCommand => []
  | .noFile => utf8 "missing file argument"
  | .unknownCommand name => utf8 "unknown command " ++ Bytes.quoted name
  | .unreadable path fault => utf8 "cannot read file " ++ path ++ utf8 ": " ++ fault.text path

/-- Whether the usage is shown. -/
def showsUsage : CommandFault → Bool
  | .noCommand | .unknownCommand _ => true
  | _ => false

def text (fault : CommandFault) : Bytes :=
  let line := if fault = .noCommand then [] else utf8 "error: " ++ fault.message ++ utf8 "\n"
  line ++ if fault.showsUsage then usage else []

end CommandFault

namespace Completion

def success (output errors : Bytes) : Completion := ⟨0, output, errors⟩

def failure (output errors : Bytes) : Completion := ⟨1, output, errors⟩

def refused (fault : CommandFault) : Completion := failure [] fault.text

end Completion

namespace Task

/-- The task of a name; its flags are looked for among everything behind the name. -/
def ofName? (name : Bytes) (rest : List Bytes) : Option Task :=
  if name = utf8 "tokens" then some (.tokens (Arguments.hasFlag rest "--json"))
  else if name = utf8 "parse" then some (.parse (Arguments.hasFlag rest "--yaml"))
  else if name = utf8 "fmt" then some .format
  else if name = utf8 "run" then some .run
  else none

def listTokens (color json : Bool) (path source : Bytes) : Completion :=
  let scanned := scan source
  let ds := scanned.warnings ++ scanned.fault.toList
  let finish := if scanned.fault.isSome then Completion.failure else Completion.success
  if json then finish (Listing.tokens scanned.tokens ds).toJson []
  else finish (Listing.tokenLines scanned.tokens) (Report.diagnostics color path ds)

def showTree (yaml : Bool) (source : Bytes) : Completion :=
  let found := read source
  let write := if yaml then Datum.toYaml else Datum.toJson
  match found.program with
  | .ok program => .success (write (Listing.tree (some program) found.warnings)) []
  | .error d => .failure (write (Listing.tree none (found.warnings ++ [d]))) []

/-- The tree of a source, with its warnings reported; without a tree that is all there is. -/
def withTree (color : Bool) (path source : Bytes) (use : Node → Bytes → Completion) :
    Completion :=
  let found := read source
  let warnings := Report.diagnostics color path found.warnings
  match found.program with
  | .ok program => use program warnings
  | .error d => .failure [] (warnings ++ Report.diagnostic color path d)

/-- Runs a program on a new machine and shows its value, unless that is null or not wanted. -/
def execute (config : Config) (color : Bool) (path : Bytes) (program : Node) (warnings : Bytes) :
    Completion :=
  match Machine.initial.evaluate Machine.depthLimit program with
  | (.ok value, machine) =>
    let shown := if config.printResult && !Session.isNull value then value.render ++ utf8 "\n"
      else []
    .success (machine.output ++ shown) warnings
  | (.error failure, machine) =>
    .failure machine.output (warnings ++ Report.trouble color path failure.trouble)

/-- A task on the source of a file, in colour only if the settings insist. -/
def perform (config : Config) (path source : Bytes) : Task → Completion
  | .tokens json => listTokens (config.useColor false) json path source
  | .parse yaml => showTree yaml source
  | .format =>
    withTree (config.useColor false) path source fun program warnings =>
      .success program.format warnings
  | .run =>
    let color := config.useColor false
    withTree color path source (execute config color path)

end Task

namespace Request

def ofWords : List Bytes → Except CommandFault Request
  | [] => .error .noCommand
  | name :: rest =>
    if name = utf8 "repl" then .ok .session
    else match rest with
      | [] => .error .noFile
      | path :: _ =>
        match Task.ofName? name rest with
        | some task => .ok (.onFile task path)
        | none => .error (.unknownCommand name)

/-- A session over all lines of an input. -/
def converse (config : Config) (input : Bytes) : Completion :=
  let session := (Session.start (config.useColor false)).runLines Machine.depthLimit
    (Session.splitLines input)
  .success session.machine.output session.errors

def perform {m : Type → Type} [Monad m] (host : Host m) (config : Config) :
    Request → m Completion
  | .session => do return converse config (← host.input)
  | .onFile task path => do
    match ← host.read path with
    | .ok source => return task.perform config path source
    | .error fault => return .refused (.unreadable path fault)

end Request

/-- Carries out a command line on a host. -/
def command {m : Type → Type} [Monad m] (host : Host m) (words : List Bytes) : m Completion := do
  match Arguments.split? words with
  | none => return .refused .configWithoutPath
  | some args =>
    match ← Config.obtain host args.config with
    | .error fault => return .refused (.config fault)
    | .ok config =>
      match Request.ofWords args.words with
      | .error fault => return .refused fault
      | .ok request => request.perform host config

end Tide
