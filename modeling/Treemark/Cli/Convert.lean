import Treemark.Cli.Arguments
import Treemark.Cli.Log
import Treemark.Cli.Report
import Treemark.Cli.System
import Treemark.Node.Listing

/-!
# Runs of the program

A run loads a tree, renders it, and only then opens its destination. On the way it takes notes, of which
the filter shows some on the standard error. All of that is decided here, for any system.
-/

namespace Treemark.Cli

/-- What a run leaves behind besides files. -/
structure Outcome where
  exit : Nat
  stdout : String := ""
  stderr : String := ""
  deriving DecidableEq, Repr

namespace Options

/-- The verbose flag wins over the word that was set for the log; without either, warnings are shown. -/
def filter (o : Options) (log : Option String) : Filter :=
  if o.verbose then some .debug
  else
    match log with
    | some word => Filter.ofWord word
    | none => some .warn

/-- The Markdown of the input, given what reading it brought, and the notes taken until then. -/
def convert (o : Options) (content : Except FileError ByteArray) :
    List Note × Except Failure String :=
  match loadTree o.input content with
  | .error e => ([], .error (.ofLoad o.input e))
  | .ok n =>
    let before := [.event (.parsed n)] ++ (if o.dump then [.listing (n.listing 1)] else [])
    let during := (Event.rendering n :: Event.ofSteps {} n.steps).map Note.event
    match n.renderFrom {} with
    | (.error v, _) => (before ++ during, .error (.ofRender o.input v))
    | (.ok markdown, c) =>
      let after := [.event (.rendered markdown c), .event (.converted o.input markdown)]
      (before ++ during ++ after, .ok markdown)

def toStdout (o : Options) : Bool := o.output = "-"

def delivered (o : Options) (markdown : String) : List Event :=
  if o.toStdout then [] else [.wrote o.output markdown]

end Options

namespace System

variable {m : Type → Type} [Monad m] (s : System m)

/-- Puts Markdown on the standard output or into a file. -/
def deliver (o : Options) (markdown : String) : m (Except SinkError Unit) := do
  if o.toStdout then
    return (← s.print markdown).mapError (.cannotWrite o.output)
  else
    s.emit markdown o.output

def fail (failure : Failure) : m Nat := do
  s.tell failure.report
  return 1

def convert (o : Options) (log : Option String) : m Nat := do
  let f := o.filter log
  let (notes, result) := o.convert (← s.read o.input)
  s.tell (showNotes f notes)
  match result with
  | .error failure => s.fail failure
  | .ok markdown =>
    match ← s.deliver o markdown with
    | .error e => s.fail (.ofSink o.output e)
    | .ok () =>
      s.tell (showNotes f ((o.delivered markdown).map .event))
      return 0

/-- The whole program, up to its exit code. A help text that cannot be printed is no failure. -/
def perform (args : List String) (log : Option String) : m Nat := do
  match Request.ofArguments args with
  | .help =>
    let _ ← s.print helpText
    return 0
  | .misuse =>
    s.tell usage
    return 2
  | .convert o => s.convert o log

end System

/-- The program in memory, on a standard output that may be on a full device. -/
def run (t : FileTree) (args : List String) (log : Option String) (full : Bool) :
    Outcome × FileTree :=
  let (exit, left) := ((System.inMemory full).perform args log).run { files := t }
  ({ exit, stdout := left.stdout, stderr := left.stderr }, left.files)

end Treemark.Cli
