import Treemark.Files.Error
import Treemark.Markdown.Render

/-!
# Reports of failures

A failed run ends with what it was about to do and with the causes that kept it from doing so.
-/

namespace Treemark.Cli

/-- What failed, and why: the first cause is the error itself, the others are what lies behind it. -/
structure Failure where
  task : String
  causes : List String
  deriving DecidableEq, Repr

namespace Failure

/-- Lines behind the first one of a cause stand below its first letter. -/
def hang (margin : List Char) (cause : String) : List Char :=
  cause.toList.flatMap fun c => if c = '\n' then '\n' :: margin else [c]

def onlyCause (cause : String) : String :=
  let margin := List.replicate 4 ' '
  String.ofList (margin ++ hang margin cause ++ ['\n'])

/-- A cause with its number, which takes five columns. -/
def numberedCause (cause : String) (number : Nat) : String :=
  let digits := (toString number).toList
  let lead := List.replicate (5 - digits.length) ' ' ++ digits ++ [':', ' ']
  String.ofList (lead ++ hang (List.replicate 7 ' ') cause ++ ['\n'])

def report (f : Failure) : String :=
  "Error: " ++ f.task ++ "\n\nCaused by:\n" ++
    match f.causes with
    | [cause] => onlyCause cause
    | causes => String.join (causes.zipIdx.map fun (cause, number) => numberedCause cause number)

/-- An input that cannot be read is told from one that is no tree. -/
def ofLoad (input : String) (e : LoadError) : Failure :=
  match e with
  | .unreadable .. => { task := "Error opening file: " ++ input, causes := e.causes }
  | .tree _ => { task := "Parse error in " ++ input, causes := e.causes }

def ofRender (input : String) (v : ShapeViolation) : Failure :=
  { task := "Failed to convert " ++ input, causes := [v.message] }

def ofSink (output : String) (e : SinkError) : Failure :=
  { task := "Failed to write " ++ output, causes := e.causes }

end Failure

end Treemark.Cli
