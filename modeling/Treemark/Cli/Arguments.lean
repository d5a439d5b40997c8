/-!
# Command-line arguments

Two paths and three flags, in any order. Arguments are read from left to right, and the first one that
settles the request, as a plea for help or as an error, ends the reading.
-/

namespace Treemark.Cli

inductive Flag where
  | dump
  | verbose
  | help
  deriving DecidableEq, Repr

structure Options where
  input : String
  output : String
  dump : Bool := false
  verbose : Bool := false
  deriving DecidableEq, Repr

inductive Request where
  | convert (options : Options)
  | help
  | misuse
  deriving DecidableEq, Repr

def Flag.ofLong? (name : List Char) : Option Flag :=
  if name = "dump".toList then some dump
  else if name = "verbose".toList then some verbose
  else if name = "help".toList then some help
  else none

def Flag.ofShort? : Char → Option Flag
  | 'v' => some verbose
  | 'h' => some help
  | _ => none

inductive Argument where
  | value (path : String)
  | flags (flags : List (Option Flag))
  /-- The two dashes behind which all arguments are values. -/
  | endOfFlags
  deriving DecidableEq, Repr

/-- Two dashes start the name of a flag, one dash starts a row of letters. A dash alone is a value. -/
def Argument.ofString (s : String) : Argument :=
  match s.toList with
  | ['-'] => value s
  | ['-', '-'] => endOfFlags
  | '-' :: '-' :: name => flags [Flag.ofLong? name]
  | '-' :: letters => flags (letters.map Flag.ofShort?)
  | _ => value s

structure Progress where
  values : List String := []
  dump : Bool := false
  verbose : Bool := false
  deriving DecidableEq, Repr

/-- Notes a flag; the second of its kind is an error, and so is an unknown one. -/
def Progress.flag (p : Progress) : Option Flag → Except Request Progress
  | none => .error .misuse
  | some .help => .error .help
  | some .dump => if p.dump then .error .misuse else .ok { p with dump := true }
  | some .verbose => if p.verbose then .error .misuse else .ok { p with verbose := true }

def Progress.flags (p : Progress) : List (Option Flag) → Except Request Progress
  | [] => .ok p
  | f :: fs =>
    match p.flag f with
    | .error r => .error r
    | .ok p => p.flags fs

/-- Notes a value; there is no room for a third. -/
def Progress.value (p : Progress) (path : String) : Except Request Progress :=
  if p.values.length < 2 then .ok { p with values := p.values ++ [path] } else .error .misuse

/-- Notes arguments that are values whatever they look like. -/
def Progress.valuesOnly (p : Progress) : List String → Except Request Progress
  | [] => .ok p
  | s :: ss =>
    match p.value s with
    | .error r => .error r
    | .ok p => p.valuesOnly ss

def Progress.arguments (p : Progress) : List String → Except Request Progress
  | [] => .ok p
  | s :: ss =>
    match Argument.ofString s with
    | .endOfFlags => p.valuesOnly ss
    | .value path =>
      match p.value path with
      | .error r => .error r
      | .ok p => p.arguments ss
    | .flags fs =>
      match p.flags fs with
      | .error r => .error r
      | .ok p => p.arguments ss

/-- What a command line asks for; both paths have to be given. -/
def Request.ofArguments (args : List String) : Request :=
  match Progress.arguments {} args with
  | .error r => r
  | .ok p =>
    match p.values with
    | [input, output] => .convert { input, output, dump := p.dump, verbose := p.verbose }
    | _ => .misuse

def usage : String := "Usage: latex2md [OPTIONS] <input> <output>\n"

def helpText : String :=
  "Convert a parsed LaTeX document tree to Markdown\n\n" ++ usage ++
  "\nArguments:\n" ++
  "  <input>   Document tree produced by the LaTeX front end (JSON)\n" ++
  "  <output>  Markdown file to write, or - for standard output\n" ++
  "\nOptions:\n" ++
  "      --dump     Print the document tree to stderr before rendering\n" ++
  "  -v, --verbose  Enable debug logging\n" ++
  "  -h, --help     Print help\n"

end Treemark.Cli
