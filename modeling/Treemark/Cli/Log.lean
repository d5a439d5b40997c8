import Treemark.Markdown.Trail
import Treemark.Text.Visible

/-!
# The log

What a run tells on the side, each event at a level of detail. A filter shows the events up to one level,
or none at all.
-/

namespace Treemark.Cli

/-- Levels of events, from the rare ones to the frequent ones. -/
inductive Level where
  | error
  | warn
  | info
  | debug
  | trace
  deriving DecidableEq, Repr

namespace Level

def rank : Level → Nat
  | error => 1
  | warn => 2
  | info => 3
  | debug => 4
  | trace => 5

def name : Level → String
  | error => "ERROR"
  | warn => "WARN"
  | info => "INFO"
  | debug => "DEBUG"
  | trace => "TRACE"

def all : List Level := [error, warn, info, debug, trace]

end Level

abbrev Filter := Option Level

def Filter.shows (f : Filter) (level : Level) : Bool :=
  match f with
  | none => false
  | some l => level.rank ≤ l.rank

/-- The filter that a word stands for: a level by its name in either case or by its rank. No word at all
leaves the errors. Only levels are covered: a word that names a target, alone or with a level of its own,
and a row of several directives show nothing here, while such a filter may show events. -/
def Filter.ofWord (word : String) : Filter :=
  if word = "" then some .error
  else
    Level.all.find? fun l =>
      word.toList.map Char.toUpper = l.name.toList || word = toString l.rank

structure Event where
  level : Level
  message : String
  values : List (String × String) := []
  deriving DecidableEq, Repr

def Event.line (e : Event) : String :=
  e.level.name ++ " " ++ e.message
    ++ String.join (e.values.map fun (key, value) => " " ++ key ++ "=" ++ value) ++ "\n"

/-- What is written to the standard error besides the report of a failure. -/
inductive Note where
  | event (e : Event)
  /-- A listing is shown whatever the filter is. -/
  | listing (text : String)
  deriving DecidableEq, Repr

def Note.shown (f : Filter) : Note → String
  | event e => if f.shows e.level then e.line else ""
  | listing text => text

def showNotes (f : Filter) (notes : List Note) : String := String.join (notes.map (Note.shown f))

namespace Event

def parsed (n : Node) : Event :=
  ⟨.debug, "parsed document tree", [("nodes", toString n.count), ("kind", n.kind.name)]⟩

def rendering (n : Node) : Event :=
  ⟨.debug, "rendering document", [("kind", n.kind.name), ("nodes", toString n.count)]⟩

def visiting (n : Node) : Event := ⟨.trace, "rendering node", [("kind", n.kind.name)]⟩

def heading (number title : String) : Event :=
  ⟨.debug, "entering heading", [("number", number), ("title", title)]⟩

def skipping (kind : Kind) : Event :=
  ⟨.warn, "skipping non-cell node inside table row", [("kind", kind.name)]⟩

def rendered (markdown : String) (c : Context) : Event :=
  ⟨.debug, "rendered document",
    [("bytes", toString markdown.utf8ByteSize), ("sections", toString c.first)]⟩

def converted (input markdown : String) : Event :=
  ⟨.info, "converted document", [("input", input), ("bytes", toString markdown.utf8ByteSize)]⟩

def wrote (destination markdown : String) : Event :=
  ⟨.info, "wrote markdown",
    [("destination", Text.visible destination), ("bytes", toString markdown.utf8ByteSize)]⟩

/-- The events of the steps of a rendering pass that starts in a context. -/
def ofSteps (c : Context) : List Step → List Event
  | [] => []
  | .skip kind :: ss => skipping kind :: ofSteps c ss
  | .visit ⟨.heading level, text, attributes, children⟩ :: ss =>
    let (number, c) := c.enterHeading level
    visiting ⟨.heading level, text, attributes, children⟩ :: heading number text :: ofSteps c ss
  | .visit n :: ss => visiting n :: ofSteps c ss

end Event

end Treemark.Cli
