import Treemark.Node

/-!
# Runs and links

The pieces of text within a line.
-/

namespace Treemark.Markdown

def run (kind : Kind) (text : String) : String := kind.marker ++ text ++ kind.marker ++ " "

/-- The target and the label of a link: what stands before the first number sign and what behind. -/
def splitLink (text : String) : String × String :=
  let target := text.toList.takeWhile (· ≠ '#')
  let label := (text.toList.dropWhile (· ≠ '#')).drop 1
  (String.ofList target, String.ofList label)

def link (text : String) : String :=
  let (target, label) := splitLink text
  "[" ++ label ++ "](" ++ target ++ ") \n"

def line (kind : Kind) (space text : String) : String :=
  if text = "" then "" else kind.marker ++ space ++ text ++ "\n\n"

def fenced (text : String) : String :=
  "\n\n" ++ Kind.verbatim.marker ++ "\n" ++ text ++ "\n" ++ Kind.verbatim.marker ++ "\n\n"

def caption (text : String) : String := " " ++ Kind.caption.marker ++ " \"" ++ text ++ "\""

/-- An image with the captions among the children. -/
def figure (text : String) (children : List Node) : String :=
  let captions := children.filter fun n => n.kind == .caption
  Kind.figure.marker ++ "(" ++ text ++ ")" ++ String.join (captions.map fun n => caption n.text)
    ++ "\n\n"

end Treemark.Markdown
