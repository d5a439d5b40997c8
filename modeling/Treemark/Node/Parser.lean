import Treemark.Draft.Reader
import Treemark.Node.Written

/-!
# Reading trees

A text is a tree when a draft stands at its front, nothing but blanks follows, and every kind is known.
-/

namespace Treemark

open Json

inductive TreeError where
  | malformed (fault : Fault)
  | unknownKind (unknown : UnknownKind)
  deriving DecidableEq, Repr

namespace TreeError

/-- An unknown kind is a matter of the data. -/
def category : TreeError → Category
  | malformed fault => fault.category
  | unknownKind _ => .data

def reason : TreeError → String
  | malformed fault => fault.message
  | unknownKind unknown => unknown.message

def message : TreeError → String
  | malformed fault => "malformed tree: " ++ fault.message
  | unknownKind unknown => unknown.message

end TreeError

def checkEnd (rest : List Char) : Except TreeError Unit :=
  if skipBlanks rest = [] then .ok () else .error (.malformed .trailingCharacters)

def Draft.resolved (d : Draft) : Except TreeError Node := d.resolve.mapError .unknownKind

namespace Node

/-- Reads a tree. The whole text is read before the kinds are looked up. -/
def parse (text : String) : Except TreeError Node :=
  match Draft.read text.toList with
  | .error fault => .error (.malformed fault)
  | .ok (d, rest) =>
    match checkEnd rest with
    | .error e => .error e
    | .ok () => d.resolved

/-- Reads a tree as a part of a text that goes on: the kinds are looked up before the end of the text
is. -/
def decode (text : String) : Except TreeError Node :=
  match Draft.read text.toList with
  | .error fault => .error (.malformed fault)
  | .ok (d, rest) =>
    match d.resolved with
    | .error e => .error e
    | .ok n =>
      match checkEnd rest with
      | .error e => .error e
      | .ok () => .ok n

/-- Whether the written tree is read as the same tree, which fails for trees that are too deep. -/
def readsBack (n : Node) : Bool :=
  match parse n.toJson with
  | .error _ => false
  | .ok m => m = n

end Node

end Treemark
