import Treemark.Node
import Treemark.Json.Quoted

/-!
# The written form of trees

A tree is written as one object per node, without blanks, with the members in a fixed order and without
those that are empty.
-/

namespace Treemark

open Json

def writtenMember (name : String) (value : List Char) : List Char := quoted name ++ ':' :: value

/-- A member that is left out when its text is empty. -/
def writtenText (name text : String) : List Char :=
  if text = "" then [] else ',' :: writtenMember name (quoted text)

namespace Node

mutual
def written : Node → List Char
  | ⟨kind, text, attributes, children⟩ =>
    '{' :: writtenMember "kind" (quoted kind.name)
      ++ writtenText "text" text
      ++ writtenText "attributes" attributes
      ++ writtenChildren children
      ++ ['}']

/-- The member of the children, which is left out when there are none. -/
def writtenChildren : List Node → List Char
  | [] => []
  | n :: ns => ',' :: writtenMember "children" ('[' :: written n ++ writtenRest ns ++ [']'])

def writtenRest : List Node → List Char
  | [] => []
  | n :: ns => ',' :: written n ++ writtenRest ns
end

def toJson (n : Node) : String := String.ofList n.written

end Node

def Kind.toJson (k : Kind) : String := String.ofList (quoted k.name)

end Treemark
