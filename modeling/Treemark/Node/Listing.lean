import Treemark.Node

/-!
# Listings of trees

One line per node, parents before children, indented by the level of the node.
-/

namespace Treemark

def tabs (n : Nat) : String := String.ofList (List.replicate n '\t')

def Kind.banner (k : Kind) : String := String.ofList (k.name.toList.map Char.toUpper)

namespace Node

mutual
/-- The listing of a tree whose root stands at a depth. -/
def listing (depth : Nat) : Node → String
  | ⟨kind, text, attributes, children⟩ =>
    tabs depth ++ kind.banner ++ ": " ++ text ++ " (" ++ attributes ++ ")\n"
      ++ listingList (depth + 1) children

def listingList (depth : Nat) : List Node → String
  | [] => ""
  | n :: ns => listing depth n ++ listingList depth ns
end

end Node

end Treemark
