import Treemark.Kind
import Treemark.Node.Listing

/-!
# Numbering and nesting

What a rendering pass carries from node to node: the counters of the three heading levels and the depth
of the lists it is in.
-/

namespace Treemark

structure Context where
  first : Nat := 0
  second : Nat := 0
  third : Nat := 0
  depth : Nat := 0
  deriving DecidableEq, Repr, Inhabited

namespace Context

/-- Counts a heading. The counters of all deeper levels start again. -/
def enter (c : Context) : HeadingLevel → Context
  | .first => { c with first := c.first + 1, second := 0, third := 0 }
  | .second => { c with second := c.second + 1, third := 0 }
  | .third => { c with third := c.third + 1 }

/-- The dotted number of the heading of a level that was counted last. -/
def number (c : Context) : HeadingLevel → String
  | .first => toString c.first
  | .second => toString c.first ++ "." ++ toString c.second
  | .third => toString c.first ++ "." ++ toString c.second ++ "." ++ toString c.third

def enterHeading (c : Context) (level : HeadingLevel) : String × Context :=
  ((c.enter level).number level, c.enter level)

def deeper (c : Context) : Context := { c with depth := c.depth + 1 }

/-- The context behind a list that was begun in `outer`: the depth is as it was, the counters go on. -/
def leave (c outer : Context) : Context := { c with depth := outer.depth }

/-- The indentation of list lines; the outermost list has none. -/
def indent (c : Context) : String := tabs (c.depth - 1)

end Context

end Treemark
