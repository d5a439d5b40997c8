/-!
# Lines of lists

A list that stands at the start of an item of another list leaves a line behind on which nothing but the
enumerator of the outer item stands. Such bare lines are dropped from the text of a list, except behind
a line that ends in a period.
-/

namespace Treemark.Markdown

/-- The lines of a text. A line ends in a line feed, which a carriage return may precede; the last line
may lack them. -/
def lines : List Char → List (List Char)
  | [] => []
  | '\n' :: s => [] :: lines s
  | '\r' :: '\n' :: s => [] :: lines s
  | c :: s =>
    match lines s with
    | [] => [[c]]
    | l :: ls => (c :: l) :: ls

/-- The blanks that may stand in front of a bare enumerator. -/
def isIndent (c : Char) : Bool :=
  c = ' ' || c = '\t' || c = '\n' || c = '\x0c' || c = '\r'

/-- A line with an enumerator and nothing behind it. -/
def isBare (line : List Char) : Bool := line.dropWhile isIndent = ['1', '.']

def endsInPeriod (line : List Char) : Bool := line.getLast? = some '.'

/-- The lines that are kept behind the line that was kept last. -/
def keptLines (previous : List Char) : List (List Char) → List (List Char)
  | [] => []
  | l :: ls =>
    if isBare l && !endsInPeriod previous then keptLines previous ls else l :: keptLines l ls

def unlines (ls : List (List Char)) : List Char := ls.flatMap (· ++ ['\n'])

def collapse (text : String) : String :=
  String.ofList (unlines (keptLines [] (lines text.toList)))

end Treemark.Markdown
