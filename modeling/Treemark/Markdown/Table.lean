/-!
# Rows and separators of tables

A row lists its cells, and a cell its parts, with the same gap around each. A line of dashes below the
first row marks the boundaries of the columns.
-/

namespace Treemark.Markdown

def gap : List Char := [' ', '|', ' ']

def cellText (parts : List String) : List Char :=
  gap ++ parts.flatMap (fun part => part.toList ++ gap) ++ gap

/-- A row of cells without the gap behind the last one. -/
def formatRow (cells : List (List String)) : String :=
  let row := cells.flatMap cellText
  String.ofList (row.take (row.length - gap.length))

/-- Whether a boundary of `count` columns stands at a position of a line. Columns are equally wide and
the rest belongs to the last one; columns without any width have all their boundaries at the start. -/
def isBoundary (width count position : Nat) : Bool :=
  let column := width / count
  if column = 0 then position = 0 && 2 ≤ count
  else position % column = 0 && column ≤ position && position < column * count

/-- A line of dashes as long as the header, with bars at the boundaries of the columns. -/
def separator (header : String) (count : Nat) : String :=
  let width := header.length
  String.ofList <| (List.range width).map fun p => if isBoundary width count p then '|' else '-'

/-- Puts the separator behind the first line of the rows, if that line is ended. -/
def insertSeparator (rows : String) (count : Nat) : String :=
  let header := rows.toList.takeWhile (· ≠ '\n')
  match rows.toList.dropWhile (· ≠ '\n') with
  | [] => rows
  | newline :: rest =>
    String.ofList <|
      header ++ newline :: (separator (String.ofList header) count).toList ++ newline :: rest

end Treemark.Markdown
