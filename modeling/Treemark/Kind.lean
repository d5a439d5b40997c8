/-!
# Kinds of document nodes

Every node of a document tree has one of 29 kinds. A kind has a *name*, under which trees are written,
a few *aliases*, under which they may also be read, and a Markdown *marker*.
-/

namespace Treemark

inductive HeadingLevel where
  | first
  | second
  | third
  deriving DecidableEq, Repr

/-- The role that a node plays in the document tree. -/
inductive Kind where
  | document
  | heading (level : HeadingLevel)
  | bold
  | italic
  | underline
  | plain
  | itemize
  | enumerate
  | item
  | paragraph
  | table
  | row
  | cell
  | figure
  | caption
  | image
  | label
  | reference
  | tableRule
  | squareRoot
  | title
  | date
  | verbatim
  | horizontalRule
  | hyperlink
  | formatted
  | code
  deriving DecidableEq, Repr

namespace Kind

def all : List Kind :=
  [document, heading .first, heading .second, heading .third, bold, italic, underline, plain,
   itemize, enumerate, item, paragraph, table, row, cell, figure, caption, image, label, reference,
   tableRule, squareRoot, title, date, verbatim, horizontalRule, hyperlink, formatted, code]

def name : Kind → String
  | document => "document"
  | heading .first => "section"
  | heading .second => "subsection"
  | heading .third => "subsubsection"
  | bold => "bold"
  | italic => "italic"
  | underline => "underline"
  | plain => "string"
  | itemize => "itemize"
  | enumerate => "enumerate"
  | item => "item"
  | paragraph => "paragraph"
  | table => "table"
  | row => "table_row"
  | cell => "table_cell"
  | figure => "figure"
  | caption => "caption"
  | image => "include_graphics"
  | label => "label"
  | reference => "reference"
  | tableRule => "table_rule"
  | squareRoot => "square_root"
  | title => "title"
  | date => "date"
  | verbatim => "verbatim"
  | horizontalRule => "horizontal_rule"
  | hyperlink => "hyperlink"
  | formatted => "text"
  | code => "code"

/-- The LaTeX command names that are read as kinds besides the kinds' own names. -/
def aliases : List (String × Kind) :=
  [("textbf", bold), ("textit", italic), ("par", paragraph), ("tabular", table), ("row", row),
   ("cell", cell), ("includegraphics", image), ("ref", reference), ("hline", tableRule),
   ("sqrt", squareRoot), ("hrule", horizontalRule), ("href", hyperlink)]

def ofName? (s : String) : Option Kind :=
  (all.find? fun k => k.name = s).or (aliases.lookup s)

/-- The Markdown marker put before or around content of a kind; most kinds have none. -/
def marker : Kind → String
  | heading .first => "##"
  | heading .second => "###"
  | heading .third => "####"
  | item => "- "
  | bold => "**"
  | italic => "*"
  | underline => "<u>"
  | figure => "![]"
  | image => "![]"
  | date => "Date: "
  | title => "#"
  | verbatim => "```"
  | horizontalRule => "---"
  | _ => ""

/-- What opens each item of a list: a dash, or a number that Markdown counts on by itself. -/
def bullet : Kind → String
  | enumerate => "1."
  | _ => "-"

end Kind

end Treemark
