import Treemark.Markdown.Context
import Treemark.Markdown.Lines
import Treemark.Markdown.Table
import Treemark.Markdown.Inline

/-!
# Rendering

A tree becomes Markdown by the rules of its kinds. Four kinds need a first child; where one of them has
none the pass ends with a shape violation, and the context stays as the pass left it.
-/

namespace Treemark

/-- The part of a node that its first child holds. -/
inductive Part where
  | itemContent
  | listBody
  | paragraphBody
  | rows
  deriving DecidableEq, Repr

def Part.name : Part → String
  | itemContent => "item content"
  | listBody => "list body"
  | paragraphBody => "paragraph body"
  | rows => "rows"

structure ShapeViolation where
  kind : Kind
  missing : Part
  deriving DecidableEq, Repr

def ShapeViolation.message (v : ShapeViolation) : String :=
  "shape contract violated: " ++ v.kind.name ++ " node has no " ++ v.missing.name

/-- A part of a rendering pass: it may end early, and the context outlives that. -/
abbrev Pass := ExceptT ShapeViolation (StateM Context)

namespace Pass

def runFrom {α : Type} (p : Pass α) (c : Context) : Except ShapeViolation α × Context :=
  (ExceptT.run p).run c

def enterHeading (level : HeadingLevel) : Pass String := modifyGet fun c => c.enterHeading level

/-- Runs a pass inside one more list. The depth is restored even when the pass ends early. -/
def inList {α : Type} (p : Pass α) : Pass α :=
  ExceptT.mk fun c =>
    let (outcome, after) := p.runFrom c.deeper
    (outcome, after.leave c)

end Pass

namespace Node

/-- The number of children of the cells in the rows among some nodes. -/
def partCount (ns : List Node) : Nat :=
  let cells := (ns.filter isRow).flatMap fun r => r.children.filter isCell
  (cells.flatMap fun c => c.children).length

open Markdown

mutual
def render : Node → Pass String
  | ⟨kind, text, _, children⟩ =>
    match kind with
    | .item =>
      match children with
      | [] => throw ⟨.item, .itemContent⟩
      | content :: _ => render content
    | .plain => do
      let own ← renderList children
      let again ← match children with
        | [] => pure []
        | ⟨_, _, _, grandchildren⟩ :: _ => renderList grandchildren
      return text ++ String.join ((own ++ again).map (" " ++ ·))
    | .heading level => do
      let number ← Pass.enterHeading level
      let body ← renderList children
      return (Kind.heading level).marker ++ " " ++ number ++ " " ++ text ++ "\n\n"
        ++ String.join body ++ "\n\n"
    | .itemize | .enumerate => do
      let text ← Pass.inList do
        match children with
        | [] => throw ⟨kind, .listBody⟩
        | ⟨_, _, _, items⟩ :: _ =>
          let lead := (← get).indent ++ kind.bullet
          let items ← renderList items
          return "\n" ++ String.join (items.map (lead ++ · ++ "\n")) ++ "\n"
      return collapse text
    | .table => do
      let own ← renderRows children
      match children with
      | [] => throw ⟨.table, .rows⟩
      | ⟨_, _, _, grandchildren⟩ :: _ =>
        let nested ← renderRows grandchildren
        let rows := String.join ((own ++ nested).map (· ++ "\n"))
        return insertSeparator rows (partCount children) ++ "\n\n"
    | .paragraph =>
      match children with
      | [] => throw ⟨.paragraph, .paragraphBody⟩
      | body :: _ => return String.join (body.children.map fun n => run n.kind n.text) ++ "\n\n"
    | .verbatim => return fenced text
    | .bold | .italic => return run kind text
    | .title => return line .title " " text
    | .date => return line .date "" text
    | .figure => return figure text children
    | .reference => return kind.marker ++ text ++ "\n\n"
    | .horizontalRule => return "\n\n" ++ kind.marker ++ "\n\n"
    | .hyperlink => return link text
    | .document | .underline | .row | .cell | .caption | .image | .label | .tableRule
    | .squareRoot | .formatted | .code => do
      return String.join (← renderList children)

def renderList : List Node → Pass (List String)
  | [] => return []
  | n :: ns => do
    let text ← render n
    let texts ← renderList ns
    return text :: texts

def renderRows : List Node → Pass (List String)
  | [] => return []
  | ⟨kind, _, _, children⟩ :: ns =>
    if kind = .row then do
      let cells ← renderCells children
      let rows ← renderRows ns
      return formatRow cells :: rows
    else renderRows ns

def renderCells : List Node → Pass (List (List String))
  | [] => return []
  | ⟨kind, _, _, children⟩ :: ns =>
    if kind = .cell then do
      let parts ← renderParts children
      let cells ← renderCells ns
      return parts :: cells
    else renderCells ns

def renderParts : List Node → Pass (List String)
  | [] => return []
  | ⟨kind, text, attributes, children⟩ :: ns =>
    if kind = .cell then do
      let part ← render ⟨kind, text, attributes, children⟩
      let parts ← renderParts ns
      return part :: parts
    else renderParts ns
end

def renderFrom (n : Node) (c : Context) : Except ShapeViolation String × Context :=
  n.render.runFrom c

def renderChildrenFrom (n : Node) (c : Context) : Except ShapeViolation String × Context :=
  Pass.runFrom (String.join <$> renderList n.children) c

/-- Renders a tree that may be absent; nothing becomes nothing. -/
def renderOptionFrom (n : Option Node) (c : Context) : Except ShapeViolation String × Context :=
  match n with
  | none => (.ok "", c)
  | some n => n.renderFrom c

def toMarkdown (n : Node) : Except ShapeViolation String := (n.renderFrom {}).1

end Node

end Treemark
