import Treemark.Markdown.Render

/-!
# The trail of a rendering pass

The nodes that a pass comes to depend on the tree alone, and so do the places where it passes over a
node that is no cell. The trail of a tree lists them in order; the pass ends at the first node on it
that lacks a part.
-/

namespace Treemark

inductive Step where
  | visit (node : Node)
  /-- A node of this kind stands in a row without being a cell, and is passed over. -/
  | skip (kind : Kind)
  deriving DecidableEq, Repr

namespace Node

mutual
/-- The steps of rendering a tree whose nodes have all their parts. -/
def trail : Node → List Step
  | ⟨kind, text, attributes, children⟩ =>
    .visit ⟨kind, text, attributes, children⟩ ::
      match kind with
      | .item =>
        match children with
        | [] => []
        | content :: _ => trail content
      | .plain =>
        trailList children ++
          match children with
          | [] => []
          | ⟨_, _, _, grandchildren⟩ :: _ => trailList grandchildren
      | .itemize | .enumerate =>
        match children with
        | [] => []
        | ⟨_, _, _, items⟩ :: _ => trailList items
      | .table =>
        trailRows children ++
          match children with
          | [] => []
          | ⟨_, _, _, grandchildren⟩ :: _ => trailRows grandchildren
      | .paragraph | .verbatim | .bold | .italic | .title | .date | .figure | .reference
      | .horizontalRule | .hyperlink => []
      | .heading _ | .document | .underline | .row | .cell | .caption | .image | .label
      | .tableRule | .squareRoot | .formatted | .code => trailList children

def trailList : List Node → List Step
  | [] => []
  | n :: ns => trail n ++ trailList ns

def trailRows : List Node → List Step
  | [] => []
  | ⟨kind, _, _, children⟩ :: ns =>
    (if kind = .row then trailCells children else []) ++ trailRows ns

def trailCells : List Node → List Step
  | [] => []
  | ⟨kind, _, _, children⟩ :: ns =>
    (if kind = .cell then trailParts children else [.skip kind]) ++ trailCells ns

def trailParts : List Node → List Step
  | [] => []
  | ⟨kind, text, attributes, children⟩ :: ns =>
    (if kind = .cell then trail ⟨kind, text, attributes, children⟩ else []) ++ trailParts ns
end

def missing? (n : Node) : Option Part :=
  if n.children ≠ [] then none
  else
    match n.kind with
    | .item => some .itemContent
    | .itemize | .enumerate => some .listBody
    | .paragraph => some .paragraphBody
    | .table => some .rows
    | _ => none

def violation? (n : Node) : Option ShapeViolation := n.missing?.map fun p => ⟨n.kind, p⟩

end Node

namespace Step

def violation? : Step → Option ShapeViolation
  | visit n => n.violation?
  | skip _ => none

/-- The level of a step to a heading. -/
def level? : Step → Option HeadingLevel
  | visit ⟨.heading level, _, _, _⟩ => some level
  | _ => none

/-- The steps up to the first one that ends the pass, with that one. -/
def untilViolation : List Step → List Step
  | [] => []
  | s :: ss => if s.violation?.isSome then [s] else s :: untilViolation ss

end Step

namespace Node

def steps (n : Node) : List Step := Step.untilViolation n.trail

/-- The levels of the headings that a pass over a tree enters. -/
def levels (n : Node) : List HeadingLevel := n.steps.filterMap Step.level?

end Node

end Treemark
