import Treemark.Markdown.Trail

/-!
# Forms of nodes

Nodes of many kinds are rendered by few rules. A node lacks a part, or it shows no more than a text of its own,
or it just holds its children together, or it is of one of the kinds with a rule of their own. What is said of
all trees is said of these forms, and a kind that joins one of them changes nothing else.
-/

namespace Treemark

/-- Nodes of these kinds give what their children give, whatever texts they have themselves. -/
def Kind.isGroup : Kind → Bool
  | document | underline | row | cell | caption | image | label | tableRule | squareRoot | formatted
  | code => true
  | _ => false

/-- Nodes of these kinds give their children one behind the other, headings below their titles. -/
def Kind.concatenates : Kind → Bool
  | heading _ => true
  | k => k.isGroup

theorem Kind.concatenates_cases {k : Kind} (h : k.concatenates = true) :
    (∃ level, k = heading level) ∨ k.isGroup = true := by
  cases k with
  | heading level => exact .inl ⟨level, rfl⟩
  | _ => exact .inr h

theorem Kind.concatenates_of_isGroup {k : Kind} (h : k.isGroup = true) : k.concatenates = true := by
  cases k with
  | heading level => rfl
  | _ => exact h

/-- A step that neither ends a pass nor counts a heading. -/
def Step.Quiet (s : Step) : Prop := s.violation? = none ∧ s.level? = none

namespace Node

open Markdown

/-- The node shows a text of its own, and a pass does not go on into it. -/
def isLeaf (n : Node) : Bool :=
  match n.kind with
  | .verbatim | .bold | .italic | .title | .date | .figure | .reference | .horizontalRule
  | .hyperlink => true
  | .paragraph => !n.children.isEmpty
  | .plain => n.children.isEmpty
  | _ => false

/-- The rule by which a node is rendered. -/
inductive Form : Node → Prop where
  | lacking {n : Node} {v : ShapeViolation} : n.violation? = some v → Form n
  | leaf {n : Node} : n.isLeaf = true → Form n
  | group {n : Node} : n.kind.isGroup = true → Form n
  | heading (level : HeadingLevel) (text attributes : String) (children : List Node) :
      Form ⟨.heading level, text, attributes, children⟩
  | item (text attributes : String) (content : Node) (children : List Node) :
      Form ⟨.item, text, attributes, content :: children⟩
  | plain (text attributes : String) (first : Node) (children : List Node) :
      Form ⟨.plain, text, attributes, first :: children⟩
  | list {kind : Kind} (hkind : kind = .itemize ∨ kind = .enumerate) (text attributes : String)
      (body : Node) (children : List Node) : Form ⟨kind, text, attributes, body :: children⟩
  | table (text attributes : String) (first : Node) (children : List Node) :
      Form ⟨.table, text, attributes, first :: children⟩

theorem form (n : Node) : n.Form := by
  obtain ⟨kind, text, attributes, children⟩ := n
  cases kind with
  | heading level => exact .heading level text attributes children
  | item =>
      cases children with
      | nil => exact .lacking rfl
      | cons content children => exact .item text attributes content children
  | plain =>
      cases children with
      | nil => exact .leaf rfl
      | cons first children => exact .plain text attributes first children
  | itemize | enumerate =>
      cases children with
      | nil => exact .lacking rfl
      | cons body children => exact .list (by simp) text attributes body children
  | table =>
      cases children with
      | nil => exact .lacking rfl
      | cons first children => exact .table text attributes first children
  | paragraph =>
      cases children with
      | nil => exact .lacking rfl
      | cons body children => exact .leaf rfl
  | _ => first | exact .leaf rfl | exact .group rfl

/-! ## The rules -/

variable {n : Node}

theorem render_lacking {v : ShapeViolation} (h : n.violation? = some v) : n.render = throw v := by
  obtain ⟨kind, text, attributes, children⟩ := n
  cases children with
  | cons => cases h
  | nil => cases kind <;> cases h <;> rfl

theorem trail_lacking {v : ShapeViolation} (h : n.violation? = some v) : n.trail = [.visit n] := by
  obtain ⟨kind, text, attributes, children⟩ := n
  cases children with
  | cons => cases h
  | nil => cases kind <;> cases h <;> rfl

theorem level?_lacking {v : ShapeViolation} (h : n.violation? = some v) :
    (Step.visit n).level? = none := by
  obtain ⟨kind, text, attributes, children⟩ := n
  cases children with
  | cons => cases h
  | nil => cases kind <;> cases h <;> rfl

theorem render_leaf (h : n.isLeaf = true) : ∃ text, n.render = pure text := by
  obtain ⟨kind, text, attributes, children⟩ := n
  cases kind <;> cases children <;> cases h <;> exact ⟨_, rfl⟩

theorem trail_leaf (h : n.isLeaf = true) : n.trail = [.visit n] := by
  obtain ⟨kind, text, attributes, children⟩ := n
  cases kind <;> cases children <;> cases h <;> rfl

theorem quiet_leaf (h : n.isLeaf = true) : (Step.visit n).Quiet := by
  obtain ⟨kind, text, attributes, children⟩ := n
  cases kind <;> cases children <;> cases h <;> exact ⟨rfl, rfl⟩

/-- The texts of the nodes, one directly behind the other. -/
def renderJoined (ns : List Node) : Pass String := do
  return String.join (← renderList ns)

theorem render_group (h : n.kind.isGroup = true) : n.render = renderJoined n.children := by
  obtain ⟨kind, text, attributes, children⟩ := n
  cases kind <;> cases h <;> rfl

theorem trail_group (h : n.kind.isGroup = true) : n.trail = .visit n :: trailList n.children := by
  obtain ⟨kind, text, attributes, children⟩ := n
  cases kind <;> cases h <;> rfl

theorem quiet_group (h : n.kind.isGroup = true) : (Step.visit n).Quiet := by
  obtain ⟨kind, text, attributes, children⟩ := n
  cases kind <;> cases children <;> cases h <;> exact ⟨rfl, rfl⟩

section

variable {kind : Kind} {text attributes : String} {first : Node} {children : List Node}

theorem render_heading {level : HeadingLevel} :
    render ⟨.heading level, text, attributes, children⟩ = do
      let number ← Pass.enterHeading level
      let body ← renderJoined children
      return (Kind.heading level).marker ++ " " ++ number ++ " " ++ text ++ "\n\n" ++ body ++ "\n\n" := by
  simp only [renderJoined, bind_assoc, pure_bind]
  rfl

theorem trail_heading {level : HeadingLevel} :
    trail ⟨.heading level, text, attributes, children⟩ =
      .visit ⟨.heading level, text, attributes, children⟩ :: trailList children := rfl

theorem violation?_heading {level : HeadingLevel} :
    violation? ⟨.heading level, text, attributes, children⟩ = none := by
  cases children <;> rfl

theorem render_item : render ⟨.item, text, attributes, first :: children⟩ = first.render := rfl

theorem trail_item : trail ⟨.item, text, attributes, first :: children⟩ =
    .visit ⟨.item, text, attributes, first :: children⟩ :: first.trail := rfl

theorem render_plain : render ⟨.plain, text, attributes, first :: children⟩ = do
    let own ← renderList (first :: children)
    let again ← renderList first.children
    return text ++ String.join ((own ++ again).map (" " ++ ·)) := by
  cases first
  rfl

theorem trail_plain : trail ⟨.plain, text, attributes, first :: children⟩ =
    .visit ⟨.plain, text, attributes, first :: children⟩ ::
      (trailList (first :: children) ++ trailList first.children) := by
  cases first
  rfl

theorem render_list (hkind : kind = .itemize ∨ kind = .enumerate) :
    render ⟨kind, text, attributes, first :: children⟩ = do
      let text ← Pass.inList do
        let lead := (← get).indent ++ kind.bullet
        let items ← renderList first.children
        return "\n" ++ String.join (items.map (lead ++ · ++ "\n")) ++ "\n"
      return collapse text := by
  cases first
  rcases hkind with rfl | rfl <;> rfl

theorem trail_list (hkind : kind = .itemize ∨ kind = .enumerate) :
    trail ⟨kind, text, attributes, first :: children⟩ =
      .visit ⟨kind, text, attributes, first :: children⟩ :: trailList first.children := by
  cases first
  rcases hkind with rfl | rfl <;> rfl

theorem quiet_list (hkind : kind = .itemize ∨ kind = .enumerate) :
    (Step.visit ⟨kind, text, attributes, first :: children⟩).Quiet := by
  rcases hkind with rfl | rfl <;> exact ⟨rfl, rfl⟩

theorem render_table : render ⟨.table, text, attributes, first :: children⟩ = do
    let own ← renderRows (first :: children)
    let nested ← renderRows first.children
    let rows := String.join ((own ++ nested).map (· ++ "\n"))
    return insertSeparator rows (partCount (first :: children)) ++ "\n\n" := by
  cases first
  rfl

theorem trail_table : trail ⟨.table, text, attributes, first :: children⟩ =
    .visit ⟨.table, text, attributes, first :: children⟩ ::
      (trailRows (first :: children) ++ trailRows first.children) := by
  cases first
  rfl

end

/-! ## Nodes one after the other -/

/-- The node is a cell in a cell of a row among some nodes. -/
def PartOf (m : Node) (ns : List Node) : Prop :=
  ∃ r ∈ ns, r.kind = .row ∧ ∃ c ∈ r.children, c.kind = .cell ∧ m ∈ c.children ∧ m.kind = .cell

variable (ns : List Node)

theorem isRow_iff : n.isRow = true ↔ n.kind = .row := beq_iff_eq

theorem isCell_iff : n.isCell = true ↔ n.kind = .cell := beq_iff_eq

theorem renderList_eq : renderList ns = ns.mapM render := by
  induction ns with
  | nil => rfl
  | cons n ns ih => rw [renderList, List.mapM_cons, ih]

theorem trailList_eq : trailList ns = ns.flatMap trail := by
  induction ns with
  | nil => rfl
  | cons n ns ih => rw [trailList, List.flatMap_cons, ih]

theorem renderParts_eq : renderParts ns = renderList (ns.filter isCell) := by
  induction ns with
  | nil => rfl
  | cons n ns ih =>
      obtain ⟨kind, text, attributes, children⟩ := n
      by_cases hkind : kind = .cell <;> simp [renderParts, renderList, isCell, hkind, ih]

theorem trailParts_eq : trailParts ns = trailList (ns.filter isCell) := by
  induction ns with
  | nil => rfl
  | cons n ns ih =>
      obtain ⟨kind, text, attributes, children⟩ := n
      by_cases hkind : kind = .cell <;> simp [trailParts, trailList, isCell, hkind, ih]

theorem renderCells_eq : renderCells ns =
    (ns.filter isCell).mapM fun c => renderList (c.children.filter isCell) := by
  induction ns with
  | nil => rfl
  | cons n ns ih =>
      obtain ⟨kind, text, attributes, children⟩ := n
      by_cases hkind : kind = .cell <;> simp [renderCells, renderParts_eq, isCell, hkind, ih]

theorem trailCells_eq : trailCells ns =
    ns.flatMap fun c => if c.isCell then trailList (c.children.filter isCell) else [.skip c.kind] := by
  induction ns with
  | nil => rfl
  | cons n ns ih =>
      obtain ⟨kind, text, attributes, children⟩ := n
      by_cases hkind : kind = .cell <;> simp [trailCells, trailParts_eq, isCell, hkind, ih]

theorem renderRows_eq : renderRows ns =
    (ns.filter isRow).mapM fun r => formatRow <$> renderCells r.children := by
  induction ns with
  | nil => rfl
  | cons n ns ih =>
      obtain ⟨kind, text, attributes, children⟩ := n
      by_cases hkind : kind = .row <;> simp [renderRows, isRow, hkind, ih]

theorem trailRows_eq : trailRows ns = (ns.filter isRow).flatMap fun r => trailCells r.children := by
  induction ns with
  | nil => rfl
  | cons n ns ih =>
      obtain ⟨kind, text, attributes, children⟩ := n
      by_cases hkind : kind = .row <;> simp [trailRows, isRow, hkind, ih]

end Node

end Treemark
