import Treemark.Proofs.Markdown.Columns
import Treemark.Proofs.Markdown.Items

/-!
# Tables

A table shows its own rows and then the rows of its first child, one below the other, with a separator behind
the first line. Nodes of other kinds that stand among the rows, the cells or the parts of cells leave no trace
there; parts of any kind are counted as columns, though only those of the table's own rows.
-/

namespace Treemark

namespace Node

open Markdown

/-! ## Rows in turn -/

/-- The parts of a cell, which are cells themselves, give these texts. -/
def PartsInTurn (c : Context) (cell : Node) (parts : List String) (after : Context) : Prop :=
  RenderInTurn c (cell.children.filter isCell) parts after

/-- The cells of a row give a row of this text. -/
def CellsInTurn (c : Context) (row : Node) (text : String) (after : Context) : Prop :=
  ∃ cells, InTurn PartsInTurn c (row.children.filter isCell) cells after ∧ text = formatRow cells

/-- The rows give these texts. -/
def RowsInTurn : Context → List Node → List String → Context → Prop := InTurn CellsInTurn

variable {c after : Context}

theorem renderCells_eq_ok_iff {ns : List Node} {cells : List (List String)} :
    (renderCells ns).runFrom c = (.ok cells, after) ↔
      InTurn PartsInTurn c (ns.filter isCell) cells after := by
  rw [renderCells_eq, mapM_eq_ok_iff]
  simp only [renderList_eq_ok_iff]
  rfl

theorem renderRows_eq_ok_iff {ns : List Node} {texts : List String} :
    (renderRows ns).runFrom c = (.ok texts, after) ↔ RowsInTurn c (ns.filter isRow) texts after := by
  rw [renderRows_eq, mapM_eq_ok_iff]
  simp only [Pass.map_eq_ok_iff, renderCells_eq_ok_iff]
  rfl

/-! ## The layout -/

/-- The rows of a table with the separator behind the first line. -/
def tableText (texts : List String) (count : Nat) : String :=
  insertSeparator (String.join (texts.map (· ++ "\n"))) count ++ "\n\n"

theorem renderFrom_table_eq_ok {text attributes markdown : String} {first : Node}
    {children : List Node}
    (h : renderFrom ⟨.table, text, attributes, first :: children⟩ c = (.ok markdown, after)) :
    ∃ texts, RowsInTurn c ((first :: children).filter isRow ++ first.children.filter isRow) texts after ∧
      markdown = tableText texts (partCount (first :: children)) := by
  simp only [renderFrom, render_table, Pass.bind_eq_ok_iff, Pass.pure_eq_ok_iff, renderRows_eq_ok_iff] at h
  obtain ⟨own, between, hown, nested, _, hnested, rfl, rfl⟩ := h
  exact ⟨own ++ nested, hown.append hnested, rfl⟩

theorem insertSeparator_line {header : String} (h : '\n' ∉ header.toList) (rest : String) (count : Nat) :
    insertSeparator (header ++ "\n" ++ rest) count =
      header ++ "\n" ++ separator header count ++ "\n" ++ rest := by
  have hline : ∀ c ∈ header.toList, decide (c ≠ '\n') = true := by
    intro c hc
    exact decide_eq_true fun hfeed => h (hfeed ▸ hc)
  have hrows : (header ++ "\n" ++ rest).toList = header.toList ++ '\n' :: rest.toList := by simp
  rw [insertSeparator, hrows, List.takeWhile_append_of_pos hline, List.dropWhile_append_of_pos hline]
  rw [← String.toList_inj]
  simp

theorem tableText_line {header rest : String} {texts : List String}
    (hrows : String.join (texts.map (· ++ "\n")) = header ++ "\n" ++ rest)
    (h : '\n' ∉ header.toList) (count : Nat) :
    tableText texts count = header ++ "\n" ++ separator header count ++ "\n" ++ rest ++ "\n\n" := by
  rw [tableText, hrows, insertSeparator_line h]

theorem exists_firstLine {texts : List String} (h : texts ≠ []) : ∃ header rest : String,
    String.join (texts.map (· ++ "\n")) = header ++ "\n" ++ rest ∧ '\n' ∉ header.toList := by
  have hfeed : '\n' ∈ (String.join (texts.map (· ++ "\n"))).toList := by
    obtain ⟨text, texts, rfl⟩ := List.exists_cons_of_ne_nil h
    simp
  obtain ⟨header, rest, hrows, hheader⟩ := List.eq_append_cons_of_mem hfeed
  refine ⟨String.ofList header, String.ofList rest, ?_, by simpa using hheader⟩
  rw [← String.toList_inj, hrows]
  simp

/-- The separator is the second line, as wide as the first one. -/
theorem splitOn_tableText {row : String} (h : '\n' ∉ row.toList) (rows : List String) (count : Nat) :
    ∃ line behind, line.length = row.length ∧
      (tableText (row :: rows) count).toList.splitOn '\n' = row.toList :: line :: behind ∧
      (String.join ((row :: rows).map (· ++ "\n")) ++ "\n\n").toList.splitOn '\n' =
        row.toList :: behind := by
  let rest := String.join (rows.map (· ++ "\n"))
  have hrows : String.join ((row :: rows).map (· ++ "\n")) = row ++ "\n" ++ rest := by
    rw [List.map_cons, String.join_cons]
  have hline : '\n' ∉ (separator row count).toList := by
    intro hmem
    rcases eq_dash_or_bar_of_mem hmem with hc | hc <;> exact absurd hc (by decide)
  have hmarkdown : (tableText (row :: rows) count).toList = row.toList ++ '\n' ::
      ((separator row count).toList ++ '\n' :: (rest ++ "\n\n").toList) := by
    rw [tableText_line hrows h]
    simp
  have hplain : (String.join ((row :: rows).map (· ++ "\n")) ++ "\n\n").toList =
      row.toList ++ '\n' :: (rest ++ "\n\n").toList := by
    rw [hrows]
    simp
  refine ⟨(separator row count).toList, (rest ++ "\n\n").toList.splitOn '\n',
    length_separator row count, ?_, ?_⟩
  · rw [hmarkdown, List.splitOn_append_cons_self_of_not_mem h,
      List.splitOn_append_cons_self_of_not_mem hline]
  · rw [hplain, List.splitOn_append_cons_self_of_not_mem h]

/-! ## Strays -/

/-- The rows among some nodes, with nothing but their cells. -/
def rowsOnly (ns : List Node) : List Node :=
  (ns.filter isRow).map fun r => { r with children := r.children.filter isCell }

theorem renderCells_filter (ns : List Node) : renderCells (ns.filter isCell) = renderCells ns := by
  rw [renderCells_eq, renderCells_eq, List.filter_filter]
  simp only [Bool.and_self]

theorem renderRows_rowsOnly (ns : List Node) : renderRows (rowsOnly ns) = renderRows ns := by
  induction ns with
  | nil => rfl
  | cons n ns ih =>
      obtain ⟨kind, text, attributes, children⟩ := n
      rw [rowsOnly] at ih
      by_cases hkind : kind = .row <;>
        simp [rowsOnly, renderRows, isRow, hkind, renderCells_filter, ih]

theorem partCount_rowsOnly (ns : List Node) : partCount (rowsOnly ns) = partCount ns := by
  have hrow : ∀ r : Node, isRow { r with children := r.children.filter isCell } = isRow r := fun _ => rfl
  have hrows : (rowsOnly ns).filter isRow = rowsOnly ns := by
    simp [rowsOnly, List.filter_map, Function.comp_def, hrow]
  simp only [partCount, hrows]
  simp [rowsOnly, List.flatMap_map]

theorem render_table_congr {text text' attributes attributes' : String} {first first' : Node}
    {children children' : List Node}
    (hown : rowsOnly (first :: children) = rowsOnly (first' :: children'))
    (hnested : rowsOnly first.children = rowsOnly first'.children) :
    render ⟨.table, text, attributes, first :: children⟩ =
      render ⟨.table, text', attributes', first' :: children'⟩ := by
  have hrows := congrArg renderRows hown
  have hnestedRows := congrArg renderRows hnested
  have hcount := congrArg partCount hown
  simp only [renderRows_rowsOnly, partCount_rowsOnly] at hrows hnestedRows hcount
  rw [render_table, render_table, hrows, hnestedRows, hcount]

/-! ## Tables -/

/-- The text of a table shows its own rows and then those of its first child, each of them once, with a line
behind the first one that marks as many columns as there are nodes in the cells of its own rows. Nothing else
that stands among the rows or the cells has any effect. -/
theorem renderFrom_table_rows {text attributes markdown : String} {first : Node} {children : List Node}
    (h : renderFrom ⟨.table, text, attributes, first :: children⟩ c = (.ok markdown, after)) :
    let own := (first :: children).filter isRow
    let nested := first.children.filter isRow
    let cells := own.flatMap fun r => r.children.filter isCell
    let count := (cells.flatMap fun cell => cell.children).length
    (∃ texts : List String, RowsInTurn c (own ++ nested) texts after ∧
      texts.length = own.length + nested.length ∧
      (own ++ nested = [] → markdown = "\n\n") ∧
      (own ++ nested ≠ [] → ∃ header rest : String,
        String.join (texts.map (· ++ "\n")) = header ++ "\n" ++ rest ∧ '\n' ∉ header.toList ∧
        markdown = header ++ "\n" ++ separator header count ++ "\n" ++ rest ++ "\n\n") ∧
      ∀ row rows, texts = row :: rows → '\n' ∉ row.toList → ∃ line behind,
        line.length = row.length ∧ markdown.toList.splitOn '\n' = row.toList :: line :: behind ∧
        (String.join (texts.map (· ++ "\n")) ++ "\n\n").toList.splitOn '\n' = row.toList :: behind) ∧
    ∀ (text' attributes' : String) (first' : Node) (children' : List Node),
      rowsOnly (first :: children) = rowsOnly (first' :: children') →
      rowsOnly first.children = rowsOnly first'.children →
      renderFrom ⟨.table, text', attributes', first' :: children'⟩ c = (.ok markdown, after) := by
  intro own nested cells count
  obtain ⟨texts, htexts, rfl⟩ := renderFrom_table_eq_ok h
  have hlength : texts.length = own.length + nested.length := by
    rw [htexts.length_eq, List.length_append]
  refine ⟨⟨texts, htexts, hlength, fun hnone => ?_, fun hsome => ?_, fun row rows hrows hrow => ?_⟩, ?_⟩
  · rw [List.append_eq_nil_iff] at hnone
    rw [hnone.1, hnone.2, List.length_nil, List.length_eq_zero_iff] at hlength
    subst hlength
    rfl
  · have hne : texts ≠ [] := by
      intro hnil
      rw [hnil, List.length_nil, ← List.length_append, eq_comm, List.length_eq_zero_iff] at hlength
      exact hsome hlength
    obtain ⟨header, rest, hrows, hheader⟩ := exists_firstLine hne
    exact ⟨header, rest, hrows, hheader, tableText_line hrows hheader count⟩
  · subst hrows
    exact splitOn_tableText hrow rows count
  · intro text' attributes' first' children' hown hnested
    rwa [renderFrom, ← render_table_congr hown hnested]

/-- A row with a node that is no cell and a part that is none, between a first child that has a row and a
node that is no row. -/
theorem renderFrom_table_rows_strays :
    let cell (parts : List Node) : Node := ⟨.cell, "", "", parts⟩
    let part (text : String) : Node := cell [⟨.plain, text, "", []⟩]
    let stray : Node := ⟨.label, "x", "", []⟩
    let row : Node := ⟨.row, "", "", [cell [part "A", stray], stray, cell [part "B"]]⟩
    let nested : Node := ⟨.row, "", "", [cell [part "1"]]⟩
    let table : Node := ⟨.table, "", "", [⟨.formatted, "", "", [nested]⟩, row, stray]⟩
    let markdown := " | A |  |  | B | \n-----|----|------\n | 1 | \n\n\n"
    table.renderFrom {} = (.ok markdown, {}) ∧
      ∃ texts : List String, RowsInTurn {} [row, nested] texts {} ∧ ∃ header rest : String,
        String.join (texts.map (· ++ "\n")) = header ++ "\n" ++ rest ∧ '\n' ∉ header.toList ∧
        markdown = header ++ "\n" ++ separator header 3 ++ "\n" ++ rest ++ "\n\n" := by
  intro cell part stray row nested table markdown
  have hmarkdown : table.renderFrom {} = (.ok markdown, {}) := by decide +kernel
  obtain ⟨⟨texts, htexts, -, -, hsome, -⟩, -⟩ := renderFrom_table_rows hmarkdown
  exact ⟨hmarkdown, texts, htexts, hsome (List.cons_ne_nil _ _)⟩

end Node

end Treemark
