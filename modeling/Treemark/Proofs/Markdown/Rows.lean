import Mathlib.Algebra.GroupWithZero.Nat
import Treemark.Proofs.Markdown.Indented

/-!
# Rows of tables

A row has a gap on both sides of each part, and one more on each side of a cell. Where no part is empty and
none has a bar in it, two gaps behind one another can only be the end of a cell, so that the row shows where
its cells and their parts begin and end.
-/

namespace Treemark.Markdown

/-! ## Widths -/

theorem length_cellText (parts : List String) :
    (cellText parts).length = (parts.map String.length).sum + 3 * (parts.length + 2) := by
  have hgap : gap.length = 3 := rfl
  have hparts : (parts.flatMap fun part => part.toList ++ gap).length =
      (parts.map String.length).sum + 3 * parts.length := by
    induction parts with
    | nil => rfl
    | cons part parts ih =>
        simp only [List.flatMap_cons, List.length_append, ih, List.map_cons, List.sum_cons,
          List.length_cons, String.length_toList, hgap]
        omega
  simp only [cellText, List.length_append, hparts, hgap]
  omega

theorem length_flatMap_cellText (cells : List (List String)) :
    (cells.flatMap cellText).length =
      (cells.flatten.map String.length).sum + 3 * (2 * cells.length + cells.flatten.length) := by
  induction cells with
  | nil => rfl
  | cons parts cells ih =>
      simp only [List.flatMap_cons, List.length_append, length_cellText, ih, List.flatten_cons,
        List.map_append, List.sum_append, List.length_cons]
      omega

theorem length_formatRow {cells : List (List String)} (h : cells ≠ []) :
    (formatRow cells).length =
      (cells.flatten.map String.length).sum + 3 * (2 * cells.length + cells.flatten.length - 1) := by
  have hcells := List.length_pos_iff.mpr h
  have hlength : (formatRow cells).length = (cells.flatMap cellText).length - 3 := by
    simp [formatRow, gap]
  rw [hlength, length_flatMap_cellText]
  omega

/-! ## Boundaries -/

/-- A part that can be told apart from the gaps around it. -/
def Legible (part : String) : Prop := part ≠ "" ∧ '|' ∉ part.toList

variable {s t : List Char}

/-- The first bar behind a part is that of the gap. -/
theorem append_gap_inj {p q : List Char} (hp : '|' ∉ p) (hq : '|' ∉ q)
    (h : p ++ (gap ++ s) = q ++ (gap ++ t)) : p = q ∧ s = t := by
  have hbar {r : List Char} (hr : '|' ∉ r) : '|' ∉ r ++ [' '] := by simp [hr]
  have hsplit (r u : List Char) : r ++ (gap ++ u) = r ++ [' '] ++ '|' :: ' ' :: u := by simp [gap]
  rw [hsplit, hsplit] at h
  obtain ⟨hparts, hbehind⟩ := append_delimiter_inj (hbar hp) (hbar hq) h
  exact ⟨List.append_cancel_right hparts, (List.cons.inj hbehind).2⟩

/-- A cell ends with the first part that is missing. -/
theorem parts_gap_inj {parts parts' : List String} (hparts : ∀ p ∈ parts, Legible p)
    (hparts' : ∀ p ∈ parts', Legible p)
    (h : (parts.flatMap fun part => part.toList ++ gap) ++ (gap ++ s) =
      (parts'.flatMap fun part => part.toList ++ gap) ++ (gap ++ t)) : parts = parts' ∧ s = t := by
  -- a gap in the place of a part would be a part without characters
  have hmissing {p : String} {u v : List Char} (hp : Legible p)
      (h : gap ++ u = p.toList ++ (gap ++ v)) : False := by
    obtain ⟨hempty, -⟩ := append_gap_inj (p := []) List.not_mem_nil hp.2 h
    exact hp.1 (String.toList_eq_nil_iff.mp hempty.symm)
  induction parts generalizing parts' with
  | nil =>
      cases parts' with
      | nil => exact ⟨rfl, by simpa using h⟩
      | cons part' parts' =>
          rw [List.flatMap_nil, List.nil_append, List.flatMap_cons, List.append_assoc,
            List.append_assoc] at h
          exact (hmissing (hparts' part' List.mem_cons_self) h).elim
  | cons part parts ih =>
      obtain ⟨hpart, hparts⟩ := List.forall_mem_cons.mp hparts
      cases parts' with
      | nil =>
          rw [List.flatMap_nil, List.nil_append, List.flatMap_cons, List.append_assoc,
            List.append_assoc] at h
          exact (hmissing hpart h.symm).elim
      | cons part' parts' =>
          obtain ⟨hpart', hparts'⟩ := List.forall_mem_cons.mp hparts'
          simp only [List.flatMap_cons, List.append_assoc] at h
          obtain ⟨hfirst, hbehind⟩ := append_gap_inj hpart.2 hpart'.2 h
          obtain ⟨hothers, hrest⟩ := ih hparts hparts' hbehind
          exact ⟨by rw [String.toList_inj.mp hfirst, hothers], hrest⟩

theorem cellText_append_inj {parts parts' : List String} (hparts : ∀ p ∈ parts, Legible p)
    (hparts' : ∀ p ∈ parts', Legible p) (h : cellText parts ++ s = cellText parts' ++ t) :
    parts = parts' ∧ s = t := by
  simp only [cellText, List.append_assoc, List.append_right_inj] at h
  exact parts_gap_inj hparts hparts' h

theorem flatMap_cellText_inj {cells cells' : List (List String)}
    (hcells : ∀ parts ∈ cells, ∀ p ∈ parts, Legible p)
    (hcells' : ∀ parts ∈ cells', ∀ p ∈ parts, Legible p)
    (h : cells.flatMap cellText = cells'.flatMap cellText) : cells = cells' := by
  induction cells generalizing cells' with
  | nil =>
      cases cells' with
      | nil => rfl
      | cons parts' cells' => simp [cellText, gap] at h
  | cons parts cells ih =>
      cases cells' with
      | nil => simp [cellText, gap] at h
      | cons parts' cells' =>
          obtain ⟨hparts, hcells⟩ := List.forall_mem_cons.mp hcells
          obtain ⟨hparts', hcells'⟩ := List.forall_mem_cons.mp hcells'
          rw [List.flatMap_cons, List.flatMap_cons] at h
          obtain ⟨hfirst, hbehind⟩ := cellText_append_inj hparts hparts' h
          rw [hfirst, ih hcells hcells' hbehind]

/-- The gap that a row lacks behind its last cell. -/
theorem formatRow_append_gap {cells : List (List String)} (h : cells ≠ []) :
    (formatRow cells).toList ++ gap = cells.flatMap cellText := by
  obtain ⟨parts, cells, rfl⟩ := List.exists_cons_of_ne_nil h
  rw [formatRow_toList, flatMap_cellText]

theorem formatRow_eq_empty_iff {cells : List (List String)} : formatRow cells = "" ↔ cells = [] := by
  refine ⟨fun hempty => ?_, fun hnil => hnil ▸ rfl⟩
  by_contra hcells
  have hlength := length_formatRow hcells
  have hpos := List.length_pos_iff.mpr hcells
  rw [hempty, String.length_empty] at hlength
  omega

/-- A row of cells is as wide as their parts together with the gaps that it has around them, and a row without
cells is empty. Rows of parts that have characters, but no bars, look the same only if they have the same parts
in the same cells. -/
theorem formatRow_layout :
    (∀ cells : List (List String), cells ≠ [] → (formatRow cells).length =
      (cells.flatten.map String.length).sum + 3 * (2 * cells.length + cells.flatten.length - 1)) ∧
    formatRow [] = "" ∧
    ∀ cells cells' : List (List String),
      (∀ parts ∈ cells, ∀ part ∈ parts, part ≠ "" ∧ '|' ∉ part.toList) →
      (∀ parts ∈ cells', ∀ part ∈ parts, part ≠ "" ∧ '|' ∉ part.toList) →
      (formatRow cells = formatRow cells' ↔ cells = cells') := by
  refine ⟨fun cells h => length_formatRow h, rfl, fun cells cells' hcells hcells' => ?_⟩
  refine ⟨fun h => ?_, fun h => h ▸ rfl⟩
  by_cases hnil : cells = []
  · rw [hnil, formatRow_eq_empty_iff.mpr rfl, eq_comm, formatRow_eq_empty_iff] at h
    rw [hnil, h]
  · have hnil' : cells' ≠ [] := fun hnil' =>
      hnil (formatRow_eq_empty_iff.mp (h.trans (formatRow_eq_empty_iff.mpr hnil')))
    refine flatMap_cellText_inj hcells hcells' ?_
    rw [← formatRow_append_gap hnil, ← formatRow_append_gap hnil', h]

/-- The part of blanks only, and the cell without parts, each keep their place in a row. -/
theorem formatRow_layout_blank :
    (formatRow [["é", " "], []]).length = 17 ∧
    formatRow [["é", " "], []] ≠ formatRow [["é"], [" "]] := by
  have hlegible : ∀ cells ∈ [[["é", " "], []], [["é"], [" "]]], ∀ parts ∈ cells, ∀ part ∈ parts,
      part ≠ "" ∧ '|' ∉ part.toList := by decide
  constructor
  · exact formatRow_layout.1 [["é", " "], []] (by decide)
  · have h := formatRow_layout.2.2 _ _ (hlegible [["é", " "], []] (by simp))
      (hlegible [["é"], [" "]] (by simp))
    exact fun hrows => absurd (h.mp hrows) (by decide)

end Treemark.Markdown
