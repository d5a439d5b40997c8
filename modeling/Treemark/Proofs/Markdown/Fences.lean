import Mathlib.Logic.Function.Iterate
import Treemark.Proofs.Markdown.Indented

/-!
# Fences

A block between two fences is one piece of a text, and it stays one where the text is joined with others,
becomes a part of a row or gets a separator. Where a text loses its bare lines, a block in it loses those
that it would lose as a text of its own.
-/

namespace Treemark.Markdown

/-- Some lines between two fences, behind the end of a line. -/
def block (content : String) : String := "\n```\n" ++ content ++ "```\n"

/-! ## Lines that are kept -/

/-- A fence is kept, and what stands behind it is like the start of a text. -/
theorem keptLines_fence (previous : List Char) (ls : List (List Char)) :
    keptLines previous ("```".toList :: ls) = "```".toList :: keptLines [] ls := by
  have hbare : isBare "```".toList = false := by decide
  have hperiod : endsInPeriod "```".toList = endsInPeriod [] := by decide
  simp only [keptLines, hbare, Bool.false_and, Bool.false_eq_true, ↓reduceIte]
  rw [keptLines_congr hperiod]

theorem keptLines_fences (previous : List Char) (ls ms ns : List (List Char)) :
    keptLines previous (ls ++ "```".toList :: (ms ++ "```".toList :: ns)) =
      keptLines previous ls ++ "```".toList ::
        (keptLines [] ms ++ "```".toList :: keptLines [] ns) := by
  rw [keptLines_append, keptLines_fence, keptLines_append, keptLines_fence]

/-- The texts of a list start with the end of a line, which is kept in front of the block. -/
theorem block_collapse {content text : String} (hcontent : Ended content.toList)
    (h : (block content).toList <:+: text.toList) :
    (block (collapse content)).toList <:+: (collapse ("\n" ++ text)).toList := by
  obtain ⟨a, b, hab⟩ := h
  have htext : ("\n" ++ text).toList = ('\n' :: a ++ ['\n']) ++
      (("```".toList ++ ['\n']) ++ (content.toList ++ (("```".toList ++ ['\n']) ++ b))) := by
    simp [← hab, block]
  have hfence : lines ("```".toList ++ ['\n']) = ["```".toList] := by decide
  have hlines : lines ("\n" ++ text).toList = ([] :: lines (a ++ ['\n'])) ++
      "```".toList :: (lines content.toList ++ "```".toList :: lines b) := by
    rw [htext, Ended.lines_append (.inr ⟨_, rfl⟩), Ended.lines_append (.inr ⟨_, rfl⟩),
      hcontent.lines_append, Ended.lines_append (.inr ⟨_, rfl⟩), hfence]
    simp [lines_newline]
  have hfirst (ls : List (List Char)) : keptLines [] ([] :: ls) = [] :: keptLines [] ls := rfl
  obtain ⟨front, hfront⟩ := exists_unlines_cons [] (keptLines [] (lines (a ++ ['\n'])))
  refine ⟨front, unlines (keptLines [] (lines b)), ?_⟩
  have hcollapse : (collapse ("\n" ++ text)).toList = front ++ ['\n'] ++ "```".toList ++
      '\n' :: ((collapse content).toList ++ "```".toList ++
        '\n' :: unlines (keptLines [] (lines b))) := by
    simp only [collapse, String.toList_ofList, hlines, keptLines_fences, unlines_append,
      unlines_cons, hfirst, ← hfront, List.append_assoc]
  rw [hcollapse]
  simp [block]

/-! ## Joined texts -/

theorem infix_join {texts : List String} {t : String} (h : t ∈ texts) :
    t.toList <:+: (String.join texts).toList := by
  obtain ⟨a, b, rfl⟩ := List.append_of_mem h
  exact ⟨(String.join a).toList, (String.join b).toList, by simp⟩

theorem infix_joinMap {texts : List String} {t : String} (h : t ∈ texts) {f : String → String}
    (hf : ∀ t, t.toList <:+: (f t).toList) : t.toList <:+: (String.join (texts.map f)).toList :=
  (hf t).trans (infix_join (List.mem_map_of_mem h))

theorem infix_between (lead t rest : String) : t.toList <:+: (lead ++ t ++ rest).toList :=
  ⟨lead.toList, rest.toList, by simp⟩

theorem infix_behind (lead t : String) : t.toList <:+: (lead ++ t).toList := by
  simpa using infix_between lead t ""

theorem infix_before (t rest : String) : t.toList <:+: (t ++ rest).toList := by
  simpa using infix_between "" t rest

/-! ## Tables -/

theorem infix_rowText {cells : List (List String)} {parts : List String} {t : String}
    (hparts : parts ∈ cells) (ht : t ∈ parts) : t.toList <:+: rowText cells := by
  have hcell : t.toList <:+: gap ++ parts.flatMap fun part => part.toList ++ gap := by
    obtain ⟨a, b, rfl⟩ := List.append_of_mem ht
    exact ⟨gap ++ a.flatMap fun part => part.toList ++ gap,
      gap ++ b.flatMap fun part => part.toList ++ gap, by simp⟩
  induction cells with
  | nil => cases hparts
  | cons first cells ih =>
      cases cells with
      | nil =>
          cases List.mem_singleton.mp hparts
          exact hcell
      | cons next cells =>
          rw [rowText]
          rcases List.mem_cons.mp hparts with rfl | hparts
          · exact hcell.trans ⟨[], gap ++ rowText (next :: cells), by simp [cellText]⟩
          · exact (ih hparts).trans (List.suffix_append _ _).isInfix

theorem infix_formatRow {cells : List (List String)} {parts : List String} {t : String}
    (hparts : parts ∈ cells) (ht : t ∈ parts) : t.toList <:+: (formatRow cells).toList := by
  rw [formatRow_toList]
  exact infix_rowText hparts ht

theorem infix_dropWhile {p : Char → Bool} {b s : List Char} {c : Char} (hc : p c = false)
    (h : c :: b <:+: s) : c :: b <:+: s.dropWhile p := by
  induction s with
  | nil => exact h
  | cons d s ih =>
      rw [List.dropWhile_cons]
      split
      · rename_i hd
        rcases List.infix_cons_iff.mp h with hprefix | hinfix
        · obtain ⟨rfl, -⟩ := List.cons_prefix_cons.mp hprefix
          rw [hd] at hc
          cases hc
        · exact ih hinfix
      · exact h

/-- The separator stands behind the first line feed, which is no later than the one of the piece. -/
theorem newline_infix_insertSeparator {rows : String} {s : List Char} (h : '\n' :: s <:+: rows.toList)
    (count : Nat) : '\n' :: s <:+: (insertSeparator rows count).toList := by
  rw [insertSeparator]
  split
  · exact h
  · rename_i newline rest hrest
    have hinfix := infix_dropWhile (p := (· ≠ '\n')) (by decide) h
    rw [hrest] at hinfix
    rw [String.toList_ofList]
    exact hinfix.trans (List.suffix_append _ _).isInfix

theorem block_insertSeparator {content rows : String}
    (h : (block content).toList <:+: rows.toList) (count : Nat) :
    (block content).toList <:+: (insertSeparator rows count).toList := by
  have hblock : (block content).toList = '\n' :: ("```\n" ++ content ++ "```\n").toList := by
    simp [block]
  rw [hblock] at h ⊢
  exact newline_infix_insertSeparator h count

/-! ## Blocks that are kept as they are -/

theorem keptLines_eq_self {previous : List Char} {ls : List (List Char)}
    (h : ∀ l ∈ ls, isBare l = false) : keptLines previous ls = ls := by
  induction ls generalizing previous with
  | nil => rfl
  | cons l ls ih =>
      rw [List.forall_mem_cons] at h
      simp only [keptLines, h.1, ih h.2, Bool.false_and, Bool.false_eq_true, ↓reduceIte]

/-- Nothing is dropped of a text without bare lines, in which every line feed ends a line just as it is. -/
theorem collapse_eq_self {text : String} (hreturn : '\r' ∉ text.toList)
    (hbare : ∀ l ∈ text.toList.splitOn '\n', isBare l = false) :
    collapse (text ++ "\n") = text ++ "\n" := by
  have htext : (text ++ "\n").toList = text.toList ++ ['\n'] := String.toList_append
  rw [← String.toList_inj, collapse, String.toList_ofList, htext, lines_eq_splitOn hreturn,
    keptLines_eq_self hbare, unlines_splitOn]

end Treemark.Markdown
