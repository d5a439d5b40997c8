import Treemark.Proofs.Markdown.Kept

/-!
# Settled texts

Lines that were kept once are kept again, whatever line stands in front of them. Dropping the bare lines of
a text twice therefore changes nothing, unless a line that was kept ends in a carriage return: the line
feed behind it makes that a part of the end of the line, which is lost the second time.
-/

namespace Treemark.Markdown

/-! ## Keeping lines twice -/

theorem keptLines_sublist (previous : List Char) (ls : List (List Char)) :
    (keptLines previous ls).Sublist ls := by
  induction ls generalizing previous with
  | nil => exact .slnil
  | cons l ls ih =>
      simp only [keptLines]
      split
      · exact (ih previous).cons l
      · exact (ih l).cons_cons l

/-- What is kept behind some line is kept again behind any line that ends in a period if that one does. -/
theorem keptLines_keptLines {p q : List Char} (h : endsInPeriod p = true → endsInPeriod q = true)
    (ls : List (List Char)) : keptLines q (keptLines p ls) = keptLines p ls := by
  induction ls generalizing p q with
  | nil => rfl
  | cons l ls ih =>
      simp only [keptLines]
      split
      · exact ih h
      · rename_i hkept
        have hagain : ¬(isBare l && !endsInPeriod q) = true := by
          cases hp : endsInPeriod p <;> simp_all
        rw [keptLines, if_neg hagain, ih id]

theorem newline_notMem_of_mem_keptLines {previous s l : List Char}
    (hl : l ∈ keptLines previous (lines s)) : '\n' ∉ l :=
  (of_mem_lines ((keptLines_sublist previous _).subset hl)).1

/-! ## Carriage returns at the ends of lines -/

theorem withoutReturn_eq_self_iff {l : List Char} :
    withoutReturn l = l ↔ l.getLast? ≠ some '\r' := by
  refine ⟨fun h hlast => ?_, withoutReturn_eq_self⟩
  rw [withoutReturn, if_pos hlast] at h
  have hlength := congrArg List.length h
  obtain ⟨m, rfl⟩ := List.getLast?_eq_some_iff.mp hlast
  simp at hlength

theorem return_newline_infix_line_iff {l : List Char} (h : '\n' ∉ l) (s : List Char) :
    ['\r', '\n'] <:+: l ++ '\n' :: s ↔ l.getLast? = some '\r' ∨ ['\r', '\n'] <:+: s := by
  induction l with
  | nil => simp [List.infix_cons_iff]
  | cons c l ih =>
      obtain ⟨-, hl⟩ := not_or.mp (mt List.mem_cons.mpr h)
      rw [List.cons_append, List.infix_cons_iff, ih hl]
      cases l with
      | nil => simp [eq_comm]
      | cons d l =>
          have hd : '\n' ≠ d := fun hd => hl (hd ▸ List.mem_cons_self)
          simp [hd, List.getLast?_cons_cons]

theorem return_newline_infix_unlines_iff {ls : List (List Char)} (h : ∀ l ∈ ls, '\n' ∉ l) :
    ['\r', '\n'] <:+: unlines ls ↔ ∃ l ∈ ls, l.getLast? = some '\r' := by
  induction ls with
  | nil => simp [unlines]
  | cons l ls ih =>
      obtain ⟨hl, hls⟩ := List.forall_mem_cons.mp h
      simp [unlines_cons, return_newline_infix_line_iff hl, ih hls]

theorem getLast?_ne_of_mem_keptLines {previous s l : List Char} (hs : '\r' ∉ s)
    (hl : l ∈ keptLines previous (lines s)) : l.getLast? ≠ some '\r' := by
  intro hlast
  obtain ⟨-, hsubset⟩ := of_mem_lines ((keptLines_sublist previous _).subset hl)
  exact hs (hsubset (List.mem_of_getLast? hlast))

theorem collapse_collapse_toList (text : String) :
    (collapse (collapse text)).toList =
      unlines (keptLines [] ((keptLines [] (lines text.toList)).map withoutReturn)) := by
  rw [collapse, String.toList_ofList, collapse, String.toList_ofList,
    lines_unlines fun l => newline_notMem_of_mem_keptLines]

theorem collapse_collapse_eq_iff (text : String) : collapse (collapse text) = collapse text ↔
    ∀ l ∈ keptLines [] (lines text.toList), l.getLast? ≠ some '\r' := by
  have hkept : ∀ l ∈ keptLines [] (lines text.toList), '\n' ∉ l :=
    fun l => newline_notMem_of_mem_keptLines
  rw [← String.toList_inj, collapse_collapse_toList, collapse, String.toList_ofList]
  generalize hls : keptLines [] (lines text.toList) = ls at hkept ⊢
  constructor
  · intro h
    have hsublist := keptLines_sublist [] (ls.map withoutReturn)
    have hclean : ∀ l ∈ keptLines [] (ls.map withoutReturn), '\n' ∉ l := by
      intro l hl
      obtain ⟨m, hm, rfl⟩ := List.mem_map.mp (hsublist.subset hl)
      exact fun hmem => hkept m hm (withoutReturn_subset m hmem)
    -- all lines are kept the second time, and then each is as it was
    have hsame := unlines_inj hclean hkept h
    have hmap : ls.map withoutReturn = ls.map id := by
      rw [← hsublist.eq_of_length (by rw [hsame, List.length_map]), hsame, List.map_id]
    exact fun l hl => withoutReturn_eq_self_iff.mp (List.map_inj_left.mp hmap l hl)
  · intro h
    rw [map_withoutReturn_eq_self h, ← hls, keptLines_keptLines id]

/-- Dropping bare lines a second time changes nothing just if no carriage return is in front of a line
feed after the first time, that is, if no line that is kept ends in one. -/
theorem collapse_collapse (text : String) :
    (collapse (collapse text) = collapse text ↔ ¬['\r', '\n'] <:+: (collapse text).toList) ∧
    (['\r', '\n'] <:+: (collapse text).toList ↔
      ∃ l ∈ keptLines [] (lines text.toList), l.getLast? = some '\r') ∧
    ('\r' ∉ text.toList → collapse (collapse text) = collapse text) := by
  have hinfix : ['\r', '\n'] <:+: (collapse text).toList ↔
      ∃ l ∈ keptLines [] (lines text.toList), l.getLast? = some '\r' := by
    rw [collapse, String.toList_ofList]
    exact return_newline_infix_unlines_iff fun l => newline_notMem_of_mem_keptLines
  refine ⟨?_, hinfix, fun hreturn => ?_⟩
  · rw [collapse_collapse_eq_iff, hinfix]
    simp
  · rw [collapse_collapse_eq_iff]
    exact fun l => getLast?_ne_of_mem_keptLines hreturn

/-! ## Settled texts -/

/-- A text of whole lines, none of which is dropped, whatever line stands in front of them. -/
structure Settled (s : List Char) : Prop where
  ended : Ended s
  kept : ∀ previous, unlines (keptLines previous (lines s)) = s

theorem settled_keptLines {s : List Char} (hs : '\r' ∉ s) :
    Settled (unlines (keptLines [] (lines s))) := by
  refine ⟨ended_unlines _, fun previous => ?_⟩
  have hperiod : endsInPeriod [] = true → endsInPeriod previous = true := nofun
  rw [lines_unlines fun l => newline_notMem_of_mem_keptLines,
    map_withoutReturn_eq_self fun l => getLast?_ne_of_mem_keptLines hs, keptLines_keptLines hperiod]

/-- What stands in front of a settled text loses its bare lines as it does alone. -/
theorem collapse_settled {s r : String} (hs : Ended s.toList) (hr : Settled r.toList) (b : String) :
    ∃ behind, collapse (s ++ r ++ b) = collapse s ++ r ++ behind := by
  have hlines : lines (s.toList ++ (r.toList ++ b.toList)) =
      lines s.toList ++ (lines r.toList ++ lines b.toList) := by
    rw [hs.lines_append, hr.ended.lines_append]
  let previous := (keptLines [] (lines s.toList)).getLastD []
  let last := (keptLines previous (lines r.toList)).getLastD previous
  refine ⟨String.ofList (unlines (keptLines last (lines b.toList))), ?_⟩
  rw [← String.toList_inj]
  simp only [collapse, String.toList_append, String.toList_ofList, hlines, keptLines_append,
    unlines_append, hr.kept, List.append_assoc]
  rfl

theorem exists_settled {t : String} (ht : '\r' ∉ t.toList) :
    ∃ rest, collapse ("\n" ++ t) = "\n" ++ rest ∧ Settled rest.toList := by
  refine ⟨String.ofList (unlines (keptLines [] (lines t.toList))), ?_, ?_⟩
  · rw [← String.toList_inj, collapse_newline String.toList_append]
    simp
  · rw [String.toList_ofList]
    exact settled_keptLines ht

theorem collapse_newline_ended (t : String) : ∃ u, collapse ("\n" ++ t) = u ++ "\n" := by
  obtain ⟨u, hu⟩ := exists_unlines_cons [] (keptLines [] (lines t.toList))
  refine ⟨String.ofList u, ?_⟩
  rw [← String.toList_inj, collapse_newline String.toList_append]
  simpa [unlines_cons] using hu

/-- Behind a line feed a settled text stays in the text of a list. -/
theorem settled_infix_collapse {r text : String} (hr : Settled r.toList)
    (h : '\n' :: r.toList <:+: text.toList) :
    '\n' :: r.toList <:+: (collapse ("\n" ++ text)).toList := by
  obtain ⟨a, b, hab⟩ := h
  have htext : "\n" ++ text = "\n" ++ (String.ofList a ++ "\n") ++ r ++ String.ofList b := by
    rw [← String.toList_inj]
    simp [← hab]
  obtain ⟨u, hu⟩ := collapse_newline_ended (String.ofList a ++ "\n")
  have hended : Ended ("\n" ++ (String.ofList a ++ "\n")).toList := .inr ⟨'\n' :: a, by simp⟩
  obtain ⟨behind, hbehind⟩ := collapse_settled hended hr (String.ofList b)
  refine ⟨u.toList, behind.toList, ?_⟩
  rw [htext, hbehind, hu]
  simp

end Treemark.Markdown
