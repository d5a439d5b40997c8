import Treemark.Markdown.Lines

/-!
# Lines of texts

The lines of a text in closed form: what stands between its line feeds, without the carriage returns in
front of them. Texts of whole lines can be put together and taken apart again. Lines that are made a text
lose a carriage return at their ends, and nothing else.
-/

namespace Treemark.Markdown

/-! ## Texts by their characters -/

theorem lines_newline (s : List Char) : lines ('\n' :: s) = [] :: lines s := by
  simp only [lines]

theorem lines_ne_nil {s : List Char} (h : s ≠ []) : lines s ≠ [] := by
  rw [lines.eq_def]
  split
  · exact absurd rfl h
  · simp
  · simp
  · split <;> simp

theorem lines_return {s : List Char} (h : s.head? = some '\n') : lines ('\r' :: s) = lines s := by
  cases s with
  | nil => cases h
  | cons c s =>
      cases h
      simp only [lines]

theorem lines_char {c : Char} {s : List Char} (hc : c ≠ '\n')
    (hs : c = '\r' → s.head? ≠ some '\n') (hne : s ≠ []) :
    lines (c :: s) = (lines s).modifyHead (c :: ·) := by
  have hreturn : ∀ u, c = '\r' → ¬ s = '\n' :: u := by
    rintro u hr rfl
    exact hs hr rfl
  rw [lines]
  · cases hl : lines s with
    | nil => exact absurd hl (lines_ne_nil hne)
    | cons l ls => rfl
  · exact hc
  · exact hreturn

theorem lines_char_char {c d : Char} (hc : c ≠ '\n') (hd : d ≠ '\n') (s : List Char) :
    lines (c :: d :: s) = (lines (d :: s)).modifyHead (c :: ·) :=
  lines_char hc (fun _ => by simpa using hd) (List.cons_ne_nil d s)

/-! ## Texts up to a delimiter -/

/-- The first delimiter in a text shows what stands in front of it. -/
theorem append_delimiter_inj {c : Char} {l m s t : List Char} (hl : c ∉ l) (hm : c ∉ m)
    (h : l ++ c :: s = m ++ c :: t) : l = m ∧ s = t := by
  have hsplit := congrArg (List.splitOn c) h
  rw [List.splitOn_append_cons_self_of_not_mem hl, List.splitOn_append_cons_self_of_not_mem hm,
    List.cons.injEq] at hsplit
  obtain rfl := hsplit.1
  exact ⟨rfl, (List.cons.inj (List.append_cancel_left h)).2⟩

/-! ## Texts by their lines -/

/-- A line without the carriage return that may stand in front of its line feed. -/
def withoutReturn (l : List Char) : List Char := if l.getLast? = some '\r' then l.dropLast else l

theorem withoutReturn_eq_self {l : List Char} (h : l.getLast? ≠ some '\r') : withoutReturn l = l :=
  if_neg h

theorem map_withoutReturn_eq_self {ls : List (List Char)} (h : ∀ l ∈ ls, l.getLast? ≠ some '\r') :
    ls.map withoutReturn = ls := by
  have hmap : ls.map withoutReturn = ls.map id :=
    List.map_congr_left fun l hl => withoutReturn_eq_self (h l hl)
  rw [hmap, List.map_id]

theorem withoutReturn_cons (c d : Char) (l : List Char) :
    withoutReturn (c :: d :: l) = c :: withoutReturn (d :: l) := by
  simp only [withoutReturn, List.getLast?_cons_cons, List.dropLast_cons_cons]
  split <;> rfl

theorem withoutReturn_subset (l : List Char) : withoutReturn l ⊆ l := by
  rw [withoutReturn]
  split
  · exact List.dropLast_subset l
  · exact List.Subset.refl l

theorem lines_line {l : List Char} (h : '\n' ∉ l) (s : List Char) :
    lines (l ++ '\n' :: s) = withoutReturn l :: lines s := by
  induction l with
  | nil => exact lines_newline s
  | cons c l ih =>
      obtain ⟨hc, hl⟩ := not_or.mp (mt List.mem_cons.mpr h)
      cases l with
      | nil =>
          by_cases hreturn : c = '\r'
          · subst hreturn
            exact (lines_return rfl).trans (lines_newline s)
          · have hchar := lines_char (Ne.symm hc) (fun hr => absurd hr hreturn)
              (List.cons_ne_nil '\n' s)
            simp [hchar, lines_newline, withoutReturn, hreturn]
      | cons d l =>
          have hd : d ≠ '\n' := fun hd => hl (hd ▸ List.mem_cons_self)
          rw [List.cons_append, List.cons_append, lines_char_char (Ne.symm hc) hd,
            ← List.cons_append, ih hl, withoutReturn_cons]
          rfl

theorem lines_unended {l : List Char} (h : '\n' ∉ l) : lines l = if l = [] then [] else [l] := by
  induction l with
  | nil => rfl
  | cons c l ih =>
      obtain ⟨hc, hl⟩ := not_or.mp (mt List.mem_cons.mpr h)
      cases l with
      | nil =>
          rw [lines.eq_def]
          split <;> simp_all [lines]
      | cons d l =>
          have hd : d ≠ '\n' := fun hd => hl (hd ▸ List.mem_cons_self)
          rw [lines_char_char (Ne.symm hc) hd, ih hl]
          rfl

/-- A text is a line without an end, or a line with one and a shorter text behind it. -/
@[elab_as_elim]
theorem line_induction {motive : List Char → Prop} (unended : ∀ l, '\n' ∉ l → motive l)
    (line : ∀ l s, '\n' ∉ l → motive s → motive (l ++ '\n' :: s)) (s : List Char) : motive s := by
  induction hn : s.length using Nat.strongRecOn generalizing s with
  | ind n ih =>
      by_cases hs : '\n' ∈ s
      · obtain ⟨l, t, rfl, hl⟩ := List.eq_append_cons_of_mem hs
        have ht : t.length < n := by
          rw [← hn, List.length_append, List.length_cons]
          omega
        exact line l t hl (ih t.length ht t rfl)
      · exact unended s hs

/-- The lines are the pieces between the line feeds. The last piece ends without one, and is no line if
nothing stands in it. -/
theorem lines_eq (s : List Char) : lines s =
    (s.splitOn '\n').dropLast.map withoutReturn ++
      (s.splitOn '\n').getLast?.toList.filter (· ≠ []) := by
  induction s using line_induction with
  | unended l hl =>
      rw [lines_unended hl, List.splitOn_eq_singleton hl]
      by_cases h : l = [] <;> simp [h]
  | line l s hl ih =>
      rw [lines_line hl, ih, List.splitOn_append_cons_self_of_not_mem hl]
      cases h : s.splitOn '\n' with
      | nil => exact absurd h (List.splitOn_ne_nil _ _)
      | cons p ps => simp [List.getLast?_cons_cons]

theorem of_mem_lines {s l : List Char} (hl : l ∈ lines s) : '\n' ∉ l ∧ l ⊆ s := by
  induction s using line_induction with
  | unended m hm =>
      rw [lines_unended hm] at hl
      split at hl
      · cases hl
      · rw [List.mem_singleton.mp hl]
        exact ⟨hm, List.Subset.refl m⟩
  | line m s hm ih =>
      rw [lines_line hm] at hl
      rcases List.mem_cons.mp hl with rfl | hl
      · have hsubset := withoutReturn_subset m
        exact ⟨fun hfeed => hm (hsubset hfeed), List.subset_append_of_subset_left _ hsubset⟩
      · obtain ⟨hfeed, hsubset⟩ := ih hl
        exact ⟨hfeed,
          List.subset_append_of_subset_right _ (List.subset_cons_of_subset _ hsubset)⟩

/-! ## Texts of whole lines -/

/-- The text is made of whole lines. -/
def Ended (s : List Char) : Prop := s = [] ∨ ∃ t, s = t ++ ['\n']

theorem lines_append_newline (s t : List Char) :
    lines (s ++ '\n' :: t) = lines (s ++ ['\n']) ++ lines t := by
  induction s using line_induction with
  | unended l hl =>
      rw [lines_line hl, lines_line hl]
      rfl
  | line l s hl ih =>
      rw [List.append_assoc, List.cons_append, lines_line hl, ih, List.append_assoc, List.cons_append,
        lines_line hl]
      rfl

theorem Ended.lines_append {s : List Char} (h : Ended s) (t : List Char) :
    lines (s ++ t) = lines s ++ lines t := by
  rcases h with rfl | ⟨u, rfl⟩
  · rfl
  · rw [List.append_assoc]
    exact lines_append_newline u t

theorem unlines_append (ls ms : List (List Char)) : unlines (ls ++ ms) = unlines ls ++ unlines ms :=
  List.flatMap_append

theorem unlines_cons (l : List Char) (ls : List (List Char)) :
    unlines (l :: ls) = l ++ '\n' :: unlines ls := by
  simp [unlines]

theorem exists_unlines_cons (l : List Char) (ls : List (List Char)) :
    ∃ t, unlines (l :: ls) = t ++ ['\n'] := by
  induction ls generalizing l with
  | nil => exact ⟨l, unlines_cons l []⟩
  | cons m ls ih =>
      obtain ⟨t, ht⟩ := ih m
      exact ⟨l ++ '\n' :: t, by simp [unlines_cons l, ht]⟩

theorem ended_unlines (ls : List (List Char)) : Ended (unlines ls) := by
  cases ls with
  | nil => exact .inl rfl
  | cons l ls => exact .inr (exists_unlines_cons l ls)

theorem ended_collapse (text : String) : Ended (collapse text).toList := by
  rw [collapse, String.toList_ofList]
  exact ended_unlines _

/-! ## Putting lines together -/

theorem lines_unlines {ls : List (List Char)} (h : ∀ l ∈ ls, '\n' ∉ l) :
    lines (unlines ls) = ls.map withoutReturn := by
  induction ls with
  | nil => rfl
  | cons l ls ih =>
      obtain ⟨hl, hls⟩ := List.forall_mem_cons.mp h
      rw [unlines_cons, lines_line hl, ih hls, List.map_cons]

theorem splitOn_unlines {ls : List (List Char)} (h : ∀ l ∈ ls, '\n' ∉ l) :
    (unlines ls).splitOn '\n' = ls ++ [[]] := by
  induction ls with
  | nil => rfl
  | cons l ls ih =>
      obtain ⟨hl, hls⟩ := List.forall_mem_cons.mp h
      rw [unlines_cons, List.splitOn_append_cons_self_of_not_mem hl, ih hls, List.cons_append]

theorem unlines_inj {ls ms : List (List Char)} (hls : ∀ l ∈ ls, '\n' ∉ l) (hms : ∀ l ∈ ms, '\n' ∉ l)
    (h : unlines ls = unlines ms) : ls = ms := by
  have hsplit := congrArg (List.splitOn '\n') h
  rwa [splitOn_unlines hls, splitOn_unlines hms, List.append_left_inj] at hsplit

theorem unlines_splitOn (s : List Char) : unlines (s.splitOn '\n') = s ++ ['\n'] := by
  induction s using line_induction with
  | unended l hl =>
      rw [List.splitOn_eq_singleton hl]
      exact unlines_cons l []
  | line l s hl ih =>
      rw [List.splitOn_append_cons_self_of_not_mem hl, unlines_cons, ih, List.append_assoc,
        List.cons_append]

theorem lines_eq_splitOn {s : List Char} (hreturn : '\r' ∉ s) :
    lines (s ++ ['\n']) = s.splitOn '\n' := by
  have hline {l : List Char} (h : '\r' ∉ l) : withoutReturn l = l :=
    withoutReturn_eq_self fun hlast => h (List.mem_of_getLast? hlast)
  induction s using line_induction with
  | unended l hl =>
      rw [lines_line hl, hline hreturn, List.splitOn_eq_singleton hl]
      rfl
  | line l s hl ih =>
      rw [List.mem_append, not_or, List.mem_cons, not_or] at hreturn
      rw [List.append_assoc, List.cons_append, lines_line hl, hline hreturn.1, ih hreturn.2.2,
        List.splitOn_append_cons_self_of_not_mem hl]

end Treemark.Markdown
