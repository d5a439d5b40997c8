import Mathlib.Data.List.Forall2
import Treemark.Markdown.Table
import Treemark.Node.Listing
import Treemark.Proofs.Markdown.Kept

/-!
# Texts with deeper indentation

A text is another one with `k` more tabs if such tabs stand behind some of its line feeds. Texts related
in this way can be concatenated, and dropping bare lines, joining cells to rows and marking the columns of
a table keep them related.
-/

namespace Treemark.Markdown

/-- The second text is the first one with `k` tabs behind some of its line feeds, none of them the last
character. -/
inductive Indented (k : Nat) : List Char → List Char → Prop where
  | nil : Indented k [] []
  | char (c : Char) {s t : List Char} : Indented k s t → Indented k (c :: s) (c :: t)
  | line {s t : List Char} : s ≠ [] → Indented k s t →
      Indented k ('\n' :: s) ('\n' :: (List.replicate k '\t' ++ t))

namespace Indented

variable {k : Nat}

theorem refl (s : List Char) : Indented k s s := by
  induction s with
  | nil => exact .nil
  | cons c s ih => exact .char c ih

theorem append {s t s' t' : List Char} (h : Indented k s t) (h' : Indented k s' t') :
    Indented k (s ++ s') (t ++ t') := by
  induction h with
  | nil => exact h'
  | char c _ ih => exact .char c ih
  | line hs _ ih =>
      have happend := Indented.line (List.append_ne_nil_of_left_ne_nil hs s') ih
      rwa [← List.append_assoc] at happend

theorem head? {s t : List Char} (h : Indented k s t) : s.head? = t.head? := by
  cases h <;> rfl

theorem eq_nil_iff {s t : List Char} (h : Indented k s t) : s = [] ↔ t = [] := by
  cases h <;> simp

theorem flatMap {α β : Type} {R : α → β → Prop} {f : α → List Char} {g : β → List Char}
    {xs : List α} {ys : List β} (h : List.Forall₂ R xs ys)
    (hR : ∀ x y, R x y → Indented k (f x) (g y)) : Indented k (xs.flatMap f) (ys.flatMap g) := by
  induction h with
  | nil => exact .nil
  | cons hxy _ ih => exact (hR _ _ hxy).append ih

/-- What stands behind a line feed may be indented line by line. -/
theorem flatMap_behind {α β : Type} {R : α → β → Prop} {f : α → List Char} {g : β → List Char}
    {xs : List α} {ys : List β} (h : List.Forall₂ R xs ys)
    (hR : ∀ x y u v, R x y → Indented k ('\n' :: u) ('\n' :: v) →
      Indented k ('\n' :: (f x ++ '\n' :: u)) ('\n' :: (g y ++ '\n' :: v)))
    {u v : List Char} (hu : Indented k ('\n' :: u) ('\n' :: v)) :
    Indented k ('\n' :: (xs.flatMap (f · ++ ['\n']) ++ u)) ('\n' :: (ys.flatMap (g · ++ ['\n']) ++ v)) := by
  induction h with
  | nil => exact hu
  | cons hxy _ ih => simpa using hR _ _ _ _ hxy ih

end Indented

/-! ## Lines -/

/-- A line as it is or behind `k` more tabs. -/
def IndentedLine (k : Nat) (l l' : List Char) : Prop := l' = l ∨ l' = List.replicate k '\t' ++ l

/-- Line by line the same text with deeper indentation; the first line is as it was. -/
structure IndentedLines (k : Nat) (ls ls' : List (List Char)) : Prop where
  head? : ls.head? = ls'.head?
  each : List.Forall₂ (IndentedLine k) ls ls'

namespace IndentedLines

variable {k : Nat} {ls ls' : List (List Char)}

theorem newline (h : IndentedLines k ls ls') : IndentedLines k ([] :: ls) ([] :: ls') :=
  ⟨rfl, .cons (.inl rfl) h.each⟩

theorem modifyHead (h : IndentedLines k ls ls') (c : Char) :
    IndentedLines k (ls.modifyHead (c :: ·)) (ls'.modifyHead (c :: ·)) := by
  obtain ⟨hhead, heach⟩ := h
  cases heach with
  | nil => exact ⟨rfl, .nil⟩
  | cons hl hls =>
      cases hhead
      exact ⟨rfl, .cons (.inl rfl) hls⟩

theorem newline_tabs (h : IndentedLines k ls ls') :
    IndentedLines k ([] :: ls) ([] :: ls'.modifyHead (List.replicate k '\t' ++ ·)) := by
  obtain ⟨hhead, heach⟩ := h
  cases heach with
  | nil => exact ⟨rfl, .cons (.inl rfl) .nil⟩
  | cons hl hls =>
      cases hhead
      exact ⟨rfl, .cons (.inl rfl) (.cons (.inr rfl) hls)⟩

end IndentedLines

theorem modifyHead_tabs {f : List Char → List (List Char)}
    (hf : ∀ s, s ≠ [] → f ('\t' :: s) = (f s).modifyHead ('\t' :: ·)) (k : Nat) {s : List Char}
    (hs : s ≠ []) :
    f (List.replicate k '\t' ++ s) = (f s).modifyHead (List.replicate k '\t' ++ ·) := by
  induction k with
  | zero => cases hf : f s <;> simp [hf]
  | succ k ih =>
      rw [List.replicate_succ, List.cons_append, hf _ (List.append_ne_nil_of_right_ne_nil _ hs), ih]
      cases f s <;> rfl

namespace Indented

variable {k : Nat} {s t : List Char}

theorem splitOn (h : Indented k s t) : IndentedLines k (s.splitOn '\n') (t.splitOn '\n') := by
  induction h with
  | nil => exact ⟨rfl, .cons (.inl rfl) .nil⟩
  | char c _ ih =>
      simp only [List.splitOn_cons_eq_if_modifyHead]
      split
      · exact ih.newline
      · exact ih.modifyHead c
  | line hs h ih =>
      have htab := modifyHead_tabs (f := (·.splitOn '\n'))
        (fun u _ => by simp [List.splitOn_cons_eq_if_modifyHead]) k (mt h.eq_nil_iff.mpr hs)
      simp only [List.splitOn_cons_eq_if_modifyHead, beq_self_eq_true, ↓reduceIte, htab]
      exact ih.newline_tabs

end Indented

/-! ## Dropping bare lines -/

namespace Indented

variable {k : Nat} {s t : List Char}

theorem lines (h : Indented k s t) : IndentedLines k (Markdown.lines s) (Markdown.lines t) := by
  induction h with
  | nil => exact ⟨rfl, .nil⟩
  | @char c s t h ih =>
      by_cases hc : c = '\n'
      · subst c
        simp only [lines_newline]
        exact ih.newline
      -- a carriage return in front of a line feed is no character of the line
      · by_cases hreturn : c = '\r' ∧ s.head? = some '\n'
        · obtain ⟨rfl, hs⟩ := hreturn
          rw [lines_return hs, lines_return (h.head? ▸ hs)]
          exact ih
        · by_cases hs : s = []
          · subst s
            rw [h.eq_nil_iff.mp rfl]
            exact ⟨rfl, List.forall₂_same.mpr fun l _ => .inl rfl⟩
          · have hsr : c = '\r' → s.head? ≠ some '\n' := fun hr he => hreturn ⟨hr, he⟩
            rw [lines_char hc hsr hs, lines_char hc (h.head? ▸ hsr) (mt h.eq_nil_iff.mpr hs)]
            exact ih.modifyHead c
  | @line s t hs h ih =>
      have ht : t ≠ [] := mt h.eq_nil_iff.mpr hs
      have htab := modifyHead_tabs (f := Markdown.lines)
        (fun u hu => lines_char (by decide) (fun hr => absurd hr (by decide)) hu) k ht
      simp only [lines_newline, htab]
      exact ih.newline_tabs

end Indented

namespace IndentedLine

variable {k : Nat} {l l' : List Char}

theorem isBare (h : IndentedLine k l l') : isBare l' = isBare l := by
  rcases h with rfl | rfl
  · rfl
  · exact isBare_tabs k l

theorem endsInPeriod (h : IndentedLine k l l') : endsInPeriod l' = endsInPeriod l := by
  rcases h with rfl | rfl
  · rfl
  · exact endsInPeriod_tabs k l

theorem keptLines {p p' : List Char} {ls ls' : List (List Char)}
    (hls : List.Forall₂ (IndentedLine k) ls ls') (hp : IndentedLine k p p') :
    List.Forall₂ (IndentedLine k) (keptLines p ls) (keptLines p' ls') := by
  induction hls generalizing p p' with
  | nil => exact .nil
  | cons hl _ ih =>
      simp only [Markdown.keptLines, hl.isBare, hp.endsInPeriod]
      split
      · exact ih hp
      · exact .cons hl (ih hl)

theorem behind (h : IndentedLine k l l') {u v : List Char}
    (huv : Indented k ('\n' :: u) ('\n' :: v)) :
    Indented k ('\n' :: (l ++ '\n' :: u)) ('\n' :: (l' ++ '\n' :: v)) := by
  have happend := (Indented.refl l).append huv
  rcases h with rfl | rfl
  · exact .char '\n' happend
  · rw [List.append_assoc]
    exact .line (by simp) happend

end IndentedLine

/-! ## Strings -/

def IndentedText (k : Nat) (s t : String) : Prop := Indented k s.toList t.toList

namespace IndentedText

variable {k : Nat} {s t s' t' : String}

theorem refl (s : String) : IndentedText k s s := Indented.refl s.toList

theorem append (h : IndentedText k s t) (h' : IndentedText k s' t') :
    IndentedText k (s ++ s') (t ++ t') := by
  rw [IndentedText, String.toList_append, String.toList_append]
  exact Indented.append h h'

theorem join {texts texts' : List String} (h : List.Forall₂ (IndentedText k) texts texts') :
    IndentedText k (String.join texts) (String.join texts') := by
  induction h with
  | nil => exact refl _
  | cons h _ ih =>
      rw [String.join_cons, String.join_cons]
      exact h.append ih

theorem joinMap {texts texts' : List String} (h : List.Forall₂ (IndentedText k) texts texts')
    {f : String → String} (hf : ∀ s t, IndentedText k s t → IndentedText k (f s) (f t)) :
    IndentedText k (String.join (texts.map f)) (String.join (texts'.map f)) := by
  refine join ?_
  rw [List.forall₂_map_left_iff, List.forall₂_map_right_iff]
  exact h.imp hf

end IndentedText

/-- The texts of a list, which start with a line feed: without it, dropping bare lines might make a line
the first one that is indented in one of the texts only. -/
structure IndentedList (k : Nat) (s t : String) : Prop where
  text : IndentedText k s t
  newline : s.toList.head? = some '\n'

namespace IndentedList

variable {k : Nat} {s t : String}

theorem collapse (h : IndentedList k s t) : IndentedText k (collapse s) (collapse t) := by
  obtain ⟨htext, hs⟩ := h
  obtain ⟨u, hu⟩ := List.head?_eq_some_iff.mp hs
  obtain ⟨v, hv⟩ := List.head?_eq_some_iff.mp (htext.head?.symm.trans hs)
  have hlines := Indented.lines htext
  rw [hu, hv, lines_newline, lines_newline] at hlines
  have hkept := IndentedLine.keptLines (p := []) (List.forall₂_cons.mp hlines.each).2 (.inl rfl)
  have hbehind := Indented.flatMap_behind hkept
    (fun _ _ _ _ hl huv => hl.behind huv) (Indented.refl ['\n'])
  rw [IndentedText, collapse_newline hu, collapse_newline hv]
  simpa [unlines] using hbehind

theorem items {texts texts' : List String} (h : List.Forall₂ (IndentedText k) texts texts')
    {lead lead' : String} (hlead : lead' = tabs k ++ lead) :
    IndentedList k ("\n" ++ String.join (texts.map (lead ++ · ++ "\n")) ++ "\n")
      ("\n" ++ String.join (texts'.map (lead' ++ · ++ "\n")) ++ "\n") := by
  have hitem : ∀ (s t : String) (u v : List Char), IndentedText k s t →
      Indented k ('\n' :: u) ('\n' :: v) →
      Indented k ('\n' :: ((lead ++ s).toList ++ '\n' :: u))
        ('\n' :: ((lead' ++ t).toList ++ '\n' :: v)) := by
    intro s t u v h huv
    have hline := (Indented.refl lead.toList).append (.append h huv)
    simp only [hlead, tabs, String.toList_append, String.toList_ofList, List.append_assoc]
    exact .line (by simp) hline
  have hbehind := Indented.flatMap_behind h hitem (Indented.refl ['\n', '\n'])
  constructor
  · simpa [IndentedText, List.flatMap_map] using hbehind
  · simp

end IndentedList

/-! ## Rows and tables -/

/-- A row of cells, which has no gap behind the last one. -/
def rowText : List (List String) → List Char
  | [] => []
  | [parts] => gap ++ parts.flatMap fun part => part.toList ++ gap
  | parts :: next :: cells => cellText parts ++ rowText (next :: cells)

theorem flatMap_cellText (parts : List String) (cells : List (List String)) :
    (parts :: cells).flatMap cellText = rowText (parts :: cells) ++ gap := by
  induction cells generalizing parts with
  | nil => simp [rowText, cellText]
  | cons next cells ih => rw [List.flatMap_cons, ih, rowText, List.append_assoc]

theorem formatRow_toList (cells : List (List String)) : (formatRow cells).toList = rowText cells := by
  cases cells with
  | nil => rfl
  | cons parts cells =>
      rw [formatRow, String.toList_ofList, flatMap_cellText]
      exact List.take_left' (by rw [List.length_append, Nat.add_sub_cancel])

/-- The first line is the same, and so is what a separator behind it looks like. -/
theorem Indented.firstLine {k : Nat} {s t : List Char} (h : Indented k s t) :
    s.takeWhile (· ≠ '\n') = t.takeWhile (· ≠ '\n') ∧
      Indented k (s.dropWhile (· ≠ '\n')) (t.dropWhile (· ≠ '\n')) := by
  induction h with
  | nil => exact ⟨rfl, .nil⟩
  | char c h ih =>
      by_cases hc : c = '\n'
      · subst c
        simpa using h.char '\n'
      · simpa [hc] using ih
  | line hs h ih => simpa using h.line hs

namespace IndentedText

variable {k : Nat}

theorem formatRow {cells cells' : List (List String)}
    (h : List.Forall₂ (List.Forall₂ (IndentedText k)) cells cells') :
    IndentedText k (formatRow cells) (formatRow cells') := by
  have hparts : ∀ {parts parts' : List String}, List.Forall₂ (IndentedText k) parts parts' →
      Indented k (gap ++ parts.flatMap fun part => part.toList ++ gap)
        (gap ++ parts'.flatMap fun part => part.toList ++ gap) := fun h =>
    (Indented.refl gap).append (.flatMap h fun _ _ hpart => .append hpart (.refl gap))
  rw [IndentedText, formatRow_toList, formatRow_toList]
  induction h with
  | nil => exact .nil
  | cons hcell hcells ih =>
      cases hcells with
      | nil => exact hparts hcell
      | cons => exact ((hparts hcell).append (.refl gap)).append ih

theorem insertSeparator {rows rows' : String} (h : IndentedText k rows rows') (count : Nat) :
    IndentedText k (insertSeparator rows count) (insertSeparator rows' count) := by
  obtain ⟨hheader, hrest⟩ := Indented.firstLine h
  rw [Markdown.insertSeparator, Markdown.insertSeparator, ← hheader]
  generalize rows.toList.takeWhile (· ≠ '\n') = header
  generalize rows.toList.dropWhile (· ≠ '\n') = rest at hrest ⊢
  generalize rows'.toList.dropWhile (· ≠ '\n') = rest' at hrest ⊢
  have hbehind : ∀ {newline : Char} {s t : List Char},
      Indented k (newline :: s) (newline :: t) →
      Indented k
        (header ++ newline :: (separator (String.ofList header) count).toList ++ newline :: s)
        (header ++ newline :: (separator (String.ofList header) count).toList ++ newline :: t) :=
    fun hst => (Indented.refl _).append hst
  cases hrest with
  | nil => exact h
  | char c htail =>
      simp only [IndentedText, String.toList_ofList]
      exact hbehind (.char c htail)
  | line hs htail =>
      simp only [IndentedText, String.toList_ofList]
      exact hbehind (.line hs htail)

end IndentedText

end Treemark.Markdown
