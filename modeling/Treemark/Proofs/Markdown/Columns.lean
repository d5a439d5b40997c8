import Treemark.Markdown.Table

/-!
# Columns of separators

A separator is what bars make of a line of dashes when they are put, one after the other, where each column
but the first starts. None of these places is behind the end of the line. The bars cut the line into columns
of equal width, the last of which is wider by what the division leaves.
-/

namespace Treemark.Markdown

/-! ## Putting bars -/

/-- Puts a bar at a place of a line. Behind the end of the line there is no such place. -/
def putBar (line : List Char) (place : Nat) : Option (List Char) :=
  if place < line.length then some (line.set place '|') else none

/-- The places where the columns start, from the second one on. A line without any has no places. -/
def boundaries (width count : Nat) : List Nat :=
  if width = 0 then [] else (List.range' 1 (count - 1)).map (· * (width / count))

theorem foldlM_putBar {places : List Nat} {line : List Char} (h : ∀ p ∈ places, p < line.length) :
    places.foldlM putBar line = some (line.mapIdx fun p c => if p ∈ places then '|' else c) := by
  induction places generalizing line with
  | nil =>
      have hline : line.mapIdx (fun _ c => c) = line := by
        refine List.ext_getElem (by simp) fun p hp hp' => ?_
        simp
      simp [hline]
  | cons place places ih =>
      obtain ⟨hplace, hplaces⟩ := List.forall_mem_cons.mp h
      have hset : ∀ p ∈ places, p < (line.set place '|').length := by simpa using hplaces
      rw [List.foldlM_cons, putBar, if_pos hplace, Option.bind_eq_bind, Option.bind_some, ih hset]
      congr 1
      refine List.ext_getElem (by simp) fun p hp hp' => ?_
      simp only [List.getElem_mapIdx, List.getElem_set, List.mem_cons]
      grind

/-! ## Boundaries -/

variable {width count : Nat}

theorem mem_boundaries {p : Nat} : p ∈ boundaries width count ↔
    0 < width ∧ ∃ i, 1 ≤ i ∧ i < count ∧ p = i * (width / count) := by
  rw [boundaries]
  split
  · rename_i hwidth
    simp [hwidth]
  · rename_i hwidth
    simp only [List.mem_map, List.mem_range'_1]
    constructor
    · rintro ⟨i, ⟨hi, hlt⟩, rfl⟩
      exact ⟨by omega, i, hi, by omega, rfl⟩
    · rintro ⟨-, i, hi, hlt, rfl⟩
      exact ⟨i, ⟨hi, by omega⟩, rfl⟩

/-- No boundary is behind the end: all columns but the last one stand in front of the last boundary, and
the last one has a width, or else all boundaries are at the start. -/
theorem lt_of_mem_boundaries {p : Nat} (h : p ∈ boundaries width count) : p < width := by
  obtain ⟨hwidth, i, -, hi, rfl⟩ := mem_boundaries.mp h
  rcases Nat.eq_zero_or_pos (width / count) with hcolumn | hcolumn
  · rwa [hcolumn, Nat.mul_zero]
  · calc i * (width / count) < count * (width / count) := Nat.mul_lt_mul_of_pos_right hi hcolumn
      _ ≤ width := Nat.mul_div_le width count

theorem isBoundary_iff {p : Nat} (hp : p < width) :
    isBoundary width count p = true ↔ p ∈ boundaries width count := by
  rw [mem_boundaries, isBoundary]
  rcases Nat.eq_zero_or_pos (width / count) with hcolumn | hcolumn
  · simp only [hcolumn, ↓reduceIte, Nat.mul_zero, Bool.and_eq_true, decide_eq_true_eq]
    constructor
    · rintro ⟨rfl, hcount⟩
      exact ⟨hp, 1, Nat.le_refl 1, by omega, rfl⟩
    · rintro ⟨-, i, hi, hlt, rfl⟩
      exact ⟨rfl, by omega⟩
  · simp only [Nat.pos_iff_ne_zero.mp hcolumn, ↓reduceIte, Bool.and_eq_true, decide_eq_true_eq]
    constructor
    · rintro ⟨⟨hdvd, hle⟩, hlt⟩
      obtain ⟨i, rfl⟩ := Nat.dvd_of_mod_eq_zero hdvd
      refine ⟨by omega, i, Nat.pos_of_mul_pos_left (Nat.lt_of_lt_of_le hcolumn hle), ?_, Nat.mul_comm ..⟩
      exact Nat.lt_of_mul_lt_mul_left hlt
    · rintro ⟨-, i, hi, hlt, rfl⟩
      refine ⟨⟨Nat.mul_mod_left .., Nat.le_mul_of_pos_left _ hi⟩, ?_⟩
      rw [Nat.mul_comm]
      exact Nat.mul_lt_mul_of_pos_left hlt hcolumn

/-- A bar where a column starts, and a dash elsewhere. -/
def stroke (places : List Nat) (p : Nat) : Char := if p ∈ places then '|' else '-'

theorem separator_toList (header : String) (count : Nat) : (separator header count).toList =
    (List.range header.length).map (stroke (boundaries header.length count)) := by
  rw [separator, String.toList_ofList]
  refine List.map_congr_left fun p hp => ?_
  simp only [stroke, isBoundary_iff (List.mem_range.mp hp)]

theorem eq_dash_or_bar_of_mem {header : String} {c : Char}
    (h : c ∈ (separator header count).toList) : c = '-' ∨ c = '|' := by
  rw [separator_toList] at h
  obtain ⟨p, -, rfl⟩ := List.mem_map.mp h
  rw [stroke]
  split <;> simp

theorem foldlM_boundaries (header : String) (count : Nat) :
    (boundaries header.length count).foldlM putBar (List.replicate header.length '-') =
      some (separator header count).toList := by
  rw [foldlM_putBar fun p hp => by simpa using lt_of_mem_boundaries hp, separator_toList]
  congr 1
  refine List.ext_getElem (by simp) fun p hp hp' => ?_
  simp [stroke]

/-! ## Columns -/

/-- A column with what stands at its start. -/
def column (start : Char) (span : Nat) : List Char := start :: List.replicate (span - 1) '-'

/-- Columns of equal width, of which the last one may be wider. -/
def columns (start : Char) (behind span last : Nat) : List (List Char) :=
  List.zipWith column (start :: List.replicate behind '|') (List.replicate behind span ++ [last])

theorem columns_succ (start : Char) (behind span last : Nat) :
    columns start (behind + 1) span last = column start span :: columns '|' behind span last := by
  simp [columns, List.replicate_succ]

theorem map_stroke_column {places : List Nat} {start span : Nat} (hspan : 0 < span)
    (h : ∀ p, start < p → p < start + span → p ∉ places) :
    (List.range' start span).map (stroke places) = column (stroke places start) span := by
  obtain ⟨n, rfl⟩ := Nat.exists_eq_add_one.mpr hspan
  rw [List.range'_succ, List.map_cons, column, Nat.add_sub_cancel]
  congr 1
  refine List.eq_replicate_iff.mpr ⟨by simp, fun c hc => ?_⟩
  obtain ⟨p, hp, rfl⟩ := List.mem_map.mp hc
  rw [List.mem_range'_1] at hp
  exact if_neg (h p (by omega) (by omega))

/-- By induction on the columns behind the first one, from any place on. -/
theorem map_stroke_columns {places : List Nat} {start behind span last : Nat} (hspan : 0 < span)
    (hlast : 0 < last)
    (h : ∀ p, start < p → p < start + (behind * span + last) →
      (p ∈ places ↔ ∃ i, 1 ≤ i ∧ i ≤ behind ∧ p = start + i * span)) :
    (List.range' start (behind * span + last)).map (stroke places) =
      (columns (stroke places start) behind span last).flatten := by
  induction behind generalizing start with
  | zero =>
      have hnone : ∀ p, start < p → p < start + last → p ∉ places := by grind
      simp [columns, map_stroke_column hlast hnone]
  | succ behind ih =>
      have hfirst : ∀ p, start < p → p < start + span → p ∉ places := by
        intro p hp hlt hmem
        obtain ⟨i, hi, -, rfl⟩ := (h p hp (by rw [Nat.succ_mul]; omega)).mp hmem
        have := Nat.le_mul_of_pos_left span hi
        omega
      have hbar : stroke places (start + span) = '|' := by
        refine if_pos ((h (start + span) (by omega) (by rw [Nat.succ_mul]; omega)).mpr ?_)
        exact ⟨1, Nat.le_refl 1, by omega, by rw [Nat.one_mul]⟩
      have hrest : ∀ p, start + span < p → p < start + span + (behind * span + last) →
          (p ∈ places ↔ ∃ i, 1 ≤ i ∧ i ≤ behind ∧ p = start + span + i * span) := by
        intro p hp hlt
        rw [h p (by omega) (by rw [Nat.succ_mul]; omega)]
        constructor
        · rintro ⟨i, hi, hle, rfl⟩
          obtain ⟨j, rfl⟩ := Nat.exists_eq_add_one.mpr hi
          rw [Nat.succ_mul] at hp ⊢
          exact ⟨j, Nat.pos_of_mul_pos_right (by omega : 0 < j * span), by omega, by omega⟩
        · rintro ⟨i, -, hle, rfl⟩
          exact ⟨i + 1, by omega, by omega, by rw [Nat.succ_mul]; omega⟩
      have hsplit : (behind + 1) * span + last = span + (behind * span + last) := by
        rw [Nat.succ_mul]
        omega
      rw [hsplit, ← List.range'_append_1, List.map_append, map_stroke_column hspan hfirst, ih hrest,
        hbar, columns_succ, List.flatten_cons]

theorem count_columns (start : Char) (behind span last : Nat) :
    (columns start behind span last).flatten.count '|' = behind + if start = '|' then 1 else 0 := by
  have hcolumn (start : Char) (span : Nat) :
      (column start span).count '|' = if start = '|' then 1 else 0 := by
    simp [column, List.count_cons, List.count_replicate]
  induction behind generalizing start with
  | zero => simp [columns, hcolumn]
  | succ behind ih =>
      rw [columns_succ, List.flatten_cons, List.count_append, hcolumn, ih, if_pos rfl, Nat.add_comm]

theorem separator_eq_columns {header : String} (hcount : 1 ≤ count) (hle : count ≤ header.length) :
    (separator header count).toList = (columns '-' (count - 1) (header.length / count)
      (header.length / count + header.length % count)).flatten := by
  have hspan : 0 < header.length / count := Nat.div_pos hle hcount
  have hwidth : header.length = (count - 1) * (header.length / count) +
      (header.length / count + header.length % count) := by
    rw [← Nat.add_assoc, ← Nat.succ_mul, Nat.succ_eq_add_one, Nat.sub_add_cancel hcount]
    exact (Nat.div_add_mod header.length count).symm
  have hstart : stroke (boundaries header.length count) 0 = '-' := by
    refine if_neg fun hmem => ?_
    obtain ⟨-, i, hi, -, hzero⟩ := mem_boundaries.mp hmem
    exact absurd hzero.symm (Nat.ne_of_gt (Nat.mul_pos hi hspan))
  rw [separator_toList, List.range_eq_range', ← hstart, ← map_stroke_columns hspan (by omega), ← hwidth]
  intro p hp hlt
  rw [mem_boundaries]
  constructor
  · rintro ⟨-, i, hi, hlt, rfl⟩
    exact ⟨i, hi, by omega, (Nat.zero_add _).symm⟩
  · rintro ⟨i, hi, hle, rfl⟩
    exact ⟨by omega, i, hi, by omega, Nat.zero_add _⟩

theorem separator_eq_column {header : String} (hwidth : 1 ≤ header.length)
    (hlt : header.length < count) : (separator header count).toList = column '|' header.length := by
  have hspan : header.length / count = 0 := Nat.div_eq_of_lt hlt
  have hstart : stroke (boundaries header.length count) 0 = '|' := by
    refine if_pos (mem_boundaries.mpr ⟨hwidth, 1, Nat.le_refl 1, by omega, ?_⟩)
    rw [hspan, Nat.mul_zero]
  rw [separator_toList, List.range_eq_range', ← hstart]
  refine map_stroke_column hwidth fun p hp _ hmem => ?_
  obtain ⟨-, i, -, -, rfl⟩ := mem_boundaries.mp hmem
  rw [hspan, Nat.mul_zero] at hp
  exact absurd hp (Nat.lt_irrefl 0)

theorem getElem?_separator_eq_bar_iff {header : String} {p : Nat} :
    (separator header count).toList[p]? = some '|' ↔ p ∈ boundaries header.length count := by
  simp only [separator_toList, List.getElem?_map, Option.map_eq_some_iff, List.getElem?_eq_some_iff,
    List.getElem_range, List.length_range]
  constructor
  · rintro ⟨q, ⟨-, rfl⟩, hstroke⟩
    rw [stroke] at hstroke
    split at hstroke
    · assumption
    · exact absurd hstroke (by decide)
  · intro hmem
    exact ⟨p, ⟨lt_of_mem_boundaries hmem, rfl⟩, if_pos hmem⟩

theorem length_separator (header : String) (count : Nat) :
    (separator header count).toList.length = header.length := by
  rw [separator_toList, List.length_map, List.length_range]

/-- Bars can be put at all boundaries of the columns, and a separator is what they make of a line of dashes.
It is as wide as the header. No more columns than that stand side by side, each with a width; the boundaries
of more columns are all at the start. -/
theorem separator_columns (header : String) (count : Nat) :
    let width := header.length
    let span := width / count
    let marks := (separator header count).toList
    (boundaries width count).foldlM putBar (List.replicate width '-') = some marks ∧
    marks.length = width ∧ (∀ c ∈ marks, c = '-' ∨ c = '|') ∧
    (1 ≤ count → count ≤ width →
      marks.count '|' = count - 1 ∧
      (∀ p, marks[p]? = some '|' ↔ ∃ i, 1 ≤ i ∧ i < count ∧ p = i * span) ∧
      marks = (columns '-' (count - 1) span (span + width % count)).flatten) ∧
    (1 ≤ width → width < count → marks = column '|' width) ∧
    (count = 0 ∨ count = 1 ∨ width = 0 → '|' ∉ marks) := by
  intro width span marks
  refine ⟨foldlM_boundaries header count, length_separator header count,
    fun c => eq_dash_or_bar_of_mem,
    fun hcount hle => ⟨?_, fun p => ?_, separator_eq_columns hcount hle⟩, separator_eq_column,
    fun hfew hmem => ?_⟩
  · have hcolumns := congrArg (List.count '|') (separator_eq_columns hcount hle)
    rwa [count_columns, if_neg (by decide), Nat.add_zero] at hcolumns
  · rw [getElem?_separator_eq_bar_iff, mem_boundaries]
    exact and_iff_right (by omega)
  · obtain ⟨p, hp⟩ := List.mem_iff_getElem?.mp hmem
    obtain ⟨hwidth, i, hi, hlt, -⟩ := mem_boundaries.mp (getElem?_separator_eq_bar_iff.mp hp)
    omega

/-- Three columns, of which the last takes the character that is left over, and more columns than fit. -/
theorem separator_columns_ten :
    let header := "0123456789"
    (1 ≤ 3 ∧ 3 ≤ header.length ∧ separator header 3 = "---|--|---") ∧
      1 ≤ header.length ∧ header.length < 11 ∧ separator header 11 = "|---------" := by
  intro header
  obtain ⟨-, -, -, hfits, -, -⟩ := separator_columns header 3
  obtain ⟨-, -, -, -, hmany, -⟩ := separator_columns header 11
  have hlength : header.length = 10 := by decide
  refine ⟨⟨by decide, by decide, ?_⟩, by decide, by decide, ?_⟩
  · rw [← String.toList_inj, (hfits (by decide) (by decide)).2.2, hlength]
    decide
  · rw [← String.toList_inj, hmany (by decide) (by decide), hlength]
    decide

end Treemark.Markdown
