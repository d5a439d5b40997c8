import Mathlib.Data.List.DropRight
import Mathlib.Data.List.Sort
import Mathlib.Data.Prod.Lex
import Treemark.Markdown.Context

/-!
# Numbers of headings

Every heading that is entered moves the counters forward, in the order in which those of upper levels
weigh more. A dotted number shows all counters that are not zero, so no number comes twice.
-/

namespace Treemark.Context

/-- The numbers that headings of these levels get when they are entered one after the other. -/
def numbers (c : Context) : List HeadingLevel → List String
  | [] => []
  | level :: levels => (c.enterHeading level).1 :: (c.enterHeading level).2.numbers levels

/-! ## Counters -/

/-- The three counters; those of upper levels weigh more. -/
def counters (c : Context) : Nat ×ₗ Nat ×ₗ Nat := toLex (c.first, toLex (c.second, c.third))

theorem counters_lt_enter (c : Context) (level : HeadingLevel) :
    c.counters < (c.enter level).counters := by
  cases level <;> simp [counters, enter, Prod.Lex.toLex_lt_toLex]

theorem counters_le_of_mem_scanl {c d : Context} {levels : List HeadingLevel}
    (h : d ∈ levels.scanl enter c) : c.counters ≤ d.counters := by
  induction levels generalizing c with
  | nil =>
      obtain rfl : d = c := by simpa using h
      exact le_refl _
  | cons level levels ih =>
      rw [List.scanl_cons, List.mem_cons] at h
      rcases h with rfl | h
      · exact le_refl _
      · exact (counters_lt_enter c level).le.trans (ih h)

theorem sortedLT_scanl_enter (c : Context) (levels : List HeadingLevel) :
    ((levels.scanl enter c).map counters).SortedLT := by
  rw [List.sortedLT_iff_pairwise, List.pairwise_map]
  induction levels generalizing c with
  | nil => simp
  | cons level levels ih =>
      rw [List.scanl_cons, List.pairwise_cons]
      refine ⟨fun d hd => ?_, ih (c.enter level)⟩
      exact (counters_lt_enter c level).trans_le (counters_le_of_mem_scanl hd)

theorem foldl_enter_first (c : Context) (levels : List HeadingLevel) :
    (levels.foldl enter c).first = c.first + levels.count .first := by
  induction levels using List.reverseRecOn with
  | nil => rfl
  | append_singleton levels level ih => cases level <;> simp [enter, ih, Nat.add_assoc]

/-- A heading of the first level sets the second counter back. -/
theorem foldl_enter_second (c : Context) (levels : List HeadingLevel) :
    (levels.foldl enter c).second = (levels.rtakeWhile (· ≠ .first)).count .second +
      if .first ∈ levels then 0 else c.second := by
  induction levels using List.reverseRecOn with
  | nil => simp
  | append_singleton levels level ih =>
      cases level <;> simp [enter, ih, Nat.add_right_comm]

/-- A heading of the first or second level sets the third counter back. -/
theorem foldl_enter_third (c : Context) (levels : List HeadingLevel) :
    (levels.foldl enter c).third =
      (levels.rtakeWhile fun level => level ≠ .first ∧ level ≠ .second).count .third +
        if .first ∈ levels ∨ .second ∈ levels then 0 else c.third := by
  induction levels using List.reverseRecOn with
  | nil => simp
  | append_singleton levels level ih =>
      cases level <;> simp [enter, ih, Nat.add_right_comm]

/-! ## Dotted numbers -/

/-- The counters that a number of a level shows. -/
def shown (c : Context) : HeadingLevel → List Nat
  | .first => [c.first]
  | .second => [c.first, c.second]
  | .third => [c.first, c.second, c.third]

theorem number_toList (c : Context) (level : HeadingLevel) :
    (c.number level).toList = ['.'].intercalate ((c.shown level).map (Nat.toDigits 10)) := by
  cases level <;> simp [number, shown, List.intercalate, List.intersperse]

theorem toDigits_injective : Function.Injective (Nat.toDigits 10) := by
  intro m n h
  have hvalue := congrArg (Nat.ofDigitChars 10 · 0) h
  simpa using hvalue

theorem dot_notMem_toDigits (n : Nat) : '.' ∉ Nat.toDigits 10 n := by
  intro h
  have hdigit := Nat.isDigit_of_mem_toDigits (by decide) (by decide) h
  exact absurd hdigit (by decide)

/-- The dots tell a number apart into the counters that it shows. -/
theorem shown_eq_of_number_eq {c d : Context} {l m : HeadingLevel} (h : c.number l = d.number m) :
    c.shown l = d.shown m := by
  have hsplit : ∀ (c : Context) (l : HeadingLevel),
      (c.number l).toList.splitOn '.' = (c.shown l).map (Nat.toDigits 10) := by
    intro c l
    rw [number_toList]
    refine List.splitOn_intercalate '.' ?_ (by cases l <;> simp [shown])
    intro digits hdigits
    obtain ⟨n, _, rfl⟩ := List.mem_map.mp hdigits
    exact dot_notMem_toDigits n
  refine List.map_injective_iff.mpr toDigits_injective ?_
  rw [← hsplit c l, ← hsplit d m, h]

/-- A heading's number tells all three counters, for those it does not show have just been set back. -/
theorem counters_eq_of_number_eq {c d : Context} {l m : HeadingLevel}
    (h : (c.enter l).number l = (d.enter m).number m) :
    (c.enter l).counters = (d.enter m).counters := by
  have hshown := shown_eq_of_number_eq h
  cases l <;> cases m <;> simp_all [shown, enter, counters]

theorem exists_of_mem_numbers {c : Context} {levels : List HeadingLevel} {number : String}
    (h : number ∈ c.numbers levels) :
    ∃ d level, number = (enter d level).number level ∧ c.counters ≤ d.counters := by
  induction levels generalizing c with
  | nil => cases h
  | cons level levels ih =>
      rcases List.mem_cons.mp h with rfl | h
      · exact ⟨c, level, rfl, le_refl _⟩
      · obtain ⟨d, m, hnumber, hle⟩ := ih h
        exact ⟨d, m, hnumber, (counters_lt_enter c level).le.trans hle⟩

theorem nodup_numbers (c : Context) (levels : List HeadingLevel) : (c.numbers levels).Nodup := by
  induction levels generalizing c with
  | nil => exact List.nodup_nil
  | cons level levels ih =>
      refine List.nodup_cons.mpr ⟨fun h => ?_, ih (c.enter level)⟩
      obtain ⟨d, m, hnumber, hle⟩ := exists_of_mem_numbers h
      have hlt := hle.trans_lt (counters_lt_enter d m)
      exact hlt.ne (counters_eq_of_number_eq hnumber)

/-- From any counters and for any levels: what the counters are in the end, that every heading moves them
forward, and that all numbers are different. -/
theorem numbering (c : Context) (levels : List HeadingLevel) :
    (levels.foldl enter c).first = c.first + levels.count .first ∧
    (levels.foldl enter c).second = (levels.rtakeWhile (· ≠ .first)).count .second +
      (if .first ∈ levels then 0 else c.second) ∧
    (levels.foldl enter c).third =
      (levels.rtakeWhile fun level => level ≠ .first ∧ level ≠ .second).count .third +
        (if .first ∈ levels ∨ .second ∈ levels then 0 else c.third) ∧
    (c.numbers levels).Nodup ∧
    ((levels.scanl enter c).map counters).SortedLT :=
  ⟨foldl_enter_first c levels, foldl_enter_second c levels, foldl_enter_third c levels,
    nodup_numbers c levels, sortedLT_scanl_enter c levels⟩

end Treemark.Context
