import Mathlib.Data.List.TakeWhile
import Treemark.Node.Parser
import Treemark.Proofs.Draft.Streaming

/-!
# Trees in texts that go on

Behind a tree only blanks may follow. A text that is no tree does not become one by going on, unless it
ended too early. A number that is skipped and that ends before its last digit is such an end as well,
although it is reported as a fault of the number.
-/

namespace Treemark

open Json

theorem checkEnd_append {r : List Char} (h : checkEnd r = .ok ()) (s : List Char) :
    checkEnd (r ++ s) =
      if s.all isBlank then .ok ()
      else .error (.malformed .trailingCharacters) := by
  have hr : skipBlanks r = [] := by
    unfold checkEnd at h
    split at h
    · assumption
    · cases h
  have hs : skipBlanks (r ++ s) = skipBlanks s := by
    rw [skipBlanks, List.dropWhile_append, show r.dropWhile isBlank = [] from hr]
    rfl
  have hall : skipBlanks s = [] ↔ s.all isBlank = true := by
    rw [skipBlanks, List.dropWhile_eq_nil_iff, List.all_eq_true]
  simp only [checkEnd, hs, hall]

theorem checkEnd_append_of_error {r : List Char} {e : TreeError} (h : checkEnd r = .error e)
    (s : List Char) : ∃ e', checkEnd (r ++ s) = .error e' := by
  rcases skipBlanks_append_cases r with hnil | ⟨c, u, hr⟩
  · unfold checkEnd at h
    rw [if_pos hnil] at h
    cases h
  · exact ⟨.malformed .trailingCharacters, by simp [checkEnd, hr]⟩

namespace Node

theorem parse_append_of_ok {t : String} {n : Node} (h : parse t = .ok n) (s : String) :
    parse (t ++ s) =
      if s.toList.all isBlank then .ok n
      else .error (.malformed .trailingCharacters) := by
  unfold parse at h
  split at h
  · cases h
  · rename_i d r hread
    split at h
    · cases h
    · rename_i hend
      simp only [parse, String.toList_append, Draft.read_append hread, checkEnd_append hend]
      by_cases hs : s.toList.all isBlank = true
      · simpa only [if_pos hs] using h
      · simp only [if_neg hs]

/-- A complete draft that is no tree, for what follows it or for its kinds, is none in a longer text. -/
theorem parse_append_of_read {t : String} {d : Draft} {r : List Char} {e : TreeError}
    (hread : Draft.read t.toList = .ok (d, r)) (h : parse t = .error e) (s : String) :
    ∃ e', parse (t ++ s) = .error e' := by
  simp only [parse, hread] at h
  simp only [parse, String.toList_append, Draft.read_append hread]
  cases hend : checkEnd r with
  | error e' =>
      obtain ⟨e'', he''⟩ := checkEnd_append_of_error hend s.toList
      exact ⟨e'', by rw [he'']⟩
  | ok _ =>
      simp only [hend] at h
      rw [checkEnd_append hend]
      by_cases hs : s.toList.all isBlank = true
      · exact ⟨e, by simpa only [if_pos hs] using h⟩
      · exact ⟨.malformed .trailingCharacters, by simp only [if_neg hs]⟩

/-- What is read of a text does not change when the text goes on, and what is at fault in it stays so.
Only a text that ended too early may become a tree: one whose fault says so, or one in which a number
that is skipped lacks a digit, so that the text ends too early with one digit more. -/
theorem parse_append (t : String) :
    (∀ n, parse t = .ok n → ∀ s, parse (t ++ s) =
      if s.toList.all isBlank then .ok n
      else .error (.malformed .trailingCharacters)) ∧
    ∀ e, parse t = .error e → e.category ≠ .endOfText →
      (∀ s, ∃ e', parse (t ++ s) = .error e') ∨
      e = .malformed .invalidNumber ∧
        ∃ e', parse (t ++ "0") = .error e' ∧ e'.category = .endOfText := by
  refine ⟨fun n h => parse_append_of_ok h, fun e h hcategory => ?_⟩
  cases hread : Draft.read t.toList with
  | ok v => exact .inl (parse_append_of_read hread h)
  | error fault =>
      simp only [parse, hread] at h
      cases h
      rcases Draft.read_append_of_error hread hcategory with hfails | ⟨rfl, fault', hdigit, hend⟩
      · refine .inl fun s => ?_
        obtain ⟨fault', hfault'⟩ := hfails s.toList
        exact ⟨.malformed fault', by simp only [parse, String.toList_append, hfault']⟩
      · refine .inr ⟨rfl, .malformed fault', ?_, hend⟩
        have hzero : "0".toList = ['0'] := rfl
        simp only [parse, String.toList_append, hzero, hdigit]

/-- A number that is skipped lacks its digits, and with a digit and a bracket the text is a tree. -/
theorem parse_append_digit :
    parse "\x7b\"kind\":\"bold\",\"x\":-" = .error (.malformed .invalidNumber) ∧
      (TreeError.malformed .invalidNumber).category ≠ .endOfText ∧
      parse ("\x7b\"kind\":\"bold\",\"x\":-" ++ "1\x7d") = .ok ⟨.bold, "", "", []⟩ := by
  decide +kernel

end Node

end Treemark
