import Treemark.Json.Sequence
import Treemark.Proofs.Json.Values

/-!
# Separators are read as they are spelled

Behind an element in brackets stands the closing bracket, or a comma and the next element. A comma in
front of the closing bracket is no separator.
-/

namespace Treemark.Json

theorem Blanks.trans {s t r : List Char} (h : Blanks s t) (h' : Blanks t r) : Blanks s r := by
  induction h with
  | none => exact h'
  | more hc _ ih => exact .more hc (ih h')

theorem Separated.trans {first : Bool} {s t r : List Char} (h : Separated first s t)
    (h' : Blanks t r) : Separated first s r := by
  cases h with
  | first hs => exact .first (hs.trans h')
  | next hs ht => exact .next hs (ht.trans h')

/-! ## Elements of lists -/

theorem nextElement_closed_iff {first : Bool} {s r : List Char} :
    nextElement first s = .ok (.closed r) ↔ Blanks s (']' :: r) := by
  constructor
  · intro h
    unfold nextElement at h
    split at h
    · cases h
    · rename_i hs
      split at h
      · subst_vars
        cases h
        exact blanks_of_skipBlanks hs
      · grind
  · intro h
    simp [nextElement, h.skipBlanks_cons rfl]

theorem separated_of_nextElement {first : Bool} {s r : List Char}
    (h : nextElement first s = .ok (.further r)) : Separated first s r := by
  unfold nextElement at h
  split at h
  · cases h
  · rename_i hs
    have hs := blanks_of_skipBlanks hs
    split at h
    · cases h
    split at h
    · subst_vars
      cases h
      exact .first hs
    split at h
    · rename_i hfirst hcomma
      subst hcomma
      rw [eq_false_of_ne_true hfirst]
      split at h
      · cases h
      · rename_i hrest
        split at h
        · cases h
        · cases h
          exact .next hs (blanks_of_skipBlanks hrest)
    · cases h

theorem Separated.nextElement_eq {first : Bool} {s r : List Char} {c : Char}
    (h : Separated first s (c :: r)) (hc : opens c = true) :
    nextElement first s = .ok (.further (c :: r)) := by
  have hclosing : c ≠ ']' := by rintro rfl; cases hc
  cases h with
  | first hs => simp [nextElement, skipBlanks_opens hs hc, hclosing]
  | next hs ht => simp [nextElement, hs.skipBlanks_cons rfl, skipBlanks_opens ht hc, hclosing]

theorem endElements_iff {s r : List Char} : endElements s = .ok r ↔ Blanks s (']' :: r) := by
  constructor
  · intro h
    unfold endElements at h
    split at h
    · cases h
    · rename_i hs
      split at h
      · subst_vars
        cases h
        exact blanks_of_skipBlanks hs
      · grind
  · intro h
    simp [endElements, h.skipBlanks_cons rfl]

/-! ## Members of objects -/

theorem startName_iff {c : Char} {s r : List Char} :
    startName c s = .ok (.further r) ↔ c = '"' ∧ s = r := by
  unfold startName
  split <;> simp_all

theorem nextMember_closed_iff {first : Bool} {s r : List Char} :
    nextMember first s = .ok (.closed r) ↔ Blanks s ('}' :: r) := by
  constructor
  · intro h
    unfold nextMember startName at h
    split at h
    · cases h
    · rename_i hs
      split at h
      · subst_vars
        cases h
        exact blanks_of_skipBlanks hs
      · grind
  · intro h
    simp [nextMember, h.skipBlanks_cons rfl]

theorem nextMember_further_iff {first : Bool} {s r : List Char} :
    nextMember first s = .ok (.further r) ↔ Separated first s ('"' :: r) := by
  constructor
  · intro h
    unfold nextMember at h
    split at h
    · cases h
    · rename_i hs
      have hs := blanks_of_skipBlanks hs
      split at h
      · cases h
      split at h
      · obtain ⟨rfl, rfl⟩ := startName_iff.mp h
        subst_vars
        exact .first hs
      split at h
      · rename_i hfirst hcomma
        subst hcomma
        rw [eq_false_of_ne_true hfirst]
        split at h
        · cases h
        · rename_i hrest
          split at h
          · cases h
          · obtain ⟨rfl, rfl⟩ := startName_iff.mp h
            exact .next hs (blanks_of_skipBlanks hrest)
      · cases h
  · intro h
    cases h with
    | first hs => simp [nextMember, hs.skipBlanks_cons rfl, startName]
    | next hs ht => simp [nextMember, hs.skipBlanks_cons rfl, ht.skipBlanks_cons rfl, startName]

end Treemark.Json
