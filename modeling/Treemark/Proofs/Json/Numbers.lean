import Treemark.Json.Skip
import Treemark.Proofs.Json.Strings

/-!
# Numbers are passed over as they are spelled

A number goes on as far as it can, so it ends where the grammar says only if nothing behind it could
belong to it.
-/

namespace Treemark.Json

/-- The characters that a number could go on with. -/
def prolongs (c : Char) : Bool := c.isDigit || c = '.' || c = 'e' || c = 'E'

/-- A number in front of the text ends there. -/
def Delimited (s : List Char) : Prop := ∀ c ∈ s.head?, prolongs c = false

theorem Delimited.of_blanks {s r : List Char} {c : Char} (h : Blanks s (c :: r))
    (hc : prolongs c = false) : Delimited s := by
  intro d hd
  cases h with
  | none => cases hd; exact hc
  | more hb =>
      cases hd
      simp only [List.mem_cons, List.not_mem_nil, or_false] at hb
      rcases hb with rfl | rfl | rfl | rfl <;> rfl

theorem digits_of_split {s ds r : List Char} (h : splitDigits s = (ds, r)) (hds : ds ≠ []) :
    Digits s r := by
  simp only [splitDigits, Prod.mk.injEq] at h
  obtain ⟨rfl, rfl⟩ := h
  induction s with
  | nil => exact absurd rfl hds
  | cons c s ih =>
      by_cases hc : c.isDigit = true
      · simp only [List.dropWhile_cons, hc, ↓reduceIte]
        by_cases hs : s.takeWhile Char.isDigit = []
        · have hnone := List.takeWhile_append_dropWhile (p := Char.isDigit) (l := s)
          rw [hs, List.nil_append] at hnone
          rw [hnone]
          exact .last s hc
        · exact .more hc (ih hs)
      · simp [hc] at hds

theorem Digits.head {s r : List Char} (h : Digits s r) : ∃ d t, s = d :: t ∧ d.isDigit = true := by
  cases h with
  | last _ hd => exact ⟨_, _, rfl, hd⟩
  | more hd _ => exact ⟨_, _, rfl, hd⟩

theorem splitDigits_of_no_digit {s : List Char} (h : ∀ c ∈ s.head?, c.isDigit = false) :
    splitDigits s = ([], s) := by
  cases s with
  | nil => rfl
  | cons c s => simp [splitDigits, h c rfl]

theorem splitDigits_cons {d : Char} (hd : d.isDigit = true) (s : List Char) :
    splitDigits (d :: s) = (d :: (splitDigits s).1, (splitDigits s).2) := by
  simp [splitDigits, hd]

theorem Digits.split {s r : List Char} (h : Digits s r) (hr : ∀ c ∈ r.head?, c.isDigit = false) :
    ∃ d ds t, s = d :: t ∧ splitDigits s = (d :: ds, r) := by
  induction h with
  | last r hd => exact ⟨_, _, _, rfl, by rw [splitDigits_cons hd, splitDigits_of_no_digit hr]⟩
  | more hd _ ih =>
      obtain ⟨d, ds, t, rfl, hsplit⟩ := ih hr
      exact ⟨_, _, _, rfl, by rw [splitDigits_cons hd, hsplit]⟩

theorem digits_of_skipDigits {s r : List Char} (h : skipDigits s = .ok r) : Digits s r := by
  unfold skipDigits at h
  split at h
  · cases h
  · rename_i hds hsplit
    cases h
    exact digits_of_split hsplit hds

theorem Digits.skipDigits_eq {s r : List Char} (h : Digits s r)
    (hr : ∀ c ∈ r.head?, c.isDigit = false) : skipDigits s = .ok r := by
  obtain ⟨d, ds, t, rfl, hsplit⟩ := h.split hr
  simp only [skipDigits, hsplit]

theorem whole_of_split {s ds r : List Char} (h : splitDigits s = (ds, r)) (hds : ds ≠ [])
    (hzero : ∀ d ds', ds ≠ '0' :: d :: ds') : Whole s r := by
  have hdigits := digits_of_split h hds
  by_cases hhead : s.head? = some '0'
  · obtain ⟨t, rfl⟩ := List.head?_eq_some_iff.mp hhead
    rw [splitDigits_cons rfl, Prod.mk.injEq] at h
    obtain ⟨rfl, rfl⟩ := h
    have hnone : (splitDigits t).1 = [] := by
      cases hsplit : (splitDigits t).1 with
      | nil => rfl
      | cons d ds => exact absurd (congrArg ('0' :: ·) hsplit) (hzero d ds)
    have hrest : (splitDigits t).2 = t := by
      have hparts := List.takeWhile_append_dropWhile (p := Char.isDigit) (l := t)
      rwa [show t.takeWhile Char.isDigit = [] from hnone] at hparts
    rw [hrest]
    exact .zero t
  · exact .digits hdigits hhead

theorem Whole.skipNumeral_eq {s t : List Char} (h : Whole s t)
    (ht : ∀ c ∈ t.head?, c.isDigit = false) : skipNumeral s = skipFraction t := by
  cases h with
  | zero => simp only [skipNumeral, splitDigits_cons, splitDigits_of_no_digit ht, Char.reduceIsDigit]
  | digits hdigits hzero =>
      obtain ⟨d, ds, u, rfl, hsplit⟩ := hdigits.split ht
      unfold skipNumeral
      split
      · simp_all
      · rename_i hsplit'
        rw [hsplit, Prod.mk.injEq, List.cons.injEq] at hsplit'
        exact absurd (congrArg some hsplit'.1.1) hzero
      · simp_all

theorem sign_splitSign (s : List Char) : Sign s (splitSign s).2 := by
  unfold splitSign
  split
  · exact .minus _
  · exact .plus _
  · exact .none _

theorem Sign.splitSign_eq {s t r : List Char} (h : Sign s t) (ht : Digits t r) :
    (splitSign s).2 = t := by
  cases h with
  | none =>
      obtain ⟨d, u, rfl, hd⟩ := ht.head
      unfold splitSign
      split
      · simp_all
      · simp_all
      · rfl
  | plus => rfl
  | minus => rfl

theorem exponent_of_skipExponent {s r : List Char} (h : skipExponent s = .ok r) : Exponent s r := by
  unfold skipExponent at h
  split at h
  · exact .some (.inl rfl) (sign_splitSign _) (digits_of_skipDigits h)
  · exact .some (.inr rfl) (sign_splitSign _) (digits_of_skipDigits h)
  · cases h
    exact .none s

theorem Delimited.no_digit {s : List Char} (h : Delimited s) : ∀ c ∈ s.head?, c.isDigit = false := by
  intro c hc
  have := h c hc
  simp_all [prolongs]

theorem Exponent.skipExponent_eq {s r : List Char} (h : Exponent s r) (hr : Delimited r) :
    skipExponent s = .ok r := by
  cases h with
  | none =>
      unfold skipExponent
      split
      · exact absurd (hr 'e' rfl) (by decide)
      · exact absurd (hr 'E' rfl) (by decide)
      · rfl
  | some he hsign hdigits =>
      have hskip : skipDigits _ = .ok r := hdigits.skipDigits_eq hr.no_digit
      rcases he with rfl | rfl <;> simp only [skipExponent, hsign.splitSign_eq hdigits, hskip]

theorem Exponent.no_digit {s r : List Char} (h : Exponent s r) (hr : Delimited r) :
    ∀ c ∈ s.head?, c.isDigit = false := by
  cases h with
  | none => exact hr.no_digit
  | some he => rintro c ⟨⟩; rcases he with rfl | rfl <;> rfl

theorem unsigned_of_skipNumeral {s r : List Char} (h : skipNumeral s = .ok r) : Unsigned s r := by
  unfold skipNumeral at h
  split at h
  · cases h
  · cases h
  · rename_i hzero hsplit
    have hwhole : Whole s _ := whole_of_split hsplit ‹_› fun d ds => hzero d ds
    unfold skipFraction at h
    split at h
    · split at h
      · cases h
      · rename_i hdigits
        exact .mk hwhole (.some (digits_of_skipDigits hdigits)) (exponent_of_skipExponent h)
    · exact .mk hwhole (.none _) (exponent_of_skipExponent h)

theorem Unsigned.skipNumeral_eq {s r : List Char} (h : Unsigned s r) (hr : Delimited r) :
    skipNumeral s = .ok r := by
  obtain ⟨hwhole, hfraction, hexponent⟩ := h
  have hskip := hexponent.skipExponent_eq hr
  cases hfraction with
  | none =>
      rw [hwhole.skipNumeral_eq (hexponent.no_digit hr)]
      unfold skipFraction
      split
      · cases hexponent with
        | none => exact absurd (hr '.' rfl) (by decide)
        | some he => simp at he
      · exact hskip
  | some hdigits =>
      rw [hwhole.skipNumeral_eq (by rintro c ⟨⟩; rfl)]
      simp only [skipFraction, hdigits.skipDigits_eq (hexponent.no_digit hr), hskip]

end Treemark.Json
