import Treemark.Json.Sequence

/-!
# Written strings read back

Each character of a written string is a letter escape, an escape of four digits or the character itself.
In each case the reader gets the character back and goes on behind it.
-/

namespace Treemark.Json

/-! ## The three forms of a written character -/

theorem escapeChar_cases (c : Char) :
    (∃ letter, escapeChar c = ['\\', letter] ∧ letterEscape? letter = some c) ∨
    (c.toNat < 0x20 ∧ escapeChar c =
      ['\\', 'u', '0', '0', Nat.digitChar (c.toNat / 16), Nat.digitChar (c.toNat % 16)]) ∨
    (c ≠ '"' ∧ c ≠ '\\' ∧ 0x20 ≤ c.toNat ∧ escapeChar c = [c]) := by
  unfold escapeChar
  iterate 7
    split
    · subst c; exact .inl ⟨_, rfl, rfl⟩
  split
  · exact .inr (.inl ⟨‹_›, rfl⟩)
  · exact .inr (.inr ⟨‹_›, ‹_›, by omega, rfl⟩)

/-! ## Escapes -/

theorem hexDigit?_digitChar : ∀ d < 16, hexDigit? (Nat.digitChar d) = some d := by decide

theorem hexUnit_twoDigits {a b : Nat} (ha : a < 16) (hb : b < 16) (s : List Char) :
    hexUnit ('0' :: '0' :: Nat.digitChar a :: Nat.digitChar b :: s) = .ok (a * 16 + b, s) := by
  have hzero : hexDigit? '0' = some 0 := by decide
  simp [hexUnit, hzero, hexDigit?_digitChar a ha, hexDigit?_digitChar b hb]

theorem escape_letter {letter c : Char} (h : letterEscape? letter = some c) (s : List Char) :
    escape (letter :: s) = .ok (c, s) := by
  simp only [escape, h]

theorem escape_control {c : Char} (hc : c.toNat < 0x20) (s : List Char) :
    escape ('u' :: '0' :: '0' :: Nat.digitChar (c.toNat / 16) :: Nat.digitChar (c.toNat % 16) :: s)
      = .ok (c, s) := by
  have hunit := hexUnit_twoDigits (a := c.toNat / 16) (b := c.toNat % 16) (by omega) (by omega) s
  rw [Nat.div_add_mod'] at hunit
  have hlow : isLowUnit c.toNat = false := by simp [isLowUnit]; omega
  have hhigh : isHighUnit c.toNat = false := by simp [isHighUnit]; omega
  simp [escape, letterEscape?, hexEscape, hunit, hlow, hhigh]

/-! ## Strings -/

theorem stringTail_escape {c : Char} {s rest : List Char} (h : escape s = .ok (c, rest)) :
    stringTail ('\\' :: s) = mapValue (c :: ·) (stringTail rest) := by
  rw [stringTail]
  simp only [Char.reduceEq, ↓reduceIte]
  split
  · rename_i e he
    rw [h] at he
    cases he
  · rename_i c' rest' hc
    rw [h] at hc
    cases hc
    cases stringTail rest <;> rfl

theorem stringTail_plain {c : Char} (hquote : c ≠ '"') (hslash : c ≠ '\\') (hc : 0x20 ≤ c.toNat)
    (s : List Char) : stringTail (c :: s) = mapValue (c :: ·) (stringTail s) := by
  have hcontrol : ¬ c.toNat < 0x20 := by omega
  rw [stringTail]
  simp only [hquote, hslash, hcontrol, ↓reduceIte]
  cases stringTail s <;> rfl

theorem stringTail_escapeChar (c : Char) (s : List Char) :
    stringTail (escapeChar c ++ s) = mapValue (c :: ·) (stringTail s) := by
  rcases escapeChar_cases c with ⟨letter, he, hl⟩ | ⟨hc, he⟩ | ⟨hquote, hslash, hc, he⟩
  · rw [he]; exact stringTail_escape (escape_letter hl s)
  · rw [he]; exact stringTail_escape (escape_control hc s)
  · rw [he]; exact stringTail_plain hquote hslash hc s

/-- A written string reads back, whatever follows its closing quote. -/
theorem stringTail_written (cs rest : List Char) :
    stringTail (cs.flatMap escapeChar ++ '"' :: rest) = .ok (cs, rest) := by
  induction cs with
  | nil => simp [stringTail]
  | cons c cs ih =>
      rw [List.flatMap_cons, List.append_assoc, stringTail_escapeChar, ih]
      rfl

end Treemark.Json
