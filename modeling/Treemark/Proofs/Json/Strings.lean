import Treemark.Json.Blank
import Treemark.Proofs.Json.Grammar
import Treemark.Proofs.Json.Quoted

/-!
# Strings are read as they are spelled

A string with a meaning is read just where its characters are spelled, and one without is passed over
just where any units may stand.
-/

namespace Treemark.Json

/-! ## Blanks -/

theorem isBlank_iff {c : Char} : isBlank c = true ↔ c ∈ [' ', '\t', '\n', '\r'] := by
  simp [isBlank, or_assoc]

theorem blanks_skipBlanks (s : List Char) : Blanks s (skipBlanks s) := by
  induction s with
  | nil => exact .none []
  | cons c s ih =>
      by_cases hc : isBlank c = true
      · have hskip : skipBlanks (c :: s) = skipBlanks s := by simp [skipBlanks, hc]
        rw [hskip]
        exact .more (isBlank_iff.mp hc) ih
      · have hskip : skipBlanks (c :: s) = c :: s := by simp [skipBlanks, hc]
        rw [hskip]
        exact .none _

theorem blanks_of_skipBlanks {s r : List Char} (h : skipBlanks s = r) : Blanks s r :=
  h ▸ blanks_skipBlanks s

theorem Blanks.skipBlanks_eq {s r : List Char} (h : Blanks s r) : skipBlanks s = skipBlanks r := by
  induction h with
  | none => rfl
  | more hc _ ih => simpa [skipBlanks, isBlank_iff.mpr hc] using ih

theorem Blanks.skipBlanks_cons {s r : List Char} {c : Char} (h : Blanks s (c :: r))
    (hc : isBlank c = false) : skipBlanks s = c :: r := by
  rw [h.skipBlanks_eq]
  simp [skipBlanks, hc]

/-! ## Units -/

theorem toNat_ofNat {n : Nat} (h : n.isValidChar) : (Char.ofNat n).toNat = n := by
  rw [Char.ofNat, dif_pos h]
  rfl

theorem hexDigit?_iff {c : Char} {v : Nat} : hexDigit? c = some v ↔ HexDigit c v := by
  have hdigits : ∀ v < 16, hexDigit? (Nat.digitChar v) = some v ∧
      hexDigit? (Nat.digitChar v).toUpper = some v := by decide
  constructor
  · intro h
    have hsmall : c.toNat < 0x67 := by
      unfold hexDigit? at h
      split at h
      · rename_i hc
        exact Nat.lt_of_le_of_lt (show c.toNat ≤ 0x39 from hc.2) (by decide)
      split at h
      · rename_i hc
        exact Nat.lt_of_le_of_lt (show c.toNat ≤ 0x66 from hc.2) (by decide)
      split at h
      · rename_i hc
        exact Nat.lt_of_le_of_lt (show c.toNat ≤ 0x46 from hc.2) (by decide)
      · cases h
    have hall : ∀ n < 0x67, ∀ v ∈ hexDigit? (Char.ofNat n), HexDigit (Char.ofNat n) v := by decide
    have hc := hall c.toNat hsmall v
    rw [Char.ofNat_toNat] at hc
    exact hc h
  · rintro ⟨hv, rfl | rfl⟩
    · exact (hdigits v hv).1
    · exact (hdigits v hv).2

theorem hexUnit_iff {s r : List Char} {u : Nat} : hexUnit s = .ok (u, r) ↔ HexUnit s u r := by
  constructor
  · intro h
    unfold hexUnit at h
    split at h
    · split at h
      · rename_i ha hb hc hd
        cases h
        exact .mk r (hexDigit?_iff.mp ha) (hexDigit?_iff.mp hb) (hexDigit?_iff.mp hc)
          (hexDigit?_iff.mp hd)
      · cases h
    · cases h
  · rintro ⟨_, ha, hb, hc, hd⟩
    simp only [hexUnit, hexDigit?_iff.mpr ha, hexDigit?_iff.mpr hb, hexDigit?_iff.mpr hc,
      hexDigit?_iff.mpr hd]

theorem HexUnit.lt {s r : List Char} {u : Nat} (h : HexUnit s u r) : u < 0x10000 := by
  obtain ⟨_, ⟨ha, -⟩, ⟨hb, -⟩, ⟨hc, -⟩, ⟨hd, -⟩⟩ := h
  omega

/-! ## Pairs of units -/

theorem pairChar_units {high low : Nat} (hhigh : isHighUnit high = true) (hlow : isLowUnit low = true) :
    0x10000 ≤ (pairChar high low).toNat ∧ highUnit (pairChar high low) = high ∧
      lowUnit (pairChar high low) = low := by
  simp only [isHighUnit, isLowUnit, Bool.and_eq_true, decide_eq_true_eq] at hhigh hlow
  have hvalid : (0x10000 + (high - 0xd800) * 0x400 + (low - 0xdc00)).isValidChar := by
    refine .inr ⟨?_, ?_⟩ <;> omega
  rw [highUnit, lowUnit, pairChar, toNat_ofNat hvalid]
  omega

theorem pairChar_of_units {c : Char} (hc : 0x10000 ≤ c.toNat) :
    isHighUnit (highUnit c) = true ∧ isLowUnit (lowUnit c) = true ∧
      pairChar (highUnit c) (lowUnit c) = c := by
  have hmax : c.toNat < 0x110000 := by
    rcases c.valid with h | h
    · exact Nat.lt_trans h (by decide)
    · exact h.2
  have hvalue : 0x10000 + (highUnit c - 0xd800) * 0x400 + (lowUnit c - 0xdc00) = c.toNat := by
    simp only [highUnit, lowUnit]
    omega
  refine ⟨?_, ?_, ?_⟩
  · simp only [isHighUnit, Bool.and_eq_true, decide_eq_true_eq]
    simp only [highUnit]
    omega
  · simp only [isLowUnit, Bool.and_eq_true, decide_eq_true_eq]
    simp only [lowUnit]
    omega
  · rw [pairChar, hvalue, Char.ofNat_toNat]

/-! ## Characters -/

theorem letterEscape?_iff {l c : Char} : letterEscape? l = some c ↔ (l, c) ∈ letters := by
  constructor
  · intro h
    unfold letterEscape? at h
    split at h <;> cases h <;> decide
  · have hall : ∀ x ∈ letters, letterEscape? x.1 = some x.2 := by decide
    exact hall (l, c)

theorem lowHalf_iff {high : Nat} {s r : List Char} {c : Char} :
    lowHalf high s = .ok (c, r) ↔ ∃ t low, s = '\\' :: 'u' :: t ∧ HexUnit t low r ∧
      isLowUnit low = true ∧ c = pairChar high low := by
  constructor
  · intro h
    unfold lowHalf at h
    split at h
    · cases h
    · cases h
    · rename_i t
      split at h
      · cases h
      · rename_i low rest hunit
        split at h
        · rename_i hlow
          simp only [Except.ok.injEq, Prod.mk.injEq] at h
          exact ⟨t, low, rfl, h.2 ▸ hexUnit_iff.mp hunit, hlow, h.1.symm⟩
        · cases h
    · cases h
  · rintro ⟨t, low, rfl, hunit, hlow, hc⟩
    simp only [lowHalf, hexUnit_iff.mpr hunit, hlow, ↓reduceIte, hc]

theorem not_unit_toNat (c : Char) : isHighUnit c.toNat = false ∧ isLowUnit c.toNat = false := by
  have hvalid : c.toNat < 0xd800 ∨ 0xdfff < c.toNat ∧ c.toNat < 0x110000 := c.valid
  simp only [isHighUnit, isLowUnit, Bool.and_eq_false_iff, decide_eq_false_iff_not]
  omega

theorem hexEscape_iff {s r : List Char} {c : Char} :
    hexEscape s = .ok (c, r) ↔ SpelledChar ('\\' :: 'u' :: s) c r := by
  constructor
  · intro h
    unfold hexEscape at h
    split at h
    · cases h
    · rename_i u rest hunit
      have hunit := hexUnit_iff.mp hunit
      split at h
      · cases h
      · rename_i hlow
        split at h
        · rename_i hhigh
          obtain ⟨t, low, rfl, hunit', hlow', hc⟩ := lowHalf_iff.mp h
          rw [hc]
          obtain ⟨hbeyond, hfirst, hsecond⟩ := pairChar_units hhigh hlow'
          exact .pair hbeyond (by rwa [hfirst]) (by rwa [hsecond])
        · rename_i hhigh
          cases h
          have hvalid : u.isValidChar := by
            have hlt := hunit.lt
            simp only [isHighUnit, isLowUnit, Bool.and_eq_true, decide_eq_true_eq] at hhigh hlow
            simp only [Nat.isValidChar]
            omega
          exact .unit (by rwa [toNat_ofNat hvalid])
  · intro h
    cases h with
    | raw _ _ hslash _ => exact absurd rfl hslash
    | letter _ hletter => exact absurd hletter (by simp [letters])
    | unit hunit =>
        obtain ⟨hhigh, hlow⟩ := not_unit_toNat c
        simp [hexEscape, hexUnit_iff.mpr hunit, hhigh, hlow, Char.ofNat_toNat]
    | @pair _ _ t _ hbeyond hunit hunit' =>
        obtain ⟨hhigh, hlow', hpair⟩ := pairChar_of_units hbeyond
        have hlow : isLowUnit (highUnit c) = false := by
          simp only [isHighUnit, isLowUnit, Bool.and_eq_true, decide_eq_true_eq] at hhigh ⊢
          simp
          omega
        have hrest : lowHalf (highUnit c) ('\\' :: 'u' :: t) = .ok (c, r) :=
          lowHalf_iff.mpr ⟨t, lowUnit c, rfl, hunit', hlow', hpair.symm⟩
        simp [hexEscape, hexUnit_iff.mpr hunit, hlow, hhigh, hrest]

theorem escape_iff {s r : List Char} {c : Char} :
    escape s = .ok (c, r) ↔ SpelledChar ('\\' :: s) c r := by
  constructor
  · intro h
    unfold escape at h
    split at h
    · cases h
    · split at h
      · rename_i hletter
        cases h
        exact .letter r (letterEscape?_iff.mp hletter)
      · split at h
        · subst_vars
          exact hexEscape_iff.mp h
        · cases h
  · intro h
    cases h with
    | raw _ _ hslash _ => exact absurd rfl hslash
    | letter _ hletter => exact escape_letter (letterEscape?_iff.mpr hletter) r
    | unit hunit => simpa [escape, letterEscape?] using hexEscape_iff.mpr (.unit hunit)
    | pair hbeyond hunit hunit' =>
        simpa [escape, letterEscape?] using hexEscape_iff.mpr (.pair hbeyond hunit hunit')

/-! ## Strings -/

theorem stringTail_iff {s cs r : List Char} : stringTail s = .ok (cs, r) ↔ SpelledTail s cs r := by
  constructor
  · intro h
    fun_induction stringTail s generalizing cs r with
    | case1 => cases h
    | case2 s => cases h; exact .close s
    | case3 => cases h
    | case4 => cases h
    | case5 s d t hescape _ cs' r' htail _ ih =>
        cases h
        exact .char (escape_iff.mp hescape) (ih htail)
    | case6 => cases h
    | case7 => cases h
    | case8 c s hquote hslash hcontrol cs' r' htail ih =>
        cases h
        exact .char (.raw s hquote hslash (Nat.le_of_not_lt hcontrol)) (ih htail)
  · intro h
    induction h with
    | close r => simp [stringTail]
    | @char c cs s t r hchar _ ih =>
        have hcons : stringTail s = mapValue (c :: ·) (stringTail t) := by
          cases hchar with
          | raw _ hquote hslash hcontrol => exact stringTail_plain hquote hslash hcontrol t
          | letter _ hletter => exact stringTail_escape (escape_iff.mpr (.letter t hletter))
          | unit hunit => exact stringTail_escape (escape_iff.mpr (.unit hunit))
          | pair hbeyond hunit hunit' =>
              exact stringTail_escape (escape_iff.mpr (.pair hbeyond hunit hunit'))
        rw [hcons, ih]
        rfl

theorem skipEscape_iff {s r : List Char} : skipEscape s = .ok r ↔
    (∃ l c, s = l :: r ∧ (l, c) ∈ letters) ∨ ∃ t u, s = 'u' :: t ∧ HexUnit t u r := by
  constructor
  · intro h
    unfold skipEscape at h
    split at h
    · cases h
    · split at h
      · rename_i hletter
        cases h
        exact .inl ⟨_, _, rfl, letterEscape?_iff.mp hletter⟩
      · split at h
        · subst_vars
          split at h
          · cases h
          · rename_i hunit
            cases h
            exact .inr ⟨_, _, rfl, hexUnit_iff.mp hunit⟩
        · cases h
  · rintro (⟨l, c, rfl, hletter⟩ | ⟨t, u, rfl, hunit⟩)
    · simp only [skipEscape, letterEscape?_iff.mpr hletter]
    · simp [skipEscape, letterEscape?, hexUnit_iff.mpr hunit]

theorem skipString_escape {s t : List Char} (h : skipEscape s = .ok t) :
    skipString ('\\' :: s) = skipString t := by
  rw [skipString]
  simp only [Char.reduceEq, ↓reduceIte]
  split <;> simp_all

theorem skipString_iff {s r : List Char} : skipString s = .ok r ↔ LooseTail s r := by
  constructor
  · intro h
    fun_induction skipString s with
    | case1 => cases h
    | case2 => cases h; exact .close _
    | case3 => cases h
    | case4 s t hescape _ _ ih =>
        rcases skipEscape_iff.mp hescape with ⟨l, c, rfl, hletter⟩ | ⟨s', u, rfl, hunit⟩
        · exact .letter hletter (ih h)
        · exact .unit hunit (ih h)
    | case5 => cases h
    | case6 c s hquote hslash hcontrol ih =>
        exact .raw hquote hslash (Nat.le_of_not_lt hcontrol) (ih h)
  · intro h
    induction h with
    | close r => simp [skipString]
    | raw hquote hslash hcontrol _ ih =>
        rw [skipString]
        simp only [hquote, hslash, Nat.not_lt.mpr hcontrol, ↓reduceIte, ih]
    | letter hletter _ ih =>
        rw [skipString_escape (skipEscape_iff.mpr (.inl ⟨_, _, rfl, hletter⟩)), ih]
    | unit hunit _ ih =>
        rw [skipString_escape (skipEscape_iff.mpr (.inr ⟨_, _, rfl, hunit⟩)), ih]

end Treemark.Json
