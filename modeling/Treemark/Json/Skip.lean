import Treemark.Json.Blank
import Treemark.Json.Quoted
import Treemark.Json.Numeral

/-!
# Values that are skipped

The value of a member without a meaning may be any value at all. It is moved over with a stack of the
brackets that are open, so its nesting has no limit.
-/

namespace Treemark.Json

def skipWord : List Char → List Char → Except Fault (List Char)
  | [], s => .ok s
  | _ :: _, [] => .error .endOfValue
  | c :: word, d :: s => if c = d then skipWord word s else .error .wordExpected

/-- What follows a row of digits that may not be empty; the end of the text is no excuse here. -/
def skipDigits (s : List Char) : Except Fault (List Char) :=
  match splitDigits s with
  | ([], _) => .error .invalidNumber
  | (_, rest) => .ok rest

def skipExponent (s : List Char) : Except Fault (List Char) :=
  match s with
  | 'e' :: s => skipDigits (splitSign s).2
  | 'E' :: s => skipDigits (splitSign s).2
  | _ => .ok s

def skipFraction (s : List Char) : Except Fault (List Char) :=
  match s with
  | '.' :: s =>
    match skipDigits s with
    | .error e => .error e
    | .ok s => skipExponent s
  | _ => skipExponent s

def skipNumeral (s : List Char) : Except Fault (List Char) :=
  match splitDigits s with
  | ([], _) => .error .invalidNumber
  | ('0' :: _ :: _, _) => .error .invalidNumber
  | (_, rest) => skipFraction rest

def skipScalar (c : Char) (s : List Char) : Except Fault (List Char) :=
  if c = 'n' then skipWord ['u', 'l', 'l'] s
  else if c = 't' then skipWord ['r', 'u', 'e'] s
  else if c = 'f' then skipWord ['a', 'l', 's', 'e'] s
  else if c = '"' then skipString s
  else if c = '-' then skipNumeral s
  else if c.isDigit then skipNumeral (c :: s)
  else .error .valueExpected

def skipColon (s : List Char) : Except Fault (List Char) :=
  match skipBlanks s with
  | [] => .error (.endOfBracket .object)
  | c :: s => if c = ':' then .ok s else .error .colonExpected

def skipName (s : List Char) : Except Fault (List Char) :=
  match skipBlanks s with
  | [] => .error (.endOfBracket .object)
  | c :: s =>
    if c ≠ '"' then .error .keyExpected
    else
      match skipString s with
      | .error e => .error e
      | .ok s => skipColon s

/-- Moves to where the value of a bracket's next element has to start. -/
def skipLead : Bracket → List Char → Except Fault (List Char)
  | .list, s => .ok s
  | .object, s => skipName s

/-- Closes the brackets that end behind a value, up to the comma behind which the next value of the
brackets left over starts. -/
def closeBrackets : List Bracket → List Char → Except Fault (List Bracket × List Char)
  | [], s => .ok ([], s)
  | b :: outer, s =>
    match skipBlanks s with
    | [] => .error (.endOfBracket b)
    | c :: s =>
      if c = ',' then
        match skipLead b s with
        | .error e => .error e
        | .ok s => .ok (b :: outer, s)
      else if c = b.closing then closeBrackets outer s
      else .error (.separatorExpected b)

def openBracket (b : Bracket) (outer : List Bracket) (s : List Char) :
    Except Fault (List Bracket × List Char) :=
  match skipBlanks s with
  | [] => .error (.endOfBracket b)
  | c :: rest =>
    if c = b.closing then closeBrackets outer rest
    else
      match skipLead b s with
      | .error e => .error e
      | .ok rest => .ok (b :: outer, rest)

/-- Moves from the start of a value to the start of the next one within the same outermost value. -/
def skipStep (outer : List Bracket) (s : List Char) : Except Fault (List Bracket × List Char) :=
  match skipBlanks s with
  | [] => .error .endOfValue
  | c :: s =>
    if c = '[' then openBracket .list outer s
    else if c = '{' then openBracket .object outer s
    else
      match skipScalar c s with
      | .error e => .error e
      | .ok s => closeBrackets outer s

/-! ## Every step moves forward -/

theorem splitDigits_length_le {s ds r : List Char} (h : splitDigits s = (ds, r)) :
    r.length ≤ s.length := by
  simp only [splitDigits, Prod.mk.injEq] at h
  exact h.2 ▸ (List.dropWhile_suffix Char.isDigit).length_le

theorem skipWord_length_le {word s r : List Char} (h : skipWord word s = .ok r) :
    r.length ≤ s.length := by
  fun_induction skipWord word s <;> simp_all
  omega

theorem splitSign_length_le (s : List Char) : (splitSign s).2.length ≤ s.length := by
  unfold splitSign
  split <;> simp

theorem skipDigits_length_le {s r : List Char} (h : skipDigits s = .ok r) :
    r.length ≤ s.length := by
  unfold skipDigits at h
  split at h
  · cases h
  · rename_i hs
    exact Except.ok.inj h ▸ splitDigits_length_le hs

theorem skipExponent_length_le {s r : List Char} (h : skipExponent s = .ok r) :
    r.length ≤ s.length := by
  unfold skipExponent at h
  split at h
  · rename_i t
    exact Nat.le_succ_of_le (Nat.le_trans (skipDigits_length_le h) (splitSign_length_le t))
  · rename_i t
    exact Nat.le_succ_of_le (Nat.le_trans (skipDigits_length_le h) (splitSign_length_le t))
  · exact Except.ok.inj h ▸ Nat.le_refl _

theorem skipFraction_length_le {s r : List Char} (h : skipFraction s = .ok r) :
    r.length ≤ s.length := by
  unfold skipFraction at h
  split at h
  · split at h
    · cases h
    · rename_i hd
      exact Nat.le_succ_of_le (Nat.le_trans (skipExponent_length_le h) (skipDigits_length_le hd))
  · exact skipExponent_length_le h

theorem skipNumeral_length_le {s r : List Char} (h : skipNumeral s = .ok r) :
    r.length ≤ s.length := by
  unfold skipNumeral at h
  split at h
  · cases h
  · cases h
  · rename_i hs
    exact Nat.le_trans (skipFraction_length_le h) (splitDigits_length_le hs)

theorem skipNumeral_shorter {c : Char} {s r : List Char} (hc : c.isDigit)
    (h : skipNumeral (c :: s) = .ok r) : r.length ≤ s.length := by
  unfold skipNumeral at h
  split at h
  · cases h
  · cases h
  · rename_i hs
    simp only [splitDigits, hc, List.dropWhile_cons, List.takeWhile_cons, if_true,
      Prod.mk.injEq] at hs
    have := (List.dropWhile_suffix (l := s) Char.isDigit).length_le
    have := skipFraction_length_le h
    grind

theorem skipScalar_length_le {c : Char} {s r : List Char} (h : skipScalar c s = .ok r) :
    r.length ≤ s.length := by
  unfold skipScalar at h
  repeat' split at h
  · exact skipWord_length_le h
  · exact skipWord_length_le h
  · exact skipWord_length_le h
  · exact Nat.le_of_lt (skipString_shorter h)
  · exact skipNumeral_length_le h
  · exact skipNumeral_shorter (by assumption) h
  · cases h

theorem skipColon_length_le {s r : List Char} (h : skipColon s = .ok r) : r.length ≤ s.length := by
  unfold skipColon at h
  split at h
  · cases h
  · rename_i hs
    have := skipBlanks_cons hs
    split at h
    · exact Except.ok.inj h ▸ Nat.le_of_lt this
    · cases h

theorem skipName_length_le {s r : List Char} (h : skipName s = .ok r) : r.length ≤ s.length := by
  unfold skipName at h
  split at h
  · cases h
  · rename_i hs
    have := skipBlanks_cons hs
    split at h
    · cases h
    · split at h
      · cases h
      · rename_i hq
        have := skipString_shorter hq
        have := skipColon_length_le h
        omega

theorem skipLead_length_le {b : Bracket} {s r : List Char} (h : skipLead b s = .ok r) :
    r.length ≤ s.length := by
  cases b with
  | list => exact Except.ok.inj h ▸ Nat.le_refl _
  | object => exact skipName_length_le h

theorem closeBrackets_length_le {outer inner : List Bracket} {s r : List Char}
    (h : closeBrackets outer s = .ok (inner, r)) : r.length ≤ s.length := by
  fun_induction closeBrackets outer s with
  | case1 => simp_all
  | case2 => cases h
  | case3 => cases h
  | case4 b outer s rest t ht hs =>
    have := skipBlanks_cons hs
    have := skipLead_length_le ht
    simp only [Except.ok.injEq, Prod.mk.injEq] at h
    simp only [← h.2]
    omega
  | case5 b outer s rest hs hc ih =>
    have := skipBlanks_cons hs
    have := ih h
    omega
  | case6 => cases h

theorem openBracket_length_le {b : Bracket} {outer inner : List Bracket} {s r : List Char}
    (h : openBracket b outer s = .ok (inner, r)) : r.length ≤ s.length := by
  unfold openBracket at h
  split at h
  · cases h
  · rename_i hs
    have := skipBlanks_cons hs
    split at h
    · have := closeBrackets_length_le h
      omega
    · split at h
      · cases h
      · rename_i ht
        simp only [Except.ok.injEq, Prod.mk.injEq] at h
        exact h.2 ▸ skipLead_length_le ht

theorem skipStep_shorter {outer inner : List Bracket} {s r : List Char}
    (h : skipStep outer s = .ok (inner, r)) : r.length < s.length := by
  unfold skipStep at h
  split at h
  · cases h
  · rename_i hs
    refine Nat.lt_of_le_of_lt ?_ (skipBlanks_cons hs)
    split at h
    · exact openBracket_length_le h
    · split at h
      · exact openBracket_length_le h
      · split at h
        · cases h
        · rename_i ht
          exact Nat.le_trans (closeBrackets_length_le h) (skipScalar_length_le ht)

/-! ## Skipping -/

def skipWithin (outer : List Bracket) (s : List Char) : Except Fault (List Char) :=
  match h : skipStep outer s with
  | .error e => .error e
  | .ok ([], rest) => .ok rest
  | .ok (b :: inner, rest) =>
    have := skipStep_shorter h
    skipWithin (b :: inner) rest
termination_by s.length

def skipValue (s : List Char) : Except Fault (List Char) := skipWithin [] s

theorem skipWithin_shorter {outer : List Bracket} {s r : List Char}
    (h : skipWithin outer s = .ok r) : r.length < s.length := by
  fun_induction skipWithin outer s with
  | case1 => cases h
  | case2 outer s rest hs => exact Except.ok.inj h ▸ skipStep_shorter hs
  | case3 outer s b inner rest hs this ih => exact Nat.lt_trans (ih h) this

theorem skipValue_shorter {s r : List Char} (h : skipValue s = .ok r) : r.length < s.length :=
  skipWithin_shorter h

end Treemark.Json
