import Treemark.Json.Fault

/-!
# Strings in double quotes

A string is written with the fewest escapes. It is read with any of them: the one-letter escapes, and
UTF-16 units of four hexadecimal digits, where a character beyond U+FFFF takes a pair of units.
-/

namespace Treemark.Json

/-- What a reader finds at the front of a text, and the rest of the text; or the fault that stops it. -/
abbrev Reading (α : Type) := Except Fault (α × List Char)

/-! ## Writing -/

def escapeChar (c : Char) : List Char :=
  if c = '"' then ['\\', '"']
  else if c = '\\' then ['\\', '\\']
  else if c = '\x08' then ['\\', 'b']
  else if c = '\x0c' then ['\\', 'f']
  else if c = '\n' then ['\\', 'n']
  else if c = '\r' then ['\\', 'r']
  else if c = '\t' then ['\\', 't']
  else if c.toNat < 0x20 then
    ['\\', 'u', '0', '0', Nat.digitChar (c.toNat / 16), Nat.digitChar (c.toNat % 16)]
  else [c]

def quoted (s : String) : List Char := '"' :: (s.toList.flatMap escapeChar ++ ['"'])

/-! ## Reading -/

def hexDigit? (c : Char) : Option Nat :=
  if '0' ≤ c ∧ c ≤ '9' then some (c.toNat - '0'.toNat)
  else if 'a' ≤ c ∧ c ≤ 'f' then some (c.toNat - 'a'.toNat + 10)
  else if 'A' ≤ c ∧ c ≤ 'F' then some (c.toNat - 'A'.toNat + 10)
  else none

def byteCount (s : List Char) : Nat := s.foldl (fun size c => size + c.utf8Size) 0

/-- The unit that four hexadecimal digits stand for. With less than four bytes left the text has ended
inside the string. -/
def hexUnit : List Char → Reading Nat
  | a :: b :: c :: d :: rest =>
    match hexDigit? a, hexDigit? b, hexDigit? c, hexDigit? d with
    | some a, some b, some c, some d => .ok (((a * 16 + b) * 16 + c) * 16 + d, rest)
    | _, _, _, _ => .error .invalidEscape
  | s => .error (if 4 ≤ byteCount s then .invalidEscape else .endOfString)

def isHighUnit (u : Nat) : Bool := 0xd800 ≤ u && u ≤ 0xdbff

def isLowUnit (u : Nat) : Bool := 0xdc00 ≤ u && u ≤ 0xdfff

def pairChar (high low : Nat) : Char :=
  Char.ofNat (0x10000 + (high - 0xd800) * 0x400 + (low - 0xdc00))

def lowHalf (high : Nat) : List Char → Reading Char
  | [] => .error .endOfString
  | ['\\'] => .error .endOfString
  | '\\' :: 'u' :: s =>
    match hexUnit s with
    | .error e => .error e
    | .ok (low, rest) => if isLowUnit low then .ok (pairChar high low, rest) else .error .loneSurrogate
  | _ => .error .brokenPair

def hexEscape (s : List Char) : Reading Char :=
  match hexUnit s with
  | .error e => .error e
  | .ok (u, rest) =>
    if isLowUnit u then .error .loneSurrogate
    else if isHighUnit u then lowHalf u rest
    else .ok (Char.ofNat u, rest)

def letterEscape? : Char → Option Char
  | '"' => some '"'
  | '\\' => some '\\'
  | '/' => some '/'
  | 'b' => some '\x08'
  | 'f' => some '\x0c'
  | 'n' => some '\n'
  | 'r' => some '\r'
  | 't' => some '\t'
  | _ => none

def escape : List Char → Reading Char
  | [] => .error .endOfString
  | c :: s =>
    match letterEscape? c with
    | some d => .ok (d, s)
    | none => if c = 'u' then hexEscape s else .error .invalidEscape

/-- What follows an escape, whose units need not pair up. -/
def skipEscape : List Char → Except Fault (List Char)
  | [] => .error .endOfString
  | c :: s =>
    match letterEscape? c with
    | some _ => .ok s
    | none =>
      if c = 'u' then
        match hexUnit s with
        | .error e => .error e
        | .ok (_, rest) => .ok rest
      else .error .invalidEscape

theorem hexUnit_shorter {s r : List Char} {u : Nat} (h : hexUnit s = .ok (u, r)) :
    r.length < s.length := by
  unfold hexUnit at h
  split at h
  · split at h
    · simp only [Except.ok.injEq, Prod.mk.injEq] at h
      simp only [← h.2, List.length_cons]
      omega
    · cases h
  · cases h

theorem lowHalf_shorter {s r : List Char} {high : Nat} {c : Char}
    (h : lowHalf high s = .ok (c, r)) : r.length < s.length := by
  unfold lowHalf at h
  split at h
  · cases h
  · cases h
  · rename_i s'
    split at h
    · cases h
    · rename_i hu
      have := hexUnit_shorter hu
      split at h
      · simp only [Except.ok.injEq, Prod.mk.injEq] at h
        simp only [← h.2, List.length_cons]
        omega
      · cases h
  · cases h

theorem hexEscape_shorter {s r : List Char} {c : Char} (h : hexEscape s = .ok (c, r)) :
    r.length < s.length := by
  unfold hexEscape at h
  split at h
  · cases h
  · rename_i hu
    have := hexUnit_shorter hu
    split at h
    · cases h
    · split at h
      · exact Nat.lt_trans (lowHalf_shorter h) this
      · simp only [Except.ok.injEq, Prod.mk.injEq] at h
        exact h.2 ▸ this

theorem escape_shorter {s r : List Char} {c : Char} (h : escape s = .ok (c, r)) :
    r.length < s.length := by
  unfold escape at h
  split at h
  · cases h
  · split at h
    · simp only [Except.ok.injEq, Prod.mk.injEq] at h
      simp [← h.2]
    · split at h
      · have := hexEscape_shorter h
        simp only [List.length_cons]
        omega
      · cases h

theorem skipEscape_shorter {s r : List Char} (h : skipEscape s = .ok r) :
    r.length < s.length := by
  unfold skipEscape at h
  split at h
  · cases h
  · split at h
    · simp only [Except.ok.injEq] at h
      simp [← h]
    · split at h
      · split at h
        · cases h
        · rename_i hu
          have := hexUnit_shorter hu
          simp only [Except.ok.injEq] at h
          simp only [← h, List.length_cons]
          omega
      · cases h

/-- The characters of a string, read from behind its opening quote up to and with its closing one. -/
def stringTail : List Char → Reading (List Char)
  | [] => .error .endOfString
  | c :: s =>
    if c = '"' then .ok ([], s)
    else if c = '\\' then
      match h : escape s with
      | .error e => .error e
      | .ok (d, rest) =>
        have := escape_shorter h
        match stringTail rest with
        | .error e => .error e
        | .ok (cs, rest) => .ok (d :: cs, rest)
    else if c.toNat < 0x20 then .error .controlCharacter
    else
      match stringTail s with
      | .error e => .error e
      | .ok (cs, rest) => .ok (c :: cs, rest)
termination_by s => s.length

def skipString : List Char → Except Fault (List Char)
  | [] => .error .endOfString
  | c :: s =>
    if c = '"' then .ok s
    else if c = '\\' then
      match h : skipEscape s with
      | .error e => .error e
      | .ok rest =>
        have := skipEscape_shorter h
        skipString rest
    else if c.toNat < 0x20 then .error .controlCharacter
    else skipString s
termination_by s => s.length

theorem stringTail_shorter {s r : List Char} {cs : List Char} (h : stringTail s = .ok (cs, r)) :
    r.length < s.length := by
  fun_induction stringTail s generalizing cs r
  all_goals simp_all
  all_goals omega

theorem skipString_shorter {s r : List Char} (h : skipString s = .ok r) :
    r.length < s.length := by
  fun_induction skipString s generalizing r
  all_goals simp_all
  all_goals omega

end Treemark.Json
