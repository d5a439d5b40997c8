/-!
# Blanks

Only four characters may stand between the tokens of a text.
-/

namespace Treemark.Json

def isBlank (c : Char) : Bool := c = ' ' || c = '\t' || c = '\n' || c = '\r'

def skipBlanks (s : List Char) : List Char := s.dropWhile isBlank

theorem skipBlanks_length_le (s : List Char) : (skipBlanks s).length ≤ s.length :=
  (List.dropWhile_suffix isBlank).length_le

theorem skipBlanks_cons {s r : List Char} {c : Char} (h : skipBlanks s = c :: r) :
    r.length < s.length := by
  have := skipBlanks_length_le s
  rw [h, List.length_cons] at this
  exact this

end Treemark.Json
