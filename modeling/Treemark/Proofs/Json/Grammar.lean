import Treemark.Json.Fault

/-!
# The grammar of texts

Each relation here is between a text that starts with a thing of one sort and the rest of the text behind
it. Strings are read in two ways: with the characters that they stand for, where the units of a pair have
to belong together, and without, where any four digits will do.
-/

namespace Treemark.Json

/-- Blanks, of which there may be none. -/
inductive Blanks : List Char → List Char → Prop where
  | none (s : List Char) : Blanks s s
  | more {c : Char} {s r : List Char} : c ∈ [' ', '\t', '\n', '\r'] → Blanks s r → Blanks (c :: s) r

/-! ## Strings -/

/-- The escapes of one letter with the characters that they stand for. -/
def letters : List (Char × Char) :=
  [('"', '"'), ('\\', '\\'), ('/', '/'), ('b', '\x08'), ('f', '\x0c'), ('n', '\n'), ('r', '\r'),
   ('t', '\t')]

/-- A hexadecimal digit of either case, and its value. -/
def HexDigit (c : Char) (v : Nat) : Prop :=
  v < 16 ∧ (c = Nat.digitChar v ∨ c = (Nat.digitChar v).toUpper)

instance (c : Char) (v : Nat) : Decidable (HexDigit c v) :=
  inferInstanceAs (Decidable (_ ∧ _))

/-- Four hexadecimal digits and the unit that they stand for. -/
inductive HexUnit : List Char → Nat → List Char → Prop where
  | mk {a b c d : Char} {w x y z : Nat} (r : List Char) : HexDigit a w → HexDigit b x → HexDigit c y →
      HexDigit d z → HexUnit (a :: b :: c :: d :: r) (((w * 16 + x) * 16 + y) * 16 + z) r

/-- The first of the two units of a character beyond U+FFFF. -/
def highUnit (c : Char) : Nat := 0xd800 + (c.toNat - 0x10000) / 0x400

/-- The second of the two units of a character beyond U+FFFF. -/
def lowUnit (c : Char) : Nat := 0xdc00 + (c.toNat - 0x10000) % 0x400

/-- The spelling of one character of a string. -/
inductive SpelledChar : List Char → Char → List Char → Prop where
  | raw {c : Char} (r : List Char) : c ≠ '"' → c ≠ '\\' → 0x20 ≤ c.toNat → SpelledChar (c :: r) c r
  | letter {l c : Char} (r : List Char) : (l, c) ∈ letters → SpelledChar ('\\' :: l :: r) c r
  | unit {c : Char} {s r : List Char} : HexUnit s c.toNat r → SpelledChar ('\\' :: 'u' :: s) c r
  | pair {c : Char} {s t r : List Char} : 0x10000 ≤ c.toNat →
      HexUnit s (highUnit c) ('\\' :: 'u' :: t) → HexUnit t (lowUnit c) r →
      SpelledChar ('\\' :: 'u' :: s) c r

/-- The characters of a string, with the quote that closes it. -/
inductive SpelledTail : List Char → List Char → List Char → Prop where
  | close (r : List Char) : SpelledTail ('"' :: r) [] r
  | char {c : Char} {cs s t r : List Char} : SpelledChar s c t → SpelledTail t cs r →
      SpelledTail s (c :: cs) r

/-- What a string without a meaning may hold, with the quote that closes it. -/
inductive LooseTail : List Char → List Char → Prop where
  | close (r : List Char) : LooseTail ('"' :: r) r
  | raw {c : Char} {s r : List Char} : c ≠ '"' → c ≠ '\\' → 0x20 ≤ c.toNat → LooseTail s r →
      LooseTail (c :: s) r
  | letter {l c : Char} {s r : List Char} : (l, c) ∈ letters → LooseTail s r →
      LooseTail ('\\' :: l :: s) r
  | unit {u : Nat} {s t r : List Char} : HexUnit s u t → LooseTail t r →
      LooseTail ('\\' :: 'u' :: s) r

/-! ## Numbers -/

/-- One digit or more. -/
inductive Digits : List Char → List Char → Prop where
  | last {d : Char} (r : List Char) : d.isDigit = true → Digits (d :: r) r
  | more {d : Char} {s r : List Char} : d.isDigit = true → Digits s r → Digits (d :: s) r

/-- Digits of which the first is no zero, unless it is the only one. -/
inductive Whole : List Char → List Char → Prop where
  | zero (r : List Char) : Whole ('0' :: r) r
  | digits {s r : List Char} : Digits s r → s.head? ≠ some '0' → Whole s r

inductive Fraction : List Char → List Char → Prop where
  | none (s : List Char) : Fraction s s
  | some {s r : List Char} : Digits s r → Fraction ('.' :: s) r

inductive Sign : List Char → List Char → Prop where
  | none (s : List Char) : Sign s s
  | plus (s : List Char) : Sign ('+' :: s) s
  | minus (s : List Char) : Sign ('-' :: s) s

inductive Exponent : List Char → List Char → Prop where
  | none (s : List Char) : Exponent s s
  | some {e : Char} {s t r : List Char} : e = 'e' ∨ e = 'E' → Sign s t → Digits t r →
      Exponent (e :: s) r

inductive Unsigned : List Char → List Char → Prop where
  | mk {s t u r : List Char} : Whole s t → Fraction t u → Exponent u r → Unsigned s r

/-! ## Values -/

inductive Scalar : List Char → List Char → Prop where
  | nullWord (r : List Char) : Scalar ('n' :: 'u' :: 'l' :: 'l' :: r) r
  | trueWord (r : List Char) : Scalar ('t' :: 'r' :: 'u' :: 'e' :: r) r
  | falseWord (r : List Char) : Scalar ('f' :: 'a' :: 'l' :: 's' :: 'e' :: r) r
  | string {s r : List Char} : LooseTail s r → Scalar ('"' :: s) r
  | positive {s r : List Char} : Unsigned s r → Scalar s r
  | negative {s r : List Char} : Unsigned s r → Scalar ('-' :: s) r

/-- The opening bracket of a list or an object. -/
def Bracket.opening : Bracket → Char
  | list => '['
  | object => '{'

/-- What stands in front of an element in brackets: blanks, and a comma among them unless the element is
the first. -/
inductive Separated : Bool → List Char → List Char → Prop where
  | first {s t : List Char} : Blanks s t → Separated true s t
  | next {s t u : List Char} : Blanks s (',' :: t) → Blanks t u → Separated false s u

mutual
/-- Any value at all; nothing bounds how deep its brackets are nested. -/
inductive Value : List Char → List Char → Prop where
  | scalar {s r : List Char} : Scalar s r → Value s r
  | bracket (b : Bracket) {s r : List Char} : Inside b true s r → Value (b.opening :: s) r

/-- What stands between brackets, with the bracket that closes them, from behind the bracket that opens
them or from behind one of their elements. -/
inductive Inside : Bracket → Bool → List Char → List Char → Prop where
  | close (b : Bracket) (first : Bool) {s r : List Char} : Blanks s (b.closing :: r) →
      Inside b first s r
  | more {b : Bracket} {first : Bool} {s t u r : List Char} : Separated first s t → Element b t u →
      Inside b false u r → Inside b first s r

/-- An element of a list is a value, and one of an object is a value behind a name and a colon. -/
inductive Element : Bracket → List Char → List Char → Prop where
  | item {s r : List Char} : Value s r → Element .list s r
  | member {s t u v r : List Char} : LooseTail s t → Blanks t (':' :: u) → Blanks u v → Value v r →
      Element .object ('"' :: s) r
end

end Treemark.Json
