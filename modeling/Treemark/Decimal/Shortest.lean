/-!
# The shortest decimal of a binary fraction

A finite floating-point number of 64 bits stands for all reals that round to it. Of the decimals among
these the one with the fewest digits is written, of several such the nearest to the number, and of two
equally near ones the one whose last digit is even.
-/

namespace Treemark

/-- The decimal number `digits * 10 ^ exponent`. -/
structure Decimal where
  digits : Nat
  exponent : Int
  deriving DecidableEq, Repr

/-- A positive fraction together with the reals that round to it. All three numerators are over
`denominator`; `closed` tells whether the ends round to the fraction, too. -/
structure Rounding where
  lower : Nat
  value : Nat
  upper : Nat
  denominator : Nat
  closed : Bool

def Rounding.ofBits (bits : Nat) : Rounding :=
  let fraction := bits % Nat.pow 2 52
  let biased := bits / Nat.pow 2 52 % Nat.pow 2 11
  let m := if biased = 0 then fraction else Nat.pow 2 52 + fraction
  let gap := if fraction = 0 ∧ 1 < biased then 1 else 2
  let q : Int := (if biased = 0 then 1 else biased : Nat) - 1077
  let scale := Nat.pow 2 q.toNat
  { lower := (4 * m - gap) * scale
    value := 4 * m * scale
    upper := (4 * m + 2) * scale
    denominator := Nat.pow 2 (-q).toNat
    closed := m % 2 = 0 }

def Rounding.inUnits (r : Rounding) (k : Int) : Rounding :=
  let up := Nat.pow 10 (-k).toNat
  { r with
    lower := r.lower * up
    value := r.value * up
    upper := r.upper * up
    denominator := r.denominator * Nat.pow 10 k.toNat }

def Rounding.covers (r : Rounding) (d : Nat) : Bool :=
  let x := d * r.denominator
  if r.closed then r.lower ≤ x && x ≤ r.upper else r.lower < x && x < r.upper

/-- The integer nearest to the fraction among its two neighbours that round to it. -/
def Rounding.integer? (r : Rounding) : Option Nat :=
  let below := r.value / r.denominator
  let rest := r.value % r.denominator
  match r.covers below, r.covers (below + 1) with
  | false, false => none
  | true, false => some below
  | false, true => some (below + 1)
  | true, true =>
    if 2 * rest < r.denominator then some below
    else if r.denominator < 2 * rest then some (below + 1)
    else some (below + below % 2)

/-- The power of ten of the leading digit; no number of 64 bits is below `10 ^ (-330)`. -/
def Rounding.leading (r : Rounding) : Int :=
  if r.denominator ≤ r.value then
    ((Nat.toDigits 10 (r.value / r.denominator)).length : Int) - 1
  else
    -(((List.range 330).find? fun j => r.denominator ≤ r.value * Nat.pow 10 j).getD 330 : Nat)

/-- The first grid of decimals, from coarse to fine, on which some decimal rounds to the fraction. -/
def Rounding.shortest (r : Rounding) : Decimal :=
  let hit := (List.range 17).findSome? fun (n : Nat) =>
    let k := r.leading - n
    (r.inUnits k).integer?.map fun d => Decimal.mk d k
  hit.getD ⟨0, 0⟩

def Decimal.stripZeros (d : Decimal) : Decimal :=
  let zeros := ((Nat.toDigits 10 d.digits).reverse.takeWhile (· = '0')).length
  if d.digits = 0 then d else ⟨d.digits / Nat.pow 10 zeros, d.exponent + zeros⟩

def signed (i : Int) : List Char := (if 0 ≤ i then ['+'] else []) ++ (toString i).toList

/-- Writes a decimal. From `10 ^ (-5)` to below `10 ^ 16` the point stands at its place, with a zero on
a side that has no digit; other decimals have a power of ten with its sign behind an `e`. -/
def Decimal.write (d : Decimal) : String :=
  let digits := Nat.toDigits 10 d.digits
  let size : Int := digits.length + d.exponent
  let written :=
    if 0 ≤ d.exponent ∧ size ≤ 16 then
      digits ++ List.replicate d.exponent.toNat '0' ++ ['.', '0']
    else if 0 < size ∧ size ≤ 16 then
      digits.take size.toNat ++ '.' :: digits.drop size.toNat
    else if -5 < size ∧ size ≤ 0 then
      '0' :: '.' :: (List.replicate (-size).toNat '0' ++ digits)
    else
      digits.take 1 ++ (if digits.length = 1 then [] else '.' :: digits.drop 1)
        ++ 'e' :: signed (size - 1)
  String.ofList written

/-- The shortest text of a finite number that is not negative. -/
def Decimal.shortestText (x : Float) : String :=
  let bits := x.toBits.toNat % Nat.pow 2 63
  if bits = 0 then "0.0" else (Rounding.ofBits bits).shortest.stripZeros.write

end Treemark
