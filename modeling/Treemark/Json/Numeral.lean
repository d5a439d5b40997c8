import Treemark.Json.Fault
import Treemark.Decimal.Shortest

/-!
# Numbers

No part of a tree is a number. A number is read only to say which number stands where something else
was wanted, so reading one ends in what was found, or in the fault of the number itself.
-/

namespace Treemark.Json

def splitDigits (s : List Char) : List Char × List Char :=
  (s.takeWhile Char.isDigit, s.dropWhile Char.isDigit)

def splitSign : List Char → Bool × List Char
  | '-' :: s => (true, s)
  | '+' :: s => (false, s)
  | s => (false, s)

def digitValue (c : Char) : Nat := c.toNat - '0'.toNat

def digitsValue (ds : List Char) : Nat := ds.foldl (fun v c => v * 10 + digitValue c) 0

/-- Appends digits to a significand as long as it fits 64 bits; what is left over has no influence on
it any more. -/
def absorb (significand : Nat) : List Char → Nat × List Char
  | [] => (significand, [])
  | d :: ds =>
    if significand * 10 + digitValue d < Nat.pow 2 64 then absorb (significand * 10 + digitValue d) ds
    else (significand, d :: ds)

def powerOfTen (n : Nat) : Float := Float.ofScientific 1 false n

def divideByPower (x : Float) (n : Nat) : Float :=
  if n ≤ 308 then x / powerOfTen n
  else if x == 0 then x
  else divideByPower (x / powerOfTen 308) (n - 308)
termination_by n

/-- The floating-point number `significand * 10 ^ exponent`, rounded once for the significand and once
for every step of the scaling. -/
def scale (significand : Nat) (exponent : Int) : Except Fault Float :=
  let x := (UInt64.ofNat significand).toFloat
  if exponent < 0 then .ok (divideByPower x exponent.natAbs)
  else if significand = 0 then .ok x
  else if exponent ≤ 308 ∧ (x * powerOfTen exponent.natAbs).isFinite then
    .ok (x * powerOfTen exponent.natAbs)
  else .error .numberOutOfRange

def real (negative : Bool) (significand : Nat) (exponent : Int) : Except Fault Found :=
  match scale significand exponent with
  | .error e => .error e
  | .ok x => .ok (.real ((if negative then "-" else "") ++ Decimal.shortestText x))

/-- The number without a fraction or an exponent; only integers of 64 bits are called integers. -/
def integral (negative : Bool) (significand : Nat) (left : List Char) : Except Fault Found :=
  if left ≠ [] then real negative significand left.length
  else if ¬ negative then .ok (.integer significand)
  else if significand = 0 ∨ Nat.pow 2 63 < significand then real true significand 0
  else .ok (.integer (-significand))

def digitMissing : List Char → Fault
  | [] => .endOfValue
  | _ => .invalidNumber

/-- The number whose exponent starts behind the `e`. An exponent beyond 31 bits makes any number too
large or zero. -/
def withExponent (negative : Bool) (significand : Nat) (exponent : Int) (s : List Char) :
    Except Fault Found :=
  let (down, s) := splitSign s
  match splitDigits s with
  | ([], rest) => .error (digitMissing rest)
  | (ds, _) =>
    let e := digitsValue ds
    if Nat.pow 2 31 ≤ e then
      if significand ≠ 0 ∧ ¬ down then .error .numberOutOfRange else real negative 0 0
    else real negative significand (if down then exponent - e else exponent + e)

def withFraction (negative : Bool) (significand : Nat) (exponent : Int) (s : List Char) :
    Except Fault Found :=
  match splitDigits s with
  | ([], rest) => .error (digitMissing rest)
  | (ds, rest) =>
    let (significand, left) := absorb significand ds
    let exponent := exponent - (ds.length - left.length)
    match rest with
    | 'e' :: rest => withExponent negative significand exponent rest
    | 'E' :: rest => withExponent negative significand exponent rest
    | _ => real negative significand exponent

def numeral (negative : Bool) (s : List Char) : Except Fault Found :=
  match splitDigits s with
  | ([], rest) => .error (digitMissing rest)
  | ('0' :: _ :: _, _) => .error .invalidNumber
  | (ds, rest) =>
    let (significand, left) := absorb 0 ds
    match rest with
    | '.' :: rest => withFraction negative significand left.length rest
    | 'e' :: rest => withExponent negative significand left.length rest
    | 'E' :: rest => withExponent negative significand left.length rest
    | _ => integral negative significand left

end Treemark.Json
