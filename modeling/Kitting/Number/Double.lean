/-!
Binary floating point numbers of 64 bits, as exact values.

A finite number is `±significand · 2 ^ exponent`; the numbers that `ofFraction` makes have a significand
below `2 ^ 53`, which is at least `2 ^ 52` unless the exponent is the least one, `-1074`. Nothing here
rounds but `ofFraction`, to the nearest number and of two to the even one.
-/

namespace Kitting

inductive Double
  | nan
  | infinity (negative : Bool)
  | finite (negative : Bool) (significand : Nat) (exponent : Int)
  deriving DecidableEq, Repr

namespace Double

def leastExponent : Int := -1074

def greatestExponent : Int := 971

def zero (negative : Bool) : Double := finite negative 0 leastExponent

instance : Inhabited Double := ⟨zero false⟩

def scaled (num den : Nat) (e : Int) : Nat × Nat :=
  if 0 ≤ e then (num, den * .pow 2 e.toNat) else (num * .pow 2 (-e).toNat, den)

/-- The integer nearest to `num / den`; a half goes to the even neighbour. -/
def roundHalfEven (num den : Nat) : Nat :=
  let q := num / den
  let r := num % den
  if 2 * r < den then q
  else if den < 2 * r then q + 1
  else if q % 2 = 0 then q else q + 1

def ofFraction (negative : Bool) (num den : Nat) : Double :=
  if num = 0 then zero negative
  else
    let guess : Int := max leastExponent ((num.log2 : Int) - den.log2 - 53)
    let (n, d) := scaled num den guess
    let e := if .pow 2 53 ≤ n / d then guess + 1 else guess
    let (n, d) := scaled num den e
    let m := roundHalfEven n d
    let (m, e) := if m = .pow 2 53 then (.pow 2 52, e + 1) else (m, e)
    if greatestExponent < e then infinity negative else finite negative m e

def ofDecimal (negative : Bool) (digits : Nat) (exponent : Int) : Double :=
  if digits = 0 then zero negative
  else
    let size := exponent + (Nat.repr digits).length
    if 310 < size then infinity negative
    else if size < -330 then zero negative
    else if 0 ≤ exponent then ofFraction negative (digits * .pow 10 exponent.toNat) 1
    else ofFraction negative digits (.pow 10 (-exponent).toNat)

def ofRat (q : Rat) : Double := ofFraction (q.num < 0) q.num.natAbs q.den

def ofInt? (n : Int) : Option Double :=
  match ofFraction (n < 0) n.natAbs 1 with
  | infinity _ => none
  | d => some d

def fraction (significand : Nat) (exponent : Int) : Nat × Nat :=
  if 0 ≤ exponent then (significand * .pow 2 exponent.toNat, 1)
  else (significand, .pow 2 (-exponent).toNat)

def toRat? : Double → Option Rat
  | finite negative m e =>
    let (n, d) := fraction m e
    let q := mkRat n d
    some (if negative then -q else q)
  | _ => none

def isZero : Double → Bool
  | finite _ m _ => m == 0
  | _ => false

def isNegative : Double → Bool
  | nan => false
  | infinity negative => negative
  | finite negative m _ => negative && m != 0

/-- Strictly below; nothing is below or above `nan`, and the two zeros are equal. -/
def lt : Double → Double → Bool
  | infinity a, infinity b => a && !b
  | infinity a, finite .. => a
  | finite .., infinity b => !b
  | finite a m e, finite b n f =>
    match toRat? (finite a m e), toRat? (finite b n f) with
    | some x, some y => x < y
    | _, _ => false
  | _, _ => false

def le (x y : Double) : Bool := x != nan && y != nan && !lt y x

def truncate? : Double → Option Int
  | finite negative m e =>
    let (n, d) := fraction m e
    let q : Int := n / d
    some (if negative then -q else q)
  | _ => none

def isIntegral : Double → Bool
  | finite _ m e => let (n, d) := fraction m e; n % d == 0
  | _ => false

end Double

end Kitting
