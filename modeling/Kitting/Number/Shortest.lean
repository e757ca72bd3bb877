import Kitting.Number.Double

/-!
Decimal texts of binary numbers.

`Double.shortest` finds the fewest digits that read back as the number: for 1, 2, … 17 digits it tests
the two neighbours of the exact value on that decimal grid against the interval of values that round to
the number (ends included iff the significand is even), and takes the first hit; of two the nearer, and
in a tie the even one.
`DecimalStyle` says how digits and exponent are then written.
-/

namespace Kitting

namespace Double

def digitCount (n : Nat) : Nat := (Nat.repr n).length

def decimalExponent (num den : Nat) : Int :=
  if den ≤ num then (digitCount (num / den) : Int) - 1 else -(digitCount ((den - 1) / num) : Int)

/-- Twice the half-way points below and above `significand · 2 ^ exponent`, in units of a quarter of the
last place: the lower one is nearer when the significand is the least of its binade. -/
def quarters (significand : Nat) (exponent : Int) : Nat × Nat × Nat × Int :=
  let lower := if significand = .pow 2 52 ∧ leastExponent < exponent then 4 * significand - 1
    else 4 * significand - 2
  (lower, 4 * significand, 4 * significand + 2, exponent - 2)

/-- The shortest digits `d` and the exponent `k` with `d · 10 ^ k` in the interval, trying from `count`
digits on, `fuel` times. -/
def shortestFrom (significand : Nat) (exponent : Int) : (fuel count : Nat) → Nat × Int
  | 0, _ => (significand, exponent)
  | fuel + 1, count =>
    let (lower, middle, upper, e) := quarters significand exponent
    let (num, den) := fraction middle e
    let k := decimalExponent num den - count + 1
    let unit : Nat × Nat := if 0 ≤ k then (.pow 10 k.toNat, 1) else (1, .pow 10 (-k).toNat)
    -- a grid point `g` stands for `g · unit`; compare it with `q · 2 ^ e` after clearing denominators
    let two : Nat × Nat := if 0 ≤ e then (.pow 2 e.toNat, 1) else (1, .pow 2 (-e).toNat)
    let grid (g : Nat) := g * unit.1 * two.2
    let point (q : Nat) := q * two.1 * unit.2
    let closed := significand % 2 == 0
    let inside (g : Nat) :=
      if closed then point lower ≤ grid g && grid g ≤ point upper
      else point lower < grid g && grid g < point upper
    let below := point middle / (unit.1 * two.2)
    let above := below + 1
    let sum := grid below + grid above
    let chosen := if 2 * point middle < sum then below
      else if sum < 2 * point middle then above
      else if below % 2 = 0 then below else above
    match inside below, inside above with
    | true, true => (chosen, k)
    | true, false => (below, k)
    | false, true => (above, k)
    | false, false => shortestFrom significand exponent fuel (count + 1)

def dropZeros : (fuel digits : Nat) → Int → Nat × Int
  | 0, n, k => (n, k)
  | fuel + 1, n, k => if n % 10 = 0 then dropZeros fuel (n / 10) (k + 1) else (n, k)

def shortest (significand : Nat) (exponent : Int) : Nat × Int :=
  if significand = 0 then (0, 0)
  else
    let (n, k) := shortestFrom significand exponent 17 1
    dropZeros (digitCount n) n k

end Double

/-- How a number is written once its digits are known. Positional from the exponent `least` of the
leading digit up to `greatest`; elsewhere with an exponent of at least `width` digits, `+` before it if
`plus`. -/
structure DecimalStyle where
  least : Int
  greatest : Int
  width : Nat
  plus : Bool

def DecimalStyle.plain : DecimalStyle := ⟨-4, 15, 2, true⟩

def DecimalStyle.compact : DecimalStyle := ⟨-5, 15, 1, false⟩

def zeroPad (width : Nat) (s : String) : String :=
  String.ofList (List.replicate (width - s.length) '0') ++ s

def DecimalStyle.write (style : DecimalStyle) (n : Nat) (k : Int) : String :=
  let ds := Nat.repr n
  let lead := k + ds.length - 1
  if style.least ≤ lead ∧ lead ≤ style.greatest then
    if 0 ≤ k then ds ++ String.ofList (List.replicate k.toNat '0') ++ ".0"
    else if 0 ≤ lead then
      String.ofList (ds.toList.take (lead.toNat + 1)) ++ "."
        ++ String.ofList (ds.toList.drop (lead.toNat + 1))
    else "0." ++ String.ofList (List.replicate (-lead - 1).toNat '0') ++ ds
  else
    let mantissa := match ds.toList with
      | d :: e :: rest => String.ofList (d :: '.' :: e :: rest)
      | _ => ds
    let sign := if lead < 0 then "-" else if style.plus then "+" else ""
    mantissa ++ "e" ++ sign ++ zeroPad style.width (Nat.repr lead.natAbs)

namespace Double

def writeWith (style : DecimalStyle) : Double → String
  | nan => "nan"
  | infinity negative => if negative then "-inf" else "inf"
  | finite negative m e =>
    let (n, k) := shortest m e
    (if negative then "-" else "") ++ if n = 0 then "0.0" else style.write n k

def text (d : Double) : String := d.writeWith .plain

def fixed (places : Nat) : Double → String
  | nan => "nan"
  | infinity negative => if negative then "-inf" else "inf"
  | finite negative m e =>
    let (num, den) := fraction m e
    let n := roundHalfEven (num * .pow 10 places) den
    let ds := (zeroPad (places + 1) (Nat.repr n)).toList
    (if negative then "-" else "") ++ String.ofList (ds.take (ds.length - places)) ++ "."
      ++ String.ofList (ds.drop (ds.length - places))

def roundTo (places : Nat) : Double → Double
  | finite negative m e =>
    let (num, den) := fraction m e
    ofFraction negative (roundHalfEven (num * .pow 10 places) den) (.pow 10 places)
  | d => d

end Double

end Kitting
