import Kitting.Number.Double
import Kitting.Text.Blank
import Kitting.Text.Digit

namespace Kitting

open Text

structure Numeral where
  negative : Bool
  digits : Nat
  exponent : Int

def Numeral.toDouble (n : Numeral) : Double := .ofDecimal n.negative n.digits n.exponent

def asciiDigit? (c : Char) : Option Nat :=
  if '0' ≤ c && c ≤ '9' then some (c.toNat - '0'.toNat) else none

def readDigits : (value count : Nat) → List Char → Nat × Nat × List Char
  | value, count, [] => (value, count, [])
  | value, count, c :: cs => match asciiDigit? c with
    | some d => readDigits (10 * value + d) (count + 1) cs
    | none => (value, count, c :: cs)

def readSign : List Char → Bool × List Char
  | '-' :: cs => (true, cs)
  | '+' :: cs => (false, cs)
  | cs => (false, cs)

def readExponent? : List Char → Option Int
  | [] => some 0
  | c :: cs =>
    if c = 'e' ∨ c = 'E' then
      let (negative, cs) := readSign cs
      match readDigits 0 0 cs with
      | (n, count, []) => if count = 0 then none else some (if negative then -(n : Int) else n)
      | _ => none
    else none

def Numeral.ofChars? (cs : List Char) : Option Numeral :=
  let (negative, cs) := readSign cs
  let (whole, n, rest) := readDigits 0 0 cs
  let (digits, places, rest) := match rest with
    | '.' :: rest => readDigits whole 0 rest
    | rest => (whole, 0, rest)
  if n + places = 0 then none
  else (readExponent? rest).map fun e => ⟨negative, digits, e - places⟩

def asciiDigits (cs : List Char) : List Char :=
  cs.map fun c => match digitValue? c with
    | some d => Char.ofNat ('0'.toNat + d)
    | none => c

/-- Takes out underscores that stand between two digits; any other one makes the text no number. -/
def dropUnderscores? : (before : Bool) → List Char → Option (List Char)
  | _, [] => some []
  | before, '_' :: cs =>
    if before && (match cs with | c :: _ => (asciiDigit? c).isSome | [] => false)
    then dropUnderscores? false cs else none
  | _, c :: cs => (dropUnderscores? (asciiDigit? c).isSome cs).map (c :: ·)

def special? (cs : List Char) : Option Double :=
  let (negative, cs) := readSign cs
  let word := String.ofList (cs.map Char.toLower)
  if word = "inf" ∨ word = "infinity" then some (.infinity negative)
  else if word = "nan" then some .nan
  else none

def Double.ofText? (s : String) : Option Double := do
  let cs ← dropUnderscores? false (trimBy isSpace (asciiDigits s.toList))
  (special? cs).orElse fun _ => (Numeral.ofChars? cs).map (·.toDouble)

/-- Single underscores inside a text fall out; otherwise it stays. -/
def looseUnderscores (cs : List Char) : List Char :=
  let doubled := (cs.zip (cs.drop 1)).any fun p => p.1 == '_' && p.2 == '_'
  if cs.head? == some '_' || cs.getLast? == some '_' || doubled then cs
  else cs.filter (· != '_')

/-- The number a record field of text names: ASCII digits only. -/
def Double.ofField? (s : String) : Option Double :=
  let cs := looseUnderscores (trimBy isSpace s.toList)
  (special? cs).orElse fun _ => (Numeral.ofChars? cs).map (·.toDouble)

/-- The integer a record field of text names: a sign, digits, and perhaps a point with zeros only. -/
def intOfField? (s : String) : Option Int :=
  let (negative, cs) := readSign (looseUnderscores (trimBy isSpace s.toList))
  match readDigits 0 0 cs with
  | (n, count, rest) =>
    if count = 0 then none
    else match rest with
      | [] => some (if negative then -(n : Int) else n)
      | '.' :: zeros => if zeros.all (· == '0') then some (if negative then -(n : Int) else n) else none
      | _ => none

end Kitting
