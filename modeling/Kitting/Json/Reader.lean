import Kitting.Json.Basic
import Kitting.Number.Reader

/-!
Reading JSON texts.

Beyond the standard, `NaN`, `Infinity` and `-Infinity` are numbers. A number with a point or an exponent
is a binary number, any other one an integer of whatever size. Of two members with one name the last
gives the value and the first the position. Each function takes the characters it needs and gives back
the rest; `fuel` bounds the depth of the calls, and the length of a text is always enough.

Two things are left out. A machine bounds the digits of an integer (by 4300) and the depth of nesting; beyond
that, reading ends in an error which is not one of syntax and which nobody handles, where this reader goes on.
And a `String` has no lone surrogate, so that the escape of one is read as U+FFFD. `Synthesis.run_ends` and
`Command.loads_of_bytes` hold up to these limits.
-/

namespace Kitting.Json

def isSpace (c : Char) : Bool := c == ' ' || c == '\t' || c == '\n' || c == '\r'

def skip (cs : List Char) : List Char := cs.dropWhile isSpace

def hexDigit? (c : Char) : Option Nat :=
  if '0' ≤ c && c ≤ '9' then some (c.toNat - '0'.toNat)
  else if 'a' ≤ c && c ≤ 'f' then some (c.toNat - 'a'.toNat + 10)
  else if 'A' ≤ c && c ≤ 'F' then some (c.toNat - 'A'.toNat + 10)
  else none

def readHex4? : List Char → Option (Nat × List Char)
  | a :: b :: c :: d :: cs => do
    let a ← hexDigit? a
    let b ← hexDigit? b
    let c ← hexDigit? c
    let d ← hexDigit? d
    some (((a * 16 + b) * 16 + c) * 16 + d, cs)
  | _ => none

/-- The character of a `\u` escape whose first unit has been read. A surrogate without its partner
becomes U+FFFD. -/
def readUnit (n : Nat) (cs : List Char) : Char × List Char :=
  if 0xd800 ≤ n ∧ n < 0xdc00 then
    match cs with
    | '\\' :: 'u' :: rest => match readHex4? rest with
      | some (m, rest) =>
        if 0xdc00 ≤ m ∧ m < 0xe000 then
          (Char.ofNat (0x10000 + (n - 0xd800) * 0x400 + (m - 0xdc00)), rest)
        else ('\ufffd', cs)
      | none => ('\ufffd', cs)
    | _ => ('\ufffd', cs)
  else if 0xdc00 ≤ n ∧ n < 0xe000 then ('\ufffd', cs)
  else (Char.ofNat n, cs)

def escaped? (c : Char) : Option Char :=
  match c with
  | '"' => some '"'
  | '\\' => some '\\'
  | '/' => some '/'
  | 'b' => some '\x08'
  | 'f' => some '\x0c'
  | 'n' => some '\n'
  | 'r' => some '\r'
  | 't' => some '\t'
  | _ => none

def readString? : (fuel : Nat) → List Char → Option (List Char × List Char)
  | 0, _ => none
  | _ + 1, [] => none
  | fuel + 1, c :: cs =>
    if c = '"' then some ([], cs)
    else if c = '\\' then
      match cs with
      | [] => none
      | 'u' :: cs => do
        let (n, cs) ← readHex4? cs
        let (d, cs) := readUnit n cs
        let (s, cs) ← readString? fuel cs
        some (d :: s, cs)
      | e :: cs => do
        let d ← escaped? e
        let (s, cs) ← readString? fuel cs
        some (d :: s, cs)
    else if c.toNat < 0x20 then none
    else do
      let (s, cs) ← readString? fuel cs
      some (c :: s, cs)

def readPlaces? (whole : Nat) : List Char → Option (Nat × Nat × List Char)
  | '.' :: cs => match readDigits whole 0 cs with
    | (n, places, cs) => if places = 0 then none else some (n, places, cs)
  | cs => some (whole, 0, cs)

def readPower? : List Char → Option (Option Int × List Char)
  | [] => some (none, [])
  | c :: cs =>
    if c = 'e' ∨ c = 'E' then
      let (negative, cs) := readSign cs
      match readDigits 0 0 cs with
      | (n, count, cs) =>
        if count = 0 then none else some (some (if negative then -(n : Int) else n), cs)
    else some (none, c :: cs)

def readNumber? (negative : Bool) (cs : List Char) : Option (Json × List Char) := do
  let (whole, count, rest) := readDigits 0 0 cs
  if count = 0 ∨ (1 < count ∧ cs.head? = some '0') then none
  else
    let (digits, places, rest') ← readPlaces? whole rest
    let (power, rest') ← readPower? rest'
    match places, power with
    | 0, none => some (int (if negative then -(whole : Int) else whole), rest')
    | _, _ => some (float (.ofDecimal negative digits (power.getD 0 - places)), rest')

def constants : List (List Char × Json) :=
  [("null".toList, null), ("true".toList, bool true), ("false".toList, bool false),
   ("NaN".toList, float .nan), ("Infinity".toList, float (.infinity false)),
   ("-Infinity".toList, float (.infinity true))]

def afterWord? : (word : List Char) → List Char → Option (List Char)
  | [], cs => some cs
  | w :: ws, c :: cs => if w = c then afterWord? ws cs else none
  | _ :: _, [] => none

def readScalar? (cs : List Char) : Option (Json × List Char) :=
  match constants.findSome? fun (w, v) => (afterWord? w cs).map (v, ·) with
  | some r => some r
  | none => match cs with
    | '-' :: cs => readNumber? true cs
    | cs => readNumber? false cs

mutual

def readValue? : (fuel : Nat) → List Char → Option (Json × List Char)
  | 0, _ => none
  | fuel + 1, cs =>
    match cs with
    | '"' :: rest => (readString? (rest.length + 1) rest).map fun (s, r) => (str (.ofList s), r)
    | '[' :: rest => match skip rest with
      | ']' :: r => some (arr [], r)
      | r => (readItems? fuel r).map fun (vs, r) => (arr vs, r)
    | '{' :: rest => match skip rest with
      | '}' :: r => some (obj [], r)
      | r => (readMembers? fuel r).map fun (ms, r) => (obj (Assoc.ofPairs ms), r)
    | cs => readScalar? cs

def readItems? : (fuel : Nat) → List Char → Option (List Json × List Char)
  | 0, _ => none
  | fuel + 1, cs => do
    let (v, r) ← readValue? fuel cs
    match skip r with
    | ']' :: r => some ([v], r)
    | ',' :: r => do
      let (vs, r) ← readItems? fuel (skip r)
      some (v :: vs, r)
    | _ => none

def readMembers? : (fuel : Nat) → List Char → Option (List (String × Json) × List Char)
  | 0, _ => none
  | fuel + 1, cs =>
    match cs with
    | '"' :: rest => do
      let (s, r) ← readString? (rest.length + 1) rest
      match skip r with
      | ':' :: r => do
        let (v, r) ← readValue? fuel (skip r)
        match skip r with
        | '}' :: r => some ([(.ofList s, v)], r)
        | ',' :: r => do
          let (ms, r) ← readMembers? fuel (skip r)
          some ((.ofList s, v) :: ms, r)
        | _ => none
      | _ => none
    | _ => none

end

def ofChars? (cs : List Char) : Option Json := do
  let (v, r) ← readValue? (cs.length + 1) (skip cs)
  if (skip r).isEmpty then some v else none

def ofText? (s : String) : Option Json := ofChars? s.toList

end Kitting.Json
