import Kitting.Json.Display
import Kitting.Text.Case

namespace Kitting.Token

open Text

def isAlnum (c : Char) : Bool := ('A' ≤ c && c ≤ 'Z') || ('0' ≤ c && c ≤ '9')

def canonicalChars (cs : List Char) : List Char :=
  ((upperChars cs).filter isAlnum).dropWhile (· == '0')

/-- The form in which part numbers and order numbers are compared. -/
def canonical (s : String) : String := .ofList (canonicalChars s.toList)

def canonicalValue : Json → String
  | .null => ""
  | v => canonical v.text

def isBreak (c : Char) : Bool :=
  isBlank c || c == ',' || c == '.' || c == '/' || c == '(' || c == ')'

def split (s : String) : List String := (pieces isBreak s.toList).map .ofList

def shortLength : Nat := 2

def isLong (s : String) : Bool := shortLength < s.length

def significant (s : String) : List String := (split (upper s)).filter isLong

def stopWords : List String :=
  ["WITH", "AND", "THE", "FOR", "NON", "NONE", "SELECTED", "UNIT", "OPTIONS", "OR", "IS", "OF", "IN", "BY"]

end Kitting.Token
