import Kitting.Text.Blank
import Kitting.Text.Case

namespace Kitting.Formula

open Text

def afterOr? : List Char → Option (List Char)
  | a :: b :: cs => if (a = 'O' ∨ a = 'o') ∧ (b = 'R' ∨ b = 'r') then some cs else none
  | _ => none

def afterOrMark? (cs : List Char) : Option (List Char) :=
  if cs.head?.any isBlank then
    match afterOr? (cs.dropWhile isBlank) with
    | some rest => if rest.head?.any isBlank then some (rest.dropWhile isBlank) else none
    | none => none
  else none

def afterSlash? (cs : List Char) : Option (List Char) :=
  match cs.dropWhile isBlank with
  | '/' :: rest => some (rest.dropWhile isBlank)
  | _ => none

def afterSlashOrMark? (cs : List Char) : Option (List Char) :=
  (afterSlash? cs).orElse fun _ => afterOrMark? cs

def consHead (c : Char) : List (List Char) → List (List Char)
  | [] => [[c]]
  | w :: ws => (c :: w) :: ws

/-- The fields between separators, where `after?` finds a separator at the front of a text; `fuel` is the
most characters to look at. -/
def splitWith (after? : List Char → Option (List Char)) : (fuel : Nat) → List Char → List (List Char)
  | 0, cs => [cs]
  | _ + 1, [] => [[]]
  | fuel + 1, c :: cs => match after? (c :: cs) with
    | some rest => [] :: splitWith after? fuel rest
    | none => consHead c (splitWith after? fuel cs)

def splitOr (cs : List Char) : List (List Char) := splitWith afterOrMark? cs.length cs

def splitSlashOr (cs : List Char) : List (List Char) := splitWith afterSlashOrMark? cs.length cs

def isOrWord (w : List Char) : Bool := upperChars w == ['O', 'R']

def cleanTerms (fields : List (List Char)) : List String :=
  fields.filterMap fun f => match upperChars (trimChars f) with
    | [] => none
    | t => some (.ofList t)

def isBracket (c : Char) : Bool := c == '[' || c == ']' || c == '(' || c == ')'

end Kitting.Formula
