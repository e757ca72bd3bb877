import Kitting.Assoc
import Kitting.Number.Double

namespace Kitting

/-- Members of an object keep their order and have distinct names; whole numbers and binary numbers are different
values. -/
inductive Json
  | null
  | bool (b : Bool)
  | int (n : Int)
  | float (x : Double)
  | str (s : String)
  | arr (items : List Json)
  | obj (members : List (String × Json))

namespace Json

instance : Inhabited Json := ⟨null⟩

def member? : Json → String → Option Json
  | obj members, name => Assoc.get? members name
  | _, _ => none

/-- A value that stands for nothing: null, false, zero, and whatever is empty. -/
def isVacant : Json → Bool
  | null => true
  | bool b => !b
  | int n => n == 0
  | float x => x.isZero
  | str s => s.isEmpty
  | arr items => items.isEmpty
  | obj members => members.isEmpty

def ofSet (ss : List String) : Json := arr ((ss.eraseDups.mergeSort (· ≤ ·)).map str)

end Json

end Kitting
