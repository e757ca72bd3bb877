import Kitting.Json.Display

namespace Kitting

inductive Cell
  | empty
  | bool (b : Bool)
  | int (n : Int)
  | float (x : Double)
  | text (s : String)
  deriving DecidableEq, Repr

abbrev Row := List Cell

namespace Cell

def toJson : Cell → Json
  | empty => .null
  | bool b => .bool b
  | int n => .int n
  | float x => .float x
  | text s => .str s

/-- The trimmed text of a cell. A whole binary number is written as an integer. -/
def value : Cell → String
  | float x => if x.isIntegral then toString (x.truncate?.getD 0) else x.text
  | c => c.toJson.trimmed

def isVacant (c : Cell) : Bool := c.value.isEmpty

end Cell

end Kitting
