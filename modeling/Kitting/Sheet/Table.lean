import Kitting.Error
import Kitting.Number.Reader
import Kitting.Sheet.Cell
import Kitting.Text.Case

namespace Kitting

open Text

inductive SheetSource
  | absent
  | other
  | workbook (active : Option (List Row))

structure Table where
  header : List String
  rows : List Row

namespace Table

def ofRows : List Row → Table
  | [] => ⟨[], []⟩
  | header :: rows => ⟨header.map Cell.value, rows.filter (!·.all Cell.isVacant)⟩

def read (path : String) : SheetSource → Except Error Table
  | .absent => .error (.sheet .absent path)
  | .other => .error (.sheet .notWorkbook path)
  | .workbook none => .error (.sheet .noActiveSheet path)
  | .workbook (some rows) => .ok (ofRows rows)

def isKeyChar (c : Char) : Bool := ('a' ≤ c && c ≤ 'z') || ('0' ≤ c && c ≤ '9')

/-- A header as columns are compared; a byte order mark at the front does not count. -/
def headerKey (s : String) : String :=
  .ofList ((lowerChars ((trimChars s.toList).dropWhile (· == '\ufeff'))).filter isKeyChar)

/-- The first alias that some header answers to gives the column; of two such headers the first. -/
def column? (header : List String) (aliases : List String) : Option Nat :=
  aliases.findSome? fun a =>
    header.findIdx? fun h => headerKey h != "" && headerKey h == headerKey a

def cell (row : Row) (column : Option Nat) : Cell :=
  ((column.bind (row[·]?)).getD .empty)

def text (row : Row) (column : Option Nat) : String := (cell row column).value

end Table

namespace Cell

/-- The integer in a cell, toward zero; `default` where it holds no number. A number beyond all bounds is
an overflow. -/
def toInt (default : Int) : Cell → Except Error Int
  | empty => .ok default
  | bool _ => .ok default
  | int n => .ok n
  | c => match Double.ofText? c.toJson.trimmed with
    | none => .ok default
    | some .nan => .ok default
    | some x => match x.truncate? with
      | some n => .ok n
      | none => .error .overflow

def toDouble (default : Double) : Cell → Double
  | empty => default
  | bool _ => default
  | c => (Double.ofText? c.toJson.trimmed).getD default

end Cell

end Kitting
