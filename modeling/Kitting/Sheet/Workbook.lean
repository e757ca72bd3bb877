import Kitting.Error
import Kitting.Sheet.Cell

namespace Kitting

structure SheetPlan where
  title : String
  header : List String
  rows : List Row
  highlight : Row → Bool := fun _ => false

/-- A sheet as it was written. The header is the first row, and `red` holds positions in `rows`. -/
structure WrittenSheet where
  title : String
  rows : List Row
  red : List Nat
  deriving DecidableEq, Repr

def WrittenSheet.toJson (s : WrittenSheet) : Json :=
  .obj [("title", .str s.title), ("rows", .arr (s.rows.map fun row => .arr (row.map Cell.toJson))),
    ("red_rows", .arr (s.red.map fun (i : Nat) => Json.int i))]

abbrev Workbook := List WrittenSheet

def Workbook.toJson (book : Workbook) : Json := .arr (book.map WrittenSheet.toJson)

def SheetPlan.write (s : SheetPlan) : WrittenSheet where
  title := s.title
  rows := s.header.map Cell.text :: s.rows
  red := s.rows.zipIdx.filterMap fun (row, i) => if s.highlight row then some (i + 1) else none

def Workbook.write (plans : List SheetPlan) : Except Error Workbook :=
  if plans.isEmpty then .error .noSheets else .ok (plans.map SheetPlan.write)

end Kitting
