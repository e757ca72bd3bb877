import Kitting.Schema
import Kitting.Sheet.Table
import Kitting.Text.Search

namespace Kitting

open Text

structure UsedPart where
  orderNumber : String := ""
  partNumber : String := ""
  name : String := ""
  remarks : String := ""
  deriving DecidableEq, Repr

namespace UsedPart

def reading : Reading UsedPart := .record fun fs =>
  UsedPart.mk <$> fs.optional "order_number" .trimmed "" <*> fs.optional "part_number" .trimmed ""
    <*> fs.optional "name" .trimmed "" <*> fs.optional "remarks" .trimmed ""

def toJson (u : UsedPart) : Json :=
  .obj [("order_number", .str u.orderNumber), ("part_number", .str u.partNumber),
    ("name", .str u.name), ("remarks", .str u.remarks)]

inductive Column
  | orderNumber
  | partNumber
  | name
  | remarks
  deriving DecidableEq, Repr

def Column.ofHeader? (h : String) : Option Column :=
  let key := Table.headerKey h
  if key == "mo" || contains key "order" then some .orderNumber
  else if key == "partno" || contains key "partnumber" then some .partNumber
  else if key == "name" then some .name
  else if key == "remarks" then some .remarks
  else none

def column? (header : List String) (c : Column) : Option Nat :=
  header.findIdx? fun h => Column.ofHeader? h == some c

def readItems (path : String) (source : SheetSource) : Except Error (List UsedPart) := do
  let table ← Table.read path source
  let column := column? table.header
  if (column .orderNumber).isNone || (column .partNumber).isNone then
    throw (.sheet .noItemColumns path)
  let text (row : Row) (c : Column) := (Table.cell row (column c)).toJson.trimmed
  return (table.rows.map fun row =>
      ⟨text row .orderNumber, text row .partNumber, text row .name, text row .remarks⟩).filter
    fun u => !u.orderNumber.isEmpty && !u.partNumber.isEmpty

end UsedPart

end Kitting
