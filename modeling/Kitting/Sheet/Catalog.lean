import Kitting.Formula.Dialect
import Kitting.Index
import Kitting.Sheet.Table

namespace Kitting

structure CatalogColumns where
  number : Option Nat
  name : Option Nat
  functionCode : Option Nat
  designator : Option Nat
  quantity : Option Nat
  preference : Option Nat
  remarks : Option Nat
  standardRemarks : Option Nat
  formula : Option Nat

def CatalogColumns.find (header : List String) : CatalogColumns where
  number := Table.column? header ["Part_Number", "PartNumber", "PN", "SKU", "Part_No", "ItemCode"]
  name := Table.column? header ["Name", "Description", "Nomenclature", "ItemName"]
  functionCode := Table.column? header ["F_Code", "FCode", "FunctionCode", "Code"]
  designator := Table.column? header ["Ref_des", "RefDes", "Designator", "Category", "Section"]
  quantity := Table.column? header ["Qty", "Quantity", "Amount"]
  preference := Table.column? header ["Select_pref", "Preference", "Sort", "Priority"]
  remarks := Table.column? header ["Remarks", "Note", "Comments", "Description2"]
  standardRemarks := Table.column? header ["Std_Remarks", "StandardRemarks", "TechnicalInfo"]
  formula := Table.column? header ["Logic", "LogicFormula", "Expression", "Logic_Config"]

def unnamed : String := "Unnamed Item"

def partOfRow (cols : CatalogColumns) (i : Nat) (row : Row) : Except Error Part := do
  let name := Table.text row cols.name
  let code ← (Table.cell row cols.functionCode).toInt 0
  let preference ← (Table.cell row cols.preference).toInt Part.lastPreference
  return {
    id := "part-" ++ toString i
    number := Table.text row cols.number
    name := if name.isEmpty then unnamed else name
    remarks := Table.text row cols.remarks
    standardRemarks := Table.text row cols.standardRemarks
    designator := Table.text row cols.designator
    functionCode := code
    preference := preference
    quantity := some ((Table.cell row cols.quantity).toDouble (.ofFraction false 1 1)) }

def partsOfRows (cols : CatalogColumns) : Nat → List Row → Except Error (List (Part × String))
  | _, [] => .ok []
  | i, row :: rows => do
    let part ← partOfRow cols i row
    let rest ← partsOfRows cols (i + 1) rows
    return (part, Table.text row cols.formula) :: rest

def rulesOfParts : (n : Nat) → List (Part × String) → List Rule
  | _, [] => []
  | n, (part, formula) :: rest =>
    if part.isConfigurable && !formula.isEmpty then
      { id := "rule-" ++ toString n, target := part.id, condition := Formula.parse .catalog formula }
        :: rulesOfParts (n + 1) rest
    else rulesOfParts n rest

def readCatalog (path : String) (source : SheetSource) : Except Error (List Part × List Rule) := do
  let table ← Table.read path source
  if table.rows.isEmpty then throw (.sheet .noRows path)
  let cols := CatalogColumns.find table.header
  if cols.number.isNone && cols.name.isNone then throw (.sheet .noCatalogColumns path)
  let entries ← partsOfRows cols 0 table.rows
  return (entries.map (·.1), rulesOfParts 0 entries)

def laboratoryRule? (parts : List Part) (number formula : String) (i : Nat) : Option Rule :=
  if number.isEmpty || formula.isEmpty then none
  else (partNumbered? parts number).map fun p =>
    { id := "lab-rule-" ++ toString i, target := p.id, condition := Formula.parse .laboratory formula }

def readLaboratory (path : String) (source : SheetSource) (parts : List Part) :
    Except Error (List Rule) := do
  let table ← Table.read path source
  let number := Table.column? table.header ["SKU", "Part_Number", "PartNumber", "PN"]
  let formula := Table.column? table.header ["Logic Formula", "Logic", "Formula", "Expression"]
  if number.isNone || formula.isNone then throw (.sheet .noFormulaColumns path)
  return table.rows.zipIdx.filterMap fun (row, i) =>
    laboratoryRule? parts (Table.text row number) (Table.text row formula) i

end Kitting
