import Kitting.Schema
import Kitting.Text.Case
import Kitting.Text.Search

namespace Kitting

/-- The function code says how a part enters a bill of materials: 0 always, 1 and 9 on choice, 2 on choice and at most
one of its group; a part with any other code never does. -/
structure Part where
  id : String
  number : String := ""
  name : String := ""
  remarks : String := ""
  standardRemarks : String := ""
  designator : String := ""
  functionCode : Int := 0
  preference : Int := 999999
  quantity : Option Double := none

namespace Part

def lastPreference : Int := 999999

def generalGroup : String := "General"

def groupKey (p : Part) : String := if p.designator.isEmpty then generalGroup else p.designator

def isMandatory (p : Part) : Bool := p.functionCode == 0

def isExclusive (p : Part) : Bool := p.functionCode == 2

def isConfigurable (p : Part) : Bool :=
  p.functionCode == 1 || p.functionCode == 2 || p.functionCode == 9

/-- The preference that orders a manifest; zero states none. -/
def effectivePreference (p : Part) : Int := if p.preference = 0 then lastPreference else p.preference

def contextText (p : Part) : String :=
  Text.upper (p.number ++ " " ++ p.name ++ " " ++ p.remarks ++ " " ++ p.standardRemarks)

def isContextBreak (c : Char) : Bool :=
  Text.isBlank c || [',', '.', '_', '+', '/', '(', ')', '[', ']'].contains c

def contextTokens (p : Part) : List String :=
  (((Text.pieces isContextBreak p.contextText.toList).filter (2 < ·.length)).map .ofList).eraseDups

def reading : Reading Part := .record fun fs =>
  Part.mk <$> fs.required "part_id" .trimmed <*> fs.optional "part_number" .trimmed ""
    <*> fs.optional "name" .trimmed "" <*> fs.optional "remarks" .trimmed ""
    <*> fs.optional "std_remarks" .trimmed "" <*> fs.optional "ref_des" .trimmed ""
    <*> fs.optional "f_code" .int 0 <*> fs.optional "select_pref" .int lastPreference
    <*> fs.optional "qty" (fun place v => some <$> Reading.number place v) none

def toJson (p : Part) : Json :=
  .obj [("part_id", .str p.id), ("part_number", .str p.number), ("name", .str p.name),
    ("remarks", .str p.remarks), ("std_remarks", .str p.standardRemarks),
    ("ref_des", .str p.designator), ("f_code", .int p.functionCode),
    ("select_pref", .int p.preference),
    ("qty", (p.quantity.map Json.float).getD (.int 1))]

end Part

/-- The part that an id names; of several the last. -/
def partOf? (parts : List Part) (id : String) : Option Part :=
  parts.reverse.find? (·.id == id)

end Kitting
