import Kitting.Json.Reader
import Kitting.Schema
import Kitting.Text.Case
import Kitting.Text.Search

namespace Kitting

open Text

structure OrderLine where
  category : String := ""
  selection : String := ""
  quantity : String := "1"
  deriving DecidableEq, Repr

namespace OrderLine

def query (l : OrderLine) : String := upper (l.category ++ " " ++ l.selection)

def quantityOf (v : Json) : String := if v.trimmed.isEmpty then "1" else v.trimmed

def reading : Reading OrderLine := .record fun fs =>
  OrderLine.mk <$> fs.optional "category" .trimmed "" <*> fs.optional "selection" .trimmed ""
    <*> fs.optional "quantity" (fun _ v => pure (quantityOf v)) "1"

def toJson (l : OrderLine) : Json :=
  .obj [("category", .str l.category), ("selection", .str l.selection), ("quantity", .str l.quantity)]

/-- A line of a payload; older payloads say `name` and `option`. A line without category and selection
is none. -/
def ofPayload? (v : Json) : Option OrderLine :=
  match v with
  | .obj _ =>
    let text (current former : String) :=
      (((v.member? current).orElse fun _ => v.member? former).getD .null).trimmed
    let line : OrderLine :=
      ⟨text "category" "name", text "selection" "option", quantityOf ((v.member? "quantity").getD .null)⟩
    if line.category.isEmpty && line.selection.isEmpty then none else some line
  | _ => none

end OrderLine

structure Order where
  model : String := "Generic"
  number : String := ""
  lines : List OrderLine := []
  deriving DecidableEq, Repr

namespace Order

def genericModel : String := "Generic"

def modelOf (v : Json) : String := if v.trimmed.isEmpty then genericModel else v.trimmed

def reading : Reading Order := .record fun fs =>
  Order.mk <$> fs.optional "model" (fun _ v => pure (modelOf v)) genericModel
    <*> fs.optional "order_number" .trimmed ""
    <*> fs.optional "options" (.list OrderLine.reading) []

def toJson (o : Order) : Json :=
  .obj [("model", .str o.model), ("order_number", .str o.number),
    ("options", .arr (o.lines.map OrderLine.toJson))]

def isFenceLetter (letter c : Char) : Bool :=
  c.toLower == letter || (letter == 's' && c == 'ſ')

def dropFenceWord : List Char → List Char
  | a :: b :: c :: d :: cs =>
    if isFenceLetter 'j' a && isFenceLetter 's' b && isFenceLetter 'o' c && isFenceLetter 'n' d then cs
    else a :: b :: c :: d :: cs
  | cs => cs

def afterFence? : List Char → Option (List Char)
  | '\x60' :: '\x60' :: '\x60' :: cs => some (dropFenceWord cs)
  | _ => none

def dropFences : (fuel : Nat) → List Char → List Char
  | 0, cs => cs
  | _ + 1, [] => []
  | fuel + 1, c :: cs => match afterFence? (c :: cs) with
    | some rest => dropFences fuel rest
    | none => c :: dropFences fuel cs

def unfenced (s : String) : String := .ofList (trimChars (dropFences s.length s.toList))

def payload? (s : String) : Option Json := Json.ofText? (unfenced s)

def linesOf : Option Json → List OrderLine
  | some (.arr vs) => vs.filterMap OrderLine.ofPayload?
  | _ => []

def ofPayload (s : String) : Order :=
  match payload? s with
  | some (.obj ms) =>
    { model := modelOf ((Assoc.get? ms "model").getD .null)
      number :=
        (((Assoc.get? ms "order_number").orElse fun _ => Assoc.get? ms "moNumber").getD .null).trimmed
      lines := linesOf (Assoc.get? ms "options") }
  | _ => {}

def isSpecific (o : Order) : Bool := !o.model.isEmpty && upper o.model != upper genericModel

/-- One order out of several pages: the first model that is not generic, in upper case, the first number,
and all lines. -/
def merge (pages : List Order) : Order where
  model := match pages.find? isSpecific with
    | some o => modelOf (.str (upper o.model))
    | none => genericModel
  number := match pages.find? (!·.number.isEmpty) with
    | some o => o.number
    | none => ""
  lines := pages.flatMap (·.lines)

end Order

end Kitting
