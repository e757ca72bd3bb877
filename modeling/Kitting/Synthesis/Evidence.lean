import Kitting.Index
import Kitting.Order
import Kitting.Sheet.ItemList

namespace Kitting

/-- `contexts` describes the orders of `orders`, one by one. -/
structure Evidence where
  partNumber : String
  name : String := ""
  remarks : String := ""
  orders : List String := []
  contexts : List String := []
  deriving DecidableEq, Repr

abbrev EvidenceBook := Assoc String Evidence

def Order.summary (o : Order) : String :=
  " | ".intercalate (o.lines.map fun l => l.category ++ ": " ++ l.selection)

namespace Evidence

def extend (e : Evidence) (o : Order) : Evidence :=
  { e with orders := e.orders ++ [o.number], contexts := e.contexts ++ [o.summary] }

/-- The first so many entries; a negative number leaves out the last ones instead. -/
def firstOf {α : Type} (n : Int) (xs : List α) : List α :=
  if 0 ≤ n then xs.take n.toNat else xs.take (xs.length - n.natAbs)

def shorten (n : Int) (e : Evidence) : Evidence :=
  { e with orders := firstOf n e.orders, contexts := firstOf n e.contexts }

def reading : Reading Evidence := .record fun fs =>
  Evidence.mk <$> fs.required "part_number" .strict <*> fs.optional "name" .strict ""
    <*> fs.optional "remarks" .strict "" <*> fs.optional "orders" (.list .strict) []
    <*> fs.optional "contexts" (.list .strict) []

def toJson (e : Evidence) : Json :=
  .obj [("part_number", .str e.partNumber), ("name", .str e.name), ("remarks", .str e.remarks),
    ("orders", .arr (e.orders.map .str)), ("contexts", .arr (e.contexts.map .str))]

end Evidence

namespace EvidenceBook

/-- The used parts by the canonical form of their order numbers; parts without one are left out. -/
def byOrder (items : List UsedPart) : Assoc String (List UsedPart) :=
  (items.filter fun u => !(Token.canonical u.orderNumber).isEmpty).foldl
    (fun table u => Assoc.alter (fun used => used.getD [] ++ [u]) (Token.canonical u.orderNumber) table) []

def itemsOf (table : Assoc String (List UsedPart)) (o : Order) : List UsedPart :=
  let key := Token.canonical o.number
  if key.isEmpty then [] else (Assoc.get? table key).getD []

def joined (orders : List Order) (items : List UsedPart) : List (Order × UsedPart) :=
  let table := byOrder items
  orders.flatMap fun o => (itemsOf table o).map (o, ·)

def add (book : EvidenceBook) (pair : Order × UsedPart) : EvidenceBook :=
  let (o, u) := pair
  Assoc.alter (fun old => (old.getD { partNumber := u.partNumber, name := u.name, remarks := u.remarks }).extend o)
    u.partNumber book

def build (orders : List Order) (items : List UsedPart) : EvidenceBook :=
  (joined orders items).foldl add []

def ofList (es : List Evidence) : EvidenceBook := Assoc.ofPairs (es.map fun e => (e.partNumber, e))

def toList (book : EvidenceBook) : List Evidence := book.map (·.2)

end EvidenceBook

def Glossary.hint (g : Glossary) (batch : List Evidence) : String :=
  let remarks := " ".intercalate (batch.map (·.remarks))
  "; ".intercalate ((g.filter fun p => !p.1.isEmpty && Text.contains remarks p.1).map fun p =>
    p.1 ++ "=" ++ p.2)

end Kitting
