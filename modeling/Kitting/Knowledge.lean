import Kitting.Json.Printer
import Kitting.Json.Reader
import Kitting.Schema
import Kitting.Text.Case

namespace Kitting

open Text

structure Precedent where
  category : String := ""
  selection : String := ""
  partNumber : String := ""
  deriving DecidableEq, Repr

namespace Precedent

def reading : Reading Precedent := .record fun fs =>
  Precedent.mk <$> fs.optional "category" .trimmed "" <*> fs.optional "selection" .trimmed ""
    <*> fs.optional "part_number" .trimmed ""

def toJson (p : Precedent) : Json :=
  .obj [("category", .str p.category), ("selection", .str p.selection),
    ("part_number", .str p.partNumber)]

def ofJson? (v : Json) : Option Precedent := (reading.run v).toOption

end Precedent

/-- Machine models, in upper case, and their precedents. -/
abbrev Knowledge := Assoc String (List Precedent)

namespace Knowledge

def history (k : Knowledge) (model : String) : List Precedent := (Assoc.get? k (upper model)).getD []

def modelKey (model : String) : String :=
  let key := upper (trim (if model.isEmpty then "Generic" else model))
  if key.isEmpty then "GENERIC" else key

def append (k : Knowledge) (model : String) (more : List Precedent) : Knowledge :=
  Assoc.alter (fun old => old.getD [] ++ more) (modelKey model) k

/-- The precedents in one member of a knowledge file; what is no list files nothing, and what is no
precedent is passed over. -/
def fileMember (k : Knowledge) (member : String × Json) : Knowledge :=
  match member.2 with
  | .arr vs => Assoc.put k (upper (trim member.1)) (vs.filterMap Precedent.ofJson?)
  | _ => k

def ofJson : Json → Knowledge
  | .obj ms => ms.foldl fileMember []
  | _ => []

def ofText (s : String) : Knowledge := ((Json.ofText? s).map ofJson).getD []

def toJson (k : Knowledge) : Json :=
  .obj (k.map fun (model, ps) => (model, .arr (ps.map Precedent.toJson)))

def toText (k : Knowledge) : String := Json.render .file k.toJson

end Knowledge

end Kitting
