import Kitting.Assoc
import Kitting.Part
import Kitting.Token

namespace Kitting

open Text

abbrev Glossary := Assoc String String

def Glossary.expansions (g : Glossary) (source : String) : List String :=
  g.filterMap fun (abbreviation, full) =>
    let key := upper (trim abbreviation)
    if !key.isEmpty && contains source key then some (upper (trim full)) else none

def Glossary.expand (g : Glossary) (source : String) : String :=
  source ++ String.join ((g.expansions source).map (" " ++ ·))

structure IndexedPart where
  part : Part
  tokens : List String
  number : String
  designator : String

abbrev Index := List IndexedPart

namespace Part

def describing (p : Part) : String :=
  upper (p.name ++ " " ++ p.remarks ++ " " ++ p.standardRemarks ++ " " ++ p.designator)

def tokens (g : Glossary) (p : Part) : List String :=
  ((Token.split (g.expand p.describing)).filter fun t =>
    Token.isLong t && !Token.stopWords.contains t).eraseDups

def indexed (g : Glossary) (p : Part) : IndexedPart where
  part := p
  tokens := p.tokens g
  number := Token.canonical p.number
  designator := upper p.designator

end Part

def partNumbered? (parts : List Part) (number : String) : Option Part :=
  let key := Token.canonical number
  if key.isEmpty then none else parts.find? fun p => Token.canonical p.number == key

def IndexedPart.toJson (ip : IndexedPart) : Json :=
  .obj [("part_id", .str ip.part.id), ("tokens", .ofSet ip.tokens), ("pn", .str ip.number),
    ("ref", .str ip.designator)]

def Index.build (g : Glossary) (parts : List Part) : Index := parts.map (·.indexed g)

end Kitting
