import Kitting.Index
import Kitting.Sheet.Table

namespace Kitting.Glossary

open Text

def addRow (abbreviation full : Option Nat) (g : Glossary) (row : Row) : Glossary :=
  let key := upper (Table.text row abbreviation)
  let meaning := Table.text row full
  if key.isEmpty || meaning.isEmpty then g else Assoc.put g key meaning

def ofTable (t : Table) : Glossary :=
  let abbreviation := Table.column? t.header ["Abbreviation", "Abbr", "Term", "Short"]
  let full := Table.column? t.header ["Full", "FullName", "Meaning", "Definition", "Expansion"]
  if abbreviation.isSome && full.isSome then t.rows.foldl (addRow abbreviation full) []
  else (t.header.map Cell.text :: t.rows).foldl (addRow (some 0) (some 1)) []

def read (path : String) : SheetSource → Except Error Glossary
  | .absent => .ok []
  | source => ofTable <$> Table.read path source

end Kitting.Glossary
