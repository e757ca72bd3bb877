import Kitting.Json.Basic
import Kitting.Number.Shortest
import Kitting.Text.Digit

namespace Kitting.Json

def escapeOf? (c : Char) : Option Char :=
  match c with
  | '"' => some '"'
  | '\\' => some '\\'
  | '\x08' => some 'b'
  | '\x0c' => some 'f'
  | '\n' => some 'n'
  | '\r' => some 'r'
  | '\t' => some 't'
  | _ => none

def escapeChar (c : Char) : List Char :=
  match escapeOf? c with
  | some e => ['\\', e]
  | none => if c.toNat < 0x20 then '\\' :: 'u' :: Text.hexDigits 4 c.toNat else [c]

def quote (s : String) : String := .ofList ('"' :: s.toList.flatMap escapeChar ++ ['"'])

/-- How a value is laid out: on one line, or with each item on a line of its own, indented by `indent`
for every level. -/
structure Layout where
  indent : Option Nat
  floats : DecimalStyle := .plain

def Layout.line : Layout := { indent := none }

def Layout.file : Layout := { indent := some 2 }

def Layout.checkpoint : Layout := { indent := some 2, floats := .compact }

def floatText (style : DecimalStyle) : Double → String
  | .nan => "NaN"
  | .infinity negative => if negative then "-Infinity" else "Infinity"
  | x => x.writeWith style

def enclose (layout : Layout) (depth : Nat) (left right : String) (items : List String) : String :=
  if items.isEmpty then left ++ right
  else match layout.indent with
    | none => left ++ ", ".intercalate items ++ right
    | some n =>
      let margin (k : Nat) := "\n" ++ String.ofList (List.replicate (n * k) ' ')
      left ++ margin (depth + 1) ++ ("," ++ margin (depth + 1)).intercalate items ++ margin depth ++ right

mutual

def write (layout : Layout) (depth : Nat) : Json → String
  | null => "null"
  | bool b => if b then "true" else "false"
  | int n => toString n
  | float x => floatText layout.floats x
  | str s => quote s
  | arr items => enclose layout depth "[" "]" (writeItems layout (depth + 1) items)
  | obj members => enclose layout depth "\x7b" "\x7d" (writeMembers layout (depth + 1) members)

def writeItems (layout : Layout) (depth : Nat) : List Json → List String
  | [] => []
  | v :: vs => write layout depth v :: writeItems layout depth vs

def writeMembers (layout : Layout) (depth : Nat) : List (String × Json) → List String
  | [] => []
  | (k, v) :: ms => (quote k ++ ": " ++ write layout depth v) :: writeMembers layout depth ms

end

def render (layout : Layout) (v : Json) : String := write layout 0 v

end Kitting.Json
