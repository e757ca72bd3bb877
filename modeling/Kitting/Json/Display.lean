import Kitting.Json.Basic
import Kitting.Number.Shortest
import Kitting.Text.Blank
import Kitting.Text.Quoted

namespace Kitting.Json

mutual

def shown : Json → String
  | null => "None"
  | bool b => if b then "True" else "False"
  | int n => toString n
  | float x => x.text
  | str s => Text.quoted s
  | arr items => "[" ++ ", ".intercalate (shownItems items) ++ "]"
  | obj members => "\x7b" ++ ", ".intercalate (shownMembers members) ++ "\x7d"

def shownItems : List Json → List String
  | [] => []
  | v :: vs => shown v :: shownItems vs

def shownMembers : List (String × Json) → List String
  | [] => []
  | (k, v) :: ms => (Text.quoted k ++ ": " ++ shown v) :: shownMembers ms

end

def text : Json → String
  | str s => s
  | v => shown v

def trimmed : Json → String
  | null => ""
  | v => Text.trim v.text

end Kitting.Json
