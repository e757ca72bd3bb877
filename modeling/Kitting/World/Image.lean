import Kitting.Json.Printer
import Kitting.World

namespace Kitting

def Json.items : Json → List Json
  | .arr vs => vs
  | _ => []

def Json.get (v : Json) (name : String) : Json := (v.member? name).getD .null

def Json.str? : Json → Option String
  | .str s => some s
  | _ => none

def Json.strD (v : Json) : String := v.str?.getD ""

def Json.pairs (v : Json) : List (String × Json) :=
  v.items.filterMap fun
    | .arr [.str k, x] => some (k, x)
    | _ => none

def Json.textPairs (v : Json) : Assoc String String := Assoc.ofPairs (v.pairs.map fun p => (p.1, p.2.strD))

def Cell.ofJson : Json → Cell
  | .null => .empty
  | .bool b => .bool b
  | .int n => .int n
  | .float x => .float x
  | v => .text v.text

def rowOfJson (v : Json) : Row := v.items.map Cell.ofJson

def sheetOfJson : Json → Option (List Row)
  | .null => none
  | v => some (v.items.map rowOfJson)

namespace Node

def ofJson (v : Json) : Node :=
  match v.member? "sheet", v.member? "b64", v.member? "text" with
  | some sheet, _, _ => .workbook (sheetOfJson sheet)
  | none, some b64, _ => .file (Text.Base64.decode b64.strD)
  | none, none, some text => .file (FileTree.bytesOfText text.strD)
  | none, none, none => .folder

end Node

namespace Reply

def ofJson : Json → Reply
  | .str s => .text s
  | .obj ms => if Assoc.has ms "error" then .failure else if Assoc.has ms "no_choices" then .noChoices else .nothing
  | _ => .nothing

end Reply

namespace FileTree

def addEntry (cwd : Path) (t : FileTree) (v : Json) : FileTree :=
  let place := (Path.ofText (v.get "path").strD).resolve cwd
  let added := match Node.ofJson v with
    | .folder => t.makeFolder place
    | n => t.putDeep place n
  (added.toOption).getD t

def ofImage (cwd : Path) (entries : Json) : FileTree :=
  entries.items.foldl (addEntry cwd) ((makeFolder [] cwd).toOption.getD [])

end FileTree

namespace World

def settingsText? (config : Json) : Option String :=
  match config.member? "value", config.member? "yaml" with
  | some v, _ => some (Json.render .line v)
  | none, some (.str s) => some s
  | _, _ => none

def settingsFile : Path := .ofText "config/app_config.yaml"

def putSettings (w : World) (text : String) : World :=
  let files := w.files.putDeep (w.place settingsFile) (.file (FileTree.bytesOfText text))
  { w with files := files.toOption.getD w.files }

def ofImage (cwd : Path) (stamp day instant : String) (v : Json) : World :=
  let service := v.get "service"
  let world : World :=
    { cwd, stamp, day, instant
      files := FileTree.ofImage cwd (v.get "files")
      environment := (v.get "env").textPairs
      documents := Assoc.ofPairs ((service.get "extract").pairs.map fun p => (p.1, Reply.ofJson p.2))
      batches := (service.get "synthesize").items.map Reply.ofJson
      input := (v.get "stdin").items.map Json.strD
      unwritable := (v.get "fail_save").str? }
  match settingsText? (v.get "config") with
  | some text => world.putSettings text
  | none => world

def below? (w : World) (p : Path) : Option Path :=
  if p.root = w.cwd.root ∧ p.names.take w.cwd.names.length = w.cwd.names then
    some ⟨"", p.names.drop w.cwd.names.length⟩
  else none

def workbooks (w : World) : List (String × Json) :=
  w.files.filterMap fun
    | (p, .written book) => (w.below? p).map fun q => (q.text, book.toJson)
    | _ => none

def jsonFiles (w : World) (folders : List String) : List (String × Json) :=
  w.files.filterMap fun
    | (p, .file bytes) =>
      match w.below? p with
      | some ⟨"", [folder, name]⟩ =>
        if folders.contains folder && (Path.splitName name).2 == ".json" then
          some (folder ++ "/" ++ name, .str (.ofList (Text.Utf8.decodeLossy bytes)))
        else none
      | _ => none
    | _ => none

def callsJson (w : World) : Json := .arr ((Call.ordered w.calls).map Call.toJson)

end World

end Kitting
