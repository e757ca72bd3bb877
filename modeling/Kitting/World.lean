import Kitting.FileTree
import Kitting.Settings
import Kitting.Service.Document

namespace Kitting

inductive Reply
  | text (s : String)
  | nothing
  | failure
  | noChoices
  deriving DecidableEq, Repr

def Reply.content : Reply → Option String
  | text s => some s
  | _ => none

structure Caller where
  key : String
  url : String
  timeout : Json
  model : String

inductive Call
  | extract (name : String) (caller : Caller) (content : Json)
  | synthesize (prompt : String) (caller : Caller)

namespace Call

def callerMembers (c : Caller) : List (String × Json) :=
  [("key", .str c.key), ("url", .str c.url), ("timeout", c.timeout), ("model", .str c.model)]

def toJson : Call → Json
  | extract name caller content =>
    .obj ([("extract", .str name), ("content", content)] ++ callerMembers caller)
  | synthesize prompt caller => .obj (("synthesize", .str prompt) :: callerMembers caller)

def document? : Call → Option String
  | extract name _ _ => some name
  | synthesize .. => none

def ordered (calls : List Call) : List Call :=
  ((calls.filter (·.document?.isSome)).mergeSort fun a b =>
    (a.document?.getD "") ≤ (b.document?.getD "")) ++ calls.filter (·.document?.isNone)

end Call

structure Loaded where
  path : Path
  settings : Settings
  endpoint : Endpoint

structure World where
  cwd : Path
  files : FileTree := []
  environment : Assoc String String := []
  loaded : Option Loaded := none
  documents : Assoc String Reply := []
  batches : List Reply := []
  calls : List Call := []
  input : List String := []
  output : String := ""
  /-- Workbooks whose path holds this text cannot be saved. -/
  unwritable : Option String := none
  /-- The time of the session, as it stands in the names of results. It stands still, while a clock is read at every
  save; so what is said of the names of several results is about those of one second. -/
  stamp : String
  day : String
  instant : String

abbrev Session := EStateM Error World

namespace World

def place (w : World) (p : Path) : Path := p.resolve w.cwd

def folder? (w : World) (name : String) : Option Path :=
  ((Assoc.get? w.environment name).bind fun v => Endpoint.nonempty (Text.trim v)).map fun v =>
    w.place (.ofText v)

def base (w : World) : Path := (w.folder? "BOM_CONFIG_BASE_DIR").getD w.cwd

def configFolder (w : World) : Path := (w.folder? "BOM_CONFIG_CONFIG_DIR").getD (w.base / "config")

def dataFolder (w : World) : Path := (w.folder? "BOM_CONFIG_DATA_DIR").getD (w.base / "data")

def outputFolder (w : World) : Path := (w.folder? "BOM_CONFIG_OUTPUT_DIR").getD (w.base / "output")

def logFolder (w : World) : Path := (w.folder? "BOM_CONFIG_LOG_DIR").getD (w.base / "logs")

def folders (w : World) : List Path :=
  [w.base, w.configFolder, w.dataFolder, w.outputFolder, w.logFolder]

def settingsPath (w : World) : Path := w.configFolder / "app_config.yaml"

/-- The settings of a file; without a file, or when it cannot be read, those of an empty one. -/
def settingsAt (w : World) (p : Path) : Except Error Settings :=
  match w.files.text (w.place p) with
  | .ok s => .ok (.ofText s)
  | .error e => if e.isFileSystem then .ok {} else .error e

end World

namespace Session

def lift {α : Type} : Except Error α → Session α
  | .ok a => pure a
  | .error e => throw e

def print (s : String) : Session Unit := modify fun w => { w with output := w.output ++ s }

def printLine (s : String) : Session Unit := print (s ++ "\n")

def changeFiles (f : FileTree → Except Error FileTree) : Session Unit := do
  let files ← lift (f (← get).files)
  modify fun w => { w with files := files }

def exists? (p : Path) : Session Bool := return (← get).files.exists? ((← get).place p)

def readText (p : Path) : Session String := do lift ((← get).files.text ((← get).place p))

def writeText (p : Path) (s : String) : Session Unit := do
  let place := (← get).place p
  changeFiles (·.putDeep place (.file (FileTree.bytesOfText s)))

def saveWorkbook (p : Path) (plans : List SheetPlan) : Session Unit := do
  let book ← lift (Workbook.write plans)
  let place := (← get).place p
  changeFiles (·.makeFolder place.parent)
  if (← get).unwritable.any (Text.contains p.text) then throw .ioFailure
  changeFiles (·.put place (.written book))

def loaded : Session Loaded := do
  match (← get).loaded with
  | some l => return l
  | none =>
    let w ← get
    let path := w.settingsPath
    let settings ← lift (w.settingsAt path)
    let l : Loaded := ⟨path, settings, .of settings.service (Assoc.get? w.environment "OPENAI_API_KEY")⟩
    modify fun w => { w with loaded := some l }
    return l

def forget : Session Unit := modify fun w => { w with loaded := none }

def settings : Session Settings := return (← loaded).settings

def caller? : Session (Option Caller) := do
  let e := (← loaded).endpoint
  return e.key.map fun key => ⟨key, e.url, .float e.timeout, e.model⟩

def through (given : Option Caller) (own : Caller) : Caller :=
  match given with
  | some g => { g with model := own.model }
  | none => own

def record (c : Call) : Session Unit := modify fun w => { w with calls := w.calls ++ [c] }

def extract (given : Option Caller) (p : Path) : Session (Option String) := do
  match ← caller? with
  | none => return none
  | some own =>
    let w ← get
    match Document.block p w.files (w.place p) with
    | .error _ => return none
    | .ok block =>
      record (.extract p.name (through given own) block)
      return ((Assoc.get? w.documents p.name).getD .nothing).content

def synthesize (given : Option Caller) (batch : List Evidence) (hint : String) :
    Session (Option String) := do
  match ← caller? with
  | none => return none
  | some own =>
    record (.synthesize (Evidence.prompt batch hint) (through given own))
    let w ← get
    set { w with batches := w.batches.tail }
    return (w.batches.head?.getD .nothing).content

/-- The order in which numbered documents are finished: any rearrangement of them. -/
abbrev Schedule := List (Path × Nat) → List (Path × Nat)

def arranged (count : Nat) (arrived : List (Nat × Option String)) : List (Option String) :=
  (List.range count).map fun i => (arrived.lookup i).join

/-- What the service makes of each document, in the order of the documents. The number of workers only
bounds how many are under way at a time. -/
def extractAll (workers : Option Int) (paths : List Path) (schedule : Schedule := id) :
    Session (List (Option String)) := do
  if paths.isEmpty then return []
  let asked := workers.getD 0
  let bound ← if asked = 0 then (·.matching.maxWorkers) <$> settings else pure asked
  if bound < 0 then throw .noWorkers
  let arrived ← (schedule paths.zipIdx).mapM fun (p, i) => return (i, ← extract none p)
  return arranged paths.length arrived

end Session

end Kitting
