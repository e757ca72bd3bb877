import Kitting.Error
import Kitting.Path
import Kitting.Sheet.Table
import Kitting.Sheet.Workbook

namespace Kitting

inductive Node
  | folder
  | file (bytes : List UInt8)
  /-- A workbook to read, by the rows of its active sheet. -/
  | workbook (active : Option (List Row))
  | written (book : Workbook)

/-- Places are absolute paths without `..`. Every folder on the way to a file is there itself. -/
abbrev FileTree := Assoc Path Node

namespace FileTree

def node? (t : FileTree) (place : Path) : Option Node :=
  if place.names.isEmpty then some .folder else Assoc.get? t place

def exists? (t : FileTree) (place : Path) : Bool := (node? t place).isSome

def isFolder (t : FileTree) (place : Path) : Bool :=
  match node? t place with
  | some .folder => true
  | _ => false

def isFile (t : FileTree) (place : Path) : Bool := exists? t place && !isFolder t place

def waysTo (place : Path) : List Path :=
  (List.range place.names.length).map fun i => ⟨place.root, place.names.take i⟩

def isBlocked (t : FileTree) (place : Path) : Bool := (waysTo place).any (isFile t)

def addFolder (t : FileTree) (place : Path) : FileTree :=
  if exists? t place then t else Assoc.put t place .folder

def makeFolder (t : FileTree) (place : Path) : Except Error FileTree :=
  if isBlocked t place then .error .notDirectory
  else if isFile t place then .error .fileExists
  else .ok ((waysTo place ++ [place]).foldl addFolder t)

def put (t : FileTree) (place : Path) (n : Node) : Except Error FileTree :=
  if isBlocked t place then .error .notDirectory
  else if isFolder t place then .error .isDirectory
  else if !isFolder t place.parent then .error .noFile
  else .ok (Assoc.put t place n)

def putDeep (t : FileTree) (place : Path) (n : Node) : Except Error FileTree :=
  (makeFolder t place.parent).bind fun t => put t place n

def remove (t : FileTree) (place : Path) : Except Error FileTree :=
  if isBlocked t place then .error .notDirectory
  else if isFolder t place then .error .isDirectory
  else .ok (Assoc.erase t place)

def bytes (t : FileTree) (place : Path) : Except Error (List UInt8) :=
  match node? t place with
  | some (.file b) => .ok b
  | some .folder => .error .isDirectory
  | some _ => .error .notText
  | none => .error (if isBlocked t place then .notDirectory else .noFile)

def unixBreaks : List Char → List Char
  | [] => []
  | '\r' :: '\n' :: cs => '\n' :: unixBreaks cs
  | c :: cs => (if c = '\r' then '\n' else c) :: unixBreaks cs

def textOfBytes (b : List UInt8) : Except Error String :=
  match Text.Utf8.decode b with
  | .ok cs => .ok (.ofList (unixBreaks cs))
  | .error stop => .error (.undecodable stop)

def text (t : FileTree) (place : Path) : Except Error String := (bytes t place).bind textOfBytes

/-- The text of a file, with U+FFFD for whatever is no text. -/
def textLossy (t : FileTree) (place : Path) : Except Error String :=
  (bytes t place).map fun b => .ofList (unixBreaks (Text.Utf8.decodeLossy b))

def bytesOfText (s : String) : List UInt8 := Text.Utf8.encode s.toList

def sheetSource (t : FileTree) (place : Path) : SheetSource :=
  match node? t place with
  | none => .absent
  | some (.workbook active) => .workbook active
  | some (.written book) => .workbook (book.head?.map (·.rows))
  | some _ => .other

def entries (t : FileTree) (folder : Path) : List String :=
  t.filterMap fun (place, _) =>
    if place.root = folder.root ∧ place.names ≠ [] ∧ place.names.dropLast = folder.names then
      some place.name
    else none

end FileTree

def Error.isFileSystem : Error → Bool
  | .fileExists | .notDirectory | .isDirectory | .noFile | .ioFailure => true
  | _ => false

end Kitting
