import Kitting.Text.Blank
import Kitting.Text.Case
import Kitting.Text.Search

namespace Kitting

open Text

structure Path where
  /-- Empty for a relative path, else `/` or `//`. -/
  root : String
  names : List String
  deriving DecidableEq, Repr

namespace Path

def rootOf (s : List Char) : String :=
  match s with
  | '/' :: '/' :: '/' :: _ => "/"
  | '/' :: '/' :: _ => "//"
  | '/' :: _ => "/"
  | _ => ""

def ofText (s : String) : Path where
  root := rootOf s.toList
  names := ((fieldsOf '/' s.toList).map .ofList).filter fun n => n != "" && n != "."

def text (p : Path) : String :=
  if p.root.isEmpty && p.names.isEmpty then "." else p.root ++ "/".intercalate p.names

def join (p q : Path) : Path := if q.root.isEmpty then ⟨p.root, p.names ++ q.names⟩ else q

instance : HDiv Path String Path := ⟨fun p s => p.join (ofText s)⟩

def name (p : Path) : String := p.names.getLast?.getD ""

def parent (p : Path) : Path := ⟨p.root, p.names.dropLast⟩

/-- Stem and suffix of a name: the suffix begins at the last point, unless that is the first or the last
character. -/
def splitName (name : String) : String × String :=
  let cs := name.toList
  let tail := (cs.reverse.takeWhile (· != '.')).reverse
  let head := (cs.take (cs.length - tail.length)).dropLast
  if tail.length = cs.length || tail.isEmpty || head.isEmpty then (name, "")
  else (.ofList head, .ofList ('.' :: tail))

def suffix (p : Path) : String := (splitName p.name).2

def stem (p : Path) : String := (splitName p.name).1

def hasSuffix (p : Path) (suffixes : List String) : Bool := suffixes.contains (lower p.suffix)

def collapse (names : List String) : List String :=
  names.foldl (fun done n => if n = ".." then done.dropLast else done ++ [n]) []

def resolve (p cwd : Path) : Path :=
  let q := cwd.join p
  ⟨q.root, collapse q.names⟩

def unquote (s : String) : List Char := trimBy (fun c => c == '"' || c == '\'') (trimChars s.toList)

def isAsciiLetter (c : Char) : Bool := ('a' ≤ c && c ≤ 'z') || ('A' ≤ c && c ≤ 'Z')

def driveRest? (cs : List Char) : Option (List Char) :=
  match cs.dropWhile isBlank with
  | c :: rest =>
    if c = ':' ∨ c = '\\' then
      let line := rest.takeWhile (· != '\n')
      match rest.drop line.length with
      | [] => some line
      | ['\n'] => some line
      | _ => none
    else none
  | [] => none

def drivePath? (cs : List Char) : Option String :=
  match cs with
  | letter :: rest =>
    if isAsciiLetter letter then
      (driveRest? rest).map fun tail =>
        let tail := trimBy (· == '/') (tail.map fun c => if c = '\\' then '/' else c)
        "/mnt/" ++ String.ofList ([letter.toLower] ++ if tail.isEmpty then [] else '/' :: tail)
    else none
  | [] => none

/-- The path that a user typed: quotes and white space around it do not count, and a drive letter names
its mount point. -/
def ofInput (s : String) : Path :=
  let cs := unquote s
  ofText ((drivePath? cs).getD (.ofList cs))

end Path

end Kitting
