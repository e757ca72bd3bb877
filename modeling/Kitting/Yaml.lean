import Kitting.Json.Reader
import Kitting.Text.Search

/-!
Settings files: block mappings of two levels, with plain or quoted scalars and comments.

`Yaml.mapping?` reads a text as such a mapping. It gives `none` for everything else: other documents
(lists, single scalars), and texts that are no document at all; settings need only the mapping. A JSON
object is a mapping too.
-/

namespace Kitting.Yaml

open Text

def isGap (c : Char) : Bool := c == ' ' || c == '\t'

inductive Quote
  | none
  | single
  | double
  deriving DecidableEq

/-- The line without its comment. A quote opens only at the front of a scalar; `before` is the character
before, and `open` the quote that is not closed yet. -/
def dropComment (opened : Quote) (fresh : Bool) (before : Char) : List Char → List Char
  | [] => []
  | c :: cs =>
    match opened with
    | .single => c :: dropComment (if c = '\'' then .none else .single) false c cs
    | .double =>
      if c = '\\' then
        match cs with
        | [] => [c]
        | d :: ds => c :: d :: dropComment .double false d ds
      else c :: dropComment (if c = '"' then .none else .double) false c cs
    | .none =>
      if c = '#' && isGap before then []
      else if c = '"' && fresh then c :: dropComment .double false c cs
      else if c = '\'' && fresh then c :: dropComment .single false c cs
      else c :: dropComment .none ((fresh && isGap c) || (c == ' ' && before == ':')) c cs

structure Line where
  indent : Nat
  body : List Char

def lineOf (cs : List Char) : Option Line :=
  let indent := (cs.takeWhile (· == ' ')).length
  let body := dropEndWhile isGap (dropComment .none true ' ' (cs.drop indent))
  if body.isEmpty then none else some ⟨indent, body⟩

def escapes : List (Char × Char) :=
  [('0', '\x00'), ('a', '\x07'), ('b', '\x08'), ('t', '\t'), ('\t', '\t'), ('n', '\n'), ('v', '\x0b'),
    ('f', '\x0c'), ('r', '\r'), ('e', '\x1b'), (' ', ' '), ('"', '"'), ('\\', '\\'), ('/', '/'),
    ('N', '\u0085'), ('_', '\u00a0'), ('L', '\u2028'), ('P', '\u2029')]

def coded? (digits : List Char) : Option Char :=
  ((digits.mapM Json.hexDigit?).map fun ds => ds.foldl (fun n d => 16 * n + d) 0).map Char.ofNat

def doubleQuoted? : List Char → Option (List Char × List Char)
  | [] => none
  | '"' :: cs => some ([], cs)
  | '\\' :: 'x' :: a :: b :: cs => (coded? [a, b]).bind fun c => put c (doubleQuoted? cs)
  | '\\' :: 'u' :: a :: b :: c :: d :: cs => (coded? [a, b, c, d]).bind fun c => put c (doubleQuoted? cs)
  | '\\' :: e :: cs => (escapes.lookup e).bind fun c => put c (doubleQuoted? cs)
  | c :: cs => put c (doubleQuoted? cs)
where
  put (c : Char) (r : Option (List Char × List Char)) : Option (List Char × List Char) :=
    r.map fun (s, rest) => (c :: s, rest)

def singleQuoted? : List Char → Option (List Char × List Char)
  | [] => none
  | '\'' :: '\'' :: cs => (singleQuoted? cs).map fun (s, r) => ('\'' :: s, r)
  | '\'' :: cs => some ([], cs)
  | c :: cs => (singleQuoted? cs).map fun (s, r) => (c :: s, r)

def spelled (value : Json) (names : List String) : List (String × Json) := names.map (·, value)

def constants : List (String × Json) :=
  spelled .null ["", "~", "null", "Null", "NULL"]
    ++ spelled (.bool true) ["yes", "Yes", "YES", "true", "True", "TRUE", "on", "On", "ON"]
    ++ spelled (.bool false) ["no", "No", "NO", "false", "False", "FALSE", "off", "Off", "OFF"]
    ++ spelled (.float .nan) [".nan", ".NaN", ".NAN"]
    ++ spelled (.float (.infinity false)) [".inf", ".Inf", ".INF", "+.inf", "+.Inf", "+.INF"]
    ++ spelled (.float (.infinity true)) ["-.inf", "-.Inf", "-.INF"]

def readBase? (base : Nat) (cs : List Char) : Option Nat :=
  if cs.all (· == '_') then none
  else cs.foldlM (fun n c =>
    if c = '_' then some n
    else (Json.hexDigit? c).bind fun d => if d < base then some (base * n + d) else none) 0

def readSixtieth? (cs : List Char) : Option Nat :=
  if cs.length = 0 ∨ 2 < cs.length then none
  else (cs.mapM asciiDigit?).bind fun ds =>
    let n := ds.foldl (fun n d => 10 * n + d) 0
    if n < 60 then some n else none

/-- Decimal digits; behind colons stand further places, sixty to one. -/
def readDecimal? (cs : List Char) : Option Nat :=
  match fieldsOf ':' cs with
  | [] => none
  | first :: places => (readBase? 10 first).bind fun n =>
    places.foldlM (fun n place => (readSixtieth? place).map (60 * n + ·)) n

def integer? (cs : List Char) : Option Int :=
  let (negative, digits) := readSign cs
  let n := match digits with
    | ['0'] => some 0
    | '0' :: 'b' :: ds => readBase? 2 ds
    | '0' :: 'x' :: ds => readBase? 16 ds
    | '0' :: ds => readBase? 8 ds
    | '_' :: _ => none
    | ds => readDecimal? ds
  n.map fun n => if negative then -(n : Int) else n

/-- A number with a point; its exponent, if it has one, has a sign, and a sign in front stands before a
digit. -/
def binary? (cs : List Char) : Option Double :=
  let bare := cs.filter (· != '_')
  let (_, unsigned) := readSign bare
  let tail := bare.dropWhile fun c => c != 'e' && c != 'E'
  let signed := match tail with
    | _ :: '-' :: _ => true
    | _ :: '+' :: _ => true
    | [] => true
    | _ => false
  let leading := unsigned.head?.any (·.isDigit) || unsigned.length = bare.length
  if bare.contains '.' && signed && leading then (Numeral.ofChars? bare).map (·.toDouble) else none

def isBlockMark : List Char → Bool
  | c :: cs => (c == '-' || c == '?' || c == ':') && cs.head?.all isGap
  | [] => false

def isIndicator (c : Char) : Bool :=
  ['[', ']', '\x7b', '\x7d', ',', '#', '&', '*', '!', '|', '>', '%', '@', '\x60'].contains c

def hasColon : List Char → Bool
  | [] => false
  | [c] => c == ':'
  | c :: d :: cs => (c == ':' && isGap d) || hasColon (d :: cs)

def plain? (cs : List Char) : Option Json :=
  match constants.lookup (.ofList cs) with
  | some v => some v
  | none => match integer? cs with
    | some n => some (.int n)
    | none => match binary? cs with
      | some x => some (.float x)
      | none => if cs.head?.any isIndicator || isBlockMark cs || hasColon cs then none else some (.str (.ofList cs))

def scalar? (cs : List Char) : Option Json :=
  match cs.dropWhile isGap with
  | '"' :: cs => match doubleQuoted? cs with
    | some (s, []) => some (.str (.ofList s))
    | _ => none
  | '\'' :: cs => match singleQuoted? cs with
    | some (s, []) => some (.str (.ofList s))
    | _ => none
  | ['[', ']'] => some (.arr [])
  | ['\x7b', '\x7d'] => some (.obj [])
  | cs => plain? cs

def splitKey? : List Char → Option (List Char × List Char)
  | [] => none
  | [':'] => some ([], [])
  | ':' :: c :: cs => if isGap c then some ([], c :: cs) else (splitKey? (c :: cs)).map fun (k, r) => (':' :: k, r)
  | c :: cs => (splitKey? cs).map fun (k, r) => (c :: k, r)

def pair? (body : List Char) : Option (String × List Char) :=
  match body with
  | '"' :: cs => match doubleQuoted? cs with
    | some (k, rest) => match rest.dropWhile isGap with
      | ':' :: v => if v.head?.all isGap then some (.ofList k, v) else none
      | _ => none
    | none => none
  | '\'' :: cs => match singleQuoted? cs with
    | some (k, rest) => match rest.dropWhile isGap with
      | ':' :: v => if v.head?.all isGap then some (.ofList k, v) else none
      | _ => none
    | none => none
  | cs =>
    if cs.head?.any isIndicator || isBlockMark cs then none
    else (splitKey? cs).map fun (k, v) => (.ofList (dropEndWhile isGap k), v)

def section? (lines : List Line) : Option Json :=
  match lines with
  | [] => some .null
  | first :: _ =>
    if lines.all (·.indent == first.indent) then
      (lines.mapM fun l => (pair? l.body).bind fun (k, v) => (scalar? v).map (k, ·)).map
        fun es => .obj (Assoc.ofPairs es)
    else none

def blocks : List Line → List (Line × List Line)
  | [] => []
  | l :: ls => match blocks ls with
    | [] => [(l, [])]
    | (m, inner) :: rest =>
      if m.indent = 0 then (l, []) :: (m, inner) :: rest else (l, m :: inner) :: rest

def block? (b : Line × List Line) : Option (String × Json) :=
  if b.1.indent ≠ 0 then none
  else (pair? b.1.body).bind fun (k, v) =>
    if b.2.isEmpty then (scalar? v).map (k, ·)
    else if v.all isGap then (section? b.2).map (k, ·)
    else none

def blockMapping? (s : String) : Option (List (String × Json)) :=
  let cs := match s.toList with
    | '\ufeff' :: cs => cs
    | cs => cs
  let lines := (fieldsOf '\n' cs).filterMap lineOf
  let lines := lines.dropWhile fun l => l.body == ['-', '-', '-']
  if lines.any fun l => l.body.head? == some '\t' then none
  else ((blocks lines).mapM block?).map Assoc.ofPairs

def mapping? (s : String) : Option (List (String × Json)) :=
  match Json.ofText? s with
  | some (.obj ms) => some ms
  | some _ => none
  | none => blockMapping? s

end Kitting.Yaml
