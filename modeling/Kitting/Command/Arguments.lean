import Kitting.Text.Digit
import Kitting.Text.Search

/-!
The arguments of the command: one optional order path and options with long names.

An option may be cut short as long as only one begins so. `--` ends the options; it may stand beside the
path, but not apart from it.
-/

namespace Kitting.Command

structure Arguments where
  order : Option String := none
  once : Bool := false
  merge : Bool := false
  finalize : Bool := false
  deploy : Bool := false
  synthesize : Bool := false
  items : Option String := none
  reset : Bool := false
  deriving DecidableEq, Repr

inductive Flag
  | help
  | once
  | merge
  | finalize
  | deploy
  | synthesize
  | items
  | reset
  deriving DecidableEq, Repr

def flags : List (String × Flag) :=
  [("--help", .help), ("--no-loop", .once), ("--merge", .merge), ("--finalize", .finalize),
    ("--deploy", .deploy), ("--synthesize", .synthesize), ("--item-list", .items),
    ("--reset-checkpoint", .reset)]

def meant (name : String) : List Flag :=
  match flags.lookup name with
  | some f => [f]
  | none => (flags.filter fun p => (Text.after? name.toList p.1.toList).isSome).map (·.2)

inductive Item
  | flag (f : Flag) (value : Option String)
  | value (s : String)
  | stop
  deriving DecidableEq, Repr

def isDigit (c : Char) : Bool := (Text.digitValue? c).isSome

/-- A number with a minus sign, which is no option; a line break at its end does not count. -/
def isNegativeNumber (cs : List Char) : Bool :=
  match if cs.getLast? = some '\n' then cs.dropLast else cs with
  | '-' :: rest =>
    let whole := rest.takeWhile isDigit
    match rest.drop whole.length with
    | [] => !whole.isEmpty
    | '.' :: places => !places.isEmpty && places.all isDigit
    | _ => false
  | _ => false

/-- What an argument with two dashes is; behind an equals sign stands a value. An unknown one with a
space in it is no option. -/
def longOption (cs : List Char) : Option Item :=
  let name := cs.takeWhile (· != '=')
  let value := if name.length = cs.length then none else some (String.ofList (cs.drop (name.length + 1)))
  match meant (.ofList name) with
  | [f] => some (.flag f value)
  | [] => if cs.contains ' ' then some (.value (.ofList cs)) else none
  | _ => none

def itemOf (s : String) : Option Item :=
  match s.toList with
  | ['-'] => some (.value s)
  | ['-', '-'] => some .stop
  | '-' :: '-' :: _ => longOption s.toList
  | '-' :: rest =>
    if isNegativeNumber s.toList || rest.contains ' ' then some (.value s) else none
  | _ => some (.value s)

def Arguments.set (a : Arguments) : Flag → Option Arguments
  | .once => some { a with once := true }
  | .merge => some { a with merge := true }
  | .finalize => some { a with finalize := true }
  | .deploy => some { a with deploy := true }
  | .synthesize => some { a with synthesize := true }
  | .reset => some { a with reset := true }
  | .help => none
  | .items => none

def Arguments.take (a : Arguments) (s : String) : Option Arguments :=
  match a.order with
  | none => some { a with order := some s }
  | some _ => none

def Arguments.takeAll (a : Arguments) : List String → Option Arguments
  | [] => some a
  | s :: rest => (a.take s).bind (takeAll · rest)

def Arguments.readFrom (a : Arguments) : List String → Option Arguments
  | [] => some a
  | s :: rest => match itemOf s with
    | none => none
    | some .stop => if a.order.isSome then none else a.takeAll rest
    | some (.value v) => (a.take v).bind fun a => match rest with
      | "--" :: more => a.takeAll more
      | _ => a.readFrom rest
    | some (.flag .items (some v)) => readFrom { a with items := some v } rest
    | some (.flag .items none) => match rest with
      | [] => none
      | v :: rest => match itemOf v with
        | some (.value v) => readFrom { a with items := some v } rest
        | _ => none
    | some (.flag f none) => (a.set f).bind (readFrom · rest)
    | some (.flag _ (some _)) => none

def Arguments.read (args : List String) : Option Arguments := Arguments.readFrom {} args

end Kitting.Command
