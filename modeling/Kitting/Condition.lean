import Kitting.Schema
import Kitting.Text.Case

namespace Kitting

/-- All of `includes`, none of `excludes`, and one out of each group must be found; `raw` is the formula
as it was written. -/
structure Condition where
  includes : List String := []
  excludes : List String := []
  groups : List (List String) := []
  raw : String := ""
  deriving DecidableEq, Repr

namespace Condition

def isEmpty (c : Condition) : Bool := c.includes.isEmpty && c.groups.isEmpty

def terms : Json → List String
  | .arr vs => (vs.map fun v => Text.trim v.text).filterMap fun s =>
      if s.isEmpty then none else some (Text.upper s)
  | _ => []

def termGroups : Json → List (List String)
  | .arr vs => (vs.map terms).filter (!·.isEmpty)
  | _ => []

def reading : Reading Condition := .record fun fs =>
  Condition.mk <$> fs.optional "includes" (fun _ v => pure (terms v)) []
    <*> fs.optional "excludes" (fun _ v => pure (terms v)) []
    <*> fs.optional "or_groups" (fun _ v => pure (termGroups v)) []
    <*> fs.optional "raw" .strict ""

def toJson (c : Condition) : Json :=
  .obj [("includes", .arr (c.includes.map .str)), ("excludes", .arr (c.excludes.map .str)),
    ("or_groups", .arr (c.groups.map fun g => .arr (g.map .str))), ("raw", .str c.raw)]

end Condition

structure Rule where
  id : String
  target : String
  condition : Condition := {}
  active : Bool := true
  deriving DecidableEq, Repr

namespace Rule

def reading : Reading Rule := .record fun fs =>
  Rule.mk <$> fs.required "rule_id" .strict <*> fs.required "target_part_id" .strict
    <*> fs.optional "logic" Condition.reading {} <*> fs.optional "is_active" .flag true

def toJson (r : Rule) : Json :=
  .obj [("rule_id", .str r.id), ("target_part_id", .str r.target), ("logic", r.condition.toJson),
    ("is_active", .bool r.active)]

end Rule

end Kitting
