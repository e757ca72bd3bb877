import Kitting.Knowledge
import Kitting.Part

/-!
Bringing together what the user chose, what the order matches and what the rules trigger.

Of an exclusive group at most one part is picked: the user's last choice, else the last one that the
order matches, else the first triggered one in catalog order. Other parts are picked whoever names them,
for the highest source that does.
-/

namespace Kitting

inductive Source
  | mandatory
  | logic
  | order
  | user
  deriving DecidableEq, Repr

namespace Source

def name : Source → String
  | mandatory => "MANDATORY"
  | logic => "LOGIC"
  | order => "ORDER"
  | user => "USER"

def rank : Source → Nat
  | mandatory => 0
  | logic => 1
  | order => 2
  | user => 3

def all : List Source := [mandatory, logic, order, user]

def ofName? (s : String) : Option Source := all.find? (·.name == s)

end Source

/-- Configurable parts under their group keys. Groups are ordered by their best preference, of equal ones
the first to appear first. -/
def groupParts (parts : List Part) : List (String × List Part) :=
  let groups := (parts.filter Part.isConfigurable).foldl
    (fun groups p => Assoc.alter (fun ps => ps.getD [] ++ [p]) p.groupKey groups)
    ([] : Assoc String (List Part))
  groups.mergeSort fun a b => best a.2 ≤ best b.2
where
  best (ps : List Part) : Int := ((ps.map Part.effectivePreference).min?).getD Part.lastPreference

/-- The selection after the user touches a part: a selected one leaves, any other one enters, and an
exclusive one makes the rest of its group leave. -/
def toggle (selected : List String) (part : Part) (parts : List Part) : List String :=
  if selected.contains part.id then selected.filter (· ≠ part.id)
  else
    let rivals := if part.isExclusive then
        (parts.filter fun p => p.groupKey == part.groupKey && p.isConfigurable).map Part.id
      else []
    selected.filter (!rivals.contains ·) ++ [part.id]

abbrev Picks := Assoc String Source

namespace Picks

def ids (picks : Picks) : List String := Assoc.keys picks

def idsFrom (picks : Picks) (source : Source) : List String :=
  (picks.filter (·.2 == source)).map (·.1)

def toJson (picks : Picks) : Json := .obj (picks.map fun (id, source) => (id, .str source.name))

end Picks

structure Merge where
  picks : Picks := []
  holders : Assoc String (String × Source) := []

namespace Merge

def addShared (m : Merge) (id : String) (source : Source) : Merge :=
  match Assoc.get? m.picks id with
  | some s => if s.rank < source.rank then { m with picks := Assoc.put m.picks id source } else m
  | none => { m with picks := Assoc.put m.picks id source }

def occupy (m : Merge) (key id : String) (source : Source) : Merge where
  picks := Assoc.put m.picks id source
  holders := Assoc.put m.holders key (id, source)

/-- Takes an exclusive part, unless a higher source holds its group; a rule never evicts. -/
def addExclusive (m : Merge) (key id : String) (source : Source) : Merge :=
  match Assoc.get? m.holders key with
  | none => m.occupy key id source
  | some (holder, s) =>
    if source.rank < s.rank || source == .logic then m
    else ({ m with picks := Assoc.erase m.picks holder } : Merge).occupy key id source

def add (parts : List Part) (source : Source) (m : Merge) (id : String) : Merge :=
  match partOf? parts id with
  | none => m
  | some p =>
    if !p.isConfigurable then m
    else if p.isExclusive then m.addExclusive p.groupKey id source
    else m.addShared id source

def addAll (parts : List Part) (source : Source) (m : Merge) (ids : List String) : Merge :=
  ids.foldl (add parts source) m

end Merge

def inCatalogOrder (parts : List Part) (ids : List String) : List String :=
  (parts.map Part.id).filter (ids.contains ·)

def resolve (parts : List Part) (user order logic : List String) : Picks :=
  (((({} : Merge).addAll parts .user user).addAll parts .order order).addAll parts .logic
    (inCatalogOrder parts logic)).picks

structure Report where
  isValid : Bool := true
  progress : Int := 100
  satisfied : Int := 0
  total : Int := 0
  missing : List String := []
  deriving DecidableEq, Repr

namespace Report

def exclusiveGroups (parts : List Part) : List (String × List Part) :=
  (groupParts parts).filter (·.2.any Part.isExclusive)

/-- A group counts as settled once any of its parts is chosen, by whichever source. -/
def of (parts : List Part) (user order logic : List String) : Report :=
  let chosen := user ++ order ++ logic
  let groups := exclusiveGroups parts
  let missing := (groups.filter fun g => !g.2.any fun p => chosen.contains p.id).map (·.1)
  let total := groups.length
  let satisfied := total - missing.length
  { isValid := missing.isEmpty
    progress := if total = 0 then 100 else (satisfied * 100 / total : Nat)
    satisfied := satisfied
    total := total
    missing := missing }

def reading : Reading Report := .record fun fs =>
  Report.mk <$> fs.optional "is_valid" .flag true <*> fs.optional "progress" (.intBetween 0 100 .int) 100
    <*> fs.optional "satisfied_groups" .int 0 <*> fs.optional "total_groups" .int 0
    <*> fs.optional "missing_groups" (.list .strict) []

def toJson (r : Report) : Json :=
  .obj [("is_valid", .bool r.isValid), ("progress", .int r.progress),
    ("satisfied_groups", .int r.satisfied), ("total_groups", .int r.total),
    ("missing_groups", .arr (r.missing.map .str))]

end Report

end Kitting
