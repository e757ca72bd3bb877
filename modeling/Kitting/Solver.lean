import Kitting.Context
import Kitting.Part

/-!
Rules that choose parts, whose texts may make further rules hold.

The solver works in passes. The context of a pass is made of the seed parts (the mandatory and the
already chosen ones) and of the parts triggered in earlier passes; a pass triggers the targets of all
rules that hold in it. `waves` lists the passes until one triggers nothing or their number is used up.
-/

namespace Kitting

structure Task where
  parts : List Part
  rules : List Rule
  chosen : List String

namespace Task

def eligible (t : Task) : List Rule :=
  t.rules.filter fun r =>
    r.active && (partOf? t.parts r.target).any Part.isConfigurable && !t.chosen.contains r.target

def seeds (t : Task) : List Part :=
  t.parts.filter fun p => p.isMandatory || t.chosen.contains p.id

def joined (ps : List Part) : String := " ".intercalate (ps.map Part.contextText)

def context (t : Task) (done : List String) : Context :=
  let extra := done.filterMap (partOf? t.parts)
  { tokens := ((t.seeds ++ extra).flatMap Part.contextTokens).eraseDups
    raw := " ".intercalate (joined t.seeds :: extra.map Part.contextText) }

def fire (t : Task) (done : List String) : List String :=
  let ctx := t.context done
  ((t.eligible.filter fun r => !done.contains r.target && r.condition.holds ctx).map
    (·.target)).eraseDups

def waves (t : Task) : (cap : Nat) → (done : List String) → List (List String)
  | 0, _ => []
  | cap + 1, done =>
    let wave := t.fire done
    if wave.isEmpty then [wave] else wave :: t.waves cap (done ++ wave)

end Task

structure Solution where
  waves : List (List String)
  /-- Whether the passes were used up while there was still something to trigger. -/
  capped : Bool

namespace Solution

def triggered (s : Solution) : List String := s.waves.flatten

def passes (s : Solution) : Nat := s.waves.length

def passesFrom : Nat → List (List String) → Assoc String Nat
  | _, [] => []
  | k, wave :: rest => wave.map (·, k) ++ passesFrom (k + 1) rest

def passOf (s : Solution) : Assoc String Nat := passesFrom 1 s.waves

def empty : Solution := ⟨[], false⟩

def toJson (s : Solution) : Json :=
  .obj [("triggered_ids", .arr (s.triggered.map .str)),
    ("trigger_pass", .obj (s.passOf.map fun (id, k) => (id, .int k))), ("passes", .int s.passes),
    ("hit_cap", .bool s.capped)]

end Solution

def defaultCap : Int := 5

def Task.solve (t : Task) (cap : Int) : Solution :=
  let waves := t.waves cap.toNat []
  ⟨waves, !(t.fire waves.flatten).isEmpty⟩

end Kitting
