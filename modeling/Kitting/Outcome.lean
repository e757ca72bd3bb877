import Kitting.Number.Shortest
import Kitting.Schema

namespace Kitting

inductive Level
  | autoVerified
  | reviewNeeded
  | uncertain
  deriving DecidableEq, Repr

def Level.name : Level → String
  | autoVerified => "AUTO_VERIFIED"
  | reviewNeeded => "REVIEW_NEEDED"
  | uncertain => "UNCERTAIN"

inductive Provenance
  | logic
  | learned
  | ai
  | hybrid
  | nothing
  deriving DecidableEq, Repr

def Provenance.name : Provenance → String
  | logic => "Logic"
  | learned => "Learned"
  | ai => "AI"
  | hybrid => "Hybrid"
  | nothing => "None"

namespace Score

def rule : Rat := 9 / 5

def identifier : Rat := 6 / 5

def learned : Rat := 11 / 10

def logicThreshold : Rat := 3 / 2

def autoThreshold : Rat := 9 / 10

def reviewThreshold : Rat := 1 / 2

/-- Level and provenance, where `reaches t` says whether a score is at least `t`. -/
def classifyBy (reaches : Rat → Bool) (wasLearned : Bool) : Level × Provenance :=
  if reaches logicThreshold then (.autoVerified, .logic)
  else if reaches autoThreshold then (.autoVerified, if wasLearned then .learned else .ai)
  else if reaches reviewThreshold then (.reviewNeeded, .hybrid)
  else (.uncertain, .nothing)

def classify (score : Rat) (wasLearned : Bool) : Level × Provenance :=
  classifyBy (fun t => t ≤ score) wasLearned

/-- A binary number as a score; `nan` reaches no threshold and infinity every one. -/
def classifyDouble (score : Double) (wasLearned : Bool) : Level × Provenance :=
  match score.toRat? with
  | some q => classify q wasLearned
  | none => classifyBy (fun _ => score == .infinity false) wasLearned

end Score

/-- The best answer to one line; `part` is missing where no part scores high enough. -/
structure Outcome where
  category : String
  selection : String
  quantity : String
  partId : Option String := none
  partNumber : String := ""
  partName : String := ""
  score : Rat := 0
  level : Level := .uncertain
  provenance : Provenance := .nothing
  formula : String := ""
  deriving DecidableEq

def Outcome.confidence (o : Outcome) : Rat := if o.score ≤ 1 then o.score else 1

namespace Outcome

structure Record where
  category : String
  selection : String
  quantity : String
  partId : Option String
  partNumber : String
  partName : String
  score : Double
  confidence : Double
  level : Level
  provenance : Provenance
  formula : String

def record (o : Outcome) : Record where
  category := o.category
  selection := o.selection
  quantity := o.quantity
  partId := o.partId
  partNumber := o.partNumber
  partName := o.partName
  score := .ofRat o.score
  confidence := .ofRat o.confidence
  level := o.level
  provenance := o.provenance
  formula := o.formula

namespace Record

def row (r : Record) : List String :=
  [r.category, r.selection, r.quantity, r.partNumber, r.partName, r.confidence.fixed 2, r.level.name,
    r.provenance.name, r.formula]

def levels : List (String × Level) :=
  [Level.autoVerified, .reviewNeeded, .uncertain].map fun l => (l.name, l)

def provenances : List (String × Provenance) :=
  [Provenance.logic, .learned, .ai, .hybrid, .nothing].map fun p => (p.name, p)

def reading : Reading Record := .record fun fs =>
  Record.mk <$> fs.optional "category" .strict "" <*> fs.optional "selection" .strict ""
    <*> fs.optional "quantity" .strict "1" <*> fs.optional "part_id" .strict? none
    <*> fs.optional "part_number" .strict "" <*> fs.optional "part_name" .strict ""
    <*> fs.optional "score" (.atLeast (.zero false) .number) (.zero false)
    <*> fs.optional "confidence" (.between (.zero false) (.ofFraction false 1 1) .number) (.zero false)
    <*> fs.optional "level" (.choice levels) .uncertain
    <*> fs.optional "provenance" (.choice provenances) .nothing
    <*> fs.optional "logic_formula" .strict ""

def toJson (r : Record) : Json :=
  .obj [("category", .str r.category), ("selection", .str r.selection), ("quantity", .str r.quantity),
    ("part_id", (r.partId.map Json.str).getD .null), ("part_number", .str r.partNumber),
    ("part_name", .str r.partName), ("score", .float r.score), ("confidence", .float r.confidence),
    ("level", .str r.level.name), ("provenance", .str r.provenance.name),
    ("logic_formula", .str r.formula), ("row", .arr (r.row.map .str))]

end Record

end Outcome

end Kitting
