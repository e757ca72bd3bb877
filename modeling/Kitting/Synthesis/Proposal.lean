import Kitting.Formula.Dialect
import Kitting.Json.Printer
import Kitting.Sheet.Workbook
import Kitting.Synthesis.Evidence

namespace Kitting

structure Proposal where
  partNumber : String
  partName : String
  expression : String
  evidenceCount : Int
  confidence : Double
  reasoning : String
  matchedOrders : List String
  indicators : List String
  deriving DecidableEq

namespace Proposal

def unknownName : String := "Unknown Component"

def defaultConfidence : Double := .ofFraction false 1 2

/-- Brought between 0 and 1; `nan` stays. -/
def clamp (x : Double) : Double :=
  if x.lt (.zero false) then .zero false
  else if (Double.ofFraction false 1 1).lt x then .ofFraction false 1 1
  else x

/-- A confidence in whatever form; what is no number says nothing, and an integer beyond all bounds is an
overflow. -/
def confidenceOf (v : Json) : Except Error Double :=
  match v with
  | .float x => .ok (clamp x)
  | .bool b => .ok (.ofFraction false (if b then 1 else 0) 1)
  | .int n => match Double.ofInt? n with
    | some x => .ok (clamp x)
    | none => .error .overflow
  | .str s => .ok (((Double.ofText? s).map clamp).getD defaultConfidence)
  | _ => .ok defaultConfidence

def confidenceReading : Reading Double := fun place v =>
  .andThen ⟨confidenceOf v⟩ fun x =>
    Reading.between (.zero false) (.ofFraction false 1 1) .number place (.float x)

def reading : Reading Proposal := .record fun fs =>
  Proposal.mk <$> fs.required "part_number" .strict <*> fs.optional "part_name" .strict unknownName
    <*> fs.optional "proposed_expression" .strict "" <*> fs.optional "evidence_count" .int 0
    <*> fs.optional "confidence" confidenceReading defaultConfidence <*> fs.optional "reasoning" .strict ""
    <*> fs.optional "matched_orders" (.list .strict) []
    <*> fs.optional "key_indicators" (.list .strict) []

def toJson (p : Proposal) : Json :=
  .obj [("part_number", .str p.partNumber), ("part_name", .str p.partName),
    ("proposed_expression", .str p.expression), ("evidence_count", .int p.evidenceCount),
    ("confidence", .float p.confidence), ("reasoning", .str p.reasoning),
    ("matched_orders", .arr (p.matchedOrders.map .str)),
    ("key_indicators", .arr (p.indicators.map .str))]

/-- The evidence that an answer speaks of: under the very number, else the last one whose canonical
number is the same. -/
def evidenceFor? (book : EvidenceBook) (number : String) : Option Evidence :=
  (Assoc.get? book number).orElse fun _ =>
    (book.reverse.find? fun e => Token.canonical e.1 == Token.canonical number).map (·.2)

def said (v : Json) (first second : String) : Json :=
  let get (name : String) := (v.member? name).getD .null
  if (get first).isVacant then get second else get first

def saidText (v : Json) : String := if v.isVacant then "" else v.text

/-- The proposal in one item of an answer. An item that is no record, names no part or states no usable
confidence gives none. -/
def ofItem (book : EvidenceBook) (parts : List Part) (v : Json) : Except Error (Option Proposal) :=
  match v with
  | .obj _ =>
    let number := Text.trim (saidText (said v "partNumber" "part_number"))
    if number.isEmpty then .ok none
    else do
      let confidence ← match v.member? "confidence" with
        | some c => confidenceOf c
        | none => .ok defaultConfidence
      if confidence = .nan then return none
      let evidence := evidenceFor? book number
      return some {
        partNumber := (evidence.map (·.partNumber)).getD number
        partName := ((partNumbered? parts number).map (·.name)).getD unknownName
        expression := Text.trim (saidText ((v.member? "expression").getD .null))
        evidenceCount := (((evidence.map (·.orders)).getD []).length : Nat)
        confidence := confidence
        reasoning := saidText ((v.member? "reasoning").getD .null)
        matchedOrders := ((evidence.map (·.orders)).getD []).eraseDups
        indicators := match said v "indicators" "keyIndicators" with
          | .arr vs => vs.map Json.text
          | _ => [] }
  | _ => .ok none

def ofItems (book : EvidenceBook) (parts : List Part) : List Json → Except Error (List Proposal)
  | [] => .ok []
  | v :: vs => do
    let p ← ofItem book parts v
    let ps ← ofItems book parts vs
    return p.toList ++ ps

def ofAnswer (book : EvidenceBook) (parts : List Part) (answer : Option String) :
    Except Error (Option (List Proposal)) :=
  match answer.bind Order.payload? with
  | some (.arr vs) => some <$> ofItems book parts vs
  | _ => .ok none

def sheet (ps : List Proposal) : SheetPlan where
  title := "合成公式"
  header := ["SKU", "Logic Formula", "Name", "Source Orders", "Confidence", "Reasoning", "Indicators"]
  rows := ps.map fun p =>
    [.text p.partNumber, .text p.expression, .text p.partName, .int p.evidenceCount,
      .float (p.confidence.roundTo 2), .text p.reasoning,
      .text (Json.render .line (.arr (p.indicators.map .str)))]

end Proposal

def supersede (rules : List Rule) (target id : String) (condition : Condition) : List Rule :=
  if rules.any (·.target == target) then
    (replaceFirst rules.reverse).reverse
  else rules ++ [{ id := id, target := target, condition := condition }]
where
  replaceFirst : List Rule → List Rule
  | [] => []
  | r :: rs => if r.target == target then { r with condition := condition, active := true } :: rs
      else r :: replaceFirst rs

def deployOne (parts : List Part) (rules : List Rule) (entry : Proposal × Nat) : List Rule :=
  match partNumbered? parts entry.1.partNumber with
  | none => rules
  | some p =>
    let condition := Formula.parse .laboratory entry.1.expression
    if condition.isEmpty then rules
    else supersede rules p.id ("rule-synth-" ++ toString entry.2) condition

def deploy (proposals : List Proposal) (parts : List Part) (rules : List Rule) : List Rule :=
  proposals.zipIdx.foldl (deployOne parts) rules

end Kitting
