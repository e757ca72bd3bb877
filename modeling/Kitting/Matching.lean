import Kitting.Context
import Kitting.Index
import Kitting.Knowledge
import Kitting.Order
import Kitting.Outcome

/-!
Finding the part that answers each line of an order.

A part scores by the best of four signals: its rule holds on the line, its number stands in the line, it
was taken for the same line before, or the share of the line's words that describe it. Parts whose rule
holds on the whole order come first and are not found again by a single line.
-/

namespace Kitting

open Text

namespace OrderLine

def context (l : OrderLine) : Context := .ofTexts [l.query]

def key (l : OrderLine) : String × String := (Token.canonical l.category, Token.canonical l.selection)

end OrderLine

def Order.context (lines : List OrderLine) : Context := .ofTexts (lines.map OrderLine.query)

def ruleFor? (rules : List Rule) (id : String) : Option Rule :=
  rules.find? fun r => r.active && r.target == id

namespace Matching

def isLearned (history : List Precedent) (line : OrderLine) (number : String) : Bool :=
  !number.isEmpty && history.any fun h =>
    (Token.canonical h.category, Token.canonical h.selection) == line.key
      && Token.canonical h.partNumber == number

def hits (words : List String) (ip : IndexedPart) : Nat := words.countP (ip.tokens.contains ·)

def overlap (words : List String) (ip : IndexedPart) : Rat :=
  if words.isEmpty then 0 else mkRat (hits words ip) words.length

def isVerified (rules : List Rule) (ctx : Context) (ip : IndexedPart) : Bool :=
  (ruleFor? rules ip.part.id).any (·.condition.holds ctx)

def isNamed (line : OrderLine) (ip : IndexedPart) : Bool :=
  !ip.number.isEmpty && contains line.query ip.number

def score (rules : List Rule) (history : List Precedent) (line : OrderLine) (ip : IndexedPart) :
    Rat × Bool :=
  if isVerified rules line.context ip then (Score.rule, false)
  else
    let named := if isNamed line ip then Score.identifier else 0
    let learned := isLearned history line ip.number
    let known := if learned && named ≤ Score.learned then Score.learned else named
    let shared := overlap (Token.significant line.query) ip
    (if known ≤ shared then shared else known, learned)

def best? : List (IndexedPart × Rat × Bool) → Option (IndexedPart × Rat × Bool)
  | [] => none
  | entry :: rest => match best? rest with
    | none => if 0 < entry.2.1 then some entry else none
    | some b => if entry.2.1 < b.2.1 then some b else some entry

def unresolved (line : OrderLine) (score : Rat) : Outcome where
  category := line.category
  selection := line.selection
  quantity := line.quantity
  score := score

def scoreLine (index : Index) (rules : List Rule) (history : List Precedent) (line : OrderLine) :
    Outcome :=
  match best? (index.map fun ip => (ip, score rules history line ip)) with
  | none => unresolved line 0
  | some (ip, s, learned) =>
    match Score.classify s learned with
    | (.uncertain, _) => unresolved line s
    | (level, provenance) =>
      { category := line.category
        selection := line.selection
        quantity := line.quantity
        partId := some ip.part.id
        partNumber := ip.part.number
        partName := ip.part.name
        score := s
        level := level
        provenance := provenance
        formula := if provenance = .logic then
          ((ruleFor? rules ip.part.id).map (·.condition.raw)).getD "" else "" }

def orderCategory : String := "逻辑公式校验"

def verified (ip : IndexedPart) (rule : Rule) : Outcome where
  category := orderCategory
  selection := "公式验证: " ++ rule.condition.raw
  quantity := "1"
  partId := some ip.part.id
  partNumber := ip.part.number
  partName := ip.part.name
  score := Score.rule
  level := .autoVerified
  provenance := .logic
  formula := rule.condition.raw

def sweep (index : Index) (rules : List Rule) (ctx : Context) : List Outcome :=
  index.filterMap fun ip => match ruleFor? rules ip.part.id with
    | some rule => if rule.condition.holds ctx then some (verified ip rule) else none
    | none => none

def ofOrder (index : Index) (rules : List Rule) (knowledge : Knowledge) (model : String)
    (lines : List OrderLine) : List Outcome :=
  let swept := sweep index rules (Order.context lines)
  let found := swept.map (·.partId)
  let outcomes := lines.map (scoreLine index rules (knowledge.history model))
  swept ++ outcomes.filter fun o => o.partId.isNone || !found.contains o.partId

def selected (outcomes : List Outcome) : List String :=
  (outcomes.filterMap fun o => if o.level = .uncertain then none else o.partId).eraseDups

end Matching

end Kitting
