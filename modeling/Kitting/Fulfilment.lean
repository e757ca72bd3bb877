import Kitting.Manifest
import Kitting.Matching
import Kitting.Sheet.Workbook
import Kitting.Solver

namespace Kitting

/-- What orders are fulfilled from. `index` belongs to `parts` and `glossary`, as they were when it was
built. -/
structure Inventory where
  parts : List Part := []
  rules : List Rule := []
  laboratoryRules : List Rule := []
  glossary : Glossary := []
  knowledge : Knowledge := []
  index : Index := []

def Inventory.reindex (i : Inventory) : Inventory :=
  { i with index := Index.build i.glossary i.parts }

structure Fulfilment where
  source : String
  order : Order
  outcomes : List Outcome
  solution : Solution
  picks : Picks
  report : Report
  manifest : Manifest

namespace Fulfilment

def reportOf (parts : List Part) (picks : Picks) : Report :=
  .of parts (picks.idsFrom .user) (picks.idsFrom .order) (picks.idsFrom .logic)

def outcomesOf (inventory : Inventory) (order : Order) : List Outcome :=
  Matching.ofOrder inventory.index inventory.laboratoryRules inventory.knowledge order.model order.lines

def settle (inventory : Inventory) (user matched : List String) (cap : Int) (source : String)
    (order : Order) : Fulfilment :=
  let solution := (Task.mk inventory.parts inventory.rules (user ++ matched)).solve cap
  let picks := resolve inventory.parts user matched solution.triggered
  { source := source
    order := order
    outcomes := outcomesOf inventory order
    solution := solution
    picks := picks
    report := reportOf inventory.parts picks
    manifest := .of inventory.parts picks }

def of (inventory : Inventory) (user : List String) (cap : Int) (source : String) (order : Order) :
    Fulfilment :=
  settle inventory user (Matching.selected (outcomesOf inventory order)) cap source order

def unresolved (f : Fulfilment) : Nat := f.outcomes.countP (·.partId.isNone)

def finalize (f : Fulfilment) (parts : List Part) (k : Knowledge) : Knowledge :=
  k.append f.order.model (precedentsOf parts f.picks)

def levelColumn : Nat := 6

def isUnresolved (row : Row) : Bool := row[levelColumn]? == some (.text Level.uncertain.name)

def outcomeSheet (outcomes : List Outcome) : SheetPlan where
  title := "匹配结果"
  header := ["类别", "选项", "数量", "料号", "零件名称", "置信度", "等级", "来源", "公式"]
  rows := outcomes.map fun o => o.record.row.map .text
  highlight := isUnresolved

def manifestSheet (m : Manifest) : SheetPlan where
  title := "BOM清单"
  header := ["序号", "料号", "名称", "数量", "位号", "F_Code", "备注", "来源"]
  rows := m.rows

def missingLabel : String := "缺少选择"

def reportSheet (r : Report) (model : String) : SheetPlan where
  title := "校验"
  header := ["项目", "值"]
  rows :=
    [[.text "机型", .text model],
      [.text "校验结果", .text (if r.isValid then "通过" else "未通过")],
      [.text "进度", .text (toString r.progress ++ "%")],
      [.text "互斥组", .text (toString r.satisfied ++ "/" ++ toString r.total)]]
    ++ r.missing.map fun g => [.text missingLabel, .text g]
  highlight := fun row => row.head? == some (.text missingLabel)

def sheets (f : Fulfilment) : List SheetPlan :=
  [outcomeSheet f.outcomes, manifestSheet f.manifest, reportSheet f.report f.order.model]

def toJson (f : Fulfilment) : Json :=
  .obj [("source", .str f.source), ("extraction", f.order.toJson),
    ("outcomes", .arr (f.outcomes.map fun o => o.record.toJson)), ("solver", f.solution.toJson),
    ("picks", f.picks.toJson), ("report", f.report.toJson), ("manifest", f.manifest.toJson)]

end Fulfilment

end Kitting
