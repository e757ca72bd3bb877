import Kitting.Command.Arguments
import Kitting.Fulfilment
import Kitting.Sheet.Catalog
import Kitting.Sheet.Glossary
import Kitting.World

namespace Kitting

namespace Order

def suffixes : List String := [".json", ".pdf", ".png", ".jpg", ".jpeg", ".webp", ".txt"]

def isOrderFile (p : Path) : Bool := p.hasSuffix suffixes

def files (t : FileTree) (cwd p : Path) : Except Error (List Path) :=
  let place := p.resolve cwd
  if t.isFolder place then
    let names := (t.entries place).filter fun n =>
      t.isFile (place.join ⟨"", [n]⟩) && isOrderFile ⟨"", [n]⟩
    .ok ((names.mergeSort (· ≤ ·)).map fun n => p.join ⟨"", [n]⟩)
  else if isOrderFile p then .ok [p]
  else .error (.unsupportedFile (if p.suffix.isEmpty then p.name else p.suffix))

end Order

namespace Session

def readOrder (p : Path) : Session Order := do
  let w ← get
  match w.files.text (w.place p) with
  | .ok s => return .ofPayload s
  | .error e => throw (if e.isFileSystem then .unreadableFile p.text else e)

def isPayload (p : Path) : Bool := p.hasSuffix [".json"]

/-- The orders of files where those of the payloads are known; each of the other files takes the next
text. -/
def fill : List (Option Order) → List (Option String) → List Order
  | [], _ => []
  | some o :: slots, texts => o :: fill slots texts
  | none :: slots, t :: texts => .ofPayload (t.getD "") :: fill slots texts
  | none :: slots, [] => .ofPayload "" :: fill slots []

def readOrders (paths : List Path) (schedule : Schedule := id) : Session (List Order) := do
  let slots ← paths.mapM fun p => if isPayload p then some <$> readOrder p else pure none
  let texts ← extractAll none (paths.filter (!isPayload ·)) schedule
  return fill slots texts

def cap : Session Int := do
  let n := (← settings).matching.maxPasses
  return if n = 0 then defaultCap else n

def fulfil (inventory : Inventory) (paths : List Path) (merge : Bool) : Session (List Fulfilment) := do
  match paths with
  | [] => return []
  | first :: _ =>
    let orders ← readOrders paths
    if merge then
      return [.of inventory [] (← cap) first.stem (.merge orders)]
    else
      (paths.zip orders).mapM fun (p, o) => return .of inventory [] (← cap) p.stem o

end Session

namespace Command

open Session

def openLog (folder : Path) : Session Unit := do
  let w ← get
  changeFiles (·.makeFolder (w.place folder))
  let log := w.place (folder / ("bom_config_" ++ w.day ++ ".log"))
  if !w.files.isFile log then changeFiles (·.put log (.file []))

def start : Session Places := do
  let s ← settings
  let w ← get
  let places : Places := ⟨w.dataFolder, w.outputFolder, w.logFolder, s.files⟩
  openLog places.log
  let endpoint := (← loaded).endpoint
  printLine ("配置已加载: data_dir=" ++ places.data.text ++ ", output_dir=" ++ places.output.text)
  printLine ("抽取服务: " ++ endpoint.url ++ " / " ++ endpoint.model ++ "，已配置 Key: "
    ++ if endpoint.key.isSome then "是" else "否")
  return places

def sourceAt (p : Path) : Session SheetSource := return (← get).files.sheetSource ((← get).place p)

def loadCatalog (p : Path) : Session (List Part × List Rule) := do
  if !(← exists? p) then throw (.noCatalog p.text)
  match readCatalog p.text (← sourceAt p) with
  | .ok r => return r
  | .error _ => throw (.badCatalog p.text)

def loadFormulas (p : Path) (parts : List Part) : Session (List Rule) := do
  match ← sourceAt p with
  | .absent =>
    printLine ("实验室公式文件不存在，将不使用公式校验: " ++ p.text)
    return []
  | source => match readLaboratory p.text source parts with
    | .ok rules => return rules
    | .error e =>
      printLine ("加载实验室公式失败，将不使用公式校验: " ++ e.message)
      return []

def loadGlossary (p : Path) : Session Glossary := do
  match Glossary.read p.text (← sourceAt p) with
  | .ok g => return g
  | .error e =>
    printLine ("加载术语表失败，将使用空术语表: " ++ e.message)
    return []

def textAt? (p : Path) : Session (Option String) := do
  let w ← get
  match w.files.text (w.place p) with
  | .ok s => return some s
  | .error e => if e.isFileSystem then return none else throw e

def loadKnowledge (p : Path) : Session Knowledge := return ((← textAt? p).map Knowledge.ofText).getD []

def loadCheckpoint (p : Path) : Session Checkpoint := do
  match ← textAt? p with
  | some s => lift (Checkpoint.ofText s)
  | none => return {}

def saveKnowledge (p : Path) (k : Knowledge) : Session Unit := writeText p k.toText

def saveCheckpoint (p : Path) (c : Checkpoint) : Session Unit := writeText p c.toText

def clearCheckpoint (p : Path) : Session Unit := do
  let place := (← get).place p
  changeFiles (·.remove place)

def loadInventory (places : Places) (deployed : Bool) : Session Inventory := do
  let (parts, rules) ← loadCatalog places.catalog
  let laboratoryRules ← loadFormulas places.formulas parts
  let glossary ← loadGlossary places.glossary
  let knowledge ← loadKnowledge places.knowledge
  let rules ← if deployed then
      (fun (c : Checkpoint) => deploy c.proposals parts rules) <$> loadCheckpoint places.checkpoint
    else pure rules
  printLine ("零件 " ++ toString parts.length ++ " 个，目录规则 " ++ toString rules.length
    ++ " 条，实验室公式 " ++ toString laboratoryRules.length ++ " 条，术语 " ++ toString glossary.length
    ++ " 条，知识库机型 " ++ toString knowledge.length ++ " 个。")
  return ({ parts, rules, laboratoryRules, glossary, knowledge } : Inventory).reindex

def resultName (ignored stamp source : String) : String :=
  if source.isEmpty || source == ignored then "配置结果_" ++ stamp ++ ".xlsx"
  else source ++ "_配置结果_" ++ stamp ++ ".xlsx"

def saveResult (f : Fulfilment) (folder : Path) : Session Path := do
  let ignored := (← settings).files.stemIgnored
  let w ← get
  changeFiles (·.makeFolder (w.place folder))
  let path := folder / resultName ignored w.stamp f.source
  let save := saveWorkbook path f.sheets
  tryCatch save fun _ => throw (.unsaved path.text)
  return path

def finalizeOne (parts : List Part) (k : Knowledge) (f : Fulfilment) : Session Knowledge := do
  if f.report.isValid then return f.finalize parts k
  else
    printLine ("订单 " ++ f.source ++ " 未通过互斥组校验，不写入知识库（缺少: "
      ++ "、".intercalate f.report.missing ++ "）")
    return k

def finalizeAll (fs : List Fulfilment) (inventory : Inventory) (places : Places) : Session Inventory := do
  let knowledge ← fs.foldlM (finalizeOne inventory.parts) inventory.knowledge
  saveKnowledge places.knowledge knowledge
  printLine ("知识库已更新: " ++ places.knowledge.text)
  return { inventory with knowledge }

def report (places : Places) (f : Fulfilment) : Session (Option Path) := do
  printLine ("[" ++ f.source ++ "] 机型 " ++ f.order.model ++ "：结果 " ++ toString f.outcomes.length
    ++ " 行，未解析 " ++ toString f.unresolved ++ " 行（已标红），逻辑推出 "
    ++ toString f.solution.triggered.length ++ " 个，互斥组 " ++ toString f.report.progress ++ "%")
  let saved : Except Error Path ← tryCatch (Except.ok <$> saveResult f places.output) fun e =>
    match e with
    | .unsaved _ => pure (.error e)
    | e => throw e
  match saved with
  | .ok p =>
    printLine ("已写入: " ++ p.text)
    return some p
  | .error e =>
    printLine e.message
    return none

def processPath (p : Path) (places : Places) (inventory : Inventory) (merge finalize : Bool) :
    Session (List Path × Inventory) := do
  let w ← get
  match Order.files w.files w.cwd p with
  | .error e =>
    printLine e.message
    return ([], inventory)
  | .ok [] =>
    printLine ("没有可处理的订单文件: " ++ p.text)
    return ([], inventory)
  | .ok paths =>
    let result : Except Error (List Fulfilment) ←
      tryCatch (Except.ok <$> fulfil inventory paths merge) fun e => pure (.error e)
    match result with
    | .error e =>
      printLine ((Error.batch e).message ++ ": " ++ e.message)
      return ([], inventory)
    | .ok fs =>
      let written ← fs.mapM (report places)
      let inventory ← if finalize then finalizeAll fs inventory places else pure inventory
      return (written.filterMap id, inventory)

def isDataError : Error → Bool
  | .sheet .notWorkbook _ => false
  | .sheet _ _ => true
  | .unsupportedFile _ | .unreadableFile _ | .undecodable _ => true
  | _ => false

def synthesisData (orders items : Path) : Session (List Order × List UsedPart) := do
  let used ← lift (UsedPart.readItems items.text (← sourceAt items))
  let w ← get
  let paths ← lift (Order.files w.files w.cwd orders)
  return (← readOrders paths, used)

def synthesizeRules (orders items : Path) (inventory : Inventory) (places : Places) : Session Unit := do
  let data : Except Error (List Order × List UsedPart) ←
    tryCatch (Except.ok <$> synthesisData orders items) fun e =>
      if isDataError e then pure (.error e) else throw e
  match data with
  | .error e => printLine ("读取合成数据失败: " ++ e.message)
  | .ok (orders, used) =>
    let book := EvidenceBook.build orders used
    if book.isEmpty then printLine "订单与物料清单没有可关联的订单号，无法合成。"
    else
      let s ← settings
      let w ← get
      let service : Synthesis.Service World :=
        { ask := synthesize none, save := saveCheckpoint places.checkpoint }
      let result ← Synthesis.run service s.synthesis book inventory.parts inventory.glossary w.instant
        (← loadCheckpoint places.checkpoint)
      if !result.completed then
        printLine ("合成中断（已完成 " ++ toString result.clustersDone ++ " 批），再次运行将从断点继续: "
          ++ places.checkpoint.text)
      let path := places.output / ("合成公式_" ++ w.stamp ++ ".xlsx")
      saveWorkbook path [Proposal.sheet result.checkpoint.proposals]
      printLine ("提案 " ++ toString result.checkpoint.proposals.length ++ " 条，已写入: " ++ path.text)

def quitWords : List String := ["q", "quit", "exit"]

def prompt : Session String := do
  print "订单路径: "
  let w ← get
  match w.input with
  | [] => throw .endOfInput
  | line :: rest =>
    set { w with input := rest }
    return Text.trim line

/-- Fulfils one path after the other. Each turn but the first takes a line of the input, so `fuel`, two more
than there are lines, is never used up. -/
def loop (arguments : Arguments) (places : Places) (inventory : Inventory) (pending : Option String) :
    (fuel : Nat) → Session Unit
  | 0 => throw .endOfInput
  | fuel + 1 => do
    let line ← match pending with
      | some s => if s.isEmpty then prompt else pure s
      | none => prompt
    if line.isEmpty then loop arguments places inventory none fuel
    else if quitWords.contains (Text.lower line) then printLine "退出。"
    else
      let path := Path.ofInput line
      if !(← exists? path) then
        printLine ("路径不存在: " ++ path.text ++ "\n")
        loop arguments places inventory none fuel
      else
        let (_, inventory) ← processPath path places inventory arguments.merge arguments.finalize
        printLine ("已处理: " ++ path.text ++ "\n")
        if arguments.once && arguments.order.any (!·.isEmpty) then return ()
        else loop arguments places inventory none fuel

def isLoadError : Error → Bool
  | .noCatalog _ | .badCatalog _ | .undecodable _ => true
  | _ => false

def loadOrReport (places : Places) (deployed : Bool) : Session (Option Inventory) :=
  tryCatch (some <$> loadInventory places deployed) fun e =>
    if isLoadError e then do
      printLine ("加载数据失败，退出: " ++ e.message)
      return none
    else throw e

def hasText (s : Option String) : Bool := s.any (!·.isEmpty)

def runWith (arguments : Arguments) : Session Nat := do
  let places ← start
  match ← loadOrReport places arguments.deploy with
  | none => return 1
  | some inventory =>
    if arguments.synthesize then
      match arguments.order, arguments.items with
      | some order, some items =>
        if order.isEmpty || items.isEmpty then
          printLine "公式合成需要订单路径与 --item-list 物料清单。"
          return 2
        if arguments.reset then clearCheckpoint places.checkpoint
        synthesizeRules (.ofInput order) (.ofInput items) inventory places
        return 0
      | _, _ =>
        printLine "公式合成需要订单路径与 --item-list 物料清单。"
        return 2
    else
      if !arguments.once || !hasText arguments.order then
        printLine "请拖动或输入订单文件/目录路径，输入 q 退出。\n"
      let pending := arguments.order.map Text.trim
      loop arguments places inventory pending ((← get).input.length + 2)
      return 0

def run (args : List String) : Session Nat :=
  match Arguments.read args with
  | some arguments => runWith arguments
  | none => return 2

end Command

end Kitting
