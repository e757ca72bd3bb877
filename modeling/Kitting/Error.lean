import Kitting.Text.Digit
import Kitting.Text.Utf8

namespace Kitting

inductive Misfit
  | missing
  | notText
  | notInteger
  | unreadableInteger
  | fractional
  | notFinite
  | notNumber
  | unreadableNumber
  | notFlag
  | unreadableFlag
  | notList
  | notRecord
  | notChoice
  | notPath
  | notAbove
  | tooLow
  | tooHigh
  deriving DecidableEq, Repr

def Misfit.tag : Misfit → String
  | missing => "missing"
  | notText => "string_type"
  | notInteger => "int_type"
  | unreadableInteger => "int_parsing"
  | fractional => "int_from_float"
  | notFinite => "finite_number"
  | notNumber => "float_type"
  | unreadableNumber => "float_parsing"
  | notFlag => "bool_type"
  | unreadableFlag => "bool_parsing"
  | notList => "list_type"
  | notRecord => "model_type"
  | notChoice => "enum"
  | notPath => "path_type"
  | notAbove => "greater_than"
  | tooLow => "greater_than_equal"
  | tooHigh => "less_than_equal"

/-- A misfit and the way to it from the whole record: field names and list positions. -/
structure Problem where
  place : List String
  misfit : Misfit
  deriving DecidableEq, Repr

def Problem.text (p : Problem) : String := ".".intercalate p.place ++ ":" ++ p.misfit.tag

inductive SheetFault
  | absent
  | notWorkbook
  | noActiveSheet
  | noRows
  | noCatalogColumns
  | noFormulaColumns
  | noItemColumns
  deriving DecidableEq, Repr

inductive Error
  | invalid (problems : List Problem)
  | overflow
  | unknownDialect (name : String)
  | sheet (fault : SheetFault) (path : String)
  | unsupportedFile (kind : String)
  | unreadableFile (path : String)
  | undecodable (stop : Text.Utf8.Stop)
  | notText
  | noSheets
  | fileExists
  | notDirectory
  | isDirectory
  | noFile
  | ioFailure
  | endOfInput
  | noWorkers
  | notAnnotated (type : String)
  | noProvider (type : String)
  | noCatalog (path : String)
  | badCatalog (path : String)
  | unsaved (path : String)
  | batch (cause : Error)
  deriving Repr

def SheetFault.message (path : String) : SheetFault → String
  | absent => "文件不存在: " ++ path
  | notWorkbook => "File is not a zip file"
  | noActiveSheet => "工作簿中没有活动表: " ++ path
  | noRows => "BOM 目录为空: " ++ path
  | noCatalogColumns => "BOM 目录缺少料号/名称列: " ++ path
  | noFormulaColumns => "公式表缺少 SKU 或公式列: " ++ path
  | noItemColumns => "物料清单缺少订单号或料号列: " ++ path

def problemText (ps : List Problem) : String :=
  "; ".intercalate ((ps.map Problem.text).mergeSort (· ≤ ·))

def stopText (s : Text.Utf8.Stop) : String :=
  let hex := String.ofList (Text.hexDigits 2 s.first.toNat)
  let place := if s.size = 1 then "byte 0x" ++ hex ++ " in position " ++ toString s.position
    else "bytes in position " ++ toString s.position ++ "-" ++ toString (s.position + s.size - 1)
  "'utf-8' codec can't decode " ++ place ++ ": " ++ s.cause.text

def Error.message : Error → String
  | invalid ps => problemText ps
  | unknownDialect name => name ++ " is not a valid FormulaDialect"
  | sheet fault path => fault.message path
  | unsupportedFile kind => "不支持的订单文件类型: " ++ kind
  | unreadableFile path => "读取文件失败: " ++ path
  | undecodable stop => stopText stop
  | noWorkers => "Semaphore initial value must be >= 0"
  | noSheets => "至少需要一个工作表"
  | notAnnotated type => "期望 Annotated 类型，得到: " ++ type
  | noProvider type => "未找到 Depends 元数据: " ++ type
  | noCatalog path => "BOM 目录文件不存在: " ++ path
  | badCatalog path => "加载 BOM 目录失败: " ++ path
  | unsaved path => "写入结果文件失败: " ++ path
  | batch _ => "批量处理失败"
  | _ => ""

end Kitting
