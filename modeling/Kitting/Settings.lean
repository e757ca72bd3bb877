import Kitting.Path
import Kitting.Schema
import Kitting.Synthesis.Run
import Kitting.Yaml

namespace Kitting

open Text

namespace Settings

structure Service where
  apiKey : String := ""
  apiKeySealed : String := ""
  baseUrl : String := "https://api.openai.com/v1"
  model : String := "gpt-4o-mini"
  timeout : Double := .ofFraction false 120 1
  deriving DecidableEq, Repr

/-- The names of the data files; an order file named `stemIgnored` does not name its result. -/
structure Files where
  catalog : String := "bom_catalog.xlsx"
  formulas : String := "lab_formulas.xlsx"
  glossary : String := "glossary.xlsx"
  knowledge : String := "knowledge.json"
  checkpoint : String := "synthesis_checkpoint.json"
  stemIgnored : String := "order"
  deriving DecidableEq, Repr

structure Matching where
  maxPasses : Int := 5
  maxWorkers : Int := 4
  deriving DecidableEq, Repr

def dropSlashes (s : String) : String := .ofList (dropEndWhile (· == '/') s.toList)

def Service.reading : Reading Service := .record fun fs =>
  Service.mk <$> fs.optional "api_key" .trimmed "" <*> fs.optional "api_key_encrypted" .trimmed ""
    <*> fs.optional "base_url" (fun _ v => pure (dropSlashes v.trimmed)) ({} : Service).baseUrl
    <*> fs.optional "model" .trimmed ({} : Service).model
    <*> fs.optional "timeout" (.above (.zero false) .number) ({} : Service).timeout

def Service.toJson (s : Service) : Json :=
  .obj [("api_key", .str s.apiKey), ("api_key_encrypted", .str s.apiKeySealed),
    ("base_url", .str s.baseUrl), ("model", .str s.model), ("timeout", .float s.timeout)]

def Files.reading : Reading Files := .record fun fs =>
  Files.mk <$> fs.optional "catalog_filename" .strict ({} : Files).catalog
    <*> fs.optional "formula_filename" .strict ({} : Files).formulas
    <*> fs.optional "glossary_filename" .strict ({} : Files).glossary
    <*> fs.optional "knowledge_filename" .strict ({} : Files).knowledge
    <*> fs.optional "checkpoint_filename" .strict ({} : Files).checkpoint
    <*> fs.optional "input_stem_ignore" .strict ({} : Files).stemIgnored

def Files.toJson (f : Files) : Json :=
  .obj [("catalog_filename", .str f.catalog), ("formula_filename", .str f.formulas),
    ("glossary_filename", .str f.glossary), ("knowledge_filename", .str f.knowledge),
    ("checkpoint_filename", .str f.checkpoint), ("input_stem_ignore", .str f.stemIgnored)]

def Matching.reading : Reading Matching := .record fun fs =>
  Matching.mk <$> fs.optional "solver_max_passes" (.intAtLeast 1 .int) 5
    <*> fs.optional "batch_max_workers" (.intAtLeast 1 .int) 4

def Matching.toJson (m : Matching) : Json :=
  .obj [("solver_max_passes", .int m.maxPasses), ("batch_max_workers", .int m.maxWorkers)]

def synthesisReading : Reading Synthesis.Settings := .record fun fs =>
  Synthesis.Settings.mk <$> fs.optional "cluster_size" (.intAtLeast 1 .int) 5
    <*> fs.optional "max_retries" (.intAtLeast 0 .int) 2
    <*> fs.optional "max_evidence" (.intAtLeast 1 .int) 8

def synthesisToJson (s : Synthesis.Settings) : Json :=
  .obj [("cluster_size", .int s.clusterSize), ("max_retries", .int s.maxRetries),
    ("max_evidence", .int s.maxEvidence)]

end Settings

structure Settings where
  service : Settings.Service := {}
  files : Settings.Files := {}
  matching : Settings.Matching := {}
  synthesis : Synthesis.Settings := {}
  deriving DecidableEq, Repr

namespace Settings

def reading : Reading Settings := .record fun fs =>
  Settings.mk <$> fs.optional "llm" Service.reading {} <*> fs.optional "app" Files.reading {}
    <*> fs.optional "matching" Matching.reading {} <*> fs.optional "synthesis" synthesisReading {}

def toJson (s : Settings) : Json :=
  .obj [("llm", s.service.toJson), ("app", s.files.toJson), ("matching", s.matching.toJson),
    ("synthesis", synthesisToJson s.synthesis)]

def ofText (s : String) : Settings :=
  match Yaml.mapping? s with
  | some ms => ((reading.run (.obj ms)).toOption).getD {}
  | none => {}

end Settings

structure Endpoint where
  key : Option String
  url : String
  model : String
  timeout : Double
  deriving DecidableEq, Repr

namespace Endpoint

def openSealed (_sealed : String) : Option String := none

def nonempty (s : String) : Option String := if s.isEmpty then none else some s

def keyOf (s : Settings.Service) (environment : Option String) : Option String :=
  if !s.apiKey.isEmpty then some s.apiKey
  else (((nonempty s.apiKeySealed).bind openSealed).bind nonempty).orElse fun _ =>
    environment.bind fun v => nonempty (trim v)

def of (s : Settings.Service) (environment : Option String) : Endpoint where
  key := keyOf s environment
  url := Settings.dropSlashes (if s.baseUrl.isEmpty then ({} : Settings.Service).baseUrl else s.baseUrl)
  model := if s.model.isEmpty then ({} : Settings.Service).model else s.model
  timeout := s.timeout

def toJson (e : Endpoint) : Json :=
  .obj [("api_key", (e.key.map Json.str).getD .null), ("base_url", .str e.url), ("model", .str e.model),
    ("timeout", .float e.timeout)]

def maskKey (key : String) : String :=
  let cs := trimChars key.toList
  let ends (front back : Nat) := String.ofList (cs.take front) ++ "***" ++ String.ofList (cs.drop (cs.length - back))
  if cs.isEmpty then ""
  else if cs.length ≤ 8 then "***"
  else if (after? "sk-".toList cs).isSome then if 10 < cs.length then ends 6 4 else "sk-***"
  else ends 2 2

def maskUrl (url : String) : String :=
  let cs := dropEndWhile (· == '/') (trimChars url.toList)
  let host (scheme : String) : Option String :=
    (after? scheme.toList cs).map fun rest =>
      scheme ++ String.ofList (rest.takeWhile fun c => c != '/' && c != '?')
  if isVacant url then "(未配置)"
  else ((host "https://").orElse fun _ => host "http://").getD "(无效)"

def display (e : Endpoint) : Json :=
  .obj [("base_url", .str e.url), ("model", .str e.model),
    ("api_key_masked", .str (maskKey (e.key.getD ""))),
    ("configured", .str (if e.key.isSome then "是" else "否"))]

end Endpoint

structure Places where
  data : Path
  output : Path
  log : Path
  files : Settings.Files := {}
  deriving DecidableEq, Repr

namespace Places

def catalog (p : Places) : Path := p.data / p.files.catalog

def formulas (p : Places) : Path := p.data / p.files.formulas

def glossary (p : Places) : Path := p.data / p.files.glossary

def knowledge (p : Places) : Path := p.data / p.files.knowledge

def checkpoint (p : Places) : Path := p.output / p.files.checkpoint

def reading : Reading Places := .record fun fs =>
  let folder (name : String) : Check Path := Path.ofText <$> fs.required name .path
  let files := Settings.Files.mk <$> fs.optional "catalog_filename" .strict ({} : Settings.Files).catalog
    <*> fs.optional "formula_filename" .strict ({} : Settings.Files).formulas
    <*> fs.optional "glossary_filename" .strict ({} : Settings.Files).glossary
    <*> fs.optional "knowledge_filename" .strict ({} : Settings.Files).knowledge
    <*> fs.optional "checkpoint_filename" .strict ({} : Settings.Files).checkpoint <*> pure "order"
  Places.mk <$> folder "data_dir" <*> folder "output_dir" <*> folder "log_dir" <*> files

end Places

inductive SealRequest
  | usage
  | key (plain : String)
  deriving DecidableEq, Repr

namespace SealRequest

def ofArguments : List String → SealRequest
  | [] => .usage
  | [_] => .usage
  | [_, a] => if a = "encrypt" then .usage else .key (trim a)
  | _ :: a :: b :: _ => .key (trim (if a = "encrypt" then b else a))

def lines : SealRequest → List String
  | usage =>
    ["用法: python -m core.config encrypt <明文API_Key>  或  python -m core.config <明文API_Key>",
      "输出加密后的字符串，填入 config/app_config.yaml 的 llm.api_key_encrypted。"]
  | key _ => ["将下面一行填入 config/app_config.yaml 的 llm.api_key_encrypted："]

def exitCode : SealRequest → Nat
  | usage => 1
  | key _ => 0

end SealRequest

end Kitting
