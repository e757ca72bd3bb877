import Kitting.FileTree
import Kitting.Synthesis.Evidence
import Kitting.Text.Base64

namespace Kitting

open Text

namespace Document

def textSuffixes : List String := [".txt", ".md", ".csv"]

def mediaTypes : List (String × String) :=
  [(".png", "image/png"), (".jpg", "image/jpeg"), (".jpeg", "image/jpeg"), (".jpe", "image/jpeg"),
    (".gif", "image/gif"), (".bmp", "image/bmp"), (".tif", "image/tiff"), (".tiff", "image/tiff"),
    (".svg", "image/svg+xml"), (".ico", "image/vnd.microsoft.icon"), (".pdf", "application/pdf"),
    (".json", "application/json"), (".doc", "application/msword"), (".xls", "application/vnd.ms-excel"),
    (".ppt", "application/vnd.ms-powerpoint"), (".zip", "application/zip"), (".html", "text/html"),
    (".htm", "text/html"), (".xml", "text/xml")]

def mediaType (p : Path) : String := (mediaTypes.lookup (lower p.suffix)).getD "application/pdf"

def block (name : Path) (t : FileTree) (place : Path) : Except Error Json :=
  if name.hasSuffix textSuffixes then do
    let text ← t.textLossy place
    return .obj [("type", .str "text"), ("text", .str text)]
  else do
    let bytes ← t.bytes place
    let media := mediaType name
    let url := "data:" ++ media ++ ";base64," ++ Base64.encode bytes
    if (after? "image/".toList media.toList).isSome then
      return .obj [("type", .str "image_url"), ("image_url", .obj [("url", .str url)])]
    else
      return .obj [("type", .str "file"),
        ("file", .obj [("filename", .str name.name), ("file_data", .str url)])]

def prompt : String :=
  "Strictly extract the technical configuration for this Factory Order.\n"
    ++ "Identify the Machine Model, the order number and all option rows (Category and Selection).\n"
    ++ "Return valid JSON ONLY:\n"
    ++ "\x7b\"model\": \"MT2200\", \"order_number\": \"MO-10001\", \"options\": [\x7b\"category\": \"Operator Environment\", \"selection\": \"Forward seated cabin\", \"quantity\": \"1\"\x7d]\x7d\n"

def messages (block : Json) : Json :=
  .arr [.obj [("role", .str "user"),
    ("content", .arr [.obj [("type", .str "text"), ("text", .str prompt)], block])]]

end Document

namespace Evidence

def brief (e : Evidence) : String :=
  "\n".intercalate (["PART: " ++ e.partNumber, "REMARKS: " ++ e.remarks, "EVIDENCE:"]
    ++ (e.orders.zip e.contexts).map fun (o, c) => "[MO " ++ o ++ "] " ++ c)

def separator : String := "\n\n---\n\n"

def prompt (batch : List Evidence) (hint : String) : String :=
  "ACT AS AN ENGINEERING LOGIC ENGINE.\n"
    ++ "FOR EACH PART BELOW, SYNTHESIZE A TRIGGER FORMULA FROM THE ORDERS THAT USED IT.\n"
    ++ "FORMULA SYNTAX: (TERM) REQUIRED, (A OR B) ANY OF, [X OR Y] MUST NOT APPEAR.\n"
    ++ "DICTIONARY: " ++ (if hint.isEmpty then "(none)" else hint) ++ "\nINPUTS:\n"
    ++ separator.intercalate (batch.map brief)
    ++ "\n\nRETURN JSON ARRAY ONLY: [\x7b\"partNumber\": \"string\", \"expression\": \"(INCLUDES) [EXCLUDES]\", \"confidence\": number, \"reasoning\": \"string\", \"indicators\": [\"string\"]\x7d]\n"

end Evidence

end Kitting
