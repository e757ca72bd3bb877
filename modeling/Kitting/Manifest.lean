import Kitting.Selection
import Kitting.Sheet.Cell

namespace Kitting

structure ManifestLine where
  part : Part
  source : Source

namespace ManifestLine

/-- The quantity as a cell; a part used zero times, or without a stated number, is used once. -/
def quantityCell (p : Part) : Cell :=
  match p.quantity with
  | some q => if q.isZero then .int 1 else .float q
  | none => .int 1

def row (line : ManifestLine) (serial : Nat) : List Cell :=
  [.int serial, .text line.part.number, .text line.part.name, quantityCell line.part,
    .text line.part.designator, .int line.part.functionCode, .text line.part.remarks,
    .text line.source.name]

end ManifestLine

abbrev Manifest := List ManifestLine

namespace Manifest

def unsorted (parts : List Part) (picks : Picks) : Manifest :=
  ((parts.filter Part.isMandatory).map fun p => ⟨p, .mandatory⟩)
    ++ (parts.filter Part.isConfigurable).filterMap fun p =>
        (Assoc.get? picks p.id).map fun source => ⟨p, source⟩

/-- Of two lines with one preference the earlier stays first. -/
def of (parts : List Part) (picks : Picks) : Manifest :=
  (unsorted parts picks).mergeSort fun a b => a.part.effectivePreference ≤ b.part.effectivePreference

def rows (m : Manifest) : List (List Cell) := m.zipIdx.map fun (line, i) => line.row (i + 1)

def toJson (m : Manifest) : Json := .arr (m.rows.map fun row => .arr (row.map Cell.toJson))

end Manifest

def precedentsOf (parts : List Part) (picks : Picks) : List Precedent :=
  (parts.filter fun p => p.isConfigurable && Assoc.has picks p.id).map fun p =>
    ⟨p.groupKey, p.name, p.number⟩

end Kitting
