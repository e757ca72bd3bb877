import Kitting.Proofs.Number.Text
import Kitting.Proofs.Sheet.Catalog

namespace Kitting

open Text

namespace Cell

variable {c : Cell}

def number? : Cell → Option Double
  | float x => some x
  | text s => Double.ofText? (trim s)
  | _ => none

def integer? : Cell → Option Int
  | int n => some n
  | c => c.number?.bind Double.truncate?

/-- The number that a cell stands for. The one for an integer is infinite if none is near enough. -/
def amount? : Cell → Option Double
  | int n => some (.ofFraction (n < 0) n.natAbs 1)
  | c => c.number?

def IsInfinite (c : Cell) : Prop := ∃ negative, c.number? = some (.infinity negative)

instance : DecidablePred IsInfinite := fun c =>
  decidable_of_iff (c.number? = some (.infinity true) ∨ c.number? = some (.infinity false))
    (by simp [IsInfinite, or_comm])

/-- With a number in it as `Double.ofFraction` makes them, if there is one. -/
def Canonical : Cell → Prop
  | float x => x.Canonical
  | _ => True

instance : DecidablePred Canonical
  | float x => inferInstanceAs (Decidable x.Canonical)
  | empty | bool _ | int _ | text _ => inferInstanceAs (Decidable True)

def wholeOr (default : Int) : Option Double → Except Error Int
  | none | some .nan => .ok default
  | some (.infinity _) => .error .overflow
  | some (.finite negative m e) => .ok (((Double.finite negative m e).truncate?).getD default)

theorem wholeOr_eq (default : Int) (number : Option Double) :
    (∃ negative, number = some (.infinity negative)) ∧ wholeOr default number = .error .overflow ∨
      (¬∃ negative, number = some (.infinity negative)) ∧
        wholeOr default number = .ok ((number.bind Double.truncate?).getD default) := by
  cases number with
  | none => exact .inr ⟨by simp, rfl⟩
  | some x =>
    cases x with
    | nan => exact .inr ⟨by simp, rfl⟩
    | infinity negative => exact .inl ⟨⟨negative, rfl⟩, rfl⟩
    | finite negative m e => exact .inr ⟨by simp, rfl⟩

theorem toInt_eq_wholeOr (default : Int) (hempty : c ≠ .empty) (hbool : ∀ b, c ≠ .bool b) (hint : ∀ n, c ≠ .int n) :
    c.toInt default = wholeOr default (Double.ofText? c.toJson.trimmed) := by
  rw [toInt]
  · generalize Double.ofText? c.toJson.trimmed = number
    rcases number with _ | _ | _ | _ <;> rfl
  · exact hempty
  · exact hbool
  · exact hint

theorem toInt_eq (hc : c.Canonical) (default : Int) :
    c.IsInfinite ∧ c.toInt default = .error .overflow ∨
      ¬c.IsInfinite ∧ c.toInt default = .ok (c.integer?.getD default) := by
  cases c with
  | empty | bool _ | int _ => exact .inr ⟨by simp [IsInfinite, number?], rfl⟩
  | text s =>
    have hwhole := toInt_eq_wholeOr (c := text s) default (by simp) (by simp) (by simp)
    rw [hwhole]
    exact wholeOr_eq default (Double.ofText? (trim s))
  | float x =>
    have hwhole := toInt_eq_wholeOr (c := float x) default (by simp) (by simp) (by simp)
    rw [hwhole, trimmed_float, Double.ofText?_text hc]
    exact wholeOr_eq default (some x)

theorem toDouble_eq (hc : c.Canonical) (default : Double) : c.toDouble default = c.amount?.getD default := by
  cases c with
  | empty | bool _ | text _ => rfl
  | int n =>
    change (Double.ofText? (toJson (int n)).trimmed).getD default = _
    rw [trimmed_int, Double.ofText?_int]
    rfl
  | float x =>
    change (Double.ofText? (toJson (float x)).trimmed).getD default = _
    rw [trimmed_float, Double.ofText?_text hc]
    rfl

end Cell

variable {cols : CatalogColumns} {row : Row} {rows : List Row} {i : Nat}

def Unfit (cols : CatalogColumns) (row : Row) : Prop :=
  (Table.cell row cols.functionCode).IsInfinite ∨ (Table.cell row cols.preference).IsInfinite

instance (cols : CatalogColumns) : DecidablePred (Unfit cols) := fun _ => inferInstanceAs (Decidable (_ ∨ _))

structure Part.HasNumbers (cols : CatalogColumns) (row : Row) (p : Part) : Prop where
  functionCode : p.functionCode = (Table.cell row cols.functionCode).integer?.getD 0
  preference : p.preference = (Table.cell row cols.preference).integer?.getD lastPreference
  quantity : p.quantity = some ((Table.cell row cols.quantity).amount?.getD (.ofFraction false 1 1))

theorem Table.canonical_cell (h : ∀ c ∈ row, c.Canonical) (column : Option Nat) : (cell row column).Canonical := by
  rw [cell]
  cases hcell : column.bind (row[·]?) with
  | none => trivial
  | some c =>
    obtain ⟨j, -, hj⟩ := Option.bind_eq_some_iff.1 hcell
    exact h c (List.mem_of_getElem? hj)

theorem partOfRow_numbers (cols : CatalogColumns) (i : Nat) (h : ∀ c ∈ row, c.Canonical) :
    Unfit cols row ∧ partOfRow cols i row = .error .overflow ∨
      ¬Unfit cols row ∧ ∃ p, partOfRow cols i row = .ok p ∧ p.HasNumbers cols row := by
  have hquantity := Cell.toDouble_eq (Table.canonical_cell h cols.quantity) (.ofFraction false 1 1)
  rw [Unfit, partOfRow]
  obtain ⟨hcode, hread⟩ | ⟨hcode, hread⟩ := Cell.toInt_eq (Table.canonical_cell h cols.functionCode) 0
  · rw [hread]
    exact .inl ⟨.inl hcode, rfl⟩
  rw [hread]
  obtain ⟨hpreference, hread⟩ | ⟨hpreference, hread⟩ :=
    Cell.toInt_eq (Table.canonical_cell h cols.preference) Part.lastPreference
  · rw [hread]
    exact .inl ⟨.inr hpreference, rfl⟩
  · rw [hread]
    exact .inr ⟨not_or.2 ⟨hcode, hpreference⟩, _, rfl, rfl, rfl, congrArg some hquantity⟩

theorem partsOfRows_numbers (cols : CatalogColumns) (i : Nat) (h : ∀ row ∈ rows, ∀ c ∈ row, c.Canonical) :
    (∃ row ∈ rows, Unfit cols row) ∧ partsOfRows cols i rows = .error .overflow ∨
      (∀ row ∈ rows, ¬Unfit cols row) ∧ ∃ entries, partsOfRows cols i rows = .ok entries ∧
        List.Forall₂ (Part.HasNumbers cols) rows (entries.map (·.1)) := by
  induction rows generalizing i with
  | nil => exact .inr ⟨fun _ h => absurd h List.not_mem_nil, [], rfl, .nil⟩
  | cons row rows ih =>
    obtain ⟨hrow, hrows⟩ := List.forall_mem_cons.1 h
    rw [partsOfRows]
    obtain ⟨hunfit, hpart⟩ | ⟨hfit, p, hpart, hnumbers⟩ := partOfRow_numbers cols i hrow
    · rw [hpart]
      exact .inl ⟨⟨row, List.mem_cons_self, hunfit⟩, rfl⟩
    rw [hpart]
    obtain ⟨⟨row', hmem, hunfit⟩, hrest⟩ | ⟨hfits, entries, hrest, hall⟩ := ih (i + 1) hrows
    · refine .inl ⟨⟨row', List.mem_cons_of_mem row hmem, hunfit⟩, ?_⟩
      rw [hrest]
      rfl
    · refine .inr ⟨List.forall_mem_cons.2 ⟨hfit, hfits⟩, (p, Table.text row cols.formula) :: entries, ?_,
        .cons hnumbers hall⟩
      rw [hrest]
      rfl

/-- Every sheet with a data row and a column to know parts by: its catalog is read, each row with the numbers in it
or the defaults, unless there is an infinite number where an integer belongs. -/
theorem readCatalog_numbers {sheet : List Row} (path : String) (hcells : ∀ row ∈ sheet, ∀ c ∈ row, c.Canonical)
    (hrows : (Table.ofRows sheet).rows ≠ [])
    (hcolumn : (CatalogColumns.find (Table.ofRows sheet).header).number.isSome ∨
      (CatalogColumns.find (Table.ofRows sheet).header).name.isSome) :
    let table := Table.ofRows sheet
    let cols := CatalogColumns.find table.header
    (∃ row ∈ table.rows, Unfit cols row) ∧ readCatalog path (.workbook (some sheet)) = .error .overflow ∨
      (∀ row ∈ table.rows, ¬Unfit cols row) ∧ ∃ parts rules,
        readCatalog path (.workbook (some sheet)) = .ok (parts, rules) ∧
          List.Forall₂ (Part.HasNumbers cols) table.rows parts := by
  intro table cols
  have hsubset : ∀ row ∈ table.rows, ∀ c ∈ row, c.Canonical := fun row hrow => hcells row (Table.mem_of_mem_rows hrow)
  rw [readCatalog_eq path hrows hcolumn]
  obtain ⟨hunfit, hparts⟩ | ⟨hfit, entries, hparts, hnumbers⟩ := partsOfRows_numbers cols 0 hsubset
  · rw [hparts]
    exact .inl ⟨hunfit, rfl⟩
  · rw [hparts]
    exact .inr ⟨hfit, _, _, rfl, hnumbers⟩

def mixedSheet : List Row :=
  [[.text "Part_Number", .text "F_Code", .text "Select_pref", .text "Qty"],
    [.text "L5", .float (.ofFraction false 2 1), .text " 10.9 ", .text "two"],
    [.empty, .empty, .empty, .text " "],
    [.text "L6", .bool true, .text "nan", .int 3]]

theorem readCatalog_numbers_mixedSheet :
    (∀ row ∈ mixedSheet, ∀ c ∈ row, c.Canonical) ∧ (Table.ofRows mixedSheet).rows ≠ [] ∧
      (CatalogColumns.find (Table.ofRows mixedSheet).header).number.isSome ∧ ∃ parts rules,
        readCatalog "catalog" (.workbook (some mixedSheet)) = .ok (parts, rules) ∧
          parts.map (fun p => (p.functionCode, p.preference, p.quantity)) =
            [(2, 10, some (.ofFraction false 1 1)), (0, 999999, some (.ofFraction false 3 1))] := by
  have hcells : ∀ row ∈ mixedSheet, ∀ c ∈ row, c.Canonical := by decide +kernel
  have hrows : (Table.ofRows mixedSheet).rows ≠ [] := by decide +kernel
  have hcolumn : (CatalogColumns.find (Table.ofRows mixedSheet).header).number.isSome := by decide +kernel
  refine ⟨hcells, hrows, hcolumn, ?_⟩
  obtain ⟨hunfit, -⟩ | ⟨-, parts, rules, hread, hnumbers⟩ :=
    readCatalog_numbers "catalog" hcells hrows (.inl hcolumn)
  · exact absurd hunfit (by decide +kernel)
  refine ⟨parts, rules, hread, ?_⟩
  have htable : (Table.ofRows mixedSheet).rows = [mixedSheet[1], mixedSheet[3]] := by decide +kernel
  rw [htable] at hnumbers
  cases hnumbers with
  | cons h₁ hrest =>
    cases hrest with
    | cons h₂ hnil =>
      cases hnil
      simp only [List.map_cons, List.map_nil, h₁.functionCode, h₁.preference, h₁.quantity, h₂.functionCode,
        h₂.preference, h₂.quantity]
      decide +kernel

def infiniteSheet : List Row := [[.text "Part_Number", .text "F_Code"], [.text "L5", .text "inf"]]

theorem readCatalog_infiniteSheet :
    (∀ row ∈ infiniteSheet, ∀ c ∈ row, c.Canonical) ∧ (Table.ofRows infiniteSheet).rows ≠ [] ∧
      (CatalogColumns.find (Table.ofRows infiniteSheet).header).number.isSome ∧
      ∀ catalog, readCatalog "catalog" (.workbook (some infiniteSheet)) ≠ .ok catalog := by
  have hcells : ∀ row ∈ infiniteSheet, ∀ c ∈ row, c.Canonical := by decide +kernel
  have hrows : (Table.ofRows infiniteSheet).rows ≠ [] := by decide +kernel
  have hcolumn : (CatalogColumns.find (Table.ofRows infiniteSheet).header).number.isSome := by decide +kernel
  refine ⟨hcells, hrows, hcolumn, fun catalog h => ?_⟩
  rw [readCatalog_eq "catalog" hrows (.inl hcolumn)] at h
  obtain ⟨-, hparts⟩ | ⟨hfit, -⟩ := partsOfRows_numbers (.find (Table.ofRows infiniteSheet).header) 0
    fun row hrow => hcells row (Table.mem_of_mem_rows hrow)
  · rw [hparts] at h
    cases h
  · exact absurd hfit (by decide +kernel)

end Kitting
