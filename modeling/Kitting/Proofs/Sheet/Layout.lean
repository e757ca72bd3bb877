import Kitting.Proofs.Sheet.Catalog
import Mathlib.Data.Fin.Rev
import Mathlib.Logic.Equiv.Basic

namespace Kitting

variable {n : Nat} {σ : Equiv.Perm (Fin n)}

section Padding

variable {α : Type} {blank : α} {xs : List α}

/-- The columns of a sheet put in another order. A list that is too short is padded. -/
def permuted (σ : Equiv.Perm (Fin n)) (blank : α) (xs : List α) : List α :=
  List.ofFn fun j => xs.getD (σ j) blank

def origin (σ : Equiv.Perm (Fin n)) : Equiv.Perm Nat := σ.extendDomain Fin.equivSubtype

theorem getD_permuted (hwidth : xs.length ≤ n) (j : Nat) :
    (permuted σ blank xs).getD j blank = xs.getD (origin σ j) blank := by
  rw [permuted, List.getD_eq_getElem?_getD, List.getElem?_ofFn]
  split
  case isTrue hj =>
    have horigin : origin σ j = σ ⟨j, hj⟩ := Equiv.Perm.extendDomain_apply_image σ Fin.equivSubtype ⟨j, hj⟩
    rw [horigin, Option.getD_some]
  case isFalse hj =>
    have horigin : origin σ j = j := Equiv.Perm.extendDomain_apply_not_subtype σ Fin.equivSubtype hj
    rw [horigin, Option.getD_none, List.getD_eq_default xs blank (hwidth.trans (not_lt.1 hj))]

theorem lt_length_of_getD_ne {i : Nat} (h : xs.getD i blank ≠ blank) : i < xs.length := by
  by_contra hi
  exact h (List.getD_eq_default xs blank (not_lt.1 hi))

end Padding

namespace Table

variable {keys : List String} {k : String}

def headerKeys (header : Row) : List String := header.map fun c => headerKey c.value

def DistinctKeys (keys : List String) : Prop := (keys.filter (· ≠ "")).Nodup

instance : DecidablePred DistinctKeys := fun keys => inferInstanceAs (Decidable (keys.filter (· ≠ "")).Nodup)

theorem distinctKeys_iff : DistinctKeys keys ↔
    ∀ i j, keys.getD i "" ≠ "" → keys.getD i "" = keys.getD j "" → i = j := by
  rw [DistinctKeys, List.Nodup, List.pairwise_filter, List.pairwise_iff_getElem]
  simp only [decide_eq_true_eq]
  constructor
  · intro h i j hne heq
    have hi := lt_length_of_getD_ne hne
    have hj := lt_length_of_getD_ne (heq ▸ hne)
    rw [List.getD_eq_getElem _ _ hi] at hne heq
    rw [List.getD_eq_getElem _ _ hj] at heq
    obtain hij | hij | hij := lt_trichotomy i j
    · exact absurd heq (h i j hi hj hij hne (heq ▸ hne))
    · exact hij
    · exact absurd heq.symm (h j i hj hi hij (heq ▸ hne) hne)
  · intro h i j hi hj hij hne _ heq
    refine hij.ne (h i j ?_ ?_)
    · rwa [List.getD_eq_getElem _ _ hi]
    · rwa [List.getD_eq_getElem _ _ hi, List.getD_eq_getElem _ _ hj]

theorem distinctKeys_permuted (h : DistinctKeys keys) (hwidth : keys.length ≤ n) :
    DistinctKeys (permuted σ "" keys) := by
  rw [distinctKeys_iff] at h ⊢
  intro i j hne heq
  rw [getD_permuted hwidth, getD_permuted hwidth] at heq
  rw [getD_permuted hwidth] at hne
  exact (origin σ).injective (h _ _ hne heq)

def answersTo (k k' : String) : Bool := k' != "" && k' == k

theorem findIdx?_answersTo (h : DistinctKeys keys) {i : Nat} :
    keys.findIdx? (answersTo k) = some i ↔ keys.getD i "" ≠ "" ∧ keys.getD i "" = k := by
  simp only [List.findIdx?_eq_some_iff_getElem, answersTo, Bool.and_eq_true, bne_iff_ne, beq_iff_eq]
  constructor
  · rintro ⟨hi, hkey, -⟩
    rwa [List.getD_eq_getElem _ _ hi]
  · intro hkey
    have hi := lt_length_of_getD_ne hkey.1
    refine ⟨hi, by rwa [List.getD_eq_getElem _ _ hi] at hkey, fun j hji hj => ?_⟩
    rw [← List.getD_eq_getElem _ "" (hji.trans hi)] at hj
    exact hji.ne (distinctKeys_iff.1 h j i hj.1 (hj.2.trans hkey.2.symm))

theorem findIdx?_permuted (h : DistinctKeys keys) (hwidth : keys.length ≤ n) :
    (permuted σ "" keys).findIdx? (answersTo k) = (keys.findIdx? (answersTo k)).map (origin σ).symm := by
  ext i
  rw [findIdx?_answersTo (distinctKeys_permuted h hwidth), getD_permuted hwidth, ← findIdx?_answersTo h,
    Option.map_eq_some_iff]
  simp only [Equiv.symm_apply_eq, exists_eq_right]

theorem column?_eq (header : Row) (aliases : List String) : column? (header.map Cell.value) aliases =
    aliases.findSome? fun a => (headerKeys header).findIdx? (answersTo (headerKey a)) := by
  simp only [column?, headerKeys, List.findIdx?_map]
  rfl

theorem column?_permuted {header header' : Row} (h : DistinctKeys (headerKeys header)) (hwidth : header.length ≤ n)
    (hheader : headerKeys header' = permuted σ "" (headerKeys header)) (aliases : List String) :
    column? (header'.map Cell.value) aliases = (column? (header.map Cell.value) aliases).map (origin σ).symm := by
  have hkeys : (headerKeys header).length ≤ n := by rwa [headerKeys, List.length_map]
  rw [column?_eq, column?_eq, hheader, List.map_findSome?]
  congr 1
  funext a
  exact findIdx?_permuted h hkeys

theorem cell_eq_getD (row : Row) (i : Nat) : cell row (some i) = row.getD i .empty := List.getD_eq_getElem?_getD.symm

theorem cell_permuted {row : Row} (hwidth : row.length ≤ n) (column : Option Nat) :
    cell (permuted σ .empty row) (column.map (origin σ).symm) = cell row column := by
  cases column with
  | none => rfl
  | some i => rw [Option.map_some, cell_eq_getD, cell_eq_getD, getD_permuted hwidth, Equiv.apply_symm_apply]

end Table

theorem Row.isBlank_iff {row : Row} : row.IsBlank ↔ ∀ i, (row.getD i .empty).IsBlank := by
  rw [IsBlank, List.forall_mem_iff_getElem]
  constructor
  · intro h i
    obtain hi | hi := lt_or_ge i row.length
    · rw [List.getD_eq_getElem row _ hi]
      exact h i hi
    · rw [List.getD_eq_default row _ hi]
      trivial
  · intro h i hi
    rw [← List.getD_eq_getElem row .empty hi]
    exact h i

theorem Row.isBlank_permuted {row : Row} (hwidth : row.length ≤ n) :
    Row.IsBlank (permuted σ .empty row) ↔ row.IsBlank := by
  simp only [Row.isBlank_iff, getD_permuted hwidth]
  exact (origin σ).forall_congr_right (q := fun i => (row.getD i .empty).IsBlank)

def CatalogColumns.map (f : Nat → Nat) (cols : CatalogColumns) : CatalogColumns where
  number := cols.number.map f
  name := cols.name.map f
  functionCode := cols.functionCode.map f
  designator := cols.designator.map f
  quantity := cols.quantity.map f
  preference := cols.preference.map f
  remarks := cols.remarks.map f
  standardRemarks := cols.standardRemarks.map f
  formula := cols.formula.map f

theorem CatalogColumns.find_map {header header' : List String} {f : Nat → Nat}
    (h : ∀ aliases, Table.column? header' aliases = (Table.column? header aliases).map f) :
    find header' = (find header).map f := by
  simp only [find, map, h]

variable {cols : CatalogColumns} {row : Row} {rows : List Row}

theorem partOfRow_permuted (hwidth : row.length ≤ n) (i : Nat) :
    partOfRow (cols.map (origin σ).symm) i (permuted σ .empty row) = partOfRow cols i row := by
  simp only [partOfRow, CatalogColumns.map, Table.text, Table.cell_permuted hwidth]
  rfl

theorem partsOfRows_permuted (hwidth : ∀ row ∈ rows, row.length ≤ n) (i : Nat) :
    partsOfRows (cols.map (origin σ).symm) i (rows.map (permuted σ .empty)) = partsOfRows cols i rows := by
  induction rows generalizing i with
  | nil => rfl
  | cons row rows ih =>
    obtain ⟨hrow, hrows⟩ := List.forall_mem_cons.1 hwidth
    have hformula : Table.text (permuted σ .empty row) (cols.map (origin σ).symm).formula =
        Table.text row cols.formula := congrArg Cell.value (Table.cell_permuted hrow cols.formula)
    rw [List.map_cons, partsOfRows, partsOfRows, partOfRow_permuted hrow, ih hrows, hformula]

/-- The same catalog, or the same error: another order of the columns, other headers with the same keys, more or
fewer blank rows. -/
theorem readCatalog_permuted (path : String) {header header' : Row} {body body' : List Row}
    (σ : Equiv.Perm (Fin header.length)) (hdistinct : Table.DistinctKeys (Table.headerKeys header))
    (hwidth : ∀ row ∈ body, row.length ≤ header.length)
    (hheader : Table.headerKeys header' = permuted σ "" (Table.headerKeys header))
    (hbody : body'.filter (¬Row.IsBlank ·) = (body.map (permuted σ .empty)).filter (¬Row.IsBlank ·)) :
    readCatalog path (.workbook (some (header' :: body'))) = readCatalog path (.workbook (some (header :: body))) := by
  have hcolumns : CatalogColumns.find (header'.map Cell.value) =
      (CatalogColumns.find (header.map Cell.value)).map (origin σ).symm :=
    CatalogColumns.find_map (Table.column?_permuted hdistinct le_rfl hheader)
  have hrows : body'.filter (¬Row.IsBlank ·) = (body.filter (¬Row.IsBlank ·)).map (permuted σ .empty) := by
    rw [hbody, List.filter_map]
    congr 1
    refine List.filter_congr fun row hrow => ?_
    rw [Function.comp_apply, decide_eq_decide, Row.isBlank_permuted (hwidth row hrow)]
  have hkept : ∀ row ∈ body.filter (¬Row.IsBlank ·), row.length ≤ header.length :=
    fun row hrow => hwidth row (List.mem_of_mem_filter hrow)
  rw [readCatalog_sheet, readCatalog_sheet, Table.ofRows_cons, Table.ofRows_cons]
  simp only [hcolumns, hrows, partsOfRows_permuted hkept, List.map_eq_nil_iff]
  simp only [CatalogColumns.map, Option.map_eq_none_iff]

def turnedSheet : List Row :=
  [[.text "LOGIC", .text "f code", .text "name ", .text "Part-Number"],
    [.text " [L-5] ", .int 1, .text "Winch", .text "L5"],
    [.text "[L-6]", .int 0, .text "Rope", .text "L6"],
    [.empty, .empty, .empty, .text "L7"],
    [.text "\t", .empty],
    [.text "[L-8]", .float (.ofFraction false 9 1), .empty, .text "L8"]]

theorem readCatalog_permuted_turnedSheet :
    let σ : Equiv.Perm (Fin 4) := Fin.revPerm
    Table.DistinctKeys (Table.headerKeys riggingSheet[0]) ∧ (∀ row ∈ riggingSheet.tail, row.length ≤ 4) ∧
      Table.headerKeys turnedSheet[0] = permuted σ "" (Table.headerKeys riggingSheet[0]) ∧
      turnedSheet.tail.filter (¬Row.IsBlank ·) =
        (riggingSheet.tail.map (permuted σ .empty)).filter (¬Row.IsBlank ·) ∧
      readCatalog "catalog" (.workbook (some turnedSheet)) = readCatalog "catalog" (.workbook (some riggingSheet)) := by
  intro σ
  have hdistinct : Table.DistinctKeys (Table.headerKeys riggingSheet[0]) := by decide +kernel
  have hwidth : ∀ row ∈ riggingSheet.tail, row.length ≤ 4 := by decide +kernel
  have hheader : Table.headerKeys turnedSheet[0] = permuted σ "" (Table.headerKeys riggingSheet[0]) := by
    decide +kernel
  have hbody : turnedSheet.tail.filter (¬Row.IsBlank ·) =
      (riggingSheet.tail.map (permuted σ .empty)).filter (¬Row.IsBlank ·) := by decide +kernel
  exact ⟨hdistinct, hwidth, hheader, hbody, readCatalog_permuted "catalog" σ hdistinct hwidth hheader hbody⟩

end Kitting
