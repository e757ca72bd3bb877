import Kitting.Proofs.Catalog
import Kitting.Proofs.Sheet.Rows
import Kitting.Sheet.Catalog

namespace Kitting

open Text

variable {cols : CatalogColumns} {i n : Nat} {row : Row} {rows : List Row} {p : Part} {parts : List Part}
  {r : Rule} {rules : List Rule} {entries : List (Part × String)}

structure Part.OfRow (cols : CatalogColumns) (row : Row) (p : Part) : Prop where
  number : p.number = Table.text row cols.number
  name : p.name = if Table.text row cols.name = "" then unnamed else Table.text row cols.name
  remarks : p.remarks = Table.text row cols.remarks
  standardRemarks : p.standardRemarks = Table.text row cols.standardRemarks
  designator : p.designator = Table.text row cols.designator
  functionCode : (Table.cell row cols.functionCode).toInt 0 = .ok p.functionCode
  preference : (Table.cell row cols.preference).toInt Part.lastPreference = .ok p.preference
  quantity : p.quantity = some ((Table.cell row cols.quantity).toDouble (.ofFraction false 1 1))

theorem Part.OfRow.name_ne_empty (h : p.OfRow cols row) : p.name ≠ "" := by
  rw [h.name]
  split
  case isTrue => decide
  case isFalse hne => exact hne

theorem Part.OfRow.trimmed (h : p.OfRow cols row) : p.Trimmed where
  number := h.number ▸ Table.trim_text row _
  name := by
    rw [h.name]
    split
    · decide +kernel
    · exact Table.trim_text row _
  designator := h.designator ▸ Table.trim_text row _

theorem partOfRow_eq_ok_iff : partOfRow cols i row = .ok p ↔ p.OfRow cols row ∧ p.id = "part-" ++ toString i := by
  simp only [partOfRow, bind, Except.bind, String.isEmpty_iff]
  constructor
  · intro h
    split at h
    · cases h
    rename_i code hcode
    split at h
    · cases h
    rename_i preference hpreference
    cases h
    exact ⟨⟨rfl, rfl, rfl, rfl, rfl, hcode, hpreference, rfl⟩, rfl⟩
  · rintro ⟨h, hid⟩
    rw [h.functionCode, h.preference]
    simp only [← h.name, ← h.number, ← h.remarks, ← h.standardRemarks, ← h.designator, ← h.quantity, ← hid]
    rfl

theorem partsOfRows_cons : partsOfRows cols i (row :: rows) = .ok entries ↔
    ∃ p rest, partOfRow cols i row = .ok p ∧ partsOfRows cols (i + 1) rows = .ok rest ∧
      (p, Table.text row cols.formula) :: rest = entries := by
  simp only [partsOfRows, bind, Except.bind]
  cases partOfRow cols i row with
  | error e => simp
  | ok p =>
    cases partsOfRows cols (i + 1) rows with
    | error e => simp
    | ok rest => simp [pure, Except.pure]

def formulated (cols : CatalogColumns) (pairs : List (Row × Part)) : List (Part × String) :=
  pairs.map fun e => (e.2, Table.text e.1 cols.formula)

theorem partsOfRows_eq_ok_iff : partsOfRows cols i rows = .ok entries ↔
    ∃ parts, formulated cols (rows.zip parts) = entries ∧ List.Forall₂ (Part.OfRow cols) rows parts ∧
      parts.map Part.id = (List.range' i parts.length).map fun n => "part-" ++ toString n := by
  induction rows generalizing i entries with
  | nil =>
    constructor
    · rintro ⟨⟩
      exact ⟨[], rfl, .nil, rfl⟩
    · rintro ⟨_, rfl, ⟨⟩, -⟩
      rfl
  | cons row rows ih =>
    rw [partsOfRows_cons]
    constructor
    · rintro ⟨p, rest, hp, hrest, rfl⟩
      obtain ⟨hof, hid⟩ := partOfRow_eq_ok_iff.1 hp
      obtain ⟨parts, rfl, hparts, hids⟩ := ih.1 hrest
      refine ⟨p :: parts, rfl, .cons hof hparts, ?_⟩
      rw [List.map_cons, List.length_cons, List.range'_succ, List.map_cons, hid, hids]
    · rintro ⟨_, rfl, _ | ⟨hof, hparts⟩, hids⟩
      rw [List.map_cons, List.length_cons, List.range'_succ, List.map_cons, List.cons.injEq] at hids
      exact ⟨_, _, partOfRow_eq_ok_iff.2 ⟨hof, hids.1⟩, ih.2 ⟨_, rfl, hparts, hids.2⟩, rfl⟩

def IsRuled (cols : CatalogColumns) (e : Row × Part) : Prop :=
  (e.2.functionCode = 1 ∨ e.2.functionCode = 2 ∨ e.2.functionCode = 9) ∧ ¬(Table.cell e.1 cols.formula).IsBlank

instance (cols : CatalogColumns) : DecidablePred (IsRuled cols) := fun _ => inferInstanceAs (Decidable (_ ∧ _))

theorem isRuled_iff {e : Row × Part} :
    IsRuled cols e ↔ (e.2.isConfigurable && !(Table.text e.1 cols.formula).isEmpty) = true := by
  simp only [IsRuled, ← Cell.value_eq_empty_iff, Part.isConfigurable, Table.text, Bool.and_eq_true, Bool.or_eq_true,
    beq_iff_eq, Bool.not_eq_true', String.isEmpty_eq_false_iff, or_assoc]

structure Rule.OfRow (cols : CatalogColumns) (e : Row × Part) (r : Rule) : Prop where
  target : r.target = e.2.id
  condition : r.condition = Formula.parse .catalog (Table.text e.1 cols.formula)
  active : r.active

theorem rulesOfParts_eq_iff {pairs : List (Row × Part)} : rulesOfParts n (formulated cols pairs) = rules ↔
    List.Forall₂ (Rule.OfRow cols) (pairs.filter (IsRuled cols ·)) rules ∧
      rules.map Rule.id = (List.range' n rules.length).map fun n => "rule-" ++ toString n := by
  induction pairs generalizing n rules with
  | nil =>
    constructor
    · rintro rfl
      exact ⟨.nil, rfl⟩
    · rintro ⟨⟨⟩, -⟩
      rfl
  | cons e pairs ih =>
    rw [formulated, List.map_cons, ← formulated, rulesOfParts]
    by_cases he : IsRuled cols e
    · rw [if_pos (isRuled_iff.1 he), List.filter_cons_of_pos (by simpa using he)]
      constructor
      · rintro rfl
        obtain ⟨hrules, hids⟩ := ih.1 (rfl : rulesOfParts (n + 1) (formulated cols pairs) = _)
        refine ⟨.cons ⟨rfl, rfl, rfl⟩ hrules, ?_⟩
        rw [List.map_cons, List.length_cons, List.range'_succ, List.map_cons, hids]
      · rintro ⟨_ | ⟨hof, hrules⟩, hids⟩
        rw [List.map_cons, List.length_cons, List.range'_succ, List.map_cons, List.cons.injEq] at hids
        rw [ih.2 ⟨hrules, hids.2⟩, ← hids.1, ← hof.target, ← hof.condition]
        congr
        exact hof.active.symm
    · rw [if_neg (mt isRuled_iff.2 he), List.filter_cons_of_neg (by simpa using he)]
      exact ih

/-- What a sheet with these columns gives: parts for its rows and rules for some of the parts. -/
structure Catalogued (cols : CatalogColumns) (rows : List Row) (parts : List Part) (rules : List Rule) : Prop where
  ofRows : List.Forall₂ (Part.OfRow cols) rows parts
  partIds : parts.map Part.id = (List.range parts.length).map fun n => "part-" ++ toString n
  ruled : List.Forall₂ (Rule.OfRow cols) ((rows.zip parts).filter (IsRuled cols ·)) rules
  ruleIds : rules.map Rule.id = (List.range rules.length).map fun n => "rule-" ++ toString n

theorem catalogued_iff : Catalogued cols rows parts rules ↔ ∃ entries, partsOfRows cols 0 rows = .ok entries ∧
    entries.map (·.1) = parts ∧ rulesOfParts 0 entries = rules := by
  have hfst {parts : List Part} (h : List.Forall₂ (Part.OfRow cols) rows parts) :
      (formulated cols (rows.zip parts)).map (·.1) = parts := by
    rw [formulated, List.map_map]
    exact List.map_snd_zip h.length_eq.ge
  constructor
  · intro h
    refine ⟨formulated cols (rows.zip parts), ?_, hfst h.ofRows, ?_⟩
    · exact partsOfRows_eq_ok_iff.2 ⟨parts, rfl, h.ofRows, List.range_eq_range' ▸ h.partIds⟩
    · exact rulesOfParts_eq_iff.2 ⟨h.ruled, List.range_eq_range' ▸ h.ruleIds⟩
  · rintro ⟨entries, hentries, rfl, hrules⟩
    obtain ⟨parts, rfl, hparts, hids⟩ := partsOfRows_eq_ok_iff.1 hentries
    obtain ⟨hrules, hruleIds⟩ := rulesOfParts_eq_iff.1 hrules
    rw [hfst hparts]
    exact ⟨hparts, List.range_eq_range' ▸ hids, hrules, List.range_eq_range' ▸ hruleIds⟩

namespace Catalogued

theorem distinctIds (h : Catalogued cols rows parts rules) : DistinctIds parts := by
  have hinjective : Function.Injective fun n : Nat => "part-" ++ toString n := by
    intro m n heq
    have hread (n : Nat) : Json.readScalar? (toString n).toList = some (.int n, []) := Json.readScalar?_int n
    have hsame := hread m
    rw [(String.append_right_inj _).1 heq, hread] at hsame
    simp only [Option.some.injEq, Prod.mk.injEq, Json.int.injEq, and_true] at hsame
    omega
  rw [DistinctIds, h.partIds]
  exact List.nodup_range.map hinjective

theorem map_target (h : Catalogued cols rows parts rules) :
    rules.map Rule.target = ((rows.zip parts).filter (IsRuled cols ·)).map (·.2.id) := by
  rw [eq_comm, ← List.forall₂_eq_eq_eq, List.forall₂_map_left_iff, List.forall₂_map_right_iff]
  exact h.ruled.imp fun _ _ hr => hr.target.symm

theorem nodup_targets (h : Catalogued cols rows parts rules) : (rules.map Rule.target).Nodup := by
  have hids : ((rows.zip parts).map (·.2)).map Part.id = parts.map Part.id :=
    congrArg _ (List.map_snd_zip h.ofRows.length_eq.ge)
  have hnodup := h.distinctIds
  rw [DistinctIds, ← hids, List.map_map] at hnodup
  rw [h.map_target]
  exact hnodup.sublist (List.filter_sublist.map _)

theorem exists_target (h : Catalogued cols rows parts rules) (hr : r ∈ rules) :
    ∃ p ∈ parts, p.id = r.target ∧ p.isConfigurable := by
  have htarget := List.mem_map_of_mem (f := Rule.target) hr
  rw [h.map_target] at htarget
  obtain ⟨⟨row, p⟩, he, hid⟩ := List.mem_map.1 htarget
  obtain ⟨hmem, hruled⟩ := List.mem_filter.1 he
  rw [decide_eq_true_eq, isRuled_iff, Bool.and_eq_true] at hruled
  exact ⟨p, (List.of_mem_zip hmem).2, hid, hruled.1⟩

theorem exists_row (h : Catalogued cols rows parts rules) (hp : p ∈ parts) : ∃ row ∈ rows, p.OfRow cols row := by
  have hmem : p ∈ (rows.zip parts).map (·.2) := by rwa [List.map_snd_zip h.ofRows.length_eq.ge]
  obtain ⟨⟨row, p⟩, he, rfl⟩ := List.mem_map.1 hmem
  exact ⟨row, (List.of_mem_zip he).1, List.forall₂_zip h.ofRows he⟩

end Catalogued

section Workbooks

variable {path : String} {source : SheetSource} {sheet : List Row}

theorem readCatalog_sheet (path : String) (sheet : List Row) :
    let table := Table.ofRows sheet
    let cols := CatalogColumns.find table.header
    readCatalog path (.workbook (some sheet)) =
      if table.rows = [] then .error (.sheet .noRows path)
      else if cols.number = none ∧ cols.name = none then .error (.sheet .noCatalogColumns path)
      else (partsOfRows cols 0 table.rows).map fun entries => (entries.map (·.1), rulesOfParts 0 entries) := by
  intro table cols
  simp only [readCatalog, Table.read, bind, Except.bind, List.isEmpty_iff, Bool.and_eq_true, Option.isNone_iff_eq_none]
  by_cases hrows : table.rows = []
  · rw [if_pos hrows, if_pos hrows]
    rfl
  rw [if_neg hrows, if_neg hrows]
  by_cases hcolumn : cols.number = none ∧ cols.name = none
  · rw [if_pos hcolumn, if_pos hcolumn]
    rfl
  rw [if_neg hcolumn, if_neg hcolumn]
  cases partsOfRows cols 0 table.rows <;> rfl

theorem readCatalog_eq (path : String) (hrows : (Table.ofRows sheet).rows ≠ [])
    (hcolumn : (CatalogColumns.find (Table.ofRows sheet).header).number.isSome ∨
      (CatalogColumns.find (Table.ofRows sheet).header).name.isSome) :
    readCatalog path (.workbook (some sheet)) =
      (partsOfRows (.find (Table.ofRows sheet).header) 0 (Table.ofRows sheet).rows).map
        fun entries => (entries.map (·.1), rulesOfParts 0 entries) := by
  rw [Option.isSome_iff_ne_none, Option.isSome_iff_ne_none, ← not_and_or] at hcolumn
  rw [readCatalog_sheet, if_neg hrows, if_neg hcolumn]

theorem readCatalog_eq_ok_iff : readCatalog path source = .ok (parts, rules) ↔
    ∃ sheet, source = .workbook (some sheet) ∧ (Table.ofRows sheet).rows ≠ [] ∧
      ((CatalogColumns.find (Table.ofRows sheet).header).number.isSome ∨
        (CatalogColumns.find (Table.ofRows sheet).header).name.isSome) ∧
      Catalogued (.find (Table.ofRows sheet).header) (Table.ofRows sheet).rows parts rules := by
  constructor
  · intro h
    match source, h with
    | .workbook (some sheet), h =>
      rw [readCatalog_sheet] at h
      split at h
      case isTrue => cases h
      case isFalse hrows =>
        split at h
        case isTrue => cases h
        case isFalse hcolumn =>
          rw [not_and_or, ← ne_eq, ← ne_eq, ← Option.isSome_iff_ne_none, ← Option.isSome_iff_ne_none] at hcolumn
          refine ⟨sheet, rfl, hrows, hcolumn, catalogued_iff.2 ?_⟩
          cases hentries : partsOfRows (.find (Table.ofRows sheet).header) 0 (Table.ofRows sheet).rows with
          | error e =>
            rw [hentries] at h
            cases h
          | ok entries =>
            rw [hentries] at h
            cases h
            exact ⟨entries, rfl, rfl, rfl⟩
  · rintro ⟨sheet, rfl, hrows, hcolumn, h⟩
    obtain ⟨entries, hentries, rfl, rfl⟩ := catalogued_iff.1 h
    rw [readCatalog_eq path hrows hcolumn, hentries]
    rfl

theorem trimmed_of_readCatalog (h : readCatalog path source = .ok (parts, rules)) : ∀ p ∈ parts, p.Trimmed := by
  obtain ⟨sheet, -, -, -, hcatalogued⟩ := readCatalog_eq_ok_iff.1 h
  intro p hp
  obtain ⟨row, -, hrow⟩ := hcatalogued.exists_row hp
  exact hrow.trimmed

/-- Every row that is not blank is a part, and every configurable one of them that states a formula gives its part a
rule. No part has two rules, and no rule misses its part. -/
theorem readCatalog_rows (h : readCatalog path source = .ok (parts, rules)) :
    ∃ header body, source = .workbook (some (header :: body)) ∧
      Catalogued (.find (header.map Cell.value)) (body.filter (¬Row.IsBlank ·)) parts rules ∧
      DistinctIds parts ∧ (rules.map Rule.target).Nodup ∧
      (∀ r ∈ rules, ∃ p ∈ parts, p.id = r.target ∧ p.isConfigurable) ∧ ∀ p ∈ parts, p.name ≠ "" := by
  obtain ⟨sheet, rfl, hrows, -, hcatalogued⟩ := readCatalog_eq_ok_iff.1 h
  cases sheet with
  | nil => exact absurd rfl hrows
  | cons header body =>
    rw [Table.ofRows_cons] at hcatalogued
    refine ⟨header, body, rfl, hcatalogued, hcatalogued.distinctIds, hcatalogued.nodup_targets,
      fun _ => hcatalogued.exists_target, ?_⟩
    intro p hp
    obtain ⟨row, -, hrow⟩ := hcatalogued.exists_row hp
    exact hrow.name_ne_empty

def riggingSheet : List Row :=
  [[.text "Part_Number", .text "Name", .text "F_Code", .text "Logic"],
    [.text "L5", .text "Winch", .int 1, .text " [L-5] "],
    [.empty, .text " ", .empty, .text "\n"],
    [.text "L6", .text "Rope", .int 0, .text "[L-6]"],
    [.text "L7"],
    [.text "L8", .empty, .float (.ofFraction false 9 1), .text "[L-8]"]]

theorem readCatalog_rows_riggingSheet : ∃ parts rules,
    readCatalog "catalog" (.workbook (some riggingSheet)) = .ok (parts, rules) ∧
      parts.map (fun p => (p.id, p.name)) =
        [("part-0", "Winch"), ("part-1", "Rope"), ("part-2", unnamed), ("part-3", unnamed)] ∧
      rules.map (fun r => (r.id, r.target)) = [("rule-0", "part-0"), ("rule-1", "part-3")] ∧
      Catalogued ⟨some 0, some 1, some 2, none, none, none, none, none, some 3⟩
        [riggingSheet[1], riggingSheet[3], riggingSheet[4], riggingSheet[5]] parts rules := by
  have hread : (readCatalog "catalog" (.workbook (some riggingSheet))).toOption.map (fun catalog =>
      (catalog.1.map fun p => (p.id, p.name), catalog.2.map fun r => (r.id, r.target))) =
        some ([("part-0", "Winch"), ("part-1", "Rope"), ("part-2", unnamed), ("part-3", unnamed)],
          [("rule-0", "part-0"), ("rule-1", "part-3")]) := by decide +kernel
  match hcatalog : readCatalog "catalog" (.workbook (some riggingSheet)) with
  | .error e =>
    rw [hcatalog] at hread
    cases hread
  | .ok (parts, rules) =>
    rw [hcatalog] at hread
    obtain ⟨hparts, hrules⟩ := Prod.mk.inj (Option.some.inj hread)
    obtain ⟨header, body, hsheet, hcatalogued, -⟩ := readCatalog_rows hcatalog
    cases hsheet
    refine ⟨parts, rules, rfl, hparts, hrules, ?_⟩
    exact hcatalogued

end Workbooks

end Kitting
