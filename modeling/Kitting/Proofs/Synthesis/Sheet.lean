import Kitting.FileTree
import Kitting.Proofs.Formula.Margins
import Kitting.Proofs.Knowledge.Recognition
import Kitting.Proofs.Matching.Order
import Kitting.Proofs.Sheet.Catalog
import Kitting.Proofs.Synthesis.Deployment

namespace Kitting

open Text

variable {parts : List Part} {p p' : Proposal} {ps : List Proposal} {r : Rule} {target : String} {c d : Condition}
  {i : Nat}

def InForce (rules : List Rule) (target : String) (c : Condition) : Prop :=
  (∃ r, ruleFor? rules target = some r ∧ r.condition = c) ∧ c.isEmpty = false

def DistinctNumbers (ps : List Proposal) : Prop := (ps.map fun p => Token.canonical p.partNumber).Nodup

instance : Decidable (DistinctNumbers ps) := inferInstanceAs (Decidable (List.Nodup _))

namespace Proposal

theorem Proposes.partNumbered? (h : p.Proposes parts target c) :
    ∃ q, Kitting.partNumbered? parts p.partNumber = some q ∧ q.id = target := by
  obtain ⟨q, hq, hid⟩ := h.part
  exact ⟨q, partNumbered?_eq_some_iff.2 ⟨h.numbered, hq⟩, hid⟩

theorem Proposes.isEmpty (h : p.Proposes parts target c) : c.isEmpty = false := by
  simpa [Condition.isEmpty, imp_iff_not_or] using h.asks

theorem proposes_of_partNumbered? {q : Part} (h : Kitting.partNumbered? parts p.partNumber = some q)
    (hasks : (Formula.parse .laboratory p.expression).isEmpty = false) :
    p.Proposes parts q.id (Formula.parse .laboratory p.expression) := by
  obtain ⟨hnumber, hfirst⟩ := partNumbered?_eq_some_iff.1 h
  exact ⟨hnumber, ⟨q, hfirst, rfl⟩, rfl, by simpa [Condition.isEmpty, imp_iff_not_or] using hasks⟩

end Proposal

theorem DistinctNumbers.eq_of_partNumbered? (h : DistinctNumbers ps) (hids : DistinctIds parts) (hp : p ∈ ps)
    (hp' : p' ∈ ps) {q q' : Part} (hq : partNumbered? parts p.partNumber = some q)
    (hq' : partNumbered? parts p'.partNumber = some q') (hid : q.id = q'.id) : p = p' := by
  -- Two proposals for one target are for the same number, hence the same.
  obtain ⟨-, hfirst⟩ := partNumbered?_eq_some_iff.1 hq
  obtain ⟨-, hfirst'⟩ := partNumbered?_eq_some_iff.1 hq'
  have hpart : q = q' := hids.eq_of_id hfirst.mem hfirst'.mem hid
  refine List.inj_on_of_nodup_map h hp hp' ?_
  rw [← hfirst.1, hpart, hfirst'.1]

section Reading

def sheetRules (parts : List Part) (ps : List Proposal) : List Rule :=
  ps.zipIdx.filterMap fun e => laboratoryRule? parts (trim e.1.partNumber) (trim e.1.expression) e.2

def Proposal.sheetRow (p : Proposal) : Row :=
  [.text p.partNumber, .text p.expression, .text p.partName, .int p.evidenceCount,
    .float (p.confidence.roundTo 2), .text p.reasoning,
    .text (Json.render .line (.arr (p.indicators.map .str)))]

theorem Cell.value_text (s : String) : (Cell.text s).value = trim s := rfl

theorem Proposal.text_sheetRow_number (p : Proposal) : Table.text p.sheetRow (some 0) = trim p.partNumber :=
  Cell.value_text p.partNumber

theorem Proposal.text_sheetRow_formula (p : Proposal) : Table.text p.sheetRow (some 1) = trim p.expression :=
  Cell.value_text p.expression

theorem Proposal.not_vacant_sheetRow (p : Proposal) : p.sheetRow.all Cell.isVacant = false := by
  -- A row states how much evidence there is, so none is passed over.
  have hvisible : (Cell.int p.evidenceCount).value = toString p.evidenceCount :=
    trim_of_visible (Json.visible_int _)
  have hcount : (Cell.int p.evidenceCount).isVacant = false := by
    rw [Cell.isVacant, hvisible, Bool.eq_false_iff]
    intro hempty
    have hread := Json.readScalar?_int p.evidenceCount
    rw [String.isEmpty_iff.1 hempty] at hread
    cases hread
  rw [List.all_eq_false]
  exact ⟨.int p.evidenceCount, by simp [sheetRow], by simp [hcount]⟩

theorem ofRows_sheet : Table.ofRows (Proposal.sheet ps).write.rows =
    ⟨(Proposal.sheet []).header.map fun h => (Cell.text h).value, ps.map Proposal.sheetRow⟩ := by
  have hrows : (ps.map Proposal.sheetRow).filter (!·.all Cell.isVacant) = ps.map Proposal.sheetRow := by
    refine List.filter_eq_self.2 (List.forall_mem_map.2 fun p _ => ?_)
    rw [p.not_vacant_sheetRow, Bool.not_false]
  change Table.ofRows ((Proposal.sheet []).header.map Cell.text :: ps.map Proposal.sheetRow) = _
  rw [Table.ofRows, hrows, List.map_map]
  rfl

theorem column?_number_sheet : Table.column? ((Proposal.sheet []).header.map fun h => (Cell.text h).value)
    ["SKU", "Part_Number", "PartNumber", "PN"] = some 0 := by decide +kernel

theorem column?_formula_sheet : Table.column? ((Proposal.sheet []).header.map fun h => (Cell.text h).value)
    ["Logic Formula", "Logic", "Formula", "Expression"] = some 1 := by decide +kernel

theorem readLaboratory_sheet (path : String) (ps : List Proposal) :
    readLaboratory path (.workbook (some (Proposal.sheet ps).write.rows)) parts = .ok (sheetRules parts ps) := by
  simp only [readLaboratory, Table.read, bind, Except.bind, ofRows_sheet, column?_number_sheet,
    column?_formula_sheet, List.zipIdx_map, List.filterMap_map, Option.isNone_some, Bool.or_self,
    Bool.false_eq_true, if_false]
  refine congrArg Except.ok (List.filterMap_congr fun e _ => ?_)
  simp only [Function.comp, Prod.map, id, Proposal.text_sheetRow_number, Proposal.text_sheetRow_formula]

end Reading

section Rules

theorem laboratoryRule?_eq_some (h : laboratoryRule? parts (trim p.partNumber) (trim p.expression) i = some r) :
    r.active ∧ r.condition = Formula.parse .laboratory (trim p.expression) ∧
      ∃ q, partNumbered? parts p.partNumber = some q ∧ q.id = r.target := by
  rw [laboratoryRule?] at h
  split at h
  · cases h
  · rw [partNumbered?, Token.canonical_trim, ← partNumbered?, Option.map_eq_some_iff] at h
    obtain ⟨q, hq, rfl⟩ := h
    exact ⟨rfl, rfl, q, hq, rfl⟩

theorem exists_laboratoryRule? (h : p.Proposes parts target c) (i : Nat) :
    ∃ r, laboratoryRule? parts (trim p.partNumber) (trim p.expression) i = some r ∧ r.target = target := by
  obtain ⟨q, hq, hid⟩ := h.partNumbered?
  have hnumber : trim p.partNumber ≠ "" := by
    intro hempty
    have hcanonical := Token.canonical_trim p.partNumber
    rw [hempty] at hcanonical
    exact h.numbered hcanonical.symm
  have hexpression : trim p.expression ≠ "" := by
    intro hempty
    have hnothing := Formula.isEmpty_parse_of_trim_eq_empty .laboratory hempty
    rw [h.condition, h.isEmpty] at hnothing
    cases hnothing
  have hpart : partNumbered? parts (trim p.partNumber) = some q := by
    rw [partNumbered?, Token.canonical_trim, ← partNumbered?, hq]
  refine ⟨⟨"lab-rule-" ++ toString i, q.id, Formula.parse .laboratory (trim p.expression), true⟩, ?_, hid⟩
  simp [laboratoryRule?, hnumber, hexpression, hpart]

theorem mem_sheetRules : r ∈ sheetRules parts ps ↔
    ∃ (p : Proposal) (i : Nat), ps[i]? = some p ∧
      laboratoryRule? parts (trim p.partNumber) (trim p.expression) i = some r := by
  simp [sheetRules, List.mem_filterMap, List.mem_zipIdx_iff_getElem?]

theorem exists_of_mem_sheetRules (h : r ∈ sheetRules parts ps) :
    r.active ∧ ∃ p ∈ ps, r.condition = Formula.parse .laboratory (trim p.expression) ∧
      ∃ q, partNumbered? parts p.partNumber = some q ∧ q.id = r.target := by
  obtain ⟨p, i, hp, hr⟩ := mem_sheetRules.1 h
  obtain ⟨hactive, hcondition, hpart⟩ := laboratoryRule?_eq_some hr
  exact ⟨hactive, p, List.mem_of_getElem? hp, hcondition, hpart⟩

theorem exists_mem_sheetRules (hp : p ∈ ps) (h : p.Proposes parts target c) :
    ∃ r ∈ sheetRules parts ps, r.active ∧ r.target = target := by
  obtain ⟨i, hi⟩ := List.getElem?_of_mem hp
  obtain ⟨r, hr, htarget⟩ := exists_laboratoryRule? h i
  exact ⟨r, mem_sheetRules.2 ⟨p, i, hi, hr⟩, (laboratoryRule?_eq_some hr).1, htarget⟩

theorem inForce_sheetRules (hids : DistinctIds parts) (hnumbers : DistinctNumbers ps) :
    InForce (sheetRules parts ps) target c ↔ ∃ p ∈ ps, ∃ d, p.Proposes parts target d ∧
      c = Formula.parse .laboratory (trim p.expression) := by
  constructor
  · rintro ⟨⟨r, hr, rfl⟩, hasks⟩
    have hfirst := Matching.ruleFor?_eq_some_iff.1 hr
    obtain ⟨-, p, hp, hcondition, q, hq, hid⟩ := exists_of_mem_sheetRules hfirst.mem
    rw [hcondition, (Formula.alike_parse_trim .laboratory p.expression).isEmpty] at hasks
    have hproposes := Proposal.proposes_of_partNumbered? hq hasks
    rw [hid, hfirst.1.2] at hproposes
    exact ⟨p, hp, _, hproposes, hcondition⟩
  · rintro ⟨p, hp, d, hd, rfl⟩
    obtain ⟨r, hfirst⟩ := exists_first (exists_mem_sheetRules hp hd)
    obtain ⟨-, p', hp', hcondition, q', hq', hid'⟩ := exists_of_mem_sheetRules hfirst.mem
    obtain ⟨q, hq, hid⟩ := hd.partNumbered?
    have hsame : p = p' := hnumbers.eq_of_partNumbered? hids hp hp' hq hq' (by rw [hid, hid', hfirst.1.2])
    refine ⟨⟨r, Matching.ruleFor?_eq_some_iff.2 hfirst, by rw [hcondition, hsame]⟩, ?_⟩
    rw [(Formula.alike_parse_trim .laboratory p.expression).isEmpty, hd.condition, hd.isEmpty]

theorem deploy_nil (ps : List Proposal) (parts : List Part) :
    deploy ps parts [] = (newTargets parts ps []).map (openedRule parts ps 0) := by
  have hnodup : (([] : List Rule).map Rule.target).Nodup := List.nodup_nil
  exact deploy_eq hnodup

theorem exists_of_mem_deploy (h : r ∈ deploy ps parts []) : ∃ p ∈ ps, p.Proposes parts r.target r.condition := by
  rw [deploy_nil, List.mem_map] at h
  obtain ⟨target, htarget, rfl⟩ := h
  obtain ⟨n, ⟨p, hp, hproposes⟩, -⟩ := (opened_openedRule (mem_newTargets.1 htarget).2).last
  exact ⟨p, List.mem_of_getElem? hp, hproposes⟩

theorem exists_mem_deploy (hp : p ∈ ps) (h : p.Proposes parts target c) :
    ∃ r ∈ deploy ps parts [], r.target = target := by
  have hnew : target ∈ newTargets parts ps [] :=
    mem_newTargets.2 ⟨List.not_mem_nil, p, hp, Proposal.target?_eq_some_iff.2 ⟨c, h⟩⟩
  rw [deploy_nil]
  exact ⟨_, List.mem_map_of_mem hnew, rfl⟩

end Rules

/-- A sheet of proposals for different numbers is written and read back without an error, and whichever part one
asks for, a rule that asks for something is in force exactly if deploying makes one, and asks for the same. -/
theorem readLaboratory_sheet_agrees (hids : DistinctIds parts) (hnumbers : DistinctNumbers ps) :
    ∃ book rules, Workbook.write [Proposal.sheet ps] = .ok book ∧
      (∀ path (t : FileTree) place, t.node? place = some (.written book) →
        readLaboratory path (t.sheetSource place) parts = .ok rules) ∧
      ∀ target, ((∃ c, InForce rules target c) ↔ ∃ r ∈ deploy ps parts [], r.target = target) ∧
        ∀ c, InForce rules target c → ∀ r ∈ deploy ps parts [], r.target = target → c.Alike r.condition := by
  refine ⟨_, sheetRules parts ps, rfl, ?_, fun target => ⟨⟨?_, ?_⟩, ?_⟩⟩
  · intro path t place hplace
    rw [FileTree.sheetSource, hplace]
    exact readLaboratory_sheet path ps
  · rintro ⟨c, hc⟩
    obtain ⟨p, hp, d, hd, -⟩ := (inForce_sheetRules hids hnumbers).1 hc
    exact exists_mem_deploy hp hd
  · rintro ⟨r, hr, rfl⟩
    obtain ⟨p, hp, hd⟩ := exists_of_mem_deploy hr
    exact ⟨_, (inForce_sheetRules hids hnumbers).2 ⟨p, hp, _, hd, rfl⟩⟩
  · rintro c hc r hr rfl
    obtain ⟨p, hp, d, hd, rfl⟩ := (inForce_sheetRules hids hnumbers).1 hc
    obtain ⟨p', hp', hd'⟩ := exists_of_mem_deploy hr
    obtain ⟨q, hq, hid⟩ := hd.partNumbered?
    obtain ⟨q', hq', hid'⟩ := hd'.partNumbered?
    have hsame : p = p' := hnumbers.eq_of_partNumbered? hids hp hp' hq hq' (by rw [hid, hid'])
    rw [← hd'.condition, ← hsame]
    exact Formula.alike_parse_trim .laboratory p.expression

def winchSheet : List Proposal :=
  [proposal " W-100" "\t[TT] (WINCH) ", proposal "H 7" " ", proposal "K 9" "(CAB)"]

theorem readLaboratory_sheet_agrees_winchSheet :
    DistinctIds winchParts ∧ DistinctNumbers winchSheet ∧ ∃ book rules,
      Workbook.write [Proposal.sheet winchSheet] = .ok book ∧
        (∀ path (t : FileTree) place, t.node? place = some (.written book) →
          readLaboratory path (t.sheetSource place) winchParts = .ok rules) ∧
        (∃ c, InForce rules "winch" c ∧ c.includes = ["WINCH"] ∧ c.excludes = ["TT"]) ∧
        (¬∃ c, InForce rules "spare" c) ∧ ¬∃ c, InForce rules "hook" c := by
  have hids : DistinctIds winchParts := by decide
  have hnumbers : DistinctNumbers winchSheet := by decide +kernel
  have hdeploy : deploy winchSheet winchParts [] =
      [{ id := "rule-synth-0", target := "winch", condition :=
        { includes := ["WINCH"], excludes := ["TT"], raw := "\t[TT] (WINCH) " } }] := by decide +kernel
  obtain ⟨book, rules, hwrite, hread, hagree⟩ := readLaboratory_sheet_agrees hids hnumbers
  have hnone {target : String} (hne : "winch" ≠ target) : ¬∃ c, InForce rules target c := by
    rw [(hagree target).1, hdeploy]
    simpa using hne
  have hwinch := hagree "winch"
  rw [hdeploy] at hwinch
  obtain ⟨c, hc⟩ := hwinch.1.2 ⟨_, List.mem_singleton_self _, rfl⟩
  have halike := hwinch.2 c hc _ (List.mem_singleton_self _) rfl
  exact ⟨hids, hnumbers, book, rules, hwrite, hread, ⟨c, hc, halike.includes, halike.excludes⟩,
    hnone (by decide), hnone (by decide)⟩

end Kitting
