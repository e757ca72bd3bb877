import Kitting.Proofs.Command.Results
import Kitting.Proofs.Matching.Coherence

namespace Kitting

open Matching

theorem SheetPlan.length_red (s : SheetPlan) : s.write.red.length = s.rows.countP s.highlight := by
  have hrow : s.rows.countP s.highlight = (s.rows.zipIdx.map Prod.fst).countP s.highlight := by
    rw [List.zipIdx_map_fst]
  rw [hrow, write, List.length_filterMap_eq_countP, List.countP_map]
  refine List.countP_congr fun e _ => ?_
  simp only [Function.comp_apply]
  cases s.highlight e.1 <;> simp

namespace Fulfilment

variable {outcomes : List Outcome} {f : Fulfilment} {inventory : Inventory}

theorem isUnresolved_row (o : Outcome) : isUnresolved (o.record.row.map .text) ↔ o.level = .uncertain := by
  cases h : o.level <;> simp [isUnresolved, levelColumn, Outcome.record, Outcome.Record.row, Level.name, h]

theorem length_red_outcomeSheet {conditionOf : String → Option Condition}
    (h : ∀ o ∈ outcomes, o.Coherent conditionOf) :
    (outcomeSheet outcomes).write.red.length = outcomes.countP (·.partId.isNone) := by
  rw [SheetPlan.length_red, outcomeSheet, List.countP_map]
  refine List.countP_congr fun o ho => ?_
  rw [Function.comp_apply, isUnresolved_row, (h o ho).uncertain, Option.isNone_iff_eq_none]

def Matched (inventory : Inventory) (f : Fulfilment) : Prop := f.outcomes = outcomesOf inventory f.order

theorem Matched.coherent (h : f.Matched inventory) :
    ∀ o ∈ f.outcomes, o.Coherent (conditionFor? inventory.laboratoryRules) := by
  intro o ho
  rw [h, outcomesOf] at ho
  exact coherent_of_mem_ofOrder ho

end Fulfilment

namespace Command

open Session

variable {places : Places} {f : Fulfilment} {o : Option Path} {w w' : World}

theorem matched_of_fulfil {inventory : Inventory} {paths : List Path} {merge : Bool} {fs : List Fulfilment}
    (h : fulfil inventory paths merge w = .ok fs w') : ∀ f ∈ fs, f.Matched inventory := by
  cases merge with
  | false =>
    have hall : List.Forall₂ (fun f p => f.Matched inventory ∧ f.source = p.stem) fs paths := by
      refine (forall₂_of_fulfil h).flip.imp ?_
      rintro _ p ⟨cap, order, rfl⟩
      exact ⟨rfl, rfl⟩
    exact ((List.forall₂_and_left _ _).1 hall).1
  | true =>
    cases paths with
    | nil =>
      obtain ⟨rfl, -⟩ := pure_eq_ok_iff.1 h
      exact fun f hf => absurd hf List.not_mem_nil
    | cons first rest =>
      obtain ⟨orders, v, -, h⟩ := bind_eq_ok_iff.1 h
      obtain ⟨cap, u, -, h⟩ := bind_eq_ok_iff.1 h
      obtain ⟨rfl, -⟩ := pure_eq_ok_iff.1 h
      exact fun f hf => List.mem_singleton.1 hf ▸ rfl

/-- The number of unresolved lines that is printed is that of the red rows in the result, if that is saved. -/
structure Tallied (f : Fulfilment) (o : Option Path) (n : Nat) (w w' : World) : Prop where
  said : ∃ more, w'.output = w.output ++ headline f n ++ more
  marked : ∀ q, o = some q → ∃ result others, w'.files.node? (w.place q) = some (.written (result :: others)) ∧
    result.title = "匹配结果" ∧ result.red.length = n

theorem tallied_of_report {conditionOf : String → Option Condition} (hf : ∀ o ∈ f.outcomes, o.Coherent conditionOf)
    (h : report places f w = .ok o w') : Tallied f o f.unresolved w w' where
  said := by
    obtain ⟨u, hprint, hsaved⟩ := report_says h
    obtain rfl := modify_eq_ok_iff.1 hprint
    have houtput : ∃ more, w'.output = w.output ++ (headline f f.unresolved ++ "\n") ++ more := by
      obtain ⟨-, hframe⟩ | ⟨q, -, hframe, -⟩ := hsaved
      all_goals exact hframe.output
    obtain ⟨more, hmore⟩ := houtput
    exact ⟨"\n" ++ more, by rw [hmore, String.append_assoc, String.append_assoc, String.append_assoc]⟩
  marked q hq := by
    obtain ⟨hnone, -⟩ | ⟨q', hq', -, hnode, -⟩ := report_saves h
    · cases hnone.symm.trans hq
    · cases hq'.symm.trans hq
      exact ⟨_, _, hnode, rfl, Fulfilment.length_red_outcomeSheet hf⟩

theorem Reported.tallied {conditionOf : String → Option Condition} {runs : List (Fulfilment × Option Path)}
    (h : Reported places w runs w') (hruns : ∀ run ∈ runs, ∀ o ∈ run.1.outcomes, o.Coherent conditionOf)
    (hf : (f, o) ∈ runs) : ∃ v v', report places f v = .ok o v' ∧
      Tallied f o f.unresolved v v' ∧ ∃ more, w'.output = v'.output ++ more := by
  induction h with
  | nil w => exact absurd hf List.not_mem_nil
  | @cons g o' runs w v w' hreport hrest ih =>
    rw [List.forall_mem_cons] at hruns
    obtain heq | hf := List.mem_cons.1 hf
    · cases heq
      exact ⟨w, v, hreport, tallied_of_report hruns.1 hreport, hrest.frame.output⟩
    · exact ih hruns.2 hf

/-- All outcomes are coherent, whatever conditions rules give to the parts, so that for every order that is fulfilled
the lines reported as unresolved are as many as the rows marked in red. -/
theorem processPath_tallies :
    (∀ index rules history line, (scoreLine index rules history line).Coherent (conditionFor? rules)) ∧
    (∀ index rules ctx, ∀ o ∈ sweep index rules ctx, o.Coherent (conditionFor? rules)) ∧
    (∀ (index : Index) (conditionOf : String → Option Condition), ∃ rules : List Rule,
      ∀ ip ∈ index, conditionFor? rules ip.part.id = conditionOf ip.part.id) ∧
    ∀ inventory paths merge w fs u, fulfil inventory paths merge w = .ok fs u →
      (∀ f ∈ fs, (∀ o ∈ f.outcomes, o.Coherent (conditionFor? inventory.laboratoryRules)) ∧
        ∀ places o v v', report places f v = .ok o v' →
          Tallied f o f.unresolved v v') ∧
      ∀ p places finalize outs i w', Order.files w.files w.cwd p = .ok paths →
        processPath p places inventory merge finalize w = .ok (outs, i) w' →
          ∃ runs, runs.map Prod.fst = fs ∧ outs = outputs runs ∧ ∀ f o, (f, o) ∈ runs →
            ∃ v v', report places f v = .ok o v' ∧ Tallied f o f.unresolved v v' ∧
              ∃ more, w'.output = v'.output ++ more := by
  refine ⟨coherent_scoreLine, fun _ _ _ _ => coherent_of_mem_sweep, exists_rules, ?_⟩
  intro inventory paths merge w fs u hfulfil
  have hcoherent (f : Fulfilment) (hf : f ∈ fs) := (matched_of_fulfil hfulfil f hf).coherent
  refine ⟨fun f hf => ⟨hcoherent f hf, fun places o v v' => tallied_of_report (hcoherent f hf)⟩, ?_⟩
  intro p places finalize outs i w' hfiles hrun
  obtain ⟨runs, v, rfl, houts, hreported, hlater⟩ := processPath_fulfilled hfiles hfulfil hrun
  refine ⟨runs, rfl, houts, fun f o hf => ?_⟩
  obtain ⟨t, t', hreport, htallied, more, hmore⟩ := hreported.tallied (fun run hrun =>
    hcoherent run.1 (List.mem_map_of_mem hrun)) hf
  obtain ⟨more', hmore'⟩ := hlater.output
  exact ⟨t, t', hreport, htallied, more ++ more', by rw [hmore', hmore, String.append_assoc]⟩

section Lamp

def lampFile : Path := ⟨"", ["lamp.json"]⟩

def lampWorld : World where
  cwd := ⟨"/", []⟩
  files := [(⟨"/", ["lamp.json"]⟩, .file (FileTree.bytesOfText
    "\x7b\"model\": \"MT22\", \"options\": [\x7b\"category\": \"General\", \"selection\": \"LAMP\"\x7d]\x7d"))]
  stamp := "20240102_030405"
  day := "20240102"
  instant := ""

def lampResult : Path := dataPlaces.output / "lamp_配置结果_20240102_030405.xlsx"

def given? {α : Type} (x : Session α) (w : World) : Option α :=
  match x w with
  | .ok a _ => some a
  | .error .. => none

theorem exists_of_given? {α β : Type} {x : Session α} {g : α → β} {b : β} (h : (given? x w).map g = some b) :
    ∃ a w', x w = .ok a w' ∧ g a = b := by
  rw [given?] at h
  split at h
  case h_1 a w' heq => exact ⟨a, w', heq, Option.some.inj h⟩
  case h_2 => cases h

theorem processPath_tallies_lampWorld :
    (∃ f u, fulfil {} [lampFile] false lampWorld = .ok [f] u ∧ f.unresolved = 1) ∧
      (∃ i w', processPath lampFile dataPlaces {} false false lampWorld = .ok ([lampResult], i) w') ∧
      ∃ f v v', report dataPlaces f v = .ok (some lampResult) v' ∧ Tallied f (some lampResult) 1 v v' := by
  have hcount : (given? (fulfil {} [lampFile] false) lampWorld).map (·.map (·.unresolved)) = some [1] := by
    decide +kernel
  have houts : (given? (processPath lampFile dataPlaces {} false false) lampWorld).map Prod.fst =
      some [lampResult] := by
    decide +kernel
  obtain ⟨fs, u, hfulfil, hfs⟩ := exists_of_given? hcount
  obtain ⟨⟨_, i⟩, w', hrun, rfl⟩ := exists_of_given? houts
  obtain ⟨g, _, rfl, hone, hnil⟩ := List.map_eq_cons_iff.1 hfs
  obtain rfl := List.map_eq_nil_iff.1 hnil
  have hfiles : Order.files lampWorld.files lampWorld.cwd lampFile = .ok [lampFile] := by
    rw [Order.files, if_neg (by decide +kernel), if_pos (by decide +kernel)]
  obtain ⟨-, -, -, htallies⟩ := processPath_tallies
  obtain ⟨-, hpath⟩ := htallies {} [lampFile] false lampWorld [g] u hfulfil
  obtain ⟨runs, hruns, houtputs, hreports⟩ := hpath lampFile dataPlaces false [lampResult] i w' hfiles hrun
  obtain ⟨⟨f, o⟩, _, rfl, rfl, hrest⟩ := List.map_eq_cons_iff.1 hruns
  obtain rfl := List.map_eq_nil_iff.1 hrest
  obtain ⟨v, v', hreport, htallied, -⟩ := hreports f o List.mem_cons_self
  cases o with
  | none => cases houtputs
  | some q =>
    cases houtputs
    exact ⟨⟨f, u, hfulfil, hone⟩, ⟨i, w', hrun⟩, f, v, v', hreport, hone ▸ htallied⟩

end Lamp

end Command

end Kitting
