import Kitting.Proofs.Catalog
import Kitting.Proofs.Matching.Tiers

namespace Kitting.Matching

variable {index : Index} {rules : List Rule} {ctx : Context} {ip : IndexedPart} {rule : Rule}

def Confirms (rules : List Rule) (ctx : Context) (ip : IndexedPart) (rule : Rule) : Prop :=
  First (fun r => r.active ∧ r.target = ip.part.id) rules rule ∧ rule.condition.holds ctx

theorem ruleFor?_eq_some_iff {id : String} :
    ruleFor? rules id = some rule ↔ First (fun r => r.active ∧ r.target = id) rules rule := by
  rw [ruleFor?, find?_eq_some_iff_first]
  simp

def confirmed (index : Index) (rules : List Rule) (ctx : Context) : List (IndexedPart × Rule) :=
  index.filterMap fun ip => ((ruleFor? rules ip.part.id).filter (·.condition.holds ctx)).map (ip, ·)

theorem sweep_eq (index : Index) (rules : List Rule) (ctx : Context) :
    sweep index rules ctx = (confirmed index rules ctx).map fun e => verified e.1 e.2 := by
  rw [sweep, confirmed, List.map_filterMap]
  refine List.filterMap_congr ?_
  intro ip _
  cases ruleFor? rules ip.part.id with
  | none => rfl
  | some rule => by_cases h : rule.condition.holds ctx <;> simp [Option.filter, h]

theorem mem_confirmed :
    (ip, rule) ∈ confirmed index rules ctx ↔ ip ∈ index ∧ Confirms rules ctx ip rule := by
  simp [confirmed, Confirms, ← ruleFor?_eq_some_iff, List.mem_filterMap]

theorem fst_confirmed (index : Index) (rules : List Rule) (ctx : Context) :
    (confirmed index rules ctx).map Prod.fst = index.filter (isVerified rules ctx) := by
  rw [confirmed, List.map_filterMap, ← List.filterMap_eq_filter]
  refine List.filterMap_congr ?_
  intro ip _
  cases hrule : ruleFor? rules ip.part.id with
  | none => simp [Option.guard, isVerified, hrule]
  | some rule => by_cases h : rule.condition.holds ctx <;> simp [Option.guard, isVerified, hrule, h]

theorem nodup_ids_confirmed (h : DistinctIds (index.map (·.part))) (rules : List Rule) (ctx : Context) :
    ((confirmed index rules ctx).map (·.1.part.id)).Nodup := by
  have hsub : ((confirmed index rules ctx).map (·.1.part.id)).Sublist (index.map (·.part.id)) := by
    have hfst := fst_confirmed index rules ctx ▸ List.filter_sublist (p := isVerified rules ctx)
    simpa [Function.comp_def] using hfst.map (·.part.id)
  refine hsub.nodup ?_
  simpa [DistinctIds, Function.comp_def] using h

theorem Tiered.level_eq_uncertain_iff {conditionOf : String → Option Condition}
    {history : List Precedent} {line : OrderLine} {o : Outcome}
    (h : Tiered index conditionOf history line o) : o.level = .uncertain ↔ o.partId = none := by
  cases h with
  | unresolved => exact iff_of_true rfl rfl
  | vacant => exact iff_of_true rfl rfl
  | verified => exact iff_of_false nofun nofun
  | named => exact iff_of_false nofun nofun
  | learned => exact iff_of_false nofun nofun
  | described => exact iff_of_false nofun nofun
  | suggested => exact iff_of_false nofun nofun

theorem mem_selected_iff {outcomes : List Outcome} {id : String} :
    id ∈ selected outcomes ↔ ∃ o ∈ outcomes, o.level ≠ .uncertain ∧ o.partId = some id := by
  rw [selected, List.mem_eraseDups, List.mem_filterMap]
  refine exists_congr fun o => and_congr_right fun _ => ?_
  by_cases h : o.level = .uncertain <;> simp [h]

section Merge

variable {swept : List (IndexedPart × Rule)} {lines : List OrderLine} {own : OrderLine → Outcome}

theorem partIds_verified (swept : List (IndexedPart × Rule)) :
    (swept.map fun e => verified e.1 e.2).map (·.partId) = swept.map fun e => some e.1.part.id := by
  rw [List.map_map]
  rfl

theorem isLeft_eq (swept : List (IndexedPart × Rule)) (o : Outcome) :
    (o.partId.isNone || !((swept.map fun e => verified e.1 e.2).map (·.partId)).contains o.partId) =
      decide (∀ e ∈ swept, o.partId ≠ some e.1.part.id) := by
  rw [partIds_verified]
  cases o.partId with
  | none => simp
  | some id =>
    rw [Bool.eq_iff_iff, decide_eq_true_iff]
    simp only [Option.isNone_some, Bool.false_or, Bool.not_eq_true', List.contains_eq_mem,
      decide_eq_false_iff_not, List.mem_map, not_exists, not_and]
    exact forall₂_congr fun _ _ => ne_comm

def merged (swept : List (IndexedPart × Rule)) (own : OrderLine → Outcome) (lines : List OrderLine) :
    List Outcome :=
  swept.map (fun e => verified e.1 e.2) ++
    (lines.filter fun line => ∀ e ∈ swept, (own line).partId ≠ some e.1.part.id).map own

theorem ofOrder_eq (index : Index) (rules : List Rule) (knowledge : Knowledge) (model : String)
    (lines : List OrderLine) : ofOrder index rules knowledge model lines =
      merged (confirmed index rules (Order.context lines))
        (scoreLine index rules (knowledge.history model)) lines := by
  rw [ofOrder, sweep_eq, List.filter_map, merged]
  simp only [Function.comp_def, isLeft_eq]

theorem filter_merged (hids : (swept.map (·.1.part.id)).Nodup) (hip : (ip, rule) ∈ swept) :
    (merged swept own lines).filter (·.partId = some ip.part.id) = [verified ip rule] := by
  have hrest : ((lines.filter fun line => ∀ e ∈ swept, (own line).partId ≠ some e.1.part.id).map
      own).filter (·.partId = some ip.part.id) = [] := by
    rw [List.filter_eq_nil_iff]
    intro o ho
    obtain ⟨line, hline, rfl⟩ := List.mem_map.1 ho
    have hleft := (List.mem_filter.1 hline).2
    simp only [decide_eq_true_eq] at hleft ⊢
    exact hleft (ip, rule) hip
  have hnodup : (swept.map fun e => verified e.1 e.2).Nodup := by
    refine List.Nodup.of_map (·.partId) ?_
    rw [partIds_verified]
    simpa [Function.comp_def] using hids.map (Option.some_injective String)
  rw [merged, List.filter_append, hrest, List.append_nil]
  refine eq_singleton_of_nodup (hnodup.filter _) ?_ ?_
  · exact List.mem_filter.2 ⟨List.mem_map_of_mem hip, decide_eq_true rfl⟩
  · intro o ho
    obtain ⟨ho, hid⟩ := List.mem_filter.1 ho
    obtain ⟨e, he, rfl⟩ := List.mem_map.1 ho
    have heq : e = (ip, rule) :=
      List.inj_on_of_nodup_map hids he hip (Option.some.inj (of_decide_eq_true hid))
    rw [heq]

theorem mem_selected_merged (hown : ∀ line, (own line).level = .uncertain ↔ (own line).partId = none)
    {id : String} : id ∈ selected (merged swept own lines) ↔
      (∃ e ∈ swept, e.1.part.id = id) ∨ ∃ line ∈ lines, (own line).partId = some id := by
  rw [mem_selected_iff]
  constructor
  · rintro ⟨o, ho, -, hid⟩
    rcases List.mem_append.1 ho with ho | ho
    · obtain ⟨e, he, rfl⟩ := List.mem_map.1 ho
      exact .inl ⟨e, he, Option.some.inj hid⟩
    · obtain ⟨line, hline, rfl⟩ := List.mem_map.1 ho
      exact .inr ⟨line, List.mem_of_mem_filter hline, hid⟩
  · rintro (⟨e, he, rfl⟩ | ⟨line, hline, hid⟩)
    · refine ⟨verified e.1 e.2, List.mem_append_left _ (List.mem_map_of_mem he), ?_, rfl⟩
      simp [verified]
    · by_cases hleft : ∀ e ∈ swept, (own line).partId ≠ some e.1.part.id
      · refine ⟨own line, List.mem_append_right _ (List.mem_map_of_mem ?_), ?_, hid⟩
        · exact List.mem_filter.2 ⟨hline, by simpa using hleft⟩
        · rw [Ne, hown line, hid]
          exact Option.some_ne_none id
      · simp only [not_forall, ne_eq, not_not] at hleft
        obtain ⟨e, he, heid⟩ := hleft
        refine ⟨verified e.1 e.2, List.mem_append_left _ (List.mem_map_of_mem he), ?_, ?_⟩
        · simp [verified]
        · exact heid.symm.trans hid

end Merge

/-- No choice is lost and none made twice. In front stand the parts of the index whose first active rule
holds on the whole order, each once; then the lines with their own outcomes, apart from those whose part
stands in front. So the selected parts are those that the order confirms and those that a line chooses. -/
theorem ofOrder_merges (index : Index) (rules : List Rule) (knowledge : Knowledge) (model : String)
    (lines : List OrderLine) (h : DistinctIds (index.map (·.part))) :
    ∃ swept : List (IndexedPart × Rule),
      (∀ ip rule, (ip, rule) ∈ swept ↔ ip ∈ index ∧ Confirms rules (Order.context lines) ip rule) ∧
      (swept.map Prod.fst).Sublist index ∧
      ofOrder index rules knowledge model lines = swept.map (fun e => verified e.1 e.2) ++
        (lines.filter fun line => ∀ e ∈ swept,
          (scoreLine index rules (knowledge.history model) line).partId ≠ some e.1.part.id).map
            (scoreLine index rules (knowledge.history model)) ∧
      (∀ ip rule, (ip, rule) ∈ swept →
        (ofOrder index rules knowledge model lines).filter (·.partId = some ip.part.id) =
          [verified ip rule]) ∧
      ∀ id, id ∈ selected (ofOrder index rules knowledge model lines) ↔
        (∃ ip rule, ip ∈ index ∧ Confirms rules (Order.context lines) ip rule ∧ ip.part.id = id) ∨
          ∃ line ∈ lines, (scoreLine index rules (knowledge.history model) line).partId = some id := by
  refine ⟨confirmed index rules (Order.context lines), fun _ _ => mem_confirmed, ?_, ?_, ?_, ?_⟩
  · rw [fst_confirmed]
    exact List.filter_sublist
  · exact ofOrder_eq index rules knowledge model lines
  · intro ip rule hip
    rw [ofOrder_eq]
    exact filter_merged (nodup_ids_confirmed h rules _) hip
  · intro id
    rw [ofOrder_eq, mem_selected_merged fun line =>
      (scoreLine_eq_iff_tiered.1 rfl).level_eq_uncertain_iff]
    simp [mem_confirmed, and_assoc]

def cab : IndexedPart := Part.indexed [] { id := "cab", name := "CAB" }

def rack : IndexedPart := Part.indexed [] { id := "rack", name := "ROOF RACK" }

def cabRule : Rule :=
  { id := "1", target := "cab", condition := { includes := ["CAB", "MT22"], raw := "(CAB) (MT22)" } }

def cabLines : List OrderLine :=
  [{ category := "Cab", selection := "Enclosed" }, { category := "Model", selection := "MT22" },
    { category := "Roof", selection := "Rack" }]

theorem ofOrder_merges_cabLines :
    DistinctIds ([cab, rack].map (·.part)) ∧
      (ofOrder [cab, rack] [cabRule] [] "" cabLines).filter (·.partId = some "cab") =
        [verified cab cabRule] ∧
      "cab" ∈ selected (ofOrder [cab, rack] [cabRule] [] "" cabLines) ∧
      "rack" ∈ selected (ofOrder [cab, rack] [cabRule] [] "" cabLines) := by
  have hids : DistinctIds ([cab, rack].map (·.part)) := by decide
  have hcab : Confirms [cabRule] (Order.context cabLines) cab cabRule :=
    ⟨⟨by decide, [], [], rfl, by simp⟩, by decide +kernel⟩
  have hrack : (scoreLine [cab, rack] [cabRule] [] { category := "Roof", selection := "Rack" }).partId =
      some "rack" := by
    decide +kernel
  obtain ⟨swept, hswept, -, -, hone, hselected⟩ := ofOrder_merges [cab, rack] [cabRule] [] "" cabLines hids
  refine ⟨hids, ?_, ?_, ?_⟩
  · exact hone cab cabRule ((hswept cab cabRule).2 ⟨by simp, hcab⟩)
  · exact (hselected "cab").2 (.inl ⟨cab, cabRule, by simp, hcab, rfl⟩)
  · exact (hselected "rack").2 (.inr ⟨_, by simp [cabLines], hrack⟩)

end Kitting.Matching
