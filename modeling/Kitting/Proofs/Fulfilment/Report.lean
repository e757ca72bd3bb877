import Kitting.Proofs.Fulfilment.Manifest
import Kitting.Proofs.Selection.Groups

namespace Kitting.Fulfilment

variable {parts : List Part} {user order logic : List String} {id key : String}

theorem mem_idsFrom_resolve (hd : DistinctIds parts) :
    (let picks := resolve parts user order logic
    id ∈ picks.idsFrom .user ++ picks.idsFrom .order ++ picks.idsFrom .logic) ↔
      ∃ s, Assoc.get? (resolve parts user order logic) id = some s := by
  simp only [List.mem_append, mem_idsFrom (nodup_ids_resolve hd user order logic)]
  constructor
  · rintro ((h | h) | h)
    · exact ⟨_, h⟩
    · exact ⟨_, h⟩
    · exact ⟨_, h⟩
  · rintro ⟨s, h⟩
    cases s with
    | user => exact .inl (.inl h)
    | order => exact .inl (.inr h)
    | logic => exact .inr h
    | mandatory => exact absurd (mem_among_of_pick hd h).1 List.not_mem_nil

theorem reportOf_resolve (hd : DistinctIds parts) (user order logic : List String) :
    reportOf parts (resolve parts user order logic) = Report.of parts user order logic := by
  apply Report.of_congr
  intro key
  simp only [mem_idsFrom_resolve hd]
  exact exists_pick_iff hd user order logic key

theorem exists_line_iff {picks : Picks} {p : Part} (hp : p ∈ parts)
    (hc : p.isConfigurable) :
    (∃ line ∈ Manifest.of parts picks, line.part = p) ↔ ∃ s, Assoc.get? picks p.id = some s := by
  constructor
  · rintro ⟨line, hline, rfl⟩
    obtain ⟨-, ⟨hm, -⟩ | ⟨-, hpick⟩⟩ := Manifest.mem_of.1 hline
    · rw [Part.isMandatory_of_isConfigurable hc] at hm
      cases hm
    · exact ⟨_, hpick⟩
  · rintro ⟨s, hpick⟩
    exact ⟨⟨p, s⟩, Manifest.mem_of.2 ⟨hp, .inr ⟨hc, hpick⟩⟩, rfl⟩

/-- Bringing the sources together leaves the report as it is: whatever part is evicted, its group keeps
one. So the report of an order, however its matches were taken, misses exactly the exclusive groups of which
the manifest has no configurable part. -/
theorem report_agrees (inventory : Inventory) (hd : DistinctIds inventory.parts) :
    (∀ user order logic,
      reportOf inventory.parts (resolve inventory.parts user order logic) =
        Report.of inventory.parts user order logic) ∧
    (∀ user matched cap source order, let f := settle inventory user matched cap source order
      ∀ key, key ∈ f.report.missing ↔
        (∃ p ∈ inventory.parts, p.isExclusive ∧ p.groupKey = key) ∧
          ¬ ∃ p ∈ inventory.parts, p.isConfigurable ∧ p.groupKey = key ∧
            ∃ line ∈ f.manifest, line.part = p) := by
  refine ⟨reportOf_resolve hd, ?_⟩
  intro user matched cap source order f key
  have hreport : f.report = Report.of inventory.parts user matched f.solution.triggered :=
    reportOf_resolve hd _ _ _
  rw [hreport, Report.mem_missing, ← exists_pick_iff hd]
  refine and_congr_right fun _ => not_congr ?_
  constructor
  · rintro ⟨p, hp, hpick⟩
    obtain ⟨hmem, hc, hkey⟩ := mem_membersOf.1 hp
    exact ⟨p, hmem, hc, hkey, (exists_line_iff hmem hc).2 hpick⟩
  · rintro ⟨p, hmem, hc, hkey, hline⟩
    exact ⟨p, mem_membersOf.2 ⟨hmem, hc, hkey⟩, (exists_line_iff hmem hc).1 hline⟩

theorem report_agrees_topOrder :
    DistinctIds topInventory.parts ∧
      (let f := settle topInventory ["cab"] ["canopy"] 5 "top" topOrder
      Assoc.get? f.picks "canopy" = none ∧ "TOP" ∉ f.report.missing) := by
  have hd : DistinctIds topInventory.parts := by decide
  obtain ⟨-, hmissing⟩ := report_agrees topInventory hd
  refine ⟨hd, by decide +kernel, ?_⟩
  intro hmem
  have hnone := ((hmissing ["cab"] ["canopy"] 5 "top" topOrder "TOP").1 hmem).2
  have hcab : cab ∈ topInventory.parts := by simp [topInventory, Inventory.reindex]
  exact hnone ⟨cab, hcab, rfl, rfl, (exists_line_iff hcab rfl).2 ⟨.user, by decide +kernel⟩⟩

end Kitting.Fulfilment
