import Kitting.Proofs.Selection.Picks

namespace Kitting

variable {parts : List Part} {p q : Part} {selected listed : List String} {id : String}

def Part.Evicts (parts : List Part) (p : Part) (id : String) : Prop :=
  p.isExclusive ∧ ∃ q ∈ parts, q.id = id ∧ q.isConfigurable ∧ q.groupKey = p.groupKey

def OnePerGroup (parts : List Part) (selected : List String) : Prop :=
  ∀ p ∈ parts, ∀ q ∈ parts, p.isExclusive → q.isExclusive → p.groupKey = q.groupKey →
    p.id ∈ selected → q.id ∈ selected → p = q

def selectionAfter (parts touches : List Part) : List String :=
  touches.foldl (fun selected p => toggle selected p parts) []

theorem mem_toggle_self : p.id ∈ toggle selected p parts ↔ p.id ∉ selected := by
  rw [toggle]
  split
  case isTrue h => simpa using h
  case isFalse h => simpa using h

theorem mem_toggle_of_ne (hne : id ≠ p.id) :
    id ∈ toggle selected p parts ↔ id ∈ selected ∧ (p.id ∈ selected ∨ ¬p.Evicts parts id) := by
  rw [toggle]
  split
  case isTrue h =>
    rw [List.contains_iff_mem] at h
    simp [hne, h]
  case isFalse h =>
    rw [List.contains_iff_mem] at h
    cases he : p.isExclusive with
    | false => simp [hne, Part.Evicts, he]
    | true =>
      simp only [Part.Evicts, he, if_true, h, false_or, true_and, List.mem_append, List.mem_singleton, hne, or_false,
        List.mem_filter, Bool.not_eq_true', List.contains_eq_mem, decide_eq_false_iff_not, List.mem_map,
        Bool.and_eq_true, beq_iff_eq]
      refine and_congr_right fun _ => not_congr (exists_congr fun q => ?_)
      constructor
      · rintro ⟨⟨hq, hkey, hc⟩, hid⟩
        exact ⟨hq, hid, hc, hkey⟩
      · rintro ⟨hq, hid, hc, hkey⟩
        exact ⟨⟨hq, hkey, hc⟩, hid⟩

theorem OnePerGroup.touch (hd : DistinctIds parts) (hp : p ∈ parts) (h : OnePerGroup parts selected) :
    OnePerGroup parts (toggle selected p parts) := by
  -- The touched part drives out what shares its group.
  have hself : ∀ q ∈ parts, p.isExclusive → q.isExclusive → p.groupKey = q.groupKey →
      p.id ∈ toggle selected p parts → q.id ∈ toggle selected p parts → p = q := by
    intro q hq hpe hqe hkey hmem hmem'
    by_contra hne
    have hid : q.id ≠ p.id := fun hid => hne (hd.eq_of_id hq hp hid).symm
    rw [mem_toggle_of_ne hid] at hmem'
    refine hmem'.2.elim (mem_toggle_self.1 hmem) fun hstays => ?_
    exact hstays ⟨hpe, q, hq, rfl, Part.isConfigurable_of_isExclusive hqe, hkey.symm⟩
  intro q hq r hr hqe hre hkey hqs hrs
  by_cases hqp : q = p
  · subst hqp
    exact hself r hr hqe hre hkey hqs hrs
  by_cases hrp : r = p
  · subst hrp
    exact (hself q hq hre hqe hkey.symm hrs hqs).symm
  have hold {s : Part} (hs : s ∈ parts) (hsp : s ≠ p) (hmem : s.id ∈ toggle selected p parts) :
      s.id ∈ selected :=
    ((mem_toggle_of_ne fun hid => hsp (hd.eq_of_id hs hp hid)).1 hmem).1
  exact h q hq r hr hqe hre hkey (hold hq hqp hqs) (hold hr hrp hrs)

theorem onePerGroup_selectionAfter (hd : DistinctIds parts) {touches : List Part}
    (h : ∀ p ∈ touches, p ∈ parts) : OnePerGroup parts (selectionAfter parts touches) := by
  suffices hrun : ∀ selected, OnePerGroup parts selected →
      OnePerGroup parts (touches.foldl (fun selected p => toggle selected p parts) selected) from
    hrun [] fun _ _ _ _ _ _ _ hmem => absurd hmem List.not_mem_nil
  induction touches with
  | nil => exact fun _ hone => hone
  | cons p touches ih =>
    intro selected hone
    exact ih (fun q hq => h q (List.mem_cons_of_mem p hq)) _ (hone.touch hd (h p List.mem_cons_self))

theorem not_evicts_of_groupKey_ne (hd : DistinctIds parts) (hq : q ∈ parts) (hkey : p.groupKey ≠ q.groupKey) :
    ¬p.Evicts parts q.id := by
  rintro ⟨-, r, hr, hid, -, hrkey⟩
  rw [hd.eq_of_id hr hq hid] at hrkey
  exact hkey hrkey.symm

theorem mem_toggle_of_groupKey_ne (hd : DistinctIds parts) (hp : p ∈ parts) (hq : q ∈ parts)
    (hkey : p.groupKey ≠ q.groupKey) : q.id ∈ toggle selected p parts ↔ q.id ∈ selected := by
  have hid : q.id ≠ p.id := fun hid => hkey (hd.eq_of_id hp hq hid.symm ▸ rfl)
  rw [mem_toggle_of_ne hid, and_iff_left (.inr (not_evicts_of_groupKey_ne hd hq hkey))]

theorem toggle_comm (hd : DistinctIds parts) (hp : p ∈ parts) (hq : q ∈ parts)
    (hkey : p.groupKey ≠ q.groupKey) :
    id ∈ toggle (toggle selected p parts) q parts ↔ id ∈ toggle (toggle selected q parts) p parts := by
  have hqp : q.id ≠ p.id := fun hid => hkey (hd.eq_of_id hp hq hid.symm ▸ rfl)
  by_cases hidp : id = p.id
  · subst hidp
    rw [mem_toggle_of_groupKey_ne hd hq hp hkey.symm, mem_toggle_self, mem_toggle_self,
      mem_toggle_of_groupKey_ne hd hq hp hkey.symm]
  by_cases hidq : id = q.id
  · subst hidq
    rw [mem_toggle_self, mem_toggle_of_groupKey_ne hd hp hq hkey, mem_toggle_of_groupKey_ne hd hp hq hkey,
      mem_toggle_self]
  rw [mem_toggle_of_ne hidq, mem_toggle_of_ne hidp, mem_toggle_of_ne hidp, mem_toggle_of_ne hidq,
    mem_toggle_of_groupKey_ne hd hp hq hkey, mem_toggle_of_groupKey_ne hd hq hp hkey.symm, and_right_comm]

theorem get?_resolve_eq_user_iff (hd : DistinctIds parts) (hone : OnePerGroup parts listed)
    (order logic : List String) : Assoc.get? (resolve parts listed order logic) id = some .user ↔
      ∃ p ∈ parts, p.id = id ∧ p.isConfigurable ∧ id ∈ listed := by
  constructor
  · intro hpick
    obtain ⟨hmem, p, hp, hid, hc⟩ := mem_among_of_pick hd hpick
    exact ⟨p, hp, hid, hc, hmem⟩
  · rintro ⟨p, hp, rfl, hc, hmem⟩
    cases he : p.isExclusive with
    | false => rw [get?_resolve_shared hd hp hc he, highestSource, if_pos hmem]
    | true =>
      have hsource : groupSource parts listed order logic p.groupKey = some .user :=
        if_pos ⟨p.id, hmem, contends_iff.2 ⟨p, hp, rfl, he, rfl⟩⟩
      obtain ⟨holder, hholder, hcontends, hheld⟩ := groupHolder_of_groupSource hsource
      obtain ⟨q, hq, rfl, hqe, hkey⟩ := contends_iff.1 hcontends
      rw [get?_resolve_exclusive hd hp he, hheld, hone q hq p hp hqe he hkey hholder hmem]

/-- However the user touches the parts of a catalog, no two exclusive parts of one group are selected; the
merge, whatever the other sources say and in whichever order the selection is listed, gives the user exactly
the configurable parts of it; and touches in different groups lead to the same selection in either order. -/
theorem selectionAfter_resolves (hd : DistinctIds parts) {touches : List Part} (h : ∀ p ∈ touches, p ∈ parts) :
    OnePerGroup parts (selectionAfter parts touches) ∧
    (∀ listed order logic, (∀ id, id ∈ listed ↔ id ∈ selectionAfter parts touches) →
      ∀ id, id ∈ (resolve parts listed order logic).idsFrom .user ↔
        ∃ p ∈ parts, p.id = id ∧ p.isConfigurable ∧ id ∈ selectionAfter parts touches) ∧
    ∀ p ∈ parts, ∀ q ∈ parts, p.groupKey ≠ q.groupKey → ∀ selected id,
      id ∈ toggle (toggle selected p parts) q parts ↔ id ∈ toggle (toggle selected q parts) p parts := by
  have hone := onePerGroup_selectionAfter hd h
  refine ⟨hone, ?_, fun p hp q hq hkey selected id => toggle_comm hd hp hq hkey⟩
  intro listed order logic hlisted id
  have hone' : OnePerGroup parts listed := by
    simpa only [OnePerGroup, hlisted] using hone
  rw [mem_idsFrom (nodup_ids_resolve hd listed order logic), get?_resolve_eq_user_iff hd hone', hlisted]

def cabTouches : List Part :=
  [cabCatalog[1], cabCatalog[3], cabCatalog[0], cabCatalog[2], cabCatalog[6], cabCatalog[6]]

theorem selectionAfter_resolves_cabTouches :
    DistinctIds cabCatalog ∧ (∀ p ∈ cabTouches, p ∈ cabCatalog) ∧
      selectionAfter cabCatalog cabTouches = ["frame", "cab"] ∧
      (let picks := resolve cabCatalog ["cab", "frame"] ["canopy"] ["heater"]
      "cab" ∈ picks.idsFrom .user ∧ "frame" ∉ picks.idsFrom .user ∧ "canopy" ∉ picks.idsFrom .user) := by
  have hd : DistinctIds cabCatalog := by decide
  have htouches : ∀ p ∈ cabTouches, p ∈ cabCatalog := by
    simp only [cabTouches, List.forall_mem_cons]
    simp
  have hselected : selectionAfter cabCatalog cabTouches = ["frame", "cab"] := by decide
  obtain ⟨-, hpicks, -⟩ := selectionAfter_resolves hd htouches
  have huser := hpicks ["cab", "frame"] ["canopy"] ["heater"] fun id => by simp [hselected, or_comm]
  refine ⟨hd, htouches, hselected, (huser "cab").2 ?_, mt (huser "frame").1 ?_, mt (huser "canopy").1 ?_⟩
  all_goals decide

end Kitting
