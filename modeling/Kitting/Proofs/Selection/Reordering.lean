import Kitting.Proofs.Selection.Toggling

namespace Kitting

/-- The same ids, in any order and each as often as one likes. -/
def SameIds (ids ids' : List String) : Prop := ∀ id, id ∈ ids ↔ id ∈ ids'

variable {parts : List Part} {user user' order order' logic logic' ids ids' : List String} {id key : String}

namespace SameIds

theorem append (h : SameIds ids ids') (h' : SameIds order order') : SameIds (ids ++ order) (ids' ++ order') := by
  intro id
  rw [List.mem_append, List.mem_append, h id, h' id]

theorem contenders (h : SameIds ids ids') (parts : List Part) (key : String) :
    SameIds (contenders parts key ids) (contenders parts key ids') := by
  intro id
  rw [Kitting.contenders, Kitting.contenders, List.mem_filter, List.mem_filter, h id]

theorem getLast?_eq (h : SameIds ids ids') (hone : ∀ id ∈ ids, ∀ id' ∈ ids, id = id') :
    ids.getLast? = ids'.getLast? := by
  -- Where all ids are the same one, it does not matter which comes last.
  cases hlast : ids.getLast? with
  | none =>
    obtain rfl := List.getLast?_eq_none_iff.1 hlast
    have hnil : ids' = [] := List.eq_nil_iff_forall_not_mem.2 fun id hid => List.not_mem_nil ((h id).2 hid)
    rw [hnil, List.getLast?_nil]
  | some id =>
    have hid := List.mem_of_getLast? hlast
    cases hlast' : ids'.getLast? with
    | none =>
      rw [h id, List.getLast?_eq_none_iff.1 hlast'] at hid
      exact absurd hid List.not_mem_nil
    | some id' => rw [hone id hid id' ((h id').2 (List.mem_of_getLast? hlast'))]

end SameIds

theorem OnePerGroup.of_forall_eq {p : Part} (h : ∀ q ∈ parts, q.isExclusive → q.id ∈ ids → q = p) :
    OnePerGroup parts ids :=
  fun q hq r hr hqe hre _ hqs hrs => (h q hq hqe hqs).trans (h r hr hre hrs).symm

theorem OnePerGroup.eq_of_mem_contenders (h : OnePerGroup parts ids) {id' : String}
    (hid : id ∈ contenders parts key ids) (hid' : id' ∈ contenders parts key ids) : id = id' := by
  obtain ⟨hmem, hcontends⟩ := List.mem_filter.1 hid
  obtain ⟨hmem', hcontends'⟩ := List.mem_filter.1 hid'
  obtain ⟨p, hp, rfl, hpe, rfl⟩ := contends_iff.1 hcontends
  obtain ⟨q, hq, rfl, hqe, hkey⟩ := contends_iff.1 hcontends'
  rw [h p hp q hq hpe hqe hkey.symm hmem hmem']

theorem getLast?_contenders_congr (h : SameIds ids ids') (hone : OnePerGroup parts ids) (key : String) :
    (contenders parts key ids).getLast? = (contenders parts key ids').getLast? :=
  (h.contenders parts key).getLast?_eq fun _ hid _ hid' => hone.eq_of_mem_contenders hid hid'

theorem highestSource_congr (hu : SameIds user user') (ho : SameIds order order') (hl : SameIds logic logic')
    (id : String) : highestSource user order logic id = highestSource user' order' logic' id := by
  simp only [highestSource, hu id, ho id, hl id]

theorem groupHolder_congr (hu : SameIds user user') (ho : SameIds order order') (hl : SameIds logic logic')
    (huser : OnePerGroup parts user) (horder : OnePerGroup parts order) (key : String) :
    groupHolder parts user order logic key = groupHolder parts user' order' logic' key := by
  have hlogic : (fun id => decide (id ∈ logic)) = fun id => decide (id ∈ logic') :=
    funext fun id => decide_eq_decide.2 (hl id)
  rw [groupHolder, groupHolder, getLast?_contenders_congr hu huser, getLast?_contenders_congr ho horder, hlogic]

theorem resolve_logic_congr (parts : List Part) (user order : List String) (h : SameIds logic logic') :
    resolve parts user order logic = resolve parts user order logic' := by
  -- The triggered parts are taken in catalog order, whichever way they are listed.
  have hcatalog : inCatalogOrder parts logic = inCatalogOrder parts logic' := by
    refine List.filter_congr fun id _ => ?_
    rw [List.contains_eq_mem, List.contains_eq_mem, decide_eq_decide]
    exact h id
  rw [resolve, resolve, hcatalog]

theorem get?_resolve_congr (hd : DistinctIds parts) (hu : SameIds user user') (ho : SameIds order order')
    (hl : SameIds logic logic') (huser : OnePerGroup parts user) (horder : OnePerGroup parts order)
    (id : String) :
    Assoc.get? (resolve parts user order logic) id = Assoc.get? (resolve parts user' order' logic') id := by
  by_cases hknown : ∃ p ∈ parts, p.id = id ∧ p.isConfigurable
  case neg =>
    have hnone (u o l : List String) : Assoc.get? (resolve parts u o l) id = none :=
      Option.eq_none_iff_forall_ne_some.2 fun _ hpick => hknown (mem_among_of_pick hd hpick).2
    rw [hnone, hnone]
  obtain ⟨p, hp, rfl, hc⟩ := hknown
  cases he : p.isExclusive with
  | false => rw [get?_resolve_shared hd hp hc he, get?_resolve_shared hd hp hc he, highestSource_congr hu ho hl]
  | true =>
    apply Option.ext
    intro s
    rw [get?_resolve_exclusive hd hp he, get?_resolve_exclusive hd hp he,
      groupHolder_congr hu ho hl huser horder]

-- Two rivals named by one source: the last one stays.
example : Assoc.get? (resolve cabCatalog ["canopy", "cab"] [] []) "cab" = some .user ∧
    Assoc.get? (resolve cabCatalog ["cab", "canopy"] [] []) "cab" = none := by decide

end Kitting
