import Kitting.Proofs.Selection.Priority

namespace Kitting

variable {parts : List Part} {user order logic : List String} {p : Part} {id key : String} {s : Source}

def Source.among (user order logic : List String) : Source → List String
  | .user => user
  | .order => order
  | .logic => logic
  | .mandatory => []

def groupSource (parts : List Part) (user order logic : List String) (key : String) : Option Source :=
  if ∃ id ∈ user, contends parts key id then some .user
  else if ∃ id ∈ order, contends parts key id then some .order
  else if ∃ id ∈ logic, contends parts key id then some .logic
  else none

theorem mem_among_of_highestSource (h : highestSource user order logic id = some s) :
    id ∈ s.among user order logic := by
  rw [highestSource] at h
  split at h
  case isTrue hu => cases h; exact hu
  split at h
  case isTrue ho => cases h; exact ho
  split at h
  case isTrue hl => cases h; exact hl
  case isFalse => cases h

theorem highestSource_eq_none_iff :
    highestSource user order logic id = none ↔ id ∉ user ++ order ++ logic := by
  rw [highestSource]
  split
  · simp_all
  split
  · simp_all
  split <;> simp_all

theorem mem_append_of_mem_among (h : id ∈ s.among user order logic) : id ∈ user ++ order ++ logic := by
  cases s with
  | user => exact List.mem_append_left _ (List.mem_append_left _ h)
  | order => exact List.mem_append_left _ (List.mem_append_right _ h)
  | logic => exact List.mem_append_right _ h
  | mandatory => exact absurd h List.not_mem_nil

theorem groupSource_eq_none_iff : groupSource parts user order logic key = none ↔
    ¬ ∃ id ∈ user ++ order ++ logic, contends parts key id := by
  simp only [List.mem_append, or_and_right, exists_or, not_or, groupSource]
  split
  · simp_all
  split
  · simp_all
  split <;> simp_all

theorem contenders_eq_nil_iff {ids : List String} :
    contenders parts key ids = [] ↔ ¬ ∃ id ∈ ids, contends parts key id := by
  simp [contenders]

theorem exists_getLast?_contenders {ids : List String} (h : ∃ id ∈ ids, contends parts key id) :
    ∃ id ∈ ids, contends parts key id ∧ (contenders parts key ids).getLast? = some id := by
  cases hl : (contenders parts key ids).getLast? with
  | none => exact absurd h (contenders_eq_nil_iff.1 (List.getLast?_eq_none_iff.1 hl))
  | some id =>
    obtain ⟨hid, hc⟩ := List.mem_filter.1 (List.mem_of_getLast? hl)
    exact ⟨id, hid, hc, rfl⟩

theorem groupHolder_of_groupSource (h : groupSource parts user order logic key = some s) :
    ∃ id ∈ s.among user order logic, contends parts key id ∧
      groupHolder parts user order logic key = some (id, s) := by
  rw [groupSource] at h
  split at h
  case isTrue hu =>
    cases h
    obtain ⟨id, hid, hc, hl⟩ := exists_getLast?_contenders hu
    exact ⟨id, hid, hc, by rw [groupHolder, hl]⟩
  case isFalse hu =>
  split at h
  case isTrue ho =>
    cases h
    obtain ⟨id, hid, hc, hl⟩ := exists_getLast?_contenders ho
    exact ⟨id, hid, hc, by rw [groupHolder, hl, contenders_eq_nil_iff.2 hu]; rfl⟩
  case isFalse ho =>
  split at h
  case isFalse => cases h
  case isTrue hl =>
    cases h
    have hfound : ((contenders parts key (parts.map Part.id)).find? (· ∈ logic)).isSome := by
      obtain ⟨id, hid, hc⟩ := hl
      obtain ⟨p, hp, rfl, -⟩ := contends_iff.1 hc
      rw [List.find?_isSome]
      exact ⟨p.id, List.mem_filter.2 ⟨List.mem_map_of_mem hp, hc⟩, by simpa using hid⟩
    obtain ⟨id, hid⟩ := Option.isSome_iff_exists.1 hfound
    have hlogic : id ∈ logic := by simpa using List.find?_some hid
    refine ⟨id, hlogic, ?_, ?_⟩
    · exact (List.mem_filter.1 (List.mem_of_find?_eq_some hid)).2
    · rw [groupHolder, contenders_eq_nil_iff.2 hu, contenders_eq_nil_iff.2 ho, hid]
      rfl

theorem groupHolder_eq_none (h : groupSource parts user order logic key = none) :
    groupHolder parts user order logic key = none := by
  have hnone {ids : List String} (hsub : ids ⊆ user ++ order ++ logic) :
      ¬ ∃ id ∈ ids, contends parts key id := by
    rintro ⟨id, hid, hc⟩
    exact groupSource_eq_none_iff.1 h ⟨id, hsub hid, hc⟩
  rw [groupHolder, contenders_eq_nil_iff.2 (hnone (by simp)), contenders_eq_nil_iff.2 (hnone (by simp))]
  simp only [List.getLast?_nil, Option.map_eq_none_iff, List.find?_eq_none, decide_eq_true_eq]
  intro id hid hlogic
  exact hnone (List.subset_append_right _ _) ⟨id, hlogic, (List.mem_filter.1 hid).2⟩

theorem get?_resolve_shared (hd : DistinctIds parts) (hp : p ∈ parts) (hc : p.isConfigurable)
    (he : p.isExclusive = false) :
    Assoc.get? (resolve parts user order logic) p.id = highestSource user order logic p.id :=
  picks_merged hd user order logic hp hc he

theorem get?_resolve_exclusive (hd : DistinctIds parts) (hp : p ∈ parts) (he : p.isExclusive) :
    Assoc.get? (resolve parts user order logic) p.id = some s ↔
      groupHolder parts user order logic p.groupKey = some (p.id, s) := by
  rw [← holders_merged hd]
  exact (sound_merged hd user order logic).held p hp he s

theorem nodup_ids_resolve (hd : DistinctIds parts) (user order logic : List String) :
    (resolve parts user order logic).ids.Nodup :=
  (sound_merged hd user order logic).nodup

theorem mem_among_of_pick (hd : DistinctIds parts)
    (h : Assoc.get? (resolve parts user order logic) id = some s) :
    id ∈ s.among user order logic ∧ ∃ p ∈ parts, p.id = id ∧ p.isConfigurable := by
  have hknown := (sound_merged hd user order logic).known id (Assoc.mem_keys_iff.2 ⟨s, h⟩)
  refine ⟨?_, hknown⟩
  obtain ⟨p, hp, rfl, hc⟩ := hknown
  cases he : p.isExclusive with
  | false =>
    rw [get?_resolve_shared hd hp hc he] at h
    exact mem_among_of_highestSource h
  | true =>
    rw [get?_resolve_exclusive hd hp he] at h
    cases hs : groupSource parts user order logic p.groupKey with
    | none =>
      rw [groupHolder_eq_none hs] at h
      cases h
    | some source =>
      obtain ⟨id, hid, -, hheld⟩ := groupHolder_of_groupSource hs
      rw [hheld] at h
      cases h
      exact hid

theorem mem_idsFrom {picks : Picks} (h : picks.ids.Nodup) :
    id ∈ picks.idsFrom s ↔ Assoc.get? picks id = some s := by
  rw [← Assoc.mem_iff_get? h]
  simp only [Picks.idsFrom, List.mem_map, List.mem_filter, beq_iff_eq]
  constructor
  · rintro ⟨⟨i, source⟩, ⟨hmem, rfl⟩, rfl⟩
    exact hmem
  · intro hmem
    exact ⟨_, ⟨hmem, rfl⟩, rfl⟩

end Kitting
