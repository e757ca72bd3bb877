import Kitting.Proofs.Selection.Picks

namespace Kitting

variable {parts : List Part} {user order logic : List String} {key : String} {ps : List Part}

def membersOf (parts : List Part) (key : String) : List Part :=
  (parts.filter Part.isConfigurable).filter (·.groupKey = key)

theorem mem_membersOf {p : Part} :
    p ∈ membersOf parts key ↔ p ∈ parts ∧ p.isConfigurable ∧ p.groupKey = key := by
  rw [membersOf, List.mem_filter, List.mem_filter, decide_eq_true_iff, and_assoc]

theorem mem_groupParts : (key, ps) ∈ groupParts parts ↔ ps = membersOf parts key ∧ ps ≠ [] := by
  rw [groupParts, (List.mergeSort_perm _ _).mem_iff,
    Assoc.mem_iff_get? (Assoc.nodup_keys_foldl_alter (m := []) _ _ _ List.nodup_nil),
    Assoc.get?_foldl_append]
  change (if membersOf parts key = [] then none else some (membersOf parts key)) = some ps ↔ _
  by_cases hnone : membersOf parts key = []
  · simp [hnone]
  · rw [if_neg hnone, Option.some.injEq]
    constructor
    · rintro rfl
      exact ⟨rfl, hnone⟩
    · rintro ⟨rfl, -⟩
      rfl

namespace Report

theorem mem_exclusiveGroups : (key, ps) ∈ exclusiveGroups parts ↔
    ps = membersOf parts key ∧ ∃ p ∈ parts, p.isExclusive ∧ p.groupKey = key := by
  rw [exclusiveGroups, List.mem_filter, mem_groupParts, List.any_eq_true]
  constructor
  · rintro ⟨⟨rfl, -⟩, p, hp, he⟩
    obtain ⟨hp, -, hkey⟩ := mem_membersOf.1 hp
    exact ⟨rfl, p, hp, he, hkey⟩
  · rintro ⟨rfl, p, hp, he, hkey⟩
    have hmem := mem_membersOf.2 ⟨hp, Part.isConfigurable_of_isExclusive he, hkey⟩
    exact ⟨⟨rfl, List.ne_nil_of_mem hmem⟩, p, hmem, he⟩

theorem of_congr {user' order' logic' : List String}
    (h : ∀ key, (∃ p ∈ membersOf parts key, p.id ∈ user ++ order ++ logic) ↔
      ∃ p ∈ membersOf parts key, p.id ∈ user' ++ order' ++ logic') :
    Report.of parts user order logic = Report.of parts user' order' logic' := by
  have hmissing : ((exclusiveGroups parts).filter fun g =>
      !g.2.any fun p => (user ++ order ++ logic).contains p.id) =
      (exclusiveGroups parts).filter fun g =>
        !g.2.any fun p => (user' ++ order' ++ logic').contains p.id := by
    apply List.filter_congr
    rintro ⟨key, ps⟩ hg
    obtain ⟨rfl, -⟩ := mem_exclusiveGroups.1 hg
    rw [Bool.not_inj_iff, Bool.eq_iff_iff, List.any_eq_true, List.any_eq_true]
    simp only [List.contains_eq_mem, decide_eq_true_eq]
    exact h key
  simp only [Report.of, hmissing]

theorem mem_missing : key ∈ (Report.of parts user order logic).missing ↔
    (∃ p ∈ parts, p.isExclusive ∧ p.groupKey = key) ∧
      ¬ ∃ p ∈ membersOf parts key, p.id ∈ user ++ order ++ logic := by
  simp only [Report.of, List.mem_map, List.mem_filter]
  constructor
  · rintro ⟨⟨key, ps⟩, ⟨hg, hnone⟩, rfl⟩
    obtain ⟨rfl, hexclusive⟩ := mem_exclusiveGroups.1 hg
    exact ⟨hexclusive, by simpa using hnone⟩
  · rintro ⟨hexclusive, hnone⟩
    exact ⟨⟨key, _⟩, ⟨mem_exclusiveGroups.2 ⟨rfl, hexclusive⟩, by simpa using hnone⟩, rfl⟩

theorem isValid_iff : (Report.of parts user order logic).isValid ↔
    ∀ p ∈ parts, p.isExclusive → ∃ q ∈ membersOf parts p.groupKey, q.id ∈ user ++ order ++ logic := by
  change (Report.of parts user order logic).missing.isEmpty ↔ _
  rw [List.isEmpty_iff, List.eq_nil_iff_forall_not_mem]
  simp only [mem_missing, not_and, not_not]
  constructor
  · exact fun h p hp he => h p.groupKey ⟨p, hp, he, rfl⟩
  · rintro h key ⟨p, hp, he, rfl⟩
    exact h p hp he

end Report

theorem exists_pick_iff (hd : DistinctIds parts) (user order logic : List String) (key : String) :
    (∃ p ∈ membersOf parts key, ∃ s, Assoc.get? (resolve parts user order logic) p.id = some s) ↔
      ∃ p ∈ membersOf parts key, p.id ∈ user ++ order ++ logic := by
  constructor
  · rintro ⟨p, hp, s, hpick⟩
    exact ⟨p, hp, mem_append_of_mem_among (mem_among_of_pick hd hpick).1⟩
  · rintro ⟨p, hp, hnamed⟩
    obtain ⟨hmem, hc, rfl⟩ := mem_membersOf.1 hp
    cases he : p.isExclusive with
    | false =>
      cases hs : highestSource user order logic p.id with
      | none => exact absurd hnamed (highestSource_eq_none_iff.1 hs)
      | some s => exact ⟨p, hp, s, (get?_resolve_shared hd hmem hc he).trans hs⟩
    | true =>
      -- Not `p` itself, perhaps, but whichever part holds the group.
      cases hs : groupSource parts user order logic p.groupKey with
      | none =>
        exact absurd ⟨p.id, hnamed, contends_iff.2 ⟨p, hmem, rfl, he, rfl⟩⟩
          (groupSource_eq_none_iff.1 hs)
      | some s =>
        obtain ⟨id, -, hcontends, hheld⟩ := groupHolder_of_groupSource hs
        obtain ⟨q, hq, rfl, hqe, hkey⟩ := contends_iff.1 hcontends
        rw [← hkey] at hheld
        exact ⟨q, mem_membersOf.2 ⟨hq, Part.isConfigurable_of_isExclusive hqe, hkey⟩, s,
          (get?_resolve_exclusive hd hq hqe).2 hheld⟩

end Kitting
