import Kitting.Fulfilment
import Kitting.Proofs.FirstOccurrence
import Kitting.Proofs.Selection.Picks
import Kitting.Proofs.Solver.Passes
import Kitting.Proofs.Sorting

namespace Kitting

variable {parts : List Part} {picks : Picks} {p q : Part} {line : ManifestLine} {key : String}

namespace Part

def Leads (parts : List Part) (p q : Part) : Prop :=
  p.isMandatory ∧ q.isMandatory = false ∨ p.isMandatory = q.isMandatory ∧ [p, q].Sublist parts

theorem isMandatory_of_isConfigurable (h : p.isConfigurable) : p.isMandatory = false := by
  simp only [isConfigurable, Bool.or_eq_true, beq_iff_eq] at h
  simp only [isMandatory, beq_eq_false_iff_ne]
  omega

end Part

namespace Manifest

def linesFor (m : Manifest) (p : Part) : Manifest := m.filter (·.part.id == p.id)

def exclusiveLines (m : Manifest) (key : String) : Manifest :=
  m.filter fun line => line.part.isExclusive && line.part.groupKey == key

def Precedes (parts : List Part) (a b : ManifestLine) : Prop :=
  a.part.effectivePreference < b.part.effectivePreference ∨
    a.part.effectivePreference = b.part.effectivePreference ∧ a.part.Leads parts b.part

theorem map_part_picked (parts : List Part) (picks : Picks) :
    (parts.filterMap fun p => (Assoc.get? picks p.id).map fun source => (⟨p, source⟩ : ManifestLine)).map
      (·.part) = parts.filter fun p => (Assoc.get? picks p.id).isSome := by
  rw [List.map_filterMap, ← List.filterMap_eq_filter (p := fun p : Part => (Assoc.get? picks p.id).isSome)]
  apply List.filterMap_congr
  intro p _
  cases h : Assoc.get? picks p.id <;> simp [Option.guard, h]

theorem map_part_unsorted (parts : List Part) (picks : Picks) :
    (unsorted parts picks).map (·.part) = parts.filter Part.isMandatory ++
      (parts.filter Part.isConfigurable).filter fun p => (Assoc.get? picks p.id).isSome := by
  rw [unsorted, List.map_append, List.map_map, map_part_picked]
  congr 1
  exact List.map_id _

theorem mem_of : line ∈ Manifest.of parts picks ↔ line.part ∈ parts ∧
    (line.part.isMandatory ∧ line.source = .mandatory ∨
      line.part.isConfigurable ∧ Assoc.get? picks line.part.id = some line.source) := by
  rw [Manifest.of, (List.mergeSort_perm _ _).mem_iff, unsorted, List.mem_append, List.mem_map,
    List.mem_filterMap, and_or_left]
  refine or_congr ?_ ?_
  · constructor
    · rintro ⟨p, hp, rfl⟩
      obtain ⟨hp, hm⟩ := List.mem_filter.1 hp
      exact ⟨hp, hm, rfl⟩
    · obtain ⟨p, source⟩ := line
      rintro ⟨hp, hm, rfl⟩
      exact ⟨p, List.mem_filter.2 ⟨hp, hm⟩, rfl⟩
  · constructor
    · rintro ⟨p, hp, hline⟩
      obtain ⟨source, hpick, rfl⟩ := Option.map_eq_some_iff.1 hline
      obtain ⟨hp, hc⟩ := List.mem_filter.1 hp
      exact ⟨hp, hc, hpick⟩
    · rintro ⟨hp, hc, hpick⟩
      exact ⟨line.part, List.mem_filter.2 ⟨hp, hc⟩, by rw [hpick]; rfl⟩

theorem pairwise_leads_unsorted (parts : List Part) (picks : Picks) :
    (unsorted parts picks).Pairwise fun a b => a.part.Leads parts b.part := by
  have hcatalog {l : List Part} (hsub : l.Sublist parts) : l.Pairwise fun p q => [p, q].Sublist parts :=
    List.pairwise_iff_forall_sublist.2 fun hpq => hpq.trans hsub
  rw [← List.pairwise_map (f := ManifestLine.part) (R := Part.Leads parts), map_part_unsorted,
    List.pairwise_append]
  refine ⟨?_, ?_, ?_⟩
  · refine (hcatalog List.filter_sublist).imp_of_mem fun {p q} hp hq hpq => .inr ⟨?_, hpq⟩
    rw [(List.mem_filter.1 hp).2, (List.mem_filter.1 hq).2]
  · refine (hcatalog (List.filter_sublist.trans List.filter_sublist)).imp_of_mem
      fun {p q} hp hq hpq => .inr ⟨?_, hpq⟩
    have hconfigurable (r : Part) (hr : r ∈ (parts.filter Part.isConfigurable).filter fun p =>
        (Assoc.get? picks p.id).isSome) : r.isMandatory = false :=
      Part.isMandatory_of_isConfigurable (List.mem_filter.1 (List.mem_filter.1 hr).1).2
    rw [hconfigurable p hp, hconfigurable q hq]
  · intro p hp q hq
    exact .inl ⟨(List.mem_filter.1 hp).2,
      Part.isMandatory_of_isConfigurable (List.mem_filter.1 (List.mem_filter.1 hq).1).2⟩

theorem pairwise_precedes (parts : List Part) (picks : Picks) :
    (Manifest.of parts picks).Pairwise (Precedes parts) := by
  refine (pairwise_mergeSort_stable ?_ ?_ (pairwise_leads_unsorted parts picks)).imp ?_
  · intro a b c
    simp only [decide_eq_true_eq]
    omega
  · intro a b
    simp only [Bool.or_eq_true, decide_eq_true_eq]
    omega
  · intro a b
    simp only [decide_eq_true_eq]
    rintro ⟨hle, htie⟩
    rcases Int.lt_or_eq_of_le hle with hlt | heq
    · exact .inl hlt
    · exact .inr ⟨heq, htie (Int.le_of_eq heq.symm)⟩

theorem nodup_of (hd : DistinctIds parts) (picks : Picks) : (Manifest.of parts picks).Nodup := by
  rw [Manifest.of, (List.mergeSort_perm _ _).nodup_iff]
  apply List.Nodup.of_map (·.part)
  have hparts : parts.Nodup := List.Nodup.of_map _ hd
  rw [map_part_unsorted, List.nodup_append]
  refine ⟨hparts.filter _, (hparts.filter _).filter _, ?_⟩
  rintro p hp q hq rfl
  have hc := (List.mem_filter.1 (List.mem_filter.1 hq).1).2
  have hm := (List.mem_filter.1 hp).2
  rw [Part.isMandatory_of_isConfigurable hc] at hm
  cases hm

theorem eq_of_part_eq {a b : ManifestLine} (ha : a ∈ Manifest.of parts picks)
    (hb : b ∈ Manifest.of parts picks) (h : a.part = b.part) : a = b := by
  obtain ⟨p, source⟩ := a
  obtain ⟨q, source'⟩ := b
  obtain rfl : p = q := h
  obtain ⟨-, ⟨hm, hs⟩ | ⟨hc, hs⟩⟩ := mem_of.1 ha <;>
    obtain ⟨-, ⟨hm', hs'⟩ | ⟨hc', hs'⟩⟩ := mem_of.1 hb
  · rw [show source = source' from hs.trans hs'.symm]
  · rw [Part.isMandatory_of_isConfigurable hc'] at hm
    cases hm
  · rw [Part.isMandatory_of_isConfigurable hc] at hm'
    cases hm'
  · rw [hs] at hs'
    cases hs'
    rfl

theorem linesFor_eq_singleton (hd : DistinctIds parts) (hline : line ∈ Manifest.of parts picks) :
    (Manifest.of parts picks).linesFor line.part = [line] := by
  refine eq_singleton_of_nodup ((nodup_of hd picks).filter _)
    (List.mem_filter.2 ⟨hline, beq_self_eq_true _⟩) ?_
  intro other hother
  obtain ⟨hother, hid⟩ := List.mem_filter.1 hother
  exact eq_of_part_eq hother hline
    (hd.eq_of_id (mem_of.1 hother).1 (mem_of.1 hline).1 (eq_of_beq hid))

theorem linesFor_mandatory (hd : DistinctIds parts) (picks : Picks) (hp : p ∈ parts)
    (hm : p.isMandatory) : (Manifest.of parts picks).linesFor p = [⟨p, .mandatory⟩] := by
  have hline : ⟨p, .mandatory⟩ ∈ Manifest.of parts picks := mem_of.2 ⟨hp, .inl ⟨hm, rfl⟩⟩
  exact linesFor_eq_singleton hd hline

theorem linesFor_configurable (hd : DistinctIds parts) (picks : Picks) (hp : p ∈ parts)
    (hc : p.isConfigurable) :
    (Manifest.of parts picks).linesFor p = (Assoc.get? picks p.id).toList.map (⟨p, ·⟩) := by
  cases hpick : Assoc.get? picks p.id with
  | some source =>
    have hline : ⟨p, source⟩ ∈ Manifest.of parts picks := mem_of.2 ⟨hp, .inr ⟨hc, hpick⟩⟩
    exact linesFor_eq_singleton hd hline
  | none =>
    rw [linesFor, Option.toList_none, List.map_nil, List.filter_eq_nil_iff]
    intro line hline hid
    obtain ⟨hmem, hwhy⟩ := mem_of.1 hline
    rw [hd.eq_of_id hmem hp (eq_of_beq hid), Part.isMandatory_of_isConfigurable hc, hpick] at hwhy
    simp at hwhy

theorem mem_exclusiveLines : line ∈ (Manifest.of parts picks).exclusiveLines key ↔
    line.part ∈ parts ∧ line.part.isExclusive ∧ line.part.groupKey = key ∧
      Assoc.get? picks line.part.id = some line.source := by
  rw [exclusiveLines, List.mem_filter, mem_of, Bool.and_eq_true, beq_iff_eq]
  constructor
  · rintro ⟨⟨hp, ⟨hm, -⟩ | ⟨-, hpick⟩⟩, he, hkey⟩
    · rw [Part.isMandatory_of_isConfigurable (Part.isConfigurable_of_isExclusive he)] at hm
      cases hm
    · exact ⟨hp, he, hkey, hpick⟩
  · rintro ⟨hp, he, hkey, hpick⟩
    exact ⟨⟨hp, .inr ⟨Part.isConfigurable_of_isExclusive he, hpick⟩⟩, he, hkey⟩

theorem exclusiveLines_resolve (hd : DistinctIds parts) (user order logic : List String) (key : String) :
    let m := Manifest.of parts (resolve parts user order logic)
    match groupSource parts user order logic key with
    | none => m.exclusiveLines key = []
    | some source => ∃ p ∈ parts, p.isExclusive ∧ p.groupKey = key ∧
        p.id ∈ source.among user order logic ∧ m.exclusiveLines key = [⟨p, source⟩] := by
  intro m
  have hholder {line : ManifestLine} (hline : line ∈ m.exclusiveLines key) :
      line.part ∈ parts ∧
        groupHolder parts user order logic key = some (line.part.id, line.source) := by
    obtain ⟨hp, he, rfl, hpick⟩ := mem_exclusiveLines.1 hline
    exact ⟨hp, (get?_resolve_exclusive hd hp he).1 hpick⟩
  cases hs : groupSource parts user order logic key with
  | none =>
    rw [List.eq_nil_iff_forall_not_mem]
    intro line hline
    have hheld := (hholder hline).2
    rw [groupHolder_eq_none hs] at hheld
    cases hheld
  | some source =>
    obtain ⟨id, hid, hc, hheld⟩ := groupHolder_of_groupSource hs
    obtain ⟨p, hp, rfl, he, rfl⟩ := contends_iff.1 hc
    have hline : ⟨p, source⟩ ∈ m.exclusiveLines p.groupKey :=
      mem_exclusiveLines.2 ⟨hp, he, rfl, (get?_resolve_exclusive hd hp he).2 hheld⟩
    refine ⟨p, hp, he, rfl, hid, eq_singleton_of_nodup ((nodup_of hd _).filter _) hline ?_⟩
    intro other hother
    obtain ⟨hq, hheld'⟩ := hholder hother
    rw [hheld, Option.some.injEq, Prod.mk.injEq] at hheld'
    exact eq_of_part_eq (List.mem_filter.1 hother).1 (List.mem_filter.1 hline).1
      (hd.eq_of_id hq hp hheld'.1.symm)

end Manifest

namespace Fulfilment

def cab : Part := { id := "cab", number := "C7", name := "CAB", designator := "TOP", functionCode := 2 }

def canopy : Part :=
  { id := "canopy", number := "C8", name := "CANOPY", designator := "TOP", functionCode := 2 }

def lights : Part := { id := "lights", name := "CANOPY LIGHTS", functionCode := 1, preference := 5 }

def topInventory : Inventory :=
  Inventory.reindex
    { parts := [{ id := "frame", number := "F1", preference := 5 }, lights, canopy, cab]
      rules := [{ id := "r1", target := "lights", condition := { includes := ["CANOPY"] } }] }

def topOrder : Order := { lines := [{ category := "TOP", selection := "C8" }] }

end Fulfilment

end Kitting
