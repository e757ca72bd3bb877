import Kitting.Index
import Kitting.Proofs.FirstOccurrence

namespace Kitting

variable {parts : List Part} {p q : Part} {id : String}

def DistinctIds (parts : List Part) : Prop := (parts.map Part.id).Nodup

instance : Decidable (DistinctIds parts) := inferInstanceAs (Decidable (List.Nodup _))

theorem DistinctIds.eq_of_id (h : DistinctIds parts) (hp : p ∈ parts) (hq : q ∈ parts)
    (hid : p.id = q.id) : p = q :=
  List.inj_on_of_nodup_map h hp hq hid

theorem DistinctIds.perm {parts' : List Part} (h : DistinctIds parts) (hp : parts.Perm parts') :
    DistinctIds parts' :=
  (hp.map Part.id).nodup_iff.1 h

theorem mem_of_partOf? (h : partOf? parts id = some p) : p ∈ parts ∧ p.id = id := by
  constructor
  · exact List.mem_reverse.1 (List.mem_of_find?_eq_some h)
  · have hid := List.find?_some h
    exact eq_of_beq hid

theorem partOf?_eq_none_iff : partOf? parts id = none ↔ ∀ p ∈ parts, p.id ≠ id := by
  simp [partOf?]

theorem partOf?_eq_some_iff (h : DistinctIds parts) :
    partOf? parts id = some p ↔ p ∈ parts ∧ p.id = id := by
  constructor
  · exact mem_of_partOf?
  · rintro ⟨hp, hid⟩
    cases hq : partOf? parts id with
    | none => exact absurd hid (partOf?_eq_none_iff.1 hq p hp)
    | some q =>
      obtain ⟨hqp, hqid⟩ := mem_of_partOf? hq
      rw [h.eq_of_id hqp hp (hqid.trans hid.symm)]

theorem partNumbered?_eq_some_iff {number : String} : partNumbered? parts number = some p ↔
    Token.canonical number ≠ "" ∧ First (fun q => Token.canonical q.number = Token.canonical number) parts p := by
  simp only [partNumbered?]
  split
  case isTrue h => simp [String.isEmpty_iff.1 h]
  case isFalse h =>
    rw [String.isEmpty_iff] at h
    rw [find?_eq_some_iff_first]
    simp only [beq_iff_eq, h, ne_eq, not_false_eq_true, true_and]

theorem Part.isConfigurable_of_isExclusive (h : p.isExclusive) : p.isConfigurable := by
  simp only [Part.isExclusive, beq_iff_eq] at h
  simp [Part.isConfigurable, h]

end Kitting
