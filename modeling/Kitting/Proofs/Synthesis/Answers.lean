import Kitting.Proofs.Synthesis.Evidence
import Kitting.Synthesis.Proposal

namespace Kitting.Proposal

variable {book : EvidenceBook} {parts : List Part} {v : Json} {vs : List Json} {number : String} {x : Double}

def InBounds (x : Double) : Prop := (Double.zero false).le x = true ∧ x.le (.ofFraction false 1 1) = true

instance (x : Double) : Decidable (InBounds x) := inferInstanceAs (Decidable (_ ∧ _))

def named? (v : Json) : Option String :=
  match v with
  | .obj _ =>
    let number := Text.trim (saidText (said v "partNumber" "part_number"))
    if number.isEmpty then none else some number
  | _ => none

def statedConfidence (v : Json) : Except Error Double :=
  match v.member? "confidence" with
  | some c => confidenceOf c
  | none => .ok defaultConfidence

def subject (book : EvidenceBook) (number : String) : String :=
  ((evidenceFor? book number).map (·.partNumber)).getD number

theorem inBounds_zero : InBounds (.zero false) := by decide +kernel

theorem inBounds_one : InBounds (.ofFraction false 1 1) := by decide +kernel

theorem inBounds_defaultConfidence : InBounds defaultConfidence := by decide +kernel

theorem inBounds_clamp (h : clamp x ≠ .nan) : InBounds (clamp x) := by
  unfold clamp at h ⊢
  split
  · exact inBounds_zero
  split
  · exact inBounds_one
  rename_i hlow hhigh
  rw [if_neg hlow, if_neg hhigh] at h
  rw [Bool.not_eq_true] at hlow hhigh
  have hzero : (Double.zero false != .nan) = true := by decide
  have hone : (Double.ofFraction false 1 1 != .nan) = true := by decide +kernel
  constructor
  · rw [Double.le, hlow, hzero, bne_iff_ne.2 h]
    rfl
  · rw [Double.le, hhigh, hone, bne_iff_ne.2 h]
    rfl

theorem inBounds_of_confidenceOf {c : Json} (h : confidenceOf c = .ok x) (hx : x ≠ .nan) : InBounds x := by
  unfold confidenceOf at h
  split at h
  · cases h
    exact inBounds_clamp hx
  · rename_i b
    cases h
    cases b with
    | false => exact inBounds_zero
    | true => exact inBounds_one
  · split at h
    · cases h
      exact inBounds_clamp hx
    · cases h
  · rename_i s
    cases h
    cases hs : Double.ofText? s with
    | none => exact inBounds_defaultConfidence
    | some y =>
      rw [hs] at hx
      exact inBounds_clamp hx
  · cases h
    exact inBounds_defaultConfidence

theorem inBounds_of_statedConfidence (h : statedConfidence v = .ok x) (hx : x ≠ .nan) : InBounds x := by
  rw [statedConfidence] at h
  split at h
  · exact inBounds_of_confidenceOf h hx
  · cases h
    exact inBounds_defaultConfidence

theorem ofItem_of_named?_eq_none (h : named? v = none) : ofItem book parts v = .ok none := by
  cases v with
  | obj ms =>
    simp only [named?] at h
    split at h
    · rename_i hempty
      exact if_pos hempty
    · cases h
  | _ => rfl

theorem exists_ofItem (book : EvidenceBook) (parts : List Part) (h : named? v = some number)
    (hconfidence : statedConfidence v = .ok x) (hx : x ≠ .nan) :
    ∃ p, ofItem book parts v = .ok (some p) ∧ p.partNumber = subject book number ∧ p.confidence = x ∧
      p.evidenceCount = (((evidenceFor? book number).map (·.orders)).getD []).length ∧
      p.matchedOrders = (((evidenceFor? book number).map (·.orders)).getD []).eraseDups ∧
      p.expression = Text.trim (saidText ((v.member? "expression").getD .null)) ∧
      p.indicators = match said v "indicators" "keyIndicators" with
        | .arr vs => vs.map Json.text
        | _ => [] := by
  unfold named? at h
  split at h
  · rename_i ms
    simp only at h
    split at h
    · cases h
    rename_i hempty
    cases h
    rw [statedConfidence] at hconfidence
    cases hmember : (Json.obj ms).member? "confidence" with
    | some c =>
      rw [hmember] at hconfidence
      simp only at hconfidence
      simp only [ofItem, if_neg hempty, hmember, hconfidence, bind, Except.bind, if_neg hx]
      exact ⟨_, rfl, rfl, rfl, rfl, rfl, rfl, rfl⟩
    | none =>
      rw [hmember] at hconfidence
      cases hconfidence
      simp only [ofItem, if_neg hempty, hmember, bind, Except.bind, if_neg hx]
      exact ⟨_, rfl, rfl, rfl, rfl, rfl, rfl, rfl⟩
  · cases h

theorem exists_ofItems (book : EvidenceBook) (parts : List Part)
    (h : ∀ v ∈ vs, (named? v).isSome → ∃ x, statedConfidence v = .ok x ∧ x ≠ .nan) :
    ∃ ps, ofItems book parts vs = .ok ps ∧
      ps.map (·.partNumber) = (vs.filterMap named?).map (subject book) ∧
      ∀ p ∈ ps, InBounds p.confidence := by
  induction vs with
  | nil => exact ⟨[], rfl, rfl, fun _ h => absurd h List.not_mem_nil⟩
  | cons v vs ih =>
    obtain ⟨ps, hps, hnumbers, hbounds⟩ := ih fun w hw => h w (List.mem_cons_of_mem v hw)
    cases hnamed : named? v with
    | none =>
      refine ⟨ps, ?_, by rw [List.filterMap_cons_none hnamed, hnumbers], hbounds⟩
      rw [ofItems, ofItem_of_named?_eq_none hnamed, hps]
      rfl
    | some number =>
      obtain ⟨x, hx, hnan⟩ := h v List.mem_cons_self (Option.isSome_of_eq_some hnamed)
      obtain ⟨p, hp, hnumber, hconfidence, -⟩ := exists_ofItem book parts hnamed hx hnan
      refine ⟨p :: ps, ?_, ?_, ?_⟩
      · rw [ofItems, hp, hps]
        rfl
      · rw [List.filterMap_cons_some hnamed, List.map_cons, List.map_cons, hnumber, hnumbers]
      · exact List.forall_mem_cons.2 ⟨hconfidence ▸ inBounds_of_statedConfidence hx hnan, hbounds⟩

/-- The items of an answer are about a cluster: they name each of its part numbers and nothing else that has
evidence, and each of them with a confidence that is a number. -/
structure Covers (book : EvidenceBook) (items : List Json) (cluster : List String) : Prop where
  named : ∀ number ∈ cluster, number ∈ items.filterMap named?
  foreign : ∀ number ∈ items.filterMap named?, number ∈ cluster ∨ evidenceFor? book number = none
  acceptable : ∀ v ∈ items, (named? v).isSome → ∃ x, statedConfidence v = .ok x ∧ x ≠ .nan

theorem evidenceFor?_of_mem_keys (h : number ∈ Assoc.keys book) :
    ∃ e, Assoc.get? book number = some e ∧ evidenceFor? book number = some e := by
  obtain ⟨e, he⟩ := Assoc.mem_keys_iff.1 h
  exact ⟨e, he, by rw [evidenceFor?, he]; rfl⟩

theorem subject_of_mem_keys (hbook : book.Proper) (h : number ∈ Assoc.keys book) :
    subject book number = number := by
  obtain ⟨e, hget, hevidence⟩ := evidenceFor?_of_mem_keys h
  rw [subject, hevidence]
  exact hbook.keyed number e hget

theorem Covers.mem_subjects_iff {cluster : List String} (h : Covers book vs cluster) (hbook : book.Proper)
    (hcluster : ∀ n ∈ cluster, n ∈ Assoc.keys book) (hnumber : number ∈ Assoc.keys book) :
    number ∈ (vs.filterMap named?).map (subject book) ↔ number ∈ cluster := by
  constructor
  · intro hmem
    obtain ⟨n, hn, rfl⟩ := List.mem_map.1 hmem
    rcases h.foreign n hn with hin | hnone
    · rwa [subject_of_mem_keys hbook (hcluster n hin)]
    · have hself : subject book n = n := by rw [subject, hnone]; rfl
      rw [hself] at hnumber
      obtain ⟨e, -, he⟩ := evidenceFor?_of_mem_keys hnumber
      cases hnone.symm.trans he
  · intro hmem
    exact List.mem_map.2 ⟨number, h.named number hmem, subject_of_mem_keys hbook hnumber⟩

end Kitting.Proposal
