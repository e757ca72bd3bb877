import Kitting.Proofs.Matching.Order
import Kitting.Proofs.Number.Bounds

namespace Kitting

namespace Outcome

variable {o : Outcome}

theorem confidence_nonneg (h : 0 ≤ o.score) : 0 ≤ o.confidence := by
  rw [confidence]
  split
  · exact h
  · exact zero_le_one

theorem confidence_le_one (o : Outcome) : o.confidence ≤ 1 := by
  rw [confidence]
  split
  · assumption
  · exact le_rfl

theorem Record.reading_toJson {r : Record} (hscore : (Double.zero false).le r.score)
    (hlow : (Double.zero false).le r.confidence) (hhigh : r.confidence.le (.ofFraction false 1 1))
    (place : List String) : reading place r.toJson = pure r := by
  have hpart (place : List String) : Reading.strict? place ((r.partId.map Json.str).getD .null) = pure r.partId := by
    cases r.partId <;> rfl
  have hlevel (place : List String) : Reading.choice levels place (.str r.level.name) = pure r.level := by
    cases r.level <;> rfl
  have hprovenance (place : List String) :
      Reading.choice provenances place (.str r.provenance.name) = pure r.provenance := by
    cases r.provenance <;> rfl
  simp [reading, toJson, Reading.record, Fields.optional, Assoc.get?, hpart, hlevel, hprovenance, Reading.strict,
    Reading.atLeast_float hscore, Reading.between_float hlow hhigh]
  rfl

theorem reading_record (h : 0 ≤ o.score) (place : List String) :
    Record.reading place o.record.toJson = pure o.record :=
  Record.reading_toJson (Double.zero_le_ofRat h) (Double.zero_le_ofRat (confidence_nonneg h))
    (Double.ofRat_le_one (confidence_nonneg h) o.confidence_le_one) place

structure Coherent (conditionOf : String → Option Condition) (o : Outcome) : Prop where
  uncertain : o.level = .uncertain ↔ o.partId = none
  nothing : o.provenance = .nothing ↔ o.partId = none
  low : o.score < 1 / 2 ↔ o.partId = none
  blank : o.partId = none → o.partNumber = "" ∧ o.partName = "" ∧ o.formula = ""
  review : o.level = .reviewNeeded ↔ o.provenance = .hybrid
  ruled : o.provenance = .logic → ∃ id c, o.partId = some id ∧ conditionOf id = some c ∧ o.formula = c.raw
  unruled : o.provenance ≠ .logic → o.formula = ""
  bounded : 0 ≤ o.confidence ∧ o.confidence ≤ 1
  valid : ∀ place, (Record.reading place o.record.toJson).result = .ok o.record

end Outcome

namespace Matching

open Outcome

variable {index : Index} {rules : List Rule} {conditionOf : String → Option Condition} {history : List Precedent}
  {line : OrderLine} {ip : IndexedPart} {o : Outcome} {s : Rat}

theorem coherent_unresolved (h : 0 ≤ s) (hs : s < 1 / 2) : Coherent conditionOf (unresolved line s) where
  uncertain := iff_of_true rfl rfl
  nothing := iff_of_true rfl rfl
  low := iff_of_true hs rfl
  blank _ := ⟨rfl, rfl, rfl⟩
  review := iff_of_false nofun nofun
  ruled := nofun
  unruled _ := rfl
  bounded := ⟨confidence_nonneg h, confidence_le_one _⟩
  valid place := congrArg Check.result (reading_record h place)

theorem coherent_answer {level : Level} {provenance : Provenance} {formula : String} (hs : 1 / 2 ≤ s)
    (hlevel : level ≠ .uncertain) (hprovenance : provenance ≠ .nothing)
    (hreview : level = .reviewNeeded ↔ provenance = .hybrid)
    (hruled : provenance = .logic → ∃ c, conditionOf ip.part.id = some c ∧ formula = c.raw)
    (hunruled : provenance ≠ .logic → formula = "") :
    Coherent conditionOf (answer line ip s level provenance formula) where
  uncertain := iff_of_false hlevel nofun
  nothing := iff_of_false hprovenance nofun
  low := iff_of_false (not_lt.2 hs) nofun
  blank := nofun
  review := hreview
  ruled h := by
    obtain ⟨c, hc, hraw⟩ := hruled h
    exact ⟨_, c, rfl, hc, hraw⟩
  unruled := hunruled
  bounded := ⟨confidence_nonneg (by simp only [answer]; linarith), confidence_le_one _⟩
  valid place := congrArg Check.result (reading_record (by simp only [answer]; linarith) place)

theorem coherent_rule {c : Condition} (line : OrderLine) (hc : conditionOf ip.part.id = some c) :
    Coherent conditionOf (answer line ip (9 / 5) .autoVerified .logic c.raw) :=
  coherent_answer (by norm_num) nofun nofun (iff_of_false nofun nofun) (fun _ => ⟨c, hc, rfl⟩) (absurd rfl)

theorem coherent_auto {provenance : Provenance} (line : OrderLine) (ip : IndexedPart) (hs : 1 / 2 ≤ s)
    (h : provenance = .learned ∨ provenance = .ai) :
    Coherent conditionOf (answer line ip s .autoVerified provenance "") := by
  obtain rfl | rfl := h
  all_goals exact coherent_answer hs nofun nofun (iff_of_false nofun nofun) nofun fun _ => rfl

theorem Tiered.coherent (h : Tiered index conditionOf history line o) : Coherent conditionOf o := by
  cases h with
  | verified _ hc => exact coherent_rule line hc
  | @named ip _ _ =>
    refine coherent_auto line ip (by norm_num) ?_
    split
    · exact .inl rfl
    · exact .inr rfl
  | learned => exact coherent_auto line _ (by norm_num) (.inl rfl)
  | @described ip _ _ hwords hmost =>
    rw [← overlap_eq]
    have hauto := (auto_le_overlap_iff hwords).2 hmost
    exact coherent_auto line ip (by linarith) (.inr rfl)
  | @suggested ip _ _ hwords _ hhalf =>
    rw [← overlap_eq]
    exact coherent_answer ((review_le_overlap_iff hwords).2 hhalf) nofun nofun (iff_of_true rfl rfl) nofun
      fun _ => rfl
  | @unresolved ip _ _ hfew =>
    rw [← overlap_eq]
    refine coherent_unresolved (overlap_nonneg _ _) ?_
    obtain hnone | hfew := hfew
    · rw [overlap_eq, hnone, Nat.cast_zero, div_zero]
      norm_num
    · have hwords : 0 < (words line).length := (Nat.zero_le _).trans_lt hfew
      exact not_le.1 (mt (review_le_overlap_iff hwords).1 (not_le.2 hfew))
  | vacant => exact coherent_unresolved le_rfl (by norm_num)

theorem coherent_scoreLine (index : Index) (rules : List Rule) (history : List Precedent) (line : OrderLine) :
    Coherent (conditionFor? rules) (scoreLine index rules history line) :=
  (scoreLine_eq_iff_tiered.1 rfl).coherent

theorem coherent_of_mem_sweep {ctx : Context} (h : o ∈ sweep index rules ctx) :
    Coherent (conditionFor? rules) o := by
  rw [sweep_eq, List.mem_map] at h
  obtain ⟨⟨ip, rule⟩, hmem, rfl⟩ := h
  obtain ⟨-, hfirst, -⟩ := mem_confirmed.1 hmem
  have hc : conditionFor? rules ip.part.id = some rule.condition := by
    rw [conditionFor?, ruleFor?_eq_some_iff.2 hfirst]
    rfl
  -- The line of such an outcome is none of the order.
  exact coherent_rule ⟨orderCategory, "公式验证: " ++ rule.condition.raw, "1"⟩ hc

theorem coherent_of_mem_ofOrder {knowledge : Knowledge} {model : String} {lines : List OrderLine}
    (h : o ∈ ofOrder index rules knowledge model lines) : Coherent (conditionFor? rules) o := by
  rw [ofOrder, List.mem_append, List.mem_filter, List.mem_map] at h
  obtain hswept | ⟨⟨line, -, rfl⟩, -⟩ := h
  · exact coherent_of_mem_sweep hswept
  · exact coherent_scoreLine _ _ _ _

theorem exists_rules (index : Index) (conditionOf : String → Option Condition) :
    ∃ rules : List Rule, ∀ ip ∈ index, conditionFor? rules ip.part.id = conditionOf ip.part.id :=
  ⟨rulesOf conditionOf (index.map (·.part.id)), fun _ hip => by
    rw [conditionFor?_rulesOf, if_pos (List.mem_map_of_mem hip)]⟩

end Matching

end Kitting
