import Kitting.Formula.Dialect
import Kitting.Proofs.Evaluation
import Kitting.Proofs.Text.UpperCase

namespace Kitting

open Text

namespace Condition

variable {c : Condition} {term : String}

structure IsTerm (term : String) : Prop where
  trimmed : trim term = term
  upper : upper term = term
  ne_empty : term ≠ ""

instance (term : String) : Decidable (IsTerm term) :=
  decidable_of_iff (trim term = term ∧ Text.upper term = term ∧ term ≠ "")
    ⟨fun ⟨htrim, hupper, hne⟩ => ⟨htrim, hupper, hne⟩, fun h => ⟨h.trimmed, h.upper, h.ne_empty⟩⟩

theorem isTerm_upper {cs : List Char} (htrim : trimChars cs = cs) (hne : cs ≠ []) :
    IsTerm (.ofList (upperChars cs)) where
  trimmed := trim_ofList (trimChars_upperChars htrim)
  upper := by rw [Text.upper, String.toList_ofList, upperChars_upperChars]
  ne_empty h := hne (by simpa [← String.toList_inj] using h)

def Proper (c : Condition) : Prop := ∀ term ∈ c.allTerms, IsTerm term

instance (c : Condition) : Decidable c.Proper := inferInstanceAs (Decidable (∀ _ ∈ _, _))

def Trimmed (c : Condition) : Prop := ∀ term ∈ c.allTerms, trim term = term

instance (c : Condition) : Decidable c.Trimmed := inferInstanceAs (Decidable (∀ _ ∈ _, _))

theorem proper_iff : c.Proper ↔ (∀ term ∈ c.includes, IsTerm term) ∧
    (∀ term ∈ c.excludes, IsTerm term) ∧ ∀ group ∈ c.groups, ∀ term ∈ group, IsTerm term := by
  simp only [Proper, allTerms, List.mem_append, List.mem_flatten, or_imp, forall_and, and_assoc,
    forall_exists_index, and_imp]
  exact and_congr_right fun _ => and_congr_right fun _ => forall_comm.trans (forall_congr' fun _ => forall_comm)

theorem isTerm_of_mem_terms {v : Json} (h : term ∈ terms v) : IsTerm term := by
  cases v with
  | arr vs =>
    simp only [terms, List.mem_filterMap, List.mem_map] at h
    obtain ⟨_, ⟨v, -, rfl⟩, hterm⟩ := h
    split at hterm
    · cases hterm
    · rename_i hne
      rw [← Option.some.inj hterm]
      exact isTerm_upper (trim_eq_self_iff.1 (trim_trim _)) fun hnil =>
        hne (String.isEmpty_iff.2 (String.toList_eq_nil_iff.1 hnil))
  | null | bool | int | float | str | obj => simp [terms] at h

theorem isTerm_of_mem_termGroups {v : Json} {group : List String} (hgroup : group ∈ termGroups v)
    (h : term ∈ group) : IsTerm term := by
  cases v with
  | arr vs =>
    obtain ⟨v, -, rfl⟩ := List.mem_map.1 (List.mem_of_mem_filter hgroup)
    exact isTerm_of_mem_terms h
  | null | bool | int | float | str | obj => simp [termGroups] at hgroup

theorem proper_of_reading {place : List String} {v : Json} (h : (reading place v).result = .ok c) :
    c.Proper := by
  rw [reading, Reading.record_eq_ok_iff] at h
  obtain ⟨members, rfl, h⟩ := h
  simp only [Check.seq_eq_ok_iff, Check.map_eq_ok_iff, Fields.result_optional_pure, Except.ok.injEq] at h
  obtain ⟨_, _, ⟨_, _, ⟨_, _, ⟨_, rfl, rfl⟩, rfl, rfl⟩, rfl, rfl⟩, -, rfl⟩ := h
  rw [proper_iff]
  refine ⟨fun term hterm => ?_, fun term hterm => ?_, fun group hgroup term hterm => ?_⟩
  · cases hget : Assoc.get? members "includes" with
    | none => simp [hget] at hterm
    | some v => exact isTerm_of_mem_terms (v := v) (by simpa [hget] using hterm)
  · cases hget : Assoc.get? members "excludes" with
    | none => simp [hget] at hterm
    | some v => exact isTerm_of_mem_terms (v := v) (by simpa [hget] using hterm)
  · cases hget : Assoc.get? members "or_groups" with
    | none => simp [hget] at hgroup
    | some v => exact isTerm_of_mem_termGroups (v := v) (by simpa [hget] using hgroup) hterm

end Condition

namespace Formula

open Condition

variable {term : String} {inner : List Char} {clause : Clause}

def Clause.terms : Clause → List String
  | .term t => [t]
  | .group ts => ts

theorem isTerm_of_mem_cleanTerms {fields : List (List Char)} (h : term ∈ cleanTerms fields) : IsTerm term := by
  obtain ⟨field, -, hfield⟩ := List.mem_filterMap.1 h
  split at hfield
  · cases hfield
  · rename_i hne
    rw [← Option.some.inj hfield]
    exact isTerm_upper (trimChars_trimChars field) fun hnil => hne (upperChars_eq_nil.2 hnil)

theorem terms_of_ofGroup {ts : List String} (h : Clause.ofGroup ts = some clause) : clause.terms = ts := by
  rw [Clause.ofGroup] at h
  split at h
  · cases h
  · rw [← Option.some.inj h, Clause.terms]

theorem isTerm_of_catalogClause (h : catalogClause inner = some clause) : ∀ term ∈ clause.terms, IsTerm term := by
  rw [catalogClause] at h
  split at h
  · rw [terms_of_ofGroup h]
    exact fun _ => isTerm_of_mem_cleanTerms
  split at h
  · cases h
  · rename_i hne
    rw [← Option.some.inj h, Clause.terms, List.forall_mem_singleton]
    exact isTerm_upper (trimChars_trimChars inner) (by simpa using hne)

theorem isTerm_of_laboratoryClause (h : laboratoryClause inner = some clause) : ∀ term ∈ clause.terms, IsTerm term := by
  rw [laboratoryClause] at h
  split at h
  · cases h
  rename_i hne
  split at h
  · rw [← Option.some.inj h, Clause.terms, List.forall_mem_singleton]
    exact isTerm_upper (trimChars_trimChars inner) (by simpa using hne)
  · rw [terms_of_ofGroup h]
    exact fun _ => isTerm_of_mem_cleanTerms

theorem isTerm_of_mem_wholeTerm {outside : List Char} (h : term ∈ wholeTerm outside) : IsTerm term := by
  rw [wholeTerm] at h
  split at h
  · simp at h
  split at h
  · rename_i hlong
    rw [List.mem_singleton.1 h]
    refine isTerm_upper (trimChars_intercalate fun _ => of_mem_pieces) fun hnil => ?_
    simp [hnil] at hlong
  · simp at h

theorem isTerm_of_mem_wordChars {word : List Char} (h : word ∈ wordChars inner) : IsTerm (.ofList (upperChars word)) :=
  isTerm_upper (trimChars_eq_self (of_mem_pieces h).2) (of_mem_pieces h).1

theorem isTerm_of_mem_clauses {read : List Char → Option Clause} (inners : List (List Char))
    (h : ∀ inner clause, read inner = some clause → ∀ term ∈ clause.terms, IsTerm term) :
    (∀ term ∈ (inners.filterMap read).filterMap Clause.term?, IsTerm term) ∧
      ∀ group ∈ (inners.filterMap read).filterMap Clause.group?, ∀ term ∈ group, IsTerm term := by
  have hclause {clause : Clause} (hmem : clause ∈ inners.filterMap read) : ∀ term ∈ clause.terms, IsTerm term := by
    obtain ⟨inner, -, hinner⟩ := List.mem_filterMap.1 hmem
    exact h inner clause hinner
  constructor
  · intro term hterm
    obtain ⟨clause, hmem, hterm⟩ := List.mem_filterMap.1 hterm
    cases clause with
    | term t => exact hclause hmem term (by simpa [Clause.term?, Clause.terms, eq_comm] using hterm)
    | group ts => cases hterm
  · intro group hgroup
    obtain ⟨clause, hmem, hgroup⟩ := List.mem_filterMap.1 hgroup
    cases clause with
    | term t => cases hgroup
    | group ts => exact Option.some.inj hgroup ▸ hclause hmem

theorem proper_parse (dialect : Dialect) (formula : String) : (parse dialect formula).Proper := by
  rw [proper_iff, parse]
  cases dialect with
  | catalog =>
    obtain ⟨hterms, hgroups⟩ := isTerm_of_mem_clauses (spans '(' ')' (dropSpans '[' ']' formula.toList))
      fun _ _ => isTerm_of_catalogClause
    refine ⟨fun term hterm => ?_, fun term hterm => ?_, hgroups⟩
    · rcases List.mem_append.1 hterm with hterm | hterm
      · exact hterms term hterm
      · obtain ⟨word, hword, rfl⟩ := List.mem_map.1 hterm
        exact isTerm_of_mem_wordChars (List.mem_of_mem_filter hword)
    · obtain ⟨inner, -, hterm⟩ := List.mem_flatMap.1 hterm
      exact isTerm_of_mem_cleanTerms (List.mem_of_mem_filter hterm)
  | laboratory =>
    obtain ⟨hterms, hgroups⟩ := isTerm_of_mem_clauses (spans '(' ')' (dropSpans '[' ']' formula.toList))
      fun _ _ => isTerm_of_laboratoryClause
    refine ⟨fun term hterm => ?_, fun term hterm => ?_, hgroups⟩
    · simp only [ofChars, ofLaboratoryChars] at hterm
      split at hterm
      · exact isTerm_of_mem_wholeTerm hterm
      · exact hterms term hterm
    · obtain ⟨inner, -, hterm⟩ := List.mem_flatMap.1 hterm
      exact isTerm_of_mem_cleanTerms hterm

end Formula

end Kitting
