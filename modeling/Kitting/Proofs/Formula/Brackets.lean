import Kitting.Proofs.Formula.Catalog
import Kitting.Proofs.Formula.LetterCase
import Kitting.Proofs.Formula.Terms

namespace Kitting

open Text

def Condition.asked (c : Condition) : List String := c.includes ++ c.groups.flatten

namespace Formula

variable {opening closing b : Char} {cs inner : List Char} {terms : List String}

def Mentioned (b : Char) (terms : List String) : Prop := ∃ term ∈ terms, b ∈ term.toList

instance : Decidable (Mentioned b terms) := List.decidableBEx _ terms

/-- The character stands between an opening one and the next closing one. -/
def Enclosed (opening closing b : Char) (text : List Char) : Prop :=
  ∃ u inner v, text = u ++ opening :: inner ++ closing :: v ∧ closing ∉ inner ∧ b ∈ inner

theorem exists_of_mem_spansFrom {pending : Option (List Char)} (hpending : ∀ p ∈ pending, closing ∉ p)
    (h : inner ∈ (segmentsFrom opening closing pending cs).filterMap Segment.inner?) :
    closing ∉ inner ∧ ∃ u v, (pending.elim cs fun p => opening :: p.reverse ++ cs) =
      u ++ opening :: inner ++ closing :: v := by
  induction cs generalizing pending with
  | nil =>
    cases pending with
    | none => cases h
    | some p =>
      obtain ⟨s, hs, hinner⟩ := List.mem_filterMap.1 h
      obtain ⟨c, -, rfl⟩ := List.mem_map.1 hs
      cases hinner
  | cons c cs ih =>
    cases pending with
    | none =>
      by_cases hc : c = opening
      · rw [segmentsFrom, if_pos hc] at h
        obtain ⟨hclosing, u, v, heq⟩ := ih (by simp) h
        exact ⟨hclosing, u, v, hc ▸ heq⟩
      · rw [segmentsFrom, if_neg hc] at h
        obtain ⟨hclosing, u, v, heq⟩ := ih (by simp) h
        exact ⟨hclosing, c :: u, v, congrArg (c :: ·) heq⟩
    | some p =>
      have hp : closing ∉ p := hpending p rfl
      by_cases hc : c = closing
      · rw [segmentsFrom, if_pos hc] at h
        rcases List.mem_cons.1 h with rfl | h
        · exact ⟨by simpa using hp, [], cs, by simp [hc]⟩
        · obtain ⟨hclosing, u, v, heq⟩ := ih (by simp) h
          refine ⟨hclosing, opening :: p.reverse ++ c :: u, v, ?_⟩
          simp only [Option.elim] at heq ⊢
          simp [heq]
      · rw [segmentsFrom, if_neg hc] at h
        obtain ⟨hclosing, u, v, heq⟩ := ih (by simp [Ne.symm hc, hp]) h
        exact ⟨hclosing, u, v, by simpa using heq⟩

theorem exists_mem_spansFrom (hne : opening ≠ closing) (hclosing : closing ∉ inner) (hb : b ∈ inner)
    (pending : Option (List Char)) (u v : List Char) :
    ∃ inner' ∈ (segmentsFrom opening closing pending (u ++ opening :: inner ++ closing :: v)).filterMap
      Segment.inner?, b ∈ inner' := by
  induction u generalizing pending with
  | nil =>
    cases pending with
    | none =>
      rw [List.nil_append, ← segments, segments_span hclosing]
      exact ⟨inner, List.mem_cons_self, hb⟩
    | some p =>
      rw [List.nil_append, List.cons_append, segmentsFrom, if_neg hne, segmentsFrom_some hclosing]
      exact ⟨_, List.mem_cons_self, List.mem_append_right _ hb⟩
  | cons c u ih =>
    cases pending with
    | none =>
      by_cases hc : c = opening
      · rw [List.cons_append, List.cons_append, segmentsFrom, if_pos hc]
        exact ih (some [])
      · rw [List.cons_append, List.cons_append, segmentsFrom, if_neg hc]
        exact ih none
    | some p =>
      by_cases hc : c = closing
      · rw [List.cons_append, List.cons_append, segmentsFrom, if_pos hc]
        obtain ⟨inner', hinner, hmem⟩ := ih none
        exact ⟨inner', List.mem_cons_of_mem _ hinner, hmem⟩
      · rw [List.cons_append, List.cons_append, segmentsFrom, if_neg hc]
        exact ih (some (c :: p))

theorem exists_mem_spans_iff (hne : opening ≠ closing) :
    (∃ inner ∈ spans opening closing cs, b ∈ inner) ↔ Enclosed opening closing b cs := by
  constructor
  · rintro ⟨inner, hinner, hb⟩
    have hspan : inner ∈ (segmentsFrom opening closing none cs).filterMap Segment.inner? := hinner
    obtain ⟨hclosing, u, v, heq⟩ := exists_of_mem_spansFrom (by simp) hspan
    exact ⟨u, inner, v, heq, hclosing, hb⟩
  · rintro ⟨u, inner, v, rfl, hclosing, hb⟩
    exact exists_mem_spansFrom hne hclosing hb none u v

theorem exists_mem_splitWith_iff {after? : List Char → Option (List Char)} {Mark : List Char → Prop}
    (hmarks : Recognizes after? Mark) (hb : ∀ m, Mark m → b ∉ m) (fuel : Nat) (cs : List Char) :
    (∃ field ∈ splitWith after? fuel cs, b ∈ field) ↔ b ∈ cs := by
  induction fuel generalizing cs with
  | zero => simp [splitWith]
  | succ fuel ih =>
    cases cs with
    | nil => simp [splitWith]
    | cons c cs =>
      rw [splitWith]
      cases hafter : after? (c :: cs) with
      | some rest =>
        obtain ⟨m, hm, heq, -⟩ := (hmarks.eq_some_iff _ _).1 hafter
        rw [heq]
        simp [ih, hb m hm]
      | none =>
        have hrest := ih cs
        obtain ⟨w, ws, hw⟩ := List.exists_cons_of_ne_nil (splitWith_ne_nil after? fuel cs)
        rw [hw] at hrest ⊢
        simp only [consHead, List.mem_cons, exists_eq_or_imp] at hrest ⊢
        rw [← hrest, or_assoc]

theorem not_isBlank_of_isBracket (hb : isBracket b) : isBlank b = false := by
  rw [Bool.eq_false_iff]
  intro hblank
  have hsingle : Blank [b] := by simpa [Blank] using hblank
  exact absurd List.mem_cons_self ((unbracketed_blank hsingle).notMem hb)

theorem elim_ofGroup (ts : List String) : (Clause.ofGroup ts).elim [] Clause.terms = ts := by
  rw [Clause.ofGroup]
  split
  case isTrue h => exact (List.isEmpty_iff.1 h).symm
  case isFalse => rfl

section Terms

variable (hb : isBracket b)
include hb

theorem mem_upperChars_iff_of_isBracket : b ∈ upperChars cs ↔ b ∈ cs :=
  (caseless_of_isBracket hb).mem_upperChars_iff

theorem mentioned_cleanTerms (fields : List (List Char)) :
    Mentioned b (cleanTerms fields) ↔ ∃ field ∈ fields, b ∈ field := by
  have hmem (field : List Char) : b ∈ upperChars (trimChars field) ↔ b ∈ field :=
    (mem_upperChars_iff_of_isBracket hb).trans (mem_trimChars_iff (not_isBlank_of_isBracket hb))
  constructor
  · rintro ⟨term, hterm, hb⟩
    obtain ⟨field, hfield, hclean⟩ := List.mem_filterMap.1 hterm
    refine ⟨field, hfield, (hmem field).1 ?_⟩
    split at hclean
    · cases hclean
    · cases hclean
      simpa using hb
  · rintro ⟨field, hfield, hb⟩
    rw [← hmem] at hb
    refine ⟨.ofList (upperChars (trimChars field)), List.mem_filterMap.2 ⟨field, hfield, ?_⟩, by simpa using hb⟩
    split
    · rename_i hnil
      rw [hnil] at hb
      cases hb
    · rfl

theorem notMem_of_slashOr {m : List Char} (hm : SlashMark m ∨ OrMark m) : b ∉ m :=
  (hm.elim unbracketed_slashMark unbracketed_orMark).notMem hb

theorem mentioned_catalogExcludes (inner : List Char) : Mentioned b (catalogExcludes inner) ↔ b ∈ inner := by
  have hor : b ∉ "OR".toList := Unbracketed.notMem (by decide) hb
  rw [← exists_mem_pieces_iff (not_isBlank_of_isBracket hb), ← wordChars, ← mentioned_cleanTerms hb]
  constructor
  · rintro ⟨term, hterm, hmem⟩
    exact ⟨term, List.mem_of_mem_filter hterm, hmem⟩
  · rintro ⟨term, hterm, hmem⟩
    refine ⟨term, List.mem_filter.2 ⟨hterm, decide_eq_true ?_⟩, hmem⟩
    rintro rfl
    exact hor hmem

theorem mentioned_laboratoryExcludes (inner : List Char) : Mentioned b (laboratoryExcludes inner) ↔ b ∈ inner := by
  rw [laboratoryExcludes, mentioned_cleanTerms hb, splitOr,
    exists_mem_splitWith_iff recognizes_or fun m hm => notMem_of_slashOr hb (.inr hm)]
  exact mem_trimChars_iff (not_isBlank_of_isBracket hb)

theorem mentioned_catalogClause (inner : List Char) :
    Mentioned b ((catalogClause inner).elim [] Clause.terms) ↔ b ∈ inner := by
  rw [← mem_trimChars_iff (not_isBlank_of_isBracket hb), catalogClause]
  split
  · rw [elim_ofGroup, mentioned_cleanTerms hb, splitSlashOr]
    exact exists_mem_splitWith_iff recognizes_slashOr (fun m hm => notMem_of_slashOr hb hm) _ _
  · split
    · rename_i hnil
      rw [List.isEmpty_iff.1 hnil]
      simp [Mentioned]
    · simp [Mentioned, Clause.terms, mem_upperChars_iff_of_isBracket hb]

theorem mentioned_laboratoryClause (inner : List Char) :
    Mentioned b ((laboratoryClause inner).elim [] Clause.terms) ↔ b ∈ inner := by
  have hupper : b ∈ upperChars (trimChars inner) ↔ b ∈ inner :=
    (mem_upperChars_iff_of_isBracket hb).trans (mem_trimChars_iff (not_isBlank_of_isBracket hb))
  rw [← hupper, laboratoryClause]
  split
  · rename_i hnil
    rw [List.isEmpty_iff.1 hnil]
    simp [Mentioned]
  · split
    · simp [Mentioned, Clause.terms]
    · rw [elim_ofGroup, mentioned_cleanTerms hb, splitOr]
      exact exists_mem_splitWith_iff recognizes_or (fun m hm => notMem_of_slashOr hb (.inr hm)) _ _

end Terms

theorem not_mentioned_looseWords (hb : isBracket b) (outside : List Char) :
    ¬Mentioned b (((wordChars outside).filter (!·.any isBracket)).map fun w => String.ofList (upperChars w)) := by
  rintro ⟨term, hterm, hmem⟩
  obtain ⟨w, hw, rfl⟩ := List.mem_map.1 hterm
  rw [String.toList_ofList, mem_upperChars_iff_of_isBracket hb] at hmem
  have hnone := (List.mem_filter.1 hw).2
  rw [Bool.not_eq_true', List.any_eq_false] at hnone
  exact hnone b hmem hb

theorem not_mentioned_wholeTerm (hb : isBracket b) (outside : List Char) : ¬Mentioned b (wholeTerm outside) := by
  rintro ⟨term, hterm, hmem⟩
  rw [wholeTerm] at hterm
  split at hterm
  · cases hterm
  · rename_i hnone
    split at hterm
    · rw [List.mem_singleton.1 hterm, String.toList_ofList] at hmem
      exact hnone (List.any_eq_true.2 ⟨b, hmem, hb⟩)
    · cases hterm

theorem mentioned_clauses {read : List Char → Option Clause} (inners : List (List Char))
    (hread : ∀ inner, Mentioned b ((read inner).elim [] Clause.terms) ↔ b ∈ inner) :
    Mentioned b ((inners.filterMap read).filterMap Clause.term? ++
      ((inners.filterMap read).filterMap Clause.group?).flatten) ↔ ∃ inner ∈ inners, b ∈ inner := by
  induction inners with
  | nil => simp [Mentioned]
  | cons inner inners ih =>
    rw [List.exists_mem_cons_iff, ← ih, ← hread]
    cases hclause : read inner with
    | none =>
      rw [List.filterMap_cons_none hclause]
      simp [Mentioned]
    | some clause =>
      rw [List.filterMap_cons_some hclause]
      cases clause with
      | term t => simp [Mentioned, Clause.term?, Clause.group?, Clause.terms, or_and_right, exists_or]
      | group ts =>
        simp [Mentioned, Clause.term?, Clause.group?, Clause.terms, or_and_right, exists_or, or_left_comm]

theorem mentioned_flatMap {read : List Char → List String} (inners : List (List Char))
    (hread : ∀ inner, Mentioned b (read inner) ↔ b ∈ inner) :
    Mentioned b (inners.flatMap read) ↔ ∃ inner ∈ inners, b ∈ inner := by
  constructor
  · rintro ⟨term, hterm, hmem⟩
    obtain ⟨inner, hinner, hterm⟩ := List.mem_flatMap.1 hterm
    exact ⟨inner, hinner, (hread inner).1 ⟨term, hterm, hmem⟩⟩
  · rintro ⟨inner, hinner, hmem⟩
    obtain ⟨term, hterm, hmem⟩ := (hread inner).2 hmem
    exact ⟨term, List.mem_flatMap.2 ⟨inner, hinner, hterm⟩, hmem⟩

theorem mentioned_append {terms terms' : List String} :
    Mentioned b (terms ++ terms') ↔ Mentioned b terms ∨ Mentioned b terms' := by
  simp only [Mentioned, List.mem_append, or_and_right, exists_or]

theorem mentioned_excludes (hb : isBracket b) (dialect : Dialect) (text : List Char) :
    Mentioned b (ofChars dialect text).excludes ↔ Enclosed '[' ']' b text := by
  rw [← exists_mem_spans_iff (by decide)]
  cases dialect with
  | catalog => exact mentioned_flatMap _ (mentioned_catalogExcludes hb)
  | laboratory => exact mentioned_flatMap _ (mentioned_laboratoryExcludes hb)

theorem mentioned_asked (hb : isBracket b) (dialect : Dialect) (text : List Char) :
    Mentioned b (ofChars dialect text).asked ↔ Enclosed '(' ')' b (blankSpans '[' ']' text) := by
  rw [← exists_mem_spans_iff (by decide), ← dropSpans_eq_blankSpans (by decide), Condition.asked]
  cases dialect with
  | catalog =>
    rw [← mentioned_clauses _ (mentioned_catalogClause hb)]
    simp only [ofChars, ofCatalogChars, mentioned_append, not_mentioned_looseWords hb, or_false]
  | laboratory =>
    rw [← mentioned_clauses _ (mentioned_laboratoryClause hb)]
    simp only [ofChars, ofLaboratoryChars]
    split
    · rename_i hnone
      rw [List.isEmpty_iff.1 hnone, mentioned_append, or_iff_right (not_mentioned_wholeTerm hb _)]
      simp
    · rfl

theorem unbracketed_allTerms_iff (c : Condition) : (∀ term ∈ c.allTerms, Unbracketed term.toList) ↔
    ∀ b, isBracket b → ¬Mentioned b c.excludes ∧ ¬Mentioned b c.asked := by
  have hall (term : String) : term ∈ c.allTerms ↔ term ∈ c.excludes ∨ term ∈ c.asked := by
    simp only [Condition.allTerms, Condition.asked, List.mem_append]
    tauto
  constructor
  · intro h b hb
    constructor
    · rintro ⟨term, hterm, hmem⟩
      exact (h term ((hall term).2 (.inl hterm))).notMem hb hmem
    · rintro ⟨term, hterm, hmem⟩
      exact (h term ((hall term).2 (.inr hterm))).notMem hb hmem
  · intro h term hterm b hb
    rw [Bool.eq_false_iff]
    intro hbracket
    rcases (hall term).1 hterm with hterm | hterm
    · exact (h b hbracket).1 ⟨term, hterm, hb⟩
    · exact (h b hbracket).2 ⟨term, hterm, hb⟩

/-- Which brackets become part of a condition: of the exclusions those between `[` and the next `]`, and of the other
terms those that then stand between `(` and the next `)`. So none does exactly if no matched pair holds any. -/
theorem parse_brackets (dialect : Dialect) (formula : String) :
    (∀ b, isBracket b → (Mentioned b (parse dialect formula).excludes ↔ Enclosed '[' ']' b formula.toList) ∧
      (Mentioned b (parse dialect formula).asked ↔ Enclosed '(' ')' b (blankSpans '[' ']' formula.toList))) ∧
    ((∀ term ∈ (parse dialect formula).allTerms, Unbracketed term.toList) ↔
      ∀ b, isBracket b →
        ¬Enclosed '[' ']' b formula.toList ∧ ¬Enclosed '(' ')' b (blankSpans '[' ']' formula.toList)) := by
  have hkept (b : Char) (hb : isBracket b) := And.intro (mentioned_excludes hb dialect formula.toList)
    (mentioned_asked hb dialect formula.toList)
  refine ⟨hkept, ?_⟩
  rw [unbracketed_allTerms_iff]
  exact forall₂_congr fun b hb => and_congr (not_congr (hkept b hb).1) (not_congr (hkept b hb).2)

def nestedFormula : String := "(A(B) [T[X]] )C"

theorem parse_brackets_nestedFormula :
    isBracket '(' ∧ Mentioned '(' (parse .catalog nestedFormula).asked ∧
      isBracket '[' ∧ Mentioned '[' (parse .laboratory nestedFormula).excludes ∧
      (parse .catalog nestedFormula).asked = ["A(B"] := by
  have hcatalog := (parse_brackets .catalog nestedFormula).1 '(' (by decide)
  have hlaboratory := (parse_brackets .laboratory nestedFormula).1 '[' (by decide)
  refine ⟨by decide, hcatalog.2.2 ⟨[], "A(B".toList, "  ] )C".toList, by decide +kernel, by decide, by decide⟩,
    by decide, hlaboratory.1.2 ⟨"(A(B) ".toList, "T[X".toList, "] )C".toList, by decide +kernel, by decide, by decide⟩,
    by decide +kernel⟩

/-- Brackets inside of a matched pair become part of the terms, and these are looked for in orders. -/
theorem parse_keepsBracket :
    "A(B" ∈ (parse .catalog "(A(B)").includes ∧ "A(B" ∈ (parse .laboratory "(A(B)").includes ∧
      "T[X" ∈ (parse .catalog "[T[X]").excludes ∧ ¬Unbracketed "A(B".toList ∧ ¬Unbracketed "T[X".toList ∧
      (parse .catalog "(A(B)").holds (.ofTexts ["A(B"]) := by
  decide +kernel

end Formula

end Kitting
