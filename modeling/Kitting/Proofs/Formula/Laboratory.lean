import Kitting.Proofs.Formula.Grammar

namespace Kitting.Formula

open Text

def IsLaboratoryTerm (t : String) : Prop := IsPhrase t ∧ Unbracketed t.toList

instance (t : String) : Decidable (IsLaboratoryTerm t) := inferInstanceAs (Decidable (_ ∧ _))

def Grammar.laboratory : Grammar where
  IsTerm := IsLaboratoryTerm
  IsMark := OrMark
  Excludes xs text := (∀ x ∈ xs, IsLaboratoryTerm x) ∧ Joined OrMark xs text
  unbracketed_term h := h.2
  unbracketed_mark := unbracketed_orMark
  unbracketed_excludes h := unbracketed_joined (fun _ => unbracketed_orMark) h.2 fun x hx => (h.1 x hx).2

def wholePhrase (ws : List String) : List String :=
  let phrase := upper (" ".intercalate ws)
  if 2 < phrase.length then [phrase] else []

theorem OrMark.upper {m : List Char} (h : OrMark m) : OrMark (upperChars m) := by
  obtain ⟨hne, hlead, hw, hne', htrail⟩ := h
  rw [upperChars_append, upperChars_append, upperChars_of_isBlank hlead, upperChars_of_isBlank htrail]
  exact .mk hne hlead ((isOrWord_upperChars _).trans hw) hne' htrail

theorem Joined.upper {ts : List String} {text : List Char} (h : Joined OrMark ts text) :
    Joined OrMark (ts.map Text.upper) (upperChars text) := by
  induction h with
  | single t =>
    rw [← toList_upper]
    exact .single _
  | cons hm _ ih =>
    rw [upperChars_append, upperChars_append, ← toList_upper]
    exact .cons hm.upper ih

theorem isPhrase_of_mem_map_upper {ts : List String} (hts : ∀ t ∈ ts, IsPhrase t) :
    ∀ t ∈ ts.map upper, IsPhrase t := by
  intro _ ht
  obtain ⟨t, hmem, rfl⟩ := List.mem_map.1 ht
  exact (hts t hmem).upper

theorem splitOr_upperChars {ts : List String} {text : List Char} (h : Joined OrMark ts text)
    (hts : ∀ t ∈ ts, IsPhrase t) : splitOr (upperChars text) = (ts.map upper).map String.toList :=
  splitOr_joined h.upper (isPhrase_of_mem_map_upper hts)

theorem laboratoryExcludes_of_joined {xs : List String} {text : List Char}
    (h : Grammar.laboratory.Excludes xs text) : laboratoryExcludes text = xs.map upper := by
  obtain ⟨hterms, hjoined⟩ := h
  have hphrases : ∀ x ∈ xs, IsPhrase x := fun x hx => (hterms x hx).1
  rw [laboratoryExcludes, hjoined.trimChars_eq hphrases, splitOr_joined hjoined hphrases,
    cleanTerms_of_isPhrase hphrases]

theorem laboratoryClause_of_writes {c : Clause} {text : List Char}
    (h : Grammar.laboratory.WritesClause c text) : laboratoryClause text = some c.upper := by
  cases h with
  | @term t ht =>
    obtain ⟨hphrase, -⟩ := ht
    have hne : (upperChars t.toList).isEmpty = false := by simpa using hphrase.ne_empty
    have hsplit : splitOr (upperChars t.toList) = [(upper t).toList] :=
      splitOr_upperChars (Joined.single t) (by simpa using hphrase)
    simp only [laboratoryClause, hphrase.trimChars_toList, hne, Bool.false_eq_true, if_false, hsplit]
    rfl
  | @group ts _ hlength hts hjoined =>
    have hphrases : ∀ t ∈ ts, IsPhrase t := fun t ht => (hts t ht).1
    have hne : (upperChars text).isEmpty = false := by simpa using (hjoined.getLast? hphrases).1
    have hsplit := splitOr_upperChars hjoined hphrases
    have hclean := cleanTerms_of_isPhrase (isPhrase_of_mem_map_upper hphrases)
    obtain ⟨f, f', fs, hfields⟩ : ∃ f f' fs, (ts.map upper).map String.toList = f :: f' :: fs := by
      obtain _ | ⟨t, _ | ⟨t', ts⟩⟩ := ts
      · simp at hlength
      · simp at hlength
      · exact ⟨(upper t).toList, (upper t').toList, (ts.map upper).map String.toList, by
          simp only [List.map_cons]⟩
    have hterms : ts ≠ [] := by
      rintro rfl
      simp at hlength
    simp only [laboratoryClause, hjoined.trimChars_eq hphrases, hne, Bool.false_eq_true, if_false]
    rw [hsplit, hfields]
    change Clause.ofGroup (cleanTerms (f :: f' :: fs)) = some (Clause.group ts).upper
    rw [← hfields, hclean]
    simp [Clause.ofGroup, Clause.upper, hterms]

theorem unbracketed_upperChars {cs : List Char} (h : Unbracketed cs) : Unbracketed (upperChars cs) := by
  intro d hd
  rw [Bool.eq_false_iff]
  intro hbracket
  obtain ⟨c, hc, hd⟩ := mem_upperChars.1 hd
  have hdc : d = c := by
    simp only [isBracket, Bool.or_eq_true, beq_iff_eq] at hbracket
    rcases hbracket with ((rfl | rfl) | rfl) | rfl <;>
      exact eq_of_mem_upperChar hd (by decide) (by decide)
  rw [hdc, h c hc] at hbracket
  cases hbracket

theorem wholeTerm_eq {outside : List Char} {ws : List String}
    (h : wordChars outside = ws.map String.toList) (hws : ∀ w ∈ ws, Unbracketed w.toList) :
    wholeTerm outside = wholePhrase ws := by
  have hphrase : upperChars ([' '].intercalate (ws.map String.toList)) =
      (upper (" ".intercalate ws)).toList := by
    rw [toList_upper, String.toList_intercalate]
    rfl
  have hjoined : Unbracketed (" ".intercalate ws).toList := by
    rw [String.toList_intercalate]
    have hspaced : Spaced (fun (_ : String) text => Unbracketed text) ws
        ([' '].intercalate (ws.map String.toList)) := by
      refine Spaced.intercalate ?_
      rwa [List.forall₂_map_right_iff, List.forall₂_same]
    exact hspaced.unbracketed_of fun _ _ hunbracketed => hunbracketed
  have hnone : (upper (" ".intercalate ws)).toList.any isBracket = false := by
    rw [List.any_eq_false, toList_upper]
    intro c hc
    simp [unbracketed_upperChars hjoined c hc]
  simp only [wholeTerm, h, hphrase, hnone, Bool.false_eq_true, if_false, String.length_toList,
    String.ofList_toList, wholePhrase]

/-- However its items are mixed and spaced, a formula of a laboratory sheet gives its groups and its
exclusions, in upper case and in the order in which they were written. Its terms are those in parentheses;
where there are no parentheses at all, it is the loose words as one phrase. -/
theorem parse_laboratory (items : List Item) (s : String)
    (h : Spaced Grammar.laboratory.Writes items s.toList) :
    parse .laboratory s =
      { includes := if items.filterMap Item.clause? = [] then wholePhrase (Item.loose items)
          else (Item.terms items).map upper
        excludes := (Item.excluded items).map upper
        groups := (Item.groups items).map (·.map upper)
        raw := s } := by
  obtain ⟨hexcluded, hclauses, hloose⟩ := Grammar.sections h
  have hexcludes := flatMap_of_forall₂ hexcluded fun _ _ => laboratoryExcludes_of_joined
  have hclauses := filterMap_of_forall₂ hclauses fun _ _ => laboratoryClause_of_writes
  have hwhole := wholeTerm_eq hloose fun w hw => (Grammar.isWord_of_mem_loose h hw).unbracketed
  rw [parse, ofChars, ofLaboratoryChars, hexcludes, hclauses, hwhole, filterMap_term?_upper,
    filterMap_group?_upper, String.ofList_toList]
  simp only [Item.excluded, List.flatMap, List.map_flatten, List.isEmpty_iff, List.map_eq_nil_iff]
  rfl

def seatFormula : String := "[front seat or tt] (cab oR\tfold/down cab) Maß (back seat)"

def seatItems : List Item :=
  [.exclusion ["front seat", "tt"], .clause (.group ["cab", "fold/down cab"]), .word "Maß",
    .clause (.term "back seat")]

theorem spaced_seatFormula : Spaced Grammar.laboratory.Writes seatItems seatFormula.toList := by
  have hmark : OrMark ([' '] ++ ['o', 'R'] ++ ['\t']) :=
    .mk (by decide) (by decide) (by decide) (by decide) (by decide)
  have hmark' : OrMark ([' '] ++ ['o', 'r'] ++ [' ']) :=
    .mk (by decide) (by decide) (by decide) (by decide) (by decide)
  have hexclusions : ∀ x ∈ ["front seat", "tt"], IsLaboratoryTerm x := by decide +kernel
  have hexcluded : Grammar.laboratory.Excludes ["front seat", "tt"]
      ("front seat".toList ++ [' ', 'o', 'r', ' '] ++ "tt".toList) :=
    ⟨hexclusions, .cons hmark' (.single _)⟩
  have hterms : ∀ t ∈ ["cab", "fold/down cab"], IsLaboratoryTerm t := by decide +kernel
  have hgroup : Grammar.laboratory.WritesClause (.group ["cab", "fold/down cab"])
      ("cab".toList ++ [' ', 'o', 'R', '\t'] ++ "fold/down cab".toList) :=
    .group (by decide) hterms (.cons hmark (.single _))
  have hterm : Grammar.laboratory.WritesClause (.term "back seat") "back seat".toList :=
    .term (show IsLaboratoryTerm "back seat" by decide +kernel)
  have hitems := List.Forall₂.cons (Grammar.Writes.exclusion hexcluded)
    (.cons (Grammar.Writes.clause hgroup) (.cons (Grammar.Writes.word (show IsWord "Maß" by decide))
      (.cons (Grammar.Writes.clause hterm) .nil)))
  exact Spaced.intercalate hitems

def looseFormula : String := "heavy [tt] Maß"

def looseItems : List Item := [.word "heavy", .exclusion ["tt"], .word "Maß"]

theorem spaced_looseFormula : Spaced Grammar.laboratory.Writes looseItems looseFormula.toList := by
  have hexcluded : Grammar.laboratory.Excludes ["tt"] "tt".toList := ⟨by decide +kernel, .single _⟩
  have hitems := List.Forall₂.cons (Grammar.Writes.word (show IsWord "heavy" by decide))
    (.cons (Grammar.Writes.exclusion hexcluded)
      (.cons (Grammar.Writes.word (show IsWord "Maß" by decide)) .nil))
  exact Spaced.intercalate hitems

theorem parse_laboratory_looseWord :
    Spaced Grammar.laboratory.Writes seatItems seatFormula.toList ∧
      Spaced Grammar.laboratory.Writes looseItems looseFormula.toList ∧
      parse .laboratory seatFormula =
        { includes := ["BACK SEAT"], excludes := ["FRONT SEAT", "TT"]
          groups := [["CAB", "FOLD/DOWN CAB"]], raw := seatFormula } ∧
      parse .laboratory looseFormula =
        { includes := ["HEAVY MASS"], excludes := ["TT"], raw := looseFormula } := by
  refine ⟨spaced_seatFormula, spaced_looseFormula, ?_, ?_⟩
  · rw [parse_laboratory seatItems seatFormula spaced_seatFormula]
    decide +kernel
  · rw [parse_laboratory looseItems looseFormula spaced_looseFormula]
    decide +kernel

end Kitting.Formula
