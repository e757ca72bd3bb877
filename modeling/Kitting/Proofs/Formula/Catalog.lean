import Kitting.Proofs.Formula.Grammar

namespace Kitting.Formula

open Text

def IsCatalogTerm (t : String) : Prop := IsPhrase t ∧ Unbracketed t.toList ∧ '/' ∉ t.toList

instance (t : String) : Decidable (IsCatalogTerm t) := inferInstanceAs (Decidable (_ ∧ _ ∧ _))

def WritesWord (x : String) (text : List Char) : Prop := IsWord x ∧ text = x.toList

theorem unbracketed_slashMark {m : List Char} (h : SlashMark m) : Unbracketed m := by
  obtain ⟨hlead, htrail⟩ := h
  rw [← List.singleton_append]
  exact (unbracketed_blank hlead).append (.append (by decide) (unbracketed_blank htrail))

def Grammar.catalog : Grammar where
  IsTerm := IsCatalogTerm
  IsMark m := SlashMark m ∨ OrMark m
  Excludes := Spaced WritesWord
  unbracketed_term h := h.2.1
  unbracketed_mark h := h.elim unbracketed_slashMark unbracketed_orMark
  unbracketed_excludes h := by
    refine h.unbracketed_of ?_
    rintro _ _ ⟨hx, rfl⟩
    exact hx.unbracketed

theorem forall₂_toList {xs : List String} {texts : List (List Char)}
    (h : List.Forall₂ WritesWord xs texts) : texts = xs.map String.toList := by
  induction h with
  | nil => rfl
  | cons hx _ ih => rw [List.map_cons, hx.2, ih]

theorem wordChars_of_spaced {xs : List String} {text : List Char} (h : Spaced WritesWord xs text) :
    wordChars text = xs.map String.toList := by
  refine forall₂_toList (h.forall₂_wordChars ?_)
  rintro _ _ ⟨hx, rfl⟩
  exact ⟨mt String.toList_eq_nil_iff.1 hx.ne_empty, hx.solid⟩

theorem catalogExcludes_of_spaced {xs : List String} {text : List Char} (h : Spaced WritesWord xs text) :
    catalogExcludes text = (xs.map upper).filter (· ≠ "OR") := by
  rw [catalogExcludes, wordChars_of_spaced h, cleanTerms_toList]
  intro x hx
  obtain ⟨_, hword, -⟩ := h.exists_writes hx
  exact ⟨trimChars_eq_self hword.solid, hword.ne_empty⟩

theorem separates_of_joined {ts : List String} {text : List Char}
    (h : Joined Grammar.catalog.IsMark ts text) (hlength : 2 ≤ ts.length) :
    (text.contains '/' || (wordChars text).any isOrWord) = true := by
  -- A group shows by its first mark that it is no single term.
  cases h with
  | single t => simp at hlength
  | @cons t ts m rest hm hrest =>
    rcases hm with ⟨-, -⟩ | ⟨hne, hlead, hw, hne', htrail⟩
    · simp
    · rename_i lead w trail
      have hmem : w ∈ wordChars (t.toList ++ (lead ++ w ++ trail) ++ rest) := by
        rw [show t.toList ++ (lead ++ w ++ trail) ++ rest =
          (t.toList ++ lead) ++ w ++ (trail ++ rest) by simp]
        refine mem_pieces_of_delimited ?_ ?_ ?_ fun c hc => not_isBlank_of_isOrWord hw hc
        · intro c hc
          rw [List.getLast?_append_of_ne_nil _ hne] at hc
          exact hlead c (List.mem_of_mem_getLast? hc)
        · intro c hc
          rw [List.head?_append_of_ne_nil _ hne'] at hc
          exact htrail c (List.mem_of_mem_head? hc)
        · rintro rfl
          cases hw
      rw [Bool.or_eq_true, List.any_eq_true]
      exact .inr ⟨w, hmem, hw⟩

theorem catalogClause_of_writes {c : Clause} {text : List Char}
    (h : Grammar.catalog.WritesClause c text) : catalogClause text = some c.upper := by
  cases h with
  | @term t ht =>
    obtain ⟨hphrase, -, hslash⟩ := ht
    have hsingle : (t.toList.contains '/' || (wordChars t.toList).any isOrWord) = false := by
      rw [Bool.or_eq_false_iff, List.any_eq_false]
      refine ⟨by simpa using hslash, ?_⟩
      intro w hw
      simp [hphrase.not_isOrWord hw]
    have hne : t.toList.isEmpty = false := by simpa using hphrase.ne_empty
    simp only [catalogClause, hphrase.trimChars_toList, hsingle, hne, Bool.false_eq_true, if_false]
    rfl
  | @group ts _ hlength hts hjoined =>
    have htrim := hjoined.trimChars_eq fun t ht => (hts t ht).1
    have hsplit := splitSlashOr_joined hjoined fun t ht => ⟨(hts t ht).1, (hts t ht).2.2⟩
    have hclean := cleanTerms_of_isPhrase fun t ht => (hts t ht).1
    have hne : (ts.map upper).isEmpty = false := by
      cases ts with
      | nil => simp at hlength
      | cons => rfl
    simp only [catalogClause, htrim, separates_of_joined hjoined hlength, if_true, hsplit, hclean,
      Clause.ofGroup, hne, Bool.false_eq_true, if_false, Clause.upper]

theorem parse_catalog_of_spaced {items : List Item} {s : String}
    (h : Spaced Grammar.catalog.Writes items s.toList) :
    parse .catalog s =
      { includes := (Item.terms items).map upper ++ (Item.loose items).map upper
        excludes := ((Item.excluded items).map upper).filter (· ≠ "OR")
        groups := (Item.groups items).map (·.map upper)
        raw := s } := by
  obtain ⟨hexcluded, hclauses, hloose⟩ := Grammar.sections h
  have hexcludes := flatMap_of_forall₂ hexcluded fun _ _ => catalogExcludes_of_spaced
  have hclauses := filterMap_of_forall₂ hclauses fun _ _ => catalogClause_of_writes
  have hwords : ((Item.loose items).map String.toList).filter (!·.any isBracket) =
      (Item.loose items).map String.toList := by
    rw [List.filter_eq_self]
    intro w hw
    obtain ⟨w, hmem, rfl⟩ := List.mem_map.1 hw
    have hunbracketed := (Grammar.isWord_of_mem_loose h hmem).unbracketed
    simpa [Unbracketed] using hunbracketed
  rw [parse, ofChars, ofCatalogChars, hexcludes, hclauses, hloose, hwords, filterMap_term?_upper,
    filterMap_group?_upper, List.map_map, String.ofList_toList]
  simp only [Item.excluded, List.flatMap, List.map_flatten, List.filter_flatten, List.map_map]
  rfl

def itemsOf (c : Condition) : List Item :=
  c.includes.map (fun t => .clause (.term t)) ++ c.groups.map (fun ts => .clause (.group ts)) ++
    c.excludes.map fun x => .exclusion [x]

def render (c : Condition) : String :=
  " ".intercalate (c.includes.map (fun t => "(" ++ t ++ ")") ++
    c.groups.map (fun ts => "(" ++ "/".intercalate ts ++ ")") ++ c.excludes.map fun x => "[" ++ x ++ "]")

structure Writable (c : Condition) : Prop where
  includes : ∀ t ∈ c.includes, IsCatalogTerm t ∧ upper t = t
  groups : ∀ ts ∈ c.groups, 2 ≤ ts.length ∧ ∀ t ∈ ts, IsCatalogTerm t ∧ upper t = t
  excludes : ∀ x ∈ c.excludes, IsWord x ∧ upper x = x

instance (c : Condition) : Decidable (Writable c) :=
  decidable_of_iff ((∀ t ∈ c.includes, IsCatalogTerm t ∧ upper t = t) ∧
      (∀ ts ∈ c.groups, 2 ≤ ts.length ∧ ∀ t ∈ ts, IsCatalogTerm t ∧ upper t = t) ∧
      ∀ x ∈ c.excludes, IsWord x ∧ upper x = x)
    ⟨fun ⟨h₁, h₂, h₃⟩ => ⟨h₁, h₂, h₃⟩, fun h => ⟨h.includes, h.groups, h.excludes⟩⟩

theorem joined_intercalate {Mark : List Char → Prop} {m : List Char} (hm : Mark m) {ts : List String}
    (hne : ts ≠ []) : Joined Mark ts (m.intercalate (ts.map String.toList)) := by
  induction ts with
  | nil => exact absurd rfl hne
  | cons t ts ih =>
    cases ts with
    | nil =>
      rw [List.map_singleton, List.intercalate_singleton]
      exact .single t
    | cons t' ts =>
      rw [List.map_cons, List.intercalate_cons_of_ne_nil (by simp)]
      exact .cons hm (ih (by simp))

theorem spaced_render {c : Condition} (h : Writable c) :
    Spaced Grammar.catalog.Writes (itemsOf c) (render c).toList := by
  have hslash : Grammar.catalog.IsMark ['/'] := .inl (SlashMark.mk blank_nil blank_nil)
  rw [render, String.toList_intercalate]
  refine Spaced.intercalate ?_
  rw [List.map_append, List.map_append, itemsOf]
  simp only [List.map_map]
  refine List.rel_append (List.rel_append ?_ ?_) ?_
  · rw [List.forall₂_map_left_iff, List.forall₂_map_right_iff, List.forall₂_same]
    intro t ht
    have hclause : Grammar.catalog.WritesClause (.term t) t.toList := .term (h.includes t ht).1
    simpa using Grammar.Writes.clause hclause
  · rw [List.forall₂_map_left_iff, List.forall₂_map_right_iff, List.forall₂_same]
    intro ts hts
    obtain ⟨hlength, hterms⟩ := h.groups ts hts
    have hne : ts ≠ [] := by
      rintro rfl
      simp at hlength
    have hclause : Grammar.catalog.WritesClause (.group ts) (['/'].intercalate (ts.map String.toList)) :=
      .group hlength (fun t ht => (hterms t ht).1) (joined_intercalate hslash hne)
    simpa [String.toList_intercalate] using Grammar.Writes.clause hclause
  · rw [List.forall₂_map_left_iff, List.forall₂_map_right_iff, List.forall₂_same]
    intro x hx
    have hexcluded : Grammar.catalog.Excludes [x] ([' '].intercalate [x.toList]) :=
      Spaced.intercalate (.cons ⟨(h.excludes x hx).1, rfl⟩ .nil)
    simpa using Grammar.Writes.exclusion hexcluded

theorem filterMap_clause?_itemsOf (c : Condition) :
    (itemsOf c).filterMap Item.clause? = c.includes.map .term ++ c.groups.map .group := by
  simp [itemsOf, List.filterMap_map, Function.comp_def, Item.clause?]

theorem terms_itemsOf (c : Condition) : Item.terms (itemsOf c) = c.includes := by
  simp [Item.terms, filterMap_clause?_itemsOf, List.filterMap_map, Function.comp_def, Clause.term?]

theorem groups_itemsOf (c : Condition) : Item.groups (itemsOf c) = c.groups := by
  simp [Item.groups, filterMap_clause?_itemsOf, List.filterMap_map, Function.comp_def, Clause.group?]

theorem excluded_itemsOf (c : Condition) : Item.excluded (itemsOf c) = c.excludes := by
  have hsingle : (c.excludes.map fun x => [x]).flatten = c.excludes := by
    rw [← List.flatMap_def, List.flatMap_singleton']
  simpa [Item.excluded, itemsOf, List.filterMap_map, Function.comp_def, Item.exclusion?] using hsingle

theorem loose_itemsOf (c : Condition) : Item.loose (itemsOf c) = [] := by
  simp [Item.loose, itemsOf, List.filterMap_map, Function.comp_def, Item.word?]

theorem map_upper_eq_self {ts : List String} (h : ∀ t ∈ ts, upper t = t) : ts.map upper = ts := by
  rw [List.map_congr_left h, List.map_id']

theorem parse_render {c : Condition} (h : Writable c) : parse .catalog (render c) =
    { c with excludes := c.excludes.filter (· ≠ "OR"), raw := render c } := by
  have hgroups : c.groups.map (·.map upper) = c.groups := by
    have hmap : ∀ ts ∈ c.groups, ts.map upper = ts :=
      fun ts hts => map_upper_eq_self fun t ht => ((h.groups ts hts).2 t ht).2
    rw [List.map_congr_left hmap, List.map_id']
  rw [parse_catalog_of_spaced (spaced_render h), terms_itemsOf, groups_itemsOf, excluded_itemsOf,
    loose_itemsOf, map_upper_eq_self fun t ht => (h.includes t ht).2,
    map_upper_eq_self fun x hx => (h.excludes x hx).2, hgroups, List.map_nil, List.append_nil]

/-- However its items are mixed and spaced, a formula of a catalog gives its terms and then its loose words,
its groups, and its exclusions without the word OR, all in upper case and in the order in which they were
written. So a condition is read back from its own formula. -/
theorem parse_catalog :
    (∀ (items : List Item) (s : String), Spaced Grammar.catalog.Writes items s.toList →
      parse .catalog s =
        { includes := (Item.terms items).map upper ++ (Item.loose items).map upper
          excludes := ((Item.excluded items).map upper).filter (· ≠ "OR")
          groups := (Item.groups items).map (·.map upper)
          raw := s }) ∧
    ∀ c : Condition, Writable c → parse .catalog (render c) =
      { c with excludes := c.excludes.filter (· ≠ "OR"), raw := render c } :=
  ⟨fun _ _ => parse_catalog_of_spaced, fun _ => parse_render⟩

def cabFormula : String := "(cab oR\tfold down cab) [tt or ac] Maß (front seat) [tt or ac]"

def cabItems : List Item :=
  [.clause (.group ["cab", "fold down cab"]), .exclusion ["tt", "or", "ac"], .word "Maß",
    .clause (.term "front seat"), .exclusion ["tt", "or", "ac"]]

theorem spaced_cabFormula : Spaced Grammar.catalog.Writes cabItems cabFormula.toList := by
  have hmark : OrMark ([' '] ++ ['o', 'R'] ++ ['\t']) :=
    .mk (by decide) (by decide) (by decide) (by decide) (by decide)
  have hterms : ∀ t ∈ ["cab", "fold down cab"], IsCatalogTerm t := by decide +kernel
  have hgroup : Grammar.catalog.WritesClause (.group ["cab", "fold down cab"])
      ("cab".toList ++ [' ', 'o', 'R', '\t'] ++ "fold down cab".toList) :=
    .group (by decide) hterms (.cons (.inr hmark) (.single _))
  have hterm : Grammar.catalog.WritesClause (.term "front seat") "front seat".toList :=
    .term (show IsCatalogTerm "front seat" by decide +kernel)
  have hexcluded : Grammar.catalog.Excludes ["tt", "or", "ac"]
      ([' '].intercalate ["tt".toList, "or".toList, "ac".toList]) :=
    Spaced.intercalate (.cons ⟨by decide, rfl⟩ (.cons ⟨by decide, rfl⟩ (.cons ⟨by decide, rfl⟩ .nil)))
  have hitems := List.Forall₂.cons (Grammar.Writes.clause hgroup)
    (.cons (Grammar.Writes.exclusion hexcluded) (.cons (Grammar.Writes.word (show IsWord "Maß" by decide))
      (.cons (Grammar.Writes.clause hterm) (.cons (Grammar.Writes.exclusion hexcluded) .nil))))
  exact Spaced.intercalate hitems

def cabCondition : Condition :=
  { includes := ["FRONT SEAT"], groups := [["CAB", "FOLD DOWN CAB"]], excludes := ["TT", "1/2"] }

theorem parse_catalog_cabFormula :
    Spaced Grammar.catalog.Writes cabItems cabFormula.toList ∧ Writable cabCondition ∧
      parse .catalog cabFormula =
        { includes := ["FRONT SEAT", "MASS"], excludes := ["TT", "AC", "TT", "AC"]
          groups := [["CAB", "FOLD DOWN CAB"]], raw := cabFormula } ∧
      parse .catalog (render cabCondition) = { cabCondition with raw := render cabCondition } := by
  have hcondition : Writable cabCondition := by decide +kernel
  refine ⟨spaced_cabFormula, hcondition, ?_, ?_⟩
  · rw [parse_catalog.1 cabItems cabFormula spaced_cabFormula]
    decide +kernel
  · rw [parse_catalog.2 cabCondition hcondition]
    decide +kernel

end Kitting.Formula
