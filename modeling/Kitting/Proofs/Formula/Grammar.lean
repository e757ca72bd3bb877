import Kitting.Formula.Dialect
import Kitting.Proofs.Formula.Phrases
import Kitting.Proofs.Formula.Spans
import Mathlib.Data.List.Forall2

/-!
How formulas are written.

A formula is a sequence of items with white space between them: exclusions in brackets, clauses in
parentheses, and loose words. The two dialects share this and differ in what a term is, what separates the
terms of a group, and how terms are excluded. In either, taking out the brackets and then the parentheses
finds the exclusions, the clauses and the words, each in the order in which they were written.
-/

namespace Kitting.Formula

open Text

/-- Things written one after the other, with white space between each and the next. -/
inductive Spaced {α : Type} (Writes : α → List Char → Prop) : List α → List Char → Prop
  | nil {gap : List Char} : Blank gap → Spaced Writes [] gap
  | cons {a : α} {as : List α} {lead text rest : List Char} : Blank lead → Writes a text →
      (as = [] ∨ rest.head?.any isBlank) → Spaced Writes as rest →
      Spaced Writes (a :: as) (lead ++ text ++ rest)

def Clause.upper : Clause → Clause
  | term t => .term (Text.upper t)
  | group ts => .group (ts.map Text.upper)

theorem filterMap_term?_upper (clauses : List Clause) :
    (clauses.map Clause.upper).filterMap Clause.term? = (clauses.filterMap Clause.term?).map upper := by
  rw [List.filterMap_map, List.map_filterMap]
  refine List.filterMap_congr ?_
  intro c _
  cases c <;> rfl

theorem filterMap_group?_upper (clauses : List Clause) :
    (clauses.map Clause.upper).filterMap Clause.group? =
      (clauses.filterMap Clause.group?).map (·.map upper) := by
  rw [List.filterMap_map, List.map_filterMap]
  refine List.filterMap_congr ?_
  intro c _
  cases c <;> rfl

inductive Item
  | exclusion (terms : List String)
  | clause (c : Clause)
  | word (w : String)
  deriving DecidableEq

namespace Item

def exclusion? : Item → Option (List String)
  | exclusion xs => some xs
  | clause _ => none
  | word _ => none

def clause? : Item → Option Clause
  | exclusion _ => none
  | clause c => some c
  | word _ => none

def word? : Item → Option String
  | exclusion _ => none
  | clause _ => none
  | word w => some w

def excluded (items : List Item) : List String := (items.filterMap exclusion?).flatten

def terms (items : List Item) : List String := (items.filterMap clause?).filterMap Clause.term?

def groups (items : List Item) : List (List String) := (items.filterMap clause?).filterMap Clause.group?

def loose (items : List Item) : List String := items.filterMap word?

theorem filterMap_clause?_filter (items : List Item) :
    (items.filter (·.exclusion?.isNone)).filterMap clause? = items.filterMap clause? := by
  rw [List.filterMap_filter]
  refine List.filterMap_congr ?_
  intro item _
  cases item <;> rfl

theorem loose_filter (items : List Item) :
    loose ((items.filter (·.exclusion?.isNone)).filter (·.clause?.isNone)) = loose items := by
  rw [loose, List.filter_filter, List.filterMap_filter, loose]
  refine List.filterMap_congr ?_
  intro item _
  cases item <;> rfl

end Item

def Unbracketed (cs : List Char) : Prop := ∀ c ∈ cs, isBracket c = false

instance (cs : List Char) : Decidable (Unbracketed cs) := List.decidableBAll _ cs

structure IsWord (w : String) : Prop where
  ne_empty : w ≠ ""
  solid : ∀ c ∈ w.toList, isBlank c = false
  unbracketed : Unbracketed w.toList

instance (w : String) : Decidable (IsWord w) :=
  decidable_of_iff (w ≠ "" ∧ w.toList.all (!isBlank ·) ∧ Unbracketed w.toList)
    ⟨fun ⟨h₁, h₂, h₃⟩ => ⟨h₁, by simpa using h₂, h₃⟩,
      fun h => ⟨h.ne_empty, by simpa using h.solid, h.unbracketed⟩⟩

/-- What a dialect writes inside of brackets and parentheses, where no further bracket stands. -/
structure Grammar where
  IsTerm : String → Prop
  IsMark : List Char → Prop
  Excludes : List String → List Char → Prop
  unbracketed_term : ∀ {t}, IsTerm t → Unbracketed t.toList
  unbracketed_mark : ∀ {m}, IsMark m → Unbracketed m
  unbracketed_excludes : ∀ {xs text}, Excludes xs text → Unbracketed text

namespace Grammar

inductive WritesClause (g : Grammar) : Clause → List Char → Prop
  | term {t : String} : g.IsTerm t → g.WritesClause (.term t) t.toList
  | group {ts : List String} {text : List Char} : 2 ≤ ts.length → (∀ t ∈ ts, g.IsTerm t) →
      Joined g.IsMark ts text → g.WritesClause (.group ts) text

inductive Writes (g : Grammar) : Item → List Char → Prop
  | exclusion {xs : List String} {text : List Char} : g.Excludes xs text →
      g.Writes (.exclusion xs) ('[' :: text ++ [']'])
  | clause {c : Clause} {text : List Char} : g.WritesClause c text →
      g.Writes (.clause c) ('(' :: text ++ [')'])
  | word {w : String} : IsWord w → g.Writes (.word w) w.toList

end Grammar

theorem unbracketed_blank {cs : List Char} (h : Blank cs) : Unbracketed cs := by
  intro c hc
  rw [Bool.eq_false_iff]
  intro hbracket
  simp only [isBracket, Bool.or_eq_true, beq_iff_eq] at hbracket
  have hblank := h c hc
  rcases hbracket with ((rfl | rfl) | rfl) | rfl <;> revert hblank <;> decide

theorem Unbracketed.append {as bs : List Char} (has : Unbracketed as) (hbs : Unbracketed bs) :
    Unbracketed (as ++ bs) :=
  fun c hc => (List.mem_append.1 hc).elim (has c) (hbs c)

theorem Unbracketed.notMem {cs : List Char} {c : Char} (h : Unbracketed cs) (hc : isBracket c) :
    c ∉ cs := by
  intro hmem
  rw [h c hmem] at hc
  cases hc

section Forall

variable {α β γ : Type} {R : α → β → Prop} {as : List α} {bs : List β}

theorem flatMap_of_forall₂ {f : β → List γ} {g : α → List γ} (h : List.Forall₂ R as bs)
    (hR : ∀ a b, R a b → f b = g a) : bs.flatMap f = as.flatMap g := by
  induction h with
  | nil => rfl
  | cons hab _ ih => rw [List.flatMap_cons, List.flatMap_cons, hR _ _ hab, ih]

theorem filterMap_of_forall₂ {f : β → Option γ} {g : α → γ} (h : List.Forall₂ R as bs)
    (hR : ∀ a b, R a b → f b = some (g a)) : bs.filterMap f = as.map g := by
  induction h with
  | nil => rfl
  | cons hab _ ih => rw [List.filterMap_cons_some (hR _ _ hab), List.map_cons, ih]

end Forall

section Spaced

variable {α β : Type} {Writes Writes' : α → List Char → Prop} {as : List α} {lead text : List Char}

theorem Spaced.prepend (hlead : Blank lead) (h : Spaced Writes as text) :
    Spaced Writes as (lead ++ text) := by
  have happend {lead' : List Char} (hblank : Blank lead') : Blank (lead ++ lead') := by
    intro c hc
    exact (List.mem_append.1 hc).elim (hlead c) (hblank c)
  cases h with
  | nil hgap => exact .nil (happend hgap)
  | cons hblank hwrites hrest htail =>
    rw [← List.append_assoc, ← List.append_assoc]
    exact .cons (happend hblank) hwrites hrest htail

theorem Spaced.imp (himp : ∀ a text, Writes a text → Writes' a text) (h : Spaced Writes as text) :
    Spaced Writes' as text := by
  induction h with
  | nil hgap => exact .nil hgap
  | cons hblank hwrites hrest _ ih => exact .cons hblank (himp _ _ hwrites) hrest ih

theorem Spaced.intercalate {texts : List (List Char)} (h : List.Forall₂ Writes as texts) :
    Spaced Writes as ([' '].intercalate texts) := by
  induction h with
  | nil => exact .nil blank_nil
  | @cons a text as texts hwrites hrest ih =>
    cases hrest with
    | nil =>
      have hsingle : Spaced Writes [a] ([] ++ text ++ []) := .cons blank_nil hwrites (.inl rfl) (.nil blank_nil)
      simpa using hsingle
    | cons hwrites' hrest' =>
      rw [List.intercalate_cons_of_ne_nil (List.cons_ne_nil _ _), List.append_assoc]
      exact .cons blank_nil hwrites (.inr rfl) (ih.prepend blank_space)

theorem Spaced.forall₂_wordChars (hword : ∀ a text, Writes a text → text ≠ [] ∧
    ∀ c ∈ text, isBlank c = false) (h : Spaced Writes as text) :
    List.Forall₂ Writes as (wordChars text) := by
  induction h with
  | nil hgap =>
    rw [wordChars, pieces_eq_nil hgap]
    exact .nil
  | @cons a as lead text rest hblank hwrites hrest htail ih =>
    obtain ⟨hne, hsolid⟩ := hword _ _ hwrites
    rw [wordChars, List.append_assoc, pieces_append_of_sep hblank]
    rcases hrest with rfl | hhead
    · cases htail with
      | nil hgap =>
        have hends : ∀ c ∈ rest.head?, isBlank c := fun c hc => hgap c (List.mem_of_mem_head? hc)
        rw [pieces_append hne hsolid hends]
        exact .cons hwrites ih
    · have hends : ∀ c ∈ rest.head?, isBlank c := by
        intro c hc
        rwa [Option.mem_def.1 hc] at hhead
      rw [pieces_append hne hsolid hends]
      exact .cons hwrites ih

theorem Spaced.exists_writes {a : α} (h : Spaced Writes as text) (ha : a ∈ as) :
    ∃ text, Writes a text := by
  induction h with
  | nil => cases ha
  | cons _ hwrites _ _ ih =>
    rcases List.mem_cons.1 ha with rfl | ha
    · exact ⟨_, hwrites⟩
    · exact ih ha

theorem Spaced.unbracketed_of (hunbracketed : ∀ a text, Writes a text → Unbracketed text)
    (h : Spaced Writes as text) : Unbracketed text := by
  induction h with
  | nil hgap => exact unbracketed_blank hgap
  | cons hblank hwrites _ _ ih =>
    exact ((unbracketed_blank hblank).append (hunbracketed _ _ hwrites)).append ih

theorem Spaced.read_spans (opening closing : Char) (inside? : α → Option β)
    (Inner : β → List Char → Prop) (hopening : isBlank opening = false)
    (hin : ∀ a b text, Writes a text → inside? a = some b →
      ∃ inner, text = opening :: inner ++ [closing] ∧ closing ∉ inner ∧ Inner b inner)
    (hout : ∀ a text, Writes a text → inside? a = none → opening ∉ text) (h : Spaced Writes as text) :
    List.Forall₂ Inner (as.filterMap inside?) (spans opening closing text) ∧
      Spaced (fun a text => Writes a text ∧ inside? a = none) (as.filter fun a => (inside? a).isNone)
        (blankSpans opening closing text) := by
  have hblank {cs : List Char} (hcs : Blank cs) : opening ∉ cs := by
    intro hmem
    rw [hcs opening hmem] at hopening
    cases hopening
  induction h with
  | @nil gap hgap =>
    rw [← List.append_nil gap, spans_append (hblank hgap), blankSpans_append (hblank hgap)]
    exact ⟨.nil, .nil (by simpa [blankSpans, segments, segmentsFrom] using hgap)⟩
  | @cons a as lead text rest hlead hwrites hrest htail ih =>
    obtain ⟨ihspans, ihrest⟩ := ih
    rw [List.append_assoc, spans_append (hblank hlead), blankSpans_append (hblank hlead)]
    cases ha : inside? a with
    | some b =>
      obtain ⟨inner, rfl, hclosing, hinner⟩ := hin a b text hwrites ha
      have htext : opening :: inner ++ [closing] ++ rest = opening :: inner ++ closing :: rest := by simp
      rw [htext, spans_span hclosing, blankSpans_span hclosing, List.filterMap_cons_some ha,
        List.filter_cons_of_neg (by simp [ha])]
      exact ⟨.cons hinner ihspans, (ihrest.prepend blank_space).prepend hlead⟩
    | none =>
      have hnot := hout a text hwrites ha
      rw [spans_append hnot, blankSpans_append hnot, List.filterMap_cons_none ha,
        List.filter_cons_of_pos (by simp [ha]), ← List.append_assoc]
      refine ⟨ihspans, .cons hlead ⟨hwrites, ha⟩ ?_ ihrest⟩
      rcases hrest with rfl | hhead
      · exact .inl rfl
      · right
        cases rest with
        | nil => cases hhead
        | cons c rest =>
          have hc : opening ∉ [c] := hblank (by simpa [Blank] using hhead)
          rw [← List.singleton_append, blankSpans_append hc]
          exact hhead

end Spaced

theorem unbracketed_orMark {m : List Char} (h : OrMark m) : Unbracketed m := by
  obtain ⟨-, hlead, hw, -, htrail⟩ := h
  obtain ⟨a, b, rfl, ha, hb⟩ := isOrWord_iff.1 hw
  have hword : Unbracketed [a, b] := by
    rcases ha with rfl | rfl <;> rcases hb with rfl | rfl <;> decide
  exact ((unbracketed_blank hlead).append hword).append (unbracketed_blank htrail)

theorem unbracketed_joined {Mark : List Char → Prop} {ts : List String} {text : List Char}
    (hmark : ∀ m, Mark m → Unbracketed m) (h : Joined Mark ts text)
    (hts : ∀ t ∈ ts, Unbracketed t.toList) : Unbracketed text := by
  induction h with
  | single t => exact hts t List.mem_cons_self
  | cons hm _ ih =>
    exact ((hts _ List.mem_cons_self).append (hmark _ hm)).append
      (ih fun t ht => hts t (List.mem_cons_of_mem _ ht))

namespace Grammar

variable {g : Grammar} {items : List Item} {text : List Char}

theorem unbracketed_clause {c : Clause} (h : g.WritesClause c text) : Unbracketed text := by
  cases h with
  | term ht => exact g.unbracketed_term ht
  | group _ hts hjoined =>
    exact unbracketed_joined (fun _ => g.unbracketed_mark) hjoined fun t ht => g.unbracketed_term (hts t ht)

namespace Writes

variable {item : Item}

theorem of_exclusion? {xs : List String} (h : g.Writes item text) (hxs : item.exclusion? = some xs) :
    ∃ inner, text = '[' :: inner ++ [']'] ∧ ']' ∉ inner ∧ g.Excludes xs inner := by
  cases h with
  | exclusion hinner =>
    cases hxs
    exact ⟨_, rfl, (g.unbracketed_excludes hinner).notMem (by decide), hinner⟩
  | clause => cases hxs
  | word => cases hxs

theorem of_clause? {c : Clause} (h : g.Writes item text) (hc : item.clause? = some c) :
    ∃ inner, text = '(' :: inner ++ [')'] ∧ ')' ∉ inner ∧ g.WritesClause c inner := by
  cases h with
  | exclusion => cases hc
  | clause hinner =>
    cases hc
    exact ⟨_, rfl, (unbracketed_clause hinner).notMem (by decide), hinner⟩
  | word => cases hc

theorem notMem_bracket (h : g.Writes item text) (hx : item.exclusion? = none) : '[' ∉ text := by
  cases h with
  | exclusion => cases hx
  | clause hinner =>
    have hnot := (unbracketed_clause hinner).notMem (show isBracket '[' by decide)
    simpa using hnot
  | word hw => exact hw.unbracketed.notMem (by decide)

theorem exists_word (h : g.Writes item text) (hx : item.exclusion? = none) (hc : item.clause? = none) :
    ∃ w, item = .word w ∧ text = w.toList ∧ IsWord w := by
  cases h with
  | exclusion => cases hx
  | clause => cases hc
  | @word w hw => exact ⟨w, rfl, rfl, hw⟩

end Writes

theorem isWord_of_mem_loose (h : Spaced g.Writes items text) {w : String} (hw : w ∈ Item.loose items) :
    IsWord w := by
  obtain ⟨item, hitem, hword⟩ := List.mem_filterMap.1 hw
  obtain ⟨_, hwrites⟩ := h.exists_writes hitem
  cases hwrites with
  | exclusion => cases hword
  | clause => cases hword
  | word hw =>
    cases hword
    exact hw

theorem eq_loose {texts : List (List Char)}
    (h : List.Forall₂ (fun item text => ∃ w, item = .word w ∧ text = w.toList ∧ IsWord w) items texts) :
    texts = (Item.loose items).map String.toList := by
  induction h with
  | nil => rfl
  | cons hword _ ih =>
    obtain ⟨w, rfl, rfl, -⟩ := hword
    rw [ih]
    rfl

/-- Brackets hold the exclusions, parentheses the clauses, and outside of both stand the loose words. -/
theorem sections (h : Spaced g.Writes items text) :
    List.Forall₂ g.Excludes (items.filterMap Item.exclusion?) (spans '[' ']' text) ∧
    List.Forall₂ g.WritesClause (items.filterMap Item.clause?) (spans '(' ')' (dropSpans '[' ']' text)) ∧
    wordChars (blankSpans '(' ')' (dropSpans '[' ']' text)) =
      (Item.loose items).map String.toList := by
  rw [dropSpans_eq_blankSpans (by decide)]
  obtain ⟨hexcluded, hworking⟩ := h.read_spans '[' ']' Item.exclusion? g.Excludes (by decide)
    (fun _ _ _ => Writes.of_exclusion?) fun _ _ => Writes.notMem_bracket
  obtain ⟨hclauses, houtside⟩ := hworking.read_spans '(' ')' Item.clause? g.WritesClause (by decide)
    (fun _ _ _ hwrites => hwrites.1.of_clause?) (by
      rintro _ _ ⟨hwrites, hx⟩ hc
      obtain ⟨w, -, rfl, hw⟩ := hwrites.exists_word hx hc
      exact hw.unbracketed.notMem (by decide))
  have hwords := (houtside.imp fun _ _ hwrites =>
    hwrites.1.1.exists_word hwrites.1.2 hwrites.2).forall₂_wordChars (by
      rintro _ _ ⟨w, -, rfl, hw⟩
      exact ⟨mt String.toList_eq_nil_iff.1 hw.ne_empty, hw.solid⟩)
  refine ⟨hexcluded, ?_, ?_⟩
  · rwa [Item.filterMap_clause?_filter] at hclauses
  · rw [← Item.loose_filter]
    exact eq_loose hwords

end Grammar

end Kitting.Formula
