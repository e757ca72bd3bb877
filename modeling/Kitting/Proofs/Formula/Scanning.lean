import Kitting.Formula.Dialect
import Kitting.Proofs.Formula.Spans

namespace Kitting.Formula

structure Match where
  before : List Char
  inner : List Char

variable {opening closing : Char} {cs tail u v : List Char} {found : List Match}

namespace Match

def text (opening closing : Char) (m : Match) : List Char := m.before ++ opening :: m.inner ++ [closing]

def blanked (m : Match) : List Char := m.before ++ [' ']

theorem notMem_blanked (hspace : opening ≠ ' ') (h : ∀ m ∈ found, opening ∉ m.before) :
    opening ∉ found.flatMap blanked := by
  simp only [List.mem_flatMap, blanked, List.mem_append, List.mem_singleton, hspace, or_false]
  rintro ⟨m, hm, hmem⟩
  exact h m hm hmem

theorem flatMap_text_cons (m : Match) (found : List Match) (tail : List Char) :
    (m :: found).flatMap (text opening closing) ++ tail =
      m.before ++ (opening :: m.inner ++ closing :: (found.flatMap (text opening closing) ++ tail)) := by
  simp [text]

end Match

/-- The matches of the text from left to right, and what stands behind the last one. -/
structure Scanned (opening closing : Char) (cs : List Char) (found : List Match) (tail : List Char) : Prop where
  text : cs = found.flatMap (Match.text opening closing) ++ tail
  before : ∀ m ∈ found, opening ∉ m.before
  inner : ∀ m ∈ found, closing ∉ m.inner
  tail : ¬[opening, closing].Sublist tail

theorem sublist_append_iff_of_notMem (h : opening ∉ u) :
    [opening, closing].Sublist (u ++ v) ↔ [opening, closing].Sublist v := by
  constructor
  · intro hsub
    obtain ⟨front, back, heq, hfront, hback⟩ := List.sublist_append_iff.1 hsub
    cases front with
    | nil => rwa [heq]
    | cons c front =>
      obtain ⟨rfl, -⟩ := List.cons.inj heq
      exact absurd (hfront.subset List.mem_cons_self) h
  · intro hsub
    exact hsub.trans (List.sublist_append_right u v)

theorem sublist_first_iff (h : opening ∉ u) :
    [opening, closing].Sublist (u ++ opening :: v) ↔ closing ∈ v := by
  rw [sublist_append_iff_of_notMem h, List.cons_sublist_cons, List.singleton_sublist]

theorem segmentsFrom_unclosed (h : closing ∉ v) (pending : List Char) :
    segmentsFrom opening closing (some pending) v = (opening :: pending.reverse ++ v).map .char := by
  induction v generalizing pending with
  | nil => rw [segmentsFrom, List.append_nil]
  | cons c v ih =>
    rw [List.mem_cons, not_or] at h
    rw [segmentsFrom, if_neg (Ne.symm h.1), ih h.2]
    simp

theorem segments_of_unmatched (h : ¬[opening, closing].Sublist tail) :
    segments opening closing tail = tail.map .char := by
  by_cases hmem : opening ∈ tail
  · obtain ⟨u, v, rfl, hu⟩ := List.eq_append_cons_of_mem hmem
    rw [sublist_first_iff hu] at h
    rw [segments_append hu, segments, segmentsFrom, if_pos rfl, segmentsFrom_unclosed h]
    simp
  · have hsegments : segments opening closing (tail ++ []) = tail.map .char ++ segments opening closing [] :=
      segments_append hmem []
    rwa [List.append_nil, segments, segments, segmentsFrom, List.append_nil] at hsegments

theorem spans_of_unmatched (h : ¬[opening, closing].Sublist tail) : spans opening closing tail = [] := by
  rw [spans, segments_of_unmatched h]
  simp [Segment.inner?]

theorem blankSpans_of_unmatched (h : ¬[opening, closing].Sublist tail) : blankSpans opening closing tail = tail := by
  rw [blankSpans, segments_of_unmatched h, List.flatMap_map]
  simp [Segment.blanked]

theorem exists_scanned (opening closing : Char) (cs : List Char) :
    ∃ found tail, Scanned opening closing cs found tail := by
  induction hn : cs.length using Nat.strongRecOn generalizing cs with
  | ind n ih =>
    by_cases hmatch : [opening, closing].Sublist cs
    · obtain ⟨u, v, rfl, hu⟩ := List.eq_append_cons_of_mem (hmatch.subset List.mem_cons_self)
      obtain ⟨inner, rest, rfl, hinner⟩ := List.eq_append_cons_of_mem ((sublist_first_iff hu).1 hmatch)
      have hshorter : rest.length < n := by
        simp only [List.length_append, List.length_cons] at hn
        omega
      obtain ⟨found, tail, h⟩ := ih rest.length hshorter rest rfl
      refine ⟨⟨u, inner⟩ :: found, tail, ?_, List.forall_mem_cons.2 ⟨hu, h.before⟩,
        List.forall_mem_cons.2 ⟨hinner, h.inner⟩, h.tail⟩
      rw [Match.flatMap_text_cons, ← h.text]
      rfl
    · exact ⟨[], cs, rfl, List.forall_mem_nil _, List.forall_mem_nil _, hmatch⟩

namespace Scanned

theorem spans (h : Scanned opening closing cs found tail) :
    spans opening closing cs = found.map Match.inner := by
  obtain ⟨rfl, hbefore, hinner, htail⟩ := h
  induction found with
  | nil => exact spans_of_unmatched htail
  | cons m found ih =>
    rw [List.forall_mem_cons] at hbefore hinner
    rw [Match.flatMap_text_cons, spans_append hbefore.1, spans_span hinner.1, ih hbefore.2 hinner.2, List.map_cons]

theorem blankSpans (h : Scanned opening closing cs found tail) :
    blankSpans opening closing cs = found.flatMap Match.blanked ++ tail := by
  obtain ⟨rfl, hbefore, hinner, htail⟩ := h
  induction found with
  | nil => exact blankSpans_of_unmatched htail
  | cons m found ih =>
    rw [List.forall_mem_cons] at hbefore hinner
    rw [Match.flatMap_text_cons, blankSpans_append hbefore.1, blankSpans_span hinner.1, ih hbefore.2 hinner.2]
    simp [Match.blanked]

theorem unmatched (hspace : opening ≠ ' ') (h : Scanned opening closing cs found tail) :
    ¬[opening, closing].Sublist (found.flatMap Match.blanked ++ tail) := by
  rw [sublist_append_iff_of_notMem (Match.notMem_blanked hspace h.before)]
  exact h.tail

end Scanned

theorem asks_dropSpans (dialect : Dialect) {working : List Char} (hworking : dropSpans '[' ']' cs = working)
    (h : ¬['[', ']'].Sublist working) :
    (ofChars dialect cs).includes = (ofChars dialect working).includes ∧
      (ofChars dialect cs).groups = (ofChars dialect working).groups := by
  have hsame : dropSpans '[' ']' working = working := by
    rw [dropSpans_eq_blankSpans (by decide), blankSpans_of_unmatched h]
  cases dialect with
  | catalog => simp only [ofChars, ofCatalogChars, hworking, hsame, and_self]
  | laboratory => simp only [ofChars, ofLaboratoryChars, hworking, hsame, and_self]

/-- Every text has its matches, and taking them out one by one puts a space in place of each. Then no closing bracket is
behind an opening one, and in either dialect the text with the spaces asks for what the formula asks for. -/
theorem dropSpans_scanned (cs : List Char) :
    (∃ found tail, Scanned '[' ']' cs found tail) ∧
      ∀ found tail, Scanned '[' ']' cs found tail →
        spans '[' ']' cs = found.map Match.inner ∧
          dropSpans '[' ']' cs = found.flatMap Match.blanked ++ tail ∧
          ¬['[', ']'].Sublist (dropSpans '[' ']' cs) ∧
          ∀ dialect,
            (ofChars dialect cs).includes = (ofChars dialect (found.flatMap Match.blanked ++ tail)).includes ∧
              (ofChars dialect cs).groups = (ofChars dialect (found.flatMap Match.blanked ++ tail)).groups := by
  refine ⟨exists_scanned '[' ']' cs, fun found tail h => ?_⟩
  have hworking : dropSpans '[' ']' cs = found.flatMap Match.blanked ++ tail := by
    rw [dropSpans_eq_blankSpans (by decide), h.blankSpans]
  have hunmatched := h.unmatched (by decide)
  exact ⟨h.spans, hworking, hworking ▸ hunmatched, fun dialect => asks_dropSpans dialect hworking hunmatched⟩

def twinBrackets : List Char := "A[x]B[y[z][x] [C".toList

theorem dropSpans_scanned_twinBrackets :
    Scanned '[' ']' twinBrackets [⟨['A'], ['x']⟩, ⟨['B'], ['y', '[', 'z']⟩, ⟨[], ['x']⟩] " [C".toList ∧
      dropSpans '[' ']' twinBrackets = "A B   [C".toList ∧
      (ofChars .catalog twinBrackets).includes = ["A", "B"] := by
  have hscanned :
      Scanned '[' ']' twinBrackets [⟨['A'], ['x']⟩, ⟨['B'], ['y', '[', 'z']⟩, ⟨[], ['x']⟩] " [C".toList :=
    ⟨by decide, by decide, by decide, by decide⟩
  obtain ⟨-, hworking, -, hasks⟩ := (dropSpans_scanned twinBrackets).2 _ _ hscanned
  refine ⟨hscanned, hworking.trans (by decide), (hasks .catalog).1.trans (by decide +kernel)⟩

end Kitting.Formula
