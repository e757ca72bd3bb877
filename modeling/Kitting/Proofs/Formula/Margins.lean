import Kitting.Proofs.Formula.Grammar

namespace Kitting

open Text

structure Condition.Alike (c d : Condition) : Prop where
  includes : c.includes = d.includes
  excludes : c.excludes = d.excludes
  groups : c.groups = d.groups

namespace Condition

variable {c d : Condition}

theorem Alike.symm (h : c.Alike d) : d.Alike c := ⟨h.1.symm, h.2.symm, h.3.symm⟩

theorem Alike.isEmpty (h : c.Alike d) : c.isEmpty = d.isEmpty := by
  rw [Condition.isEmpty, h.includes, h.groups, ← Condition.isEmpty]

end Condition

namespace Formula

variable {u v : List Char} {opening closing : Char}

theorem spans_margins (hu : Blank u) (hv : Blank v) (hopening : isBracket opening) (hclosing : isBracket closing)
    (cs : List Char) : spans opening closing (u ++ cs ++ v) = spans opening closing cs := by
  rw [spans_append_right ((unbracketed_blank hv).notMem hopening) ((unbracketed_blank hv).notMem hclosing),
    spans_append ((unbracketed_blank hu).notMem hopening)]

theorem blankSpans_margins (hu : Blank u) (hv : Blank v) (hopening : isBracket opening)
    (hclosing : isBracket closing) (cs : List Char) :
    blankSpans opening closing (u ++ cs ++ v) = u ++ blankSpans opening closing cs ++ v := by
  rw [blankSpans_append_right ((unbracketed_blank hv).notMem hopening) ((unbracketed_blank hv).notMem hclosing),
    blankSpans_append ((unbracketed_blank hu).notMem hopening)]

theorem wordChars_margins (hu : Blank u) (hv : Blank v) (cs : List Char) :
    wordChars (u ++ cs ++ v) = wordChars cs := by
  rw [wordChars, pieces_append_of_sep_right hv, pieces_append_of_sep hu, ← wordChars]

theorem alike_margins (dialect : Dialect) (hu : Blank u) (hv : Blank v) (cs : List Char) :
    (ofChars dialect (u ++ cs ++ v)).Alike (ofChars dialect cs) := by
  have hexcluded : spans '[' ']' (u ++ cs ++ v) = spans '[' ']' cs := spans_margins hu hv rfl rfl cs
  have hworking : dropSpans '[' ']' (u ++ cs ++ v) = u ++ dropSpans '[' ']' cs ++ v := by
    rw [dropSpans_eq_blankSpans (by decide), dropSpans_eq_blankSpans (by decide), blankSpans_margins hu hv rfl rfl]
  have hclauses : spans '(' ')' (u ++ dropSpans '[' ']' cs ++ v) = spans '(' ')' (dropSpans '[' ']' cs) :=
    spans_margins hu hv rfl rfl _
  have hloose : wordChars (blankSpans '(' ')' (u ++ dropSpans '[' ']' cs ++ v)) =
      wordChars (blankSpans '(' ')' (dropSpans '[' ']' cs)) := by
    rw [blankSpans_margins hu hv rfl rfl, wordChars_margins hu hv]
  cases dialect with
  | catalog => constructor <;> simp only [ofChars, ofCatalogChars, hexcluded, hworking, hclauses, hloose]
  | laboratory =>
    constructor <;> simp only [ofChars, ofLaboratoryChars, wholeTerm, hexcluded, hworking, hclauses, hloose]

theorem alike_parse_trim (dialect : Dialect) (s : String) : (parse dialect (trim s)).Alike (parse dialect s) := by
  obtain ⟨u, v, heq, hu, hv⟩ := exists_trimBy isBlank s.toList
  rw [parse, parse, toList_trim]
  nth_rewrite 2 [← heq]
  exact (alike_margins dialect hu hv _).symm

theorem isEmpty_parse_of_trim_eq_empty {s : String} (dialect : Dialect) (h : trim s = "") :
    (parse dialect s).isEmpty := by
  rw [← (alike_parse_trim dialect s).isEmpty, h]
  cases dialect <;> rfl

end Formula

end Kitting
