import Kitting.Formula.Bracket

namespace Kitting.Formula

open Text

variable {opening closing : Char} {as inner : List Char}

theorem segments_append (h : opening ∉ as) (bs : List Char) :
    segments opening closing (as ++ bs) = as.map .char ++ segments opening closing bs := by
  induction as with
  | nil => rfl
  | cons a as ih =>
    rw [List.mem_cons, not_or] at h
    rw [List.cons_append, segments, segmentsFrom, if_neg (Ne.symm h.1), ← segments, ih h.2]
    rfl

theorem segmentsFrom_some (h : closing ∉ inner) (pending rest : List Char) :
    segmentsFrom opening closing (some pending) (inner ++ closing :: rest) =
      .span (pending.reverse ++ inner) :: segments opening closing rest := by
  induction inner generalizing pending with
  | nil => rw [List.nil_append, segmentsFrom, if_pos rfl, List.append_nil, segments]
  | cons c inner ih =>
    rw [List.mem_cons, not_or] at h
    rw [List.cons_append, segmentsFrom, if_neg (Ne.symm h.1), ih h.2]
    simp

theorem segments_span (h : closing ∉ inner) (rest : List Char) :
    segments opening closing (opening :: inner ++ closing :: rest) =
      .span inner :: segments opening closing rest := by
  rw [List.cons_append, segments, segmentsFrom, if_pos rfl, segmentsFrom_some h]
  rfl

theorem spans_append (h : opening ∉ as) (bs : List Char) :
    spans opening closing (as ++ bs) = spans opening closing bs := by
  rw [spans, segments_append h, List.filterMap_append, ← spans, List.append_left_eq_self,
    List.filterMap_eq_nil_iff]
  intro s hs
  obtain ⟨c, -, rfl⟩ := List.mem_map.1 hs
  rfl

theorem spans_span (h : closing ∉ inner) (rest : List Char) :
    spans opening closing (opening :: inner ++ closing :: rest) =
      inner :: spans opening closing rest := by
  rw [spans, segments_span h]
  rfl

theorem blankSpans_append (h : opening ∉ as) (bs : List Char) :
    blankSpans opening closing (as ++ bs) = as ++ blankSpans opening closing bs := by
  rw [blankSpans, segments_append h, List.flatMap_append, ← blankSpans, List.flatMap_map]
  simp [Segment.blanked]

theorem blankSpans_span (h : closing ∉ inner) (rest : List Char) :
    blankSpans opening closing (opening :: inner ++ closing :: rest) =
      ' ' :: blankSpans opening closing rest := by
  rw [blankSpans, segments_span h]
  rfl

theorem segmentsFrom_append (hopening : opening ∉ as) (hclosing : closing ∉ as) (pending : Option (List Char))
    (cs : List Char) : segmentsFrom opening closing pending (cs ++ as) =
      segmentsFrom opening closing pending cs ++ as.map .char := by
  induction cs generalizing pending with
  | nil =>
    rw [List.nil_append]
    induction as generalizing pending with
    | nil => simp
    | cons a as ih =>
      rw [List.mem_cons, not_or] at hopening hclosing
      cases pending with
      | none => simp [segmentsFrom, Ne.symm hopening.1, ih hopening.2 hclosing.2]
      | some p => simp [segmentsFrom, Ne.symm hclosing.1, ih hopening.2 hclosing.2]
  | cons c cs ih =>
    cases pending <;> simp only [List.cons_append, segmentsFrom] <;> split <;> simp only [ih, List.cons_append]

theorem spans_append_right (hopening : opening ∉ as) (hclosing : closing ∉ as) (cs : List Char) :
    spans opening closing (cs ++ as) = spans opening closing cs := by
  have hinner : (as.map Segment.char).filterMap Segment.inner? = [] := by simp [Segment.inner?]
  rw [spans, segments, segmentsFrom_append hopening hclosing, List.filterMap_append, hinner, List.append_nil]
  rfl

theorem blankSpans_append_right (hopening : opening ∉ as) (hclosing : closing ∉ as) (cs : List Char) :
    blankSpans opening closing (cs ++ as) = blankSpans opening closing cs ++ as := by
  have hblanked : (as.map Segment.char).flatMap Segment.blanked = as := by
    rw [List.flatMap_map]
    simp [Segment.blanked]
  rw [blankSpans, segments, segmentsFrom_append hopening hclosing, List.flatMap_append, hblanked]
  rfl

theorem replaceFirst_append (h : opening ∉ as) (pat new rest : List Char) :
    replaceFirst (opening :: pat) new (as ++ opening :: pat ++ rest) = as ++ new ++ rest := by
  induction as with
  | nil =>
    have hafter : after? (opening :: pat) (opening :: (pat ++ rest)) = some rest :=
      after?_eq_some_iff.2 rfl
    rw [List.nil_append, List.cons_append, replaceFirst, hafter]
    rfl
  | cons a as ih =>
    rw [List.mem_cons, not_or] at h
    have hafter : after? (opening :: pat) (a :: (as ++ opening :: pat ++ rest)) = none := by
      rw [after?, if_neg h.1]
    rw [List.cons_append, List.cons_append, replaceFirst, hafter]
    simp only [ih h.2, List.cons_append]

theorem foldl_replaceFirst (hspace : opening ≠ ' ') (pending : Option (List Char))
    (cs : List Char) (h : opening ∉ as) :
    ((segmentsFrom opening closing pending cs).filterMap Segment.inner?).foldl
        (fun working inner => replaceFirst (opening :: inner ++ [closing]) [' '] working)
        (as ++ (pending.elim cs fun p => opening :: p.reverse ++ cs)) =
      as ++ (segmentsFrom opening closing pending cs).flatMap Segment.blanked := by
  -- Up to the next span, and in what the earlier ones left behind, nothing opens.
  induction cs generalizing pending as with
  | nil =>
    cases pending with
    | none => simp [segmentsFrom]
    | some p =>
      have hinner : ((opening :: p.reverse).map Segment.char).filterMap Segment.inner? = [] := by
        simp [Segment.inner?]
      rw [segmentsFrom, hinner, List.flatMap_map]
      simp [Segment.blanked]
  | cons c cs ih =>
    cases pending with
    | none =>
      by_cases hc : c = opening
      · subst hc
        rw [segmentsFrom, if_pos rfl, ← ih (some []) h]
        rfl
      · have hnot : opening ∉ as ++ [c] := by simp [h, Ne.symm hc]
        have hrest := ih none hnot
        have hinner : Segment.inner? (.char c) = none := rfl
        rw [segmentsFrom, if_neg hc, List.filterMap_cons_none hinner]
        simpa [Segment.blanked] using hrest
    | some p =>
      by_cases hc : c = closing
      · subst hc
        have hnot : opening ∉ as ++ [' '] := by simp [h, hspace]
        have hrest := ih none hnot
        have hfirst := replaceFirst_append h (p.reverse ++ [c]) [' '] cs
        have hinner : Segment.inner? (.span p.reverse) = some p.reverse := rfl
        rw [segmentsFrom, if_pos rfl, List.filterMap_cons_some hinner, List.foldl_cons,
          List.flatMap_cons, Segment.blanked]
        simp only [Option.elim, List.cons_append, List.append_assoc, List.nil_append] at hfirst hrest ⊢
        rw [hfirst]
        exact hrest
      · have hrest := ih (some (c :: p)) h
        rw [segmentsFrom, if_neg hc]
        simpa using hrest

theorem dropSpans_eq_blankSpans (hspace : opening ≠ ' ') (cs : List Char) :
    dropSpans opening closing cs = blankSpans opening closing cs :=
  foldl_replaceFirst hspace none cs List.not_mem_nil

end Kitting.Formula
