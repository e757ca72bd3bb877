import Kitting.Proofs.Formula.Margins
import Kitting.Proofs.Text.Occurrence

namespace Kitting.Formula

open Text

variable {opening closing c : Char} {cs inner : List Char}

/-- A character that is its own upper case and no upper case of another one. -/
structure Caseless (c : Char) : Prop where
  upper : upperChar c = [c]
  source : ∀ d, c ∈ upperChar d → d = c

theorem caseless_of_ascii (hascii : c.toNat < 0x80) (hletter : c.toNat < 'A'.toNat ∨ 'Z'.toNat < c.toNat)
    (hupper : upperChar c = [c]) : Caseless c :=
  ⟨hupper, fun _ hd => (eq_of_mem_upperChar hd hascii hletter).symm⟩

theorem caseless_of_isBracket (h : isBracket c) : Caseless c := by
  simp only [isBracket, Bool.or_eq_true, beq_iff_eq] at h
  rcases h with ((rfl | rfl) | rfl) | rfl <;> exact caseless_of_ascii (by decide) (by decide) (by decide)

theorem caseless_slash : Caseless '/' := caseless_of_ascii (by decide) (by decide) (by decide)

theorem Caseless.mem_upperChars_iff (h : Caseless c) : c ∈ upperChars cs ↔ c ∈ cs := by
  rw [mem_upperChars]
  constructor
  · rintro ⟨d, hd, hc⟩
    exact h.source d hc ▸ hd
  · intro hc
    exact ⟨c, hc, by simp [h.upper]⟩

theorem Caseless.notMem_upperChar {d : Char} (h : Caseless c) (hd : d ≠ c) : c ∉ upperChar d :=
  fun hc => hd (h.source d hc)

section Spans

def Segment.upper : Segment → List Segment
  | char c => (upperChar c).map .char
  | span inner => [.span (upperChars inner)]

theorem segmentsFrom_append_some {as : List Char} (h : closing ∉ as) (pending rest : List Char) :
    segmentsFrom opening closing (some pending) (as ++ rest) =
      segmentsFrom opening closing (some (as.reverse ++ pending)) rest := by
  induction as generalizing pending with
  | nil => rfl
  | cons a as ih =>
    rw [List.mem_cons, not_or] at h
    rw [List.cons_append, segmentsFrom, if_neg (Ne.symm h.1), ih h.2]
    simp

theorem segmentsFrom_upperChars (hopening : Caseless opening) (hclosing : Caseless closing)
    (pending : Option (List Char)) (cs : List Char) :
    segmentsFrom opening closing (pending.map fun p => (upperChars p.reverse).reverse) (upperChars cs) =
      (segmentsFrom opening closing pending cs).flatMap Segment.upper := by
  induction cs generalizing pending with
  | nil =>
    cases pending with
    | none => rfl
    | some p =>
      have hchars (ds : List Char) : (ds.map Segment.char).flatMap Segment.upper = (upperChars ds).map .char := by
        rw [List.flatMap_map, upperChars, List.map_flatMap]
        rfl
      rw [Option.map_some, upperChars_nil, segmentsFrom, segmentsFrom, hchars, upperChars_cons, hopening.upper,
        List.reverse_reverse, List.singleton_append]
  | cons c cs ih =>
    rw [upperChars_cons]
    cases pending with
    | none =>
      by_cases hc : c = opening
      · rw [segmentsFrom, if_pos hc, hc, hopening.upper, List.singleton_append, Option.map_none, segmentsFrom,
          if_pos rfl, ← ih (some [])]
        rfl
      · rw [segmentsFrom, if_neg hc, Option.map_none, ← segments, segments_append (hopening.notMem_upperChar hc),
          segments, List.flatMap_cons, ← ih none]
        rfl
    | some p =>
      by_cases hc : c = closing
      · rw [segmentsFrom, if_pos hc, hc, hclosing.upper, List.singleton_append, Option.map_some, segmentsFrom,
          if_pos rfl, List.flatMap_cons, ← ih none, List.reverse_reverse]
        rfl
      · rw [segmentsFrom, if_neg hc, ← ih (some (c :: p)), Option.map_some, Option.map_some,
          segmentsFrom_append_some (hclosing.notMem_upperChar hc), List.reverse_cons, upperChars_append,
          List.reverse_append, upperChars_cons, upperChars_nil, List.append_nil]

theorem segments_upperChars (hopening : Caseless opening) (hclosing : Caseless closing) (cs : List Char) :
    segments opening closing (upperChars cs) = (segments opening closing cs).flatMap Segment.upper :=
  segmentsFrom_upperChars hopening hclosing none cs

theorem spans_upperChars (hopening : Caseless opening) (hclosing : Caseless closing) (cs : List Char) :
    spans opening closing (upperChars cs) = (spans opening closing cs).map upperChars := by
  rw [spans, segments_upperChars hopening hclosing, spans]
  induction segments opening closing cs with
  | nil => rfl
  | cons s ss ih =>
    rw [List.flatMap_cons, List.filterMap_append, ih]
    cases s with
    | char c =>
      have hchars : ((upperChar c).map Segment.char).filterMap Segment.inner? = [] := by simp [Segment.inner?]
      rw [Segment.upper, hchars]
      rfl
    | span inner => rfl

theorem blankSpans_upperChars (hopening : Caseless opening) (hclosing : Caseless closing) (cs : List Char) :
    blankSpans opening closing (upperChars cs) = upperChars (blankSpans opening closing cs) := by
  rw [blankSpans, segments_upperChars hopening hclosing, blankSpans]
  induction segments opening closing cs with
  | nil => rfl
  | cons s ss ih =>
    rw [List.flatMap_cons, List.flatMap_append, ih, List.flatMap_cons, upperChars_append]
    cases s with
    | char c => simp [Segment.upper, Segment.blanked, List.flatMap_map]
    | span inner =>
      rw [Segment.blanked, upperChars_of_isBlank blank_space]
      rfl

end Spans

section Alternatives

theorem exists_cons_of_upperChars_eq_cons {d : Char} {ds : List Char} (h : upperChars cs = d :: ds) :
    ∃ c rest, cs = c :: rest ∧ d ∈ upperChar c := by
  cases cs with
  | nil => cases h
  | cons c rest =>
    obtain ⟨e, es, he⟩ := List.exists_cons_of_ne_nil (upperChar_ne_nil c)
    rw [upperChars_cons, he, List.cons_append, List.cons.injEq] at h
    exact ⟨c, rest, rfl, by simp [he, h.1]⟩

theorem exists_or_of_upperChars {a b : Char} {rest : List Char} (h : upperChars cs = a :: b :: rest)
    (hab : isOrWord [a, b]) : ∃ c d tail, cs = c :: d :: tail ∧ isOrWord [c, d] := by
  rw [isOrWord, beq_iff_eq, ← List.singleton_append] at hab
  have hfixed : ∀ e ∈ upperChars cs, upperChar e = [e] := by
    intro e he
    obtain ⟨c, -, hc⟩ := mem_upperChars.1 he
    exact upperChar_of_mem hc
  have ha := hfixed a (by simp [h])
  have hb := hfixed b (by simp [h])
  obtain ⟨rfl, rfl⟩ : a = 'O' ∧ b = 'R' := by simpa [ha, hb] using hab
  obtain ⟨c, cs, rfl, hc⟩ := exists_cons_of_upperChars_eq_cons h
  have hO : upperChar c = ['O'] := by
    rcases eq_or_eq_toLower_of_mem_upperChar (.inl rfl) hc with rfl | rfl <;> decide
  rw [upperChars_cons, hO, List.singleton_append, List.cons.injEq] at h
  obtain ⟨d, cs, rfl, hd⟩ := exists_cons_of_upperChars_eq_cons h.2
  exact ⟨c, d, cs, rfl, isOrWord_iff.2 ⟨c, d, rfl, eq_or_eq_toLower_of_mem_upperChar (.inl rfl) hc,
    eq_or_eq_toLower_of_mem_upperChar (.inr rfl) hd⟩⟩

theorem afterOr?_upperChars (cs : List Char) : afterOr? (upperChars cs) = (afterOr? cs).map upperChars := by
  cases hor : afterOr? cs with
  | some rest =>
    obtain ⟨w, hw, rfl⟩ := afterOr?_eq_some_iff.1 hor
    rw [upperChars_append]
    exact afterOr?_eq_some_iff.2 ⟨_, (isOrWord_upperChars w).trans hw, rfl⟩
  | none =>
    rw [Option.map_none, Option.eq_none_iff_forall_ne_some]
    intro rest hrest
    obtain ⟨w, hw, heq⟩ := afterOr?_eq_some_iff.1 hrest
    obtain ⟨a, b, rfl, -⟩ := isOrWord_iff.1 hw
    obtain ⟨c, d, tail, rfl, hcd⟩ := exists_or_of_upperChars heq hw
    have hsome : afterOr? (c :: d :: tail) = some tail := afterOr?_eq_some_iff.2 ⟨[c, d], hcd, rfl⟩
    rw [hsome] at hor
    cases hor

theorem afterOrMark?_upperChars (cs : List Char) :
    afterOrMark? (upperChars cs) = (afterOrMark? cs).map upperChars := by
  rw [afterOrMark?, afterOrMark?, head?_any_upperChars, dropWhile_upperChars, afterOr?_upperChars]
  cases cs.head?.any isBlank with
  | false => rfl
  | true =>
    cases afterOr? (cs.dropWhile isBlank) with
    | none => rfl
    | some rest =>
      simp only [if_true, Option.map_some, head?_any_upperChars, dropWhile_upperChars]
      cases rest.head?.any isBlank <;> rfl

theorem afterSlash?_upperChars (cs : List Char) :
    afterSlash? (upperChars cs) = (afterSlash? cs).map upperChars := by
  rw [afterSlash?, afterSlash?, dropWhile_upperChars]
  cases hrest : cs.dropWhile isBlank with
  | nil => rfl
  | cons c rest =>
    by_cases hc : c = '/'
    · rw [hc, upperChars_cons, caseless_slash.upper, List.singleton_append]
      simp only [Option.map_some, dropWhile_upperChars]
    · obtain ⟨d, ds, hd⟩ := List.exists_cons_of_ne_nil (upperChar_ne_nil c)
      have hslash : d ≠ '/' := by
        rintro rfl
        exact caseless_slash.notMem_upperChar hc (hd ▸ List.mem_cons_self)
      rw [upperChars_cons, hd, List.cons_append]
      simp [hslash, hc]

theorem afterSlashOrMark?_upperChars (cs : List Char) :
    afterSlashOrMark? (upperChars cs) = (afterSlashOrMark? cs).map upperChars := by
  rw [afterSlashOrMark?, afterSlashOrMark?, afterSlash?_upperChars, afterOrMark?_upperChars]
  cases afterSlash? cs <;> rfl

section Splitting

variable {after? : List Char → Option (List Char)} {Mark : List Char → Prop} {fuel fuel' : Nat}

theorem splitWith_ne_nil (after? : List Char → Option (List Char)) (fuel : Nat) (cs : List Char) :
    splitWith after? fuel cs ≠ [] := by
  cases fuel with
  | zero => simp [splitWith]
  | succ fuel =>
    cases cs with
    | nil => simp [splitWith]
    | cons c cs =>
      rw [splitWith]
      split
      · simp
      · cases splitWith after? fuel cs <;> simp [consHead]

theorem Recognizes.eq_none (hmarks : Recognizes after? Mark) (hblank : isBlank c = false) (hslash : c ≠ '/')
    (rest : List Char) : after? (c :: rest) = none := by
  -- Every mark begins with white space or a slash.
  rw [Option.eq_none_iff_forall_ne_some]
  intro r hr
  obtain ⟨m, hm, heq, -⟩ := (hmarks.eq_some_iff _ _).1 hr
  obtain ⟨d, ds, rfl⟩ := List.exists_cons_of_ne_nil (hmarks.ne_nil m hm)
  obtain ⟨rfl, -⟩ := List.cons.inj heq
  rcases hmarks.ends _ hm c rfl with h | h
  · rw [hblank] at h
    cases h
  · exact hslash h

theorem Recognizes.eq_none_of_suffix (hmarks : Recognizes after? Mark) {s rest : List Char}
    (hfirst : after? (upperChar c ++ rest) = none) (hs : s <:+ upperChar c) (hne : s ≠ []) :
    after? (s ++ rest) = none := by
  rcases upperChar_cases c with hc | ⟨-, hcapital⟩
  · rw [hc] at hs hfirst
    rcases List.suffix_cons_iff.1 hs with rfl | hs
    · exact hfirst
    · exact absurd (List.suffix_nil.1 hs) hne
  · obtain ⟨d, ds, rfl⟩ := List.exists_cons_of_ne_nil hne
    have hd := hcapital d (hs.subset List.mem_cons_self)
    refine hmarks.eq_none hd.word ?_ _
    rintro rfl
    exact absurd (hd.letter (by decide)).1 (by decide)

theorem splitWith_upperChars (hmarks : Recognizes after? Mark)
    (hupper : ∀ cs, after? (upperChars cs) = (after? cs).map upperChars) (hfuel : cs.length ≤ fuel)
    (hfuel' : (upperChars cs).length ≤ fuel') :
    splitWith after? fuel' (upperChars cs) = (splitWith after? fuel cs).map upperChars := by
  have hnil (fuel : Nat) : splitWith after? fuel [] = [[]] := by cases fuel <;> rfl
  induction fuel generalizing cs fuel' with
  | zero =>
    rw [List.length_eq_zero_iff.1 (Nat.le_zero.1 hfuel), upperChars_nil, hnil, hnil]
    rfl
  | succ fuel ih =>
    cases cs with
    | nil =>
      rw [upperChars_nil, hnil, hnil]
      rfl
    | cons c cs =>
      rw [splitWith]
      cases hafter : after? (c :: cs) with
      | some rest =>
        obtain ⟨m, hm, heq, -⟩ := (hmarks.eq_some_iff _ _).1 hafter
        have hshort : rest.length < (c :: cs).length := by
          have hmark := List.length_pos_iff.2 (hmarks.ne_nil m hm)
          rw [heq, List.length_append]
          omega
        have hshort' : (upperChars rest).length < (upperChars (c :: cs)).length := by
          have hmark := List.length_pos_iff.2 (mt upperChars_eq_nil.1 (hmarks.ne_nil m hm))
          rw [heq, upperChars_append, List.length_append]
          omega
        obtain ⟨fuel', rfl⟩ : ∃ k, fuel' = k + 1 := Nat.exists_eq_add_of_le' (by omega)
        have hsome := (hupper (c :: cs)).trans (congrArg (Option.map upperChars) hafter)
        obtain ⟨d, ds, hd⟩ := List.exists_cons_of_ne_nil (mt upperChars_eq_nil.1 (List.cons_ne_nil c cs))
        rw [List.length_cons] at hshort hfuel
        rw [hd] at hsome hshort' hfuel' ⊢
        rw [splitWith, hsome]
        simp only [Option.map_some, List.map_cons, upperChars_nil]
        rw [ih (by omega) (by omega)]
      | none =>
        obtain ⟨w, ws, hw⟩ := List.exists_cons_of_ne_nil (splitWith_ne_nil after? fuel cs)
        have hnone := (hupper (c :: cs)).trans (congrArg (Option.map upperChars) hafter)
        rw [upperChars_cons] at hnone hfuel' ⊢
        have hrest (k : Nat) (hk : (upperChars cs).length ≤ k) :
            splitWith after? k (upperChars cs) = upperChars w :: ws.map upperChars := by
          rw [ih (Nat.le_of_succ_le_succ hfuel) hk, hw, List.map_cons]
        rw [splitWith_append (fun s hs hne => hmarks.eq_none_of_suffix hnone hs hne) hrest hfuel', hw]
        simp [consHead]

end Splitting

theorem splitOr_upper (cs : List Char) : splitOr (upperChars cs) = (splitOr cs).map upperChars :=
  splitWith_upperChars recognizes_or afterOrMark?_upperChars (Nat.le_refl _) (Nat.le_refl _)

theorem splitSlashOr_upper (cs : List Char) : splitSlashOr (upperChars cs) = (splitSlashOr cs).map upperChars :=
  splitWith_upperChars recognizes_slashOr afterSlashOrMark?_upperChars (Nat.le_refl _) (Nat.le_refl _)

end Alternatives

theorem cleanTerms_upper (fields : List (List Char)) : cleanTerms (fields.map upperChars) = cleanTerms fields := by
  rw [cleanTerms, List.filterMap_map, cleanTerms]
  apply List.filterMap_congr
  intro field _
  rw [Function.comp_apply, ← upperChars_trimChars, upperChars_upperChars]

theorem any_isBracket_upperChars (cs : List Char) : (upperChars cs).any isBracket = cs.any isBracket := by
  rw [Bool.eq_iff_iff, List.any_eq_true, List.any_eq_true]
  constructor
  · rintro ⟨c, hc, hbracket⟩
    exact ⟨c, (caseless_of_isBracket hbracket).mem_upperChars_iff.1 hc, hbracket⟩
  · rintro ⟨c, hc, hbracket⟩
    exact ⟨c, (caseless_of_isBracket hbracket).mem_upperChars_iff.2 hc, hbracket⟩

theorem contains_slash_upperChars (cs : List Char) : (upperChars cs).contains '/' = cs.contains '/' := by
  rw [Bool.eq_iff_iff, List.contains_iff_mem, List.contains_iff_mem]
  exact caseless_slash.mem_upperChars_iff

theorem catalogExcludes_upper (inner : List Char) : catalogExcludes (upperChars inner) = catalogExcludes inner := by
  rw [catalogExcludes, wordChars_upperChars, cleanTerms_upper, ← catalogExcludes]

theorem laboratoryExcludes_upper (inner : List Char) :
    laboratoryExcludes (upperChars inner) = laboratoryExcludes inner := by
  rw [laboratoryExcludes, ← upperChars_trimChars, splitOr_upper, cleanTerms_upper, ← laboratoryExcludes]

theorem catalogClause_upper (inner : List Char) : catalogClause (upperChars inner) = catalogClause inner := by
  have hor (cs : List Char) : (wordChars (upperChars cs)).any isOrWord = (wordChars cs).any isOrWord := by
    rw [wordChars_upperChars, List.any_map]
    exact congrArg ((wordChars cs).any ·) (funext isOrWord_upperChars)
  have hempty (cs : List Char) : (upperChars cs).isEmpty = cs.isEmpty := by
    rw [Bool.eq_iff_iff, List.isEmpty_iff, List.isEmpty_iff, upperChars_eq_nil]
  simp only [catalogClause, ← upperChars_trimChars, contains_slash_upperChars, hor, splitSlashOr_upper,
    cleanTerms_upper, hempty, upperChars_upperChars]

theorem laboratoryClause_upper (inner : List Char) :
    laboratoryClause (upperChars inner) = laboratoryClause inner := by
  simp only [laboratoryClause, ← upperChars_trimChars, upperChars_upperChars]

theorem wholeTerm_upper (outside : List Char) : wholeTerm (upperChars outside) = wholeTerm outside := by
  have hphrase : upperChars ([' '].intercalate (wordChars (upperChars outside))) =
      upperChars ([' '].intercalate (wordChars outside)) := by
    rw [wordChars_upperChars, upperChars_intercalate, upperChars_intercalate, List.map_map]
    simp [Function.comp_def]
  simp only [wholeTerm, hphrase]

theorem looseWords_upper (outside : List Char) :
    ((wordChars (upperChars outside)).filter (!·.any isBracket)).map (fun w => String.ofList (upperChars w)) =
      ((wordChars outside).filter (!·.any isBracket)).map fun w => String.ofList (upperChars w) := by
  rw [wordChars_upperChars, List.filter_map, List.map_map]
  simp only [Function.comp_def, any_isBracket_upperChars, upperChars_upperChars]

/-- A formula and its upper case ask for the same. -/
theorem parse_upper (dialect : Dialect) (formula : String) :
    (parse dialect (upper formula)).Alike (parse dialect formula) := by
  have hexcluded : spans '[' ']' (upperChars formula.toList) = (spans '[' ']' formula.toList).map upperChars :=
    spans_upperChars (caseless_of_isBracket rfl) (caseless_of_isBracket rfl) _
  have hworking : dropSpans '[' ']' (upperChars formula.toList) = upperChars (dropSpans '[' ']' formula.toList) := by
    rw [dropSpans_eq_blankSpans (by decide), dropSpans_eq_blankSpans (by decide),
      blankSpans_upperChars (caseless_of_isBracket rfl) (caseless_of_isBracket rfl)]
  have hclauses : spans '(' ')' (upperChars (dropSpans '[' ']' formula.toList)) =
      (spans '(' ')' (dropSpans '[' ']' formula.toList)).map upperChars :=
    spans_upperChars (caseless_of_isBracket rfl) (caseless_of_isBracket rfl) _
  have houtside : blankSpans '(' ')' (upperChars (dropSpans '[' ']' formula.toList)) =
      upperChars (blankSpans '(' ')' (dropSpans '[' ']' formula.toList)) :=
    blankSpans_upperChars (caseless_of_isBracket rfl) (caseless_of_isBracket rfl) _
  rw [parse, parse, toList_upper]
  cases dialect with
  | catalog =>
    constructor <;> simp only [ofChars, ofCatalogChars, hexcluded, hworking, hclauses, houtside, List.flatMap_map,
      List.filterMap_map, Function.comp_def, catalogExcludes_upper, catalogClause_upper, looseWords_upper]
  | laboratory =>
    constructor <;> simp only [ofChars, ofLaboratoryChars, hexcluded, hworking, hclauses, houtside, List.flatMap_map,
      List.filterMap_map, Function.comp_def, laboratoryExcludes_upper, laboratoryClause_upper, wholeTerm_upper]

end Kitting.Formula
