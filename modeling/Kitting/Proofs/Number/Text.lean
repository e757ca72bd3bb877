import Kitting.Proofs.Json.Number
import Kitting.Proofs.Number.Overflow
import Kitting.Proofs.Number.Shortest
import Kitting.Proofs.Text.Words

namespace Kitting

open Text

variable {ds ps rest : List Char} {value count n : Nat} {negative : Bool} {k : Int}

section Numerals

def signed (negative : Bool) (cs : List Char) : List Char := if negative then '-' :: cs else cs

theorem readDigits_stops (hds : ∀ c ∈ ds, c.isDigit = true) (hrest : ∀ c ∈ rest.head?, asciiDigit? c = none) :
    readDigits value count (ds ++ rest) = (Nat.ofDigitChars 10 ds value, count + ds.length, rest) := by
  rw [Json.readDigits_append hrest, readDigits_of_isDigit hds, List.nil_append]

theorem readSign_of_isDigit (hds : ∀ c ∈ ds, c.isDigit = true) (hne : ds ≠ []) (rest : List Char) :
    readSign (ds ++ rest) = (false, ds ++ rest) := by
  obtain ⟨d, ds, rfl⟩ := List.exists_cons_of_ne_nil hne
  have hd := hds d List.mem_cons_self
  rw [List.cons_append, readSign.eq_def]
  split
  case h_1 heq =>
    cases (List.cons.inj heq).1
    cases hd
  case h_2 heq =>
    cases (List.cons.inj heq).1
    cases hd
  case h_3 => rfl

theorem readSign_signed (hds : ∀ c ∈ ds, c.isDigit = true) (hne : ds ≠ []) (negative : Bool) (rest : List Char) :
    readSign (signed negative (ds ++ rest)) = (negative, ds ++ rest) := by
  cases negative with
  | true => rfl
  | false => exact readSign_of_isDigit hds hne rest

theorem ofChars?_point (hds : ∀ c ∈ ds, c.isDigit = true) (hne : ds ≠ []) (hps : ∀ c ∈ ps, c.isDigit = true)
    (hrest : ∀ c ∈ rest.head?, asciiDigit? c = none) :
    Numeral.ofChars? (signed negative (ds ++ '.' :: (ps ++ rest))) =
      (readExponent? rest).map fun e => ⟨negative, Nat.ofDigitChars 10 (ds ++ ps) 0, e - ps.length⟩ := by
  have hlength : ds.length ≠ 0 := mt List.eq_nil_of_length_eq_zero hne
  have hpoint : ∀ c ∈ ('.' :: (ps ++ rest)).head?, asciiDigit? c = none := by
    rintro c ⟨⟩
    rfl
  rw [Numeral.ofChars?, readSign_signed hds hne]
  simp only [readDigits_stops hds hpoint, readDigits_stops hps hrest]
  rw [if_neg (by omega), Nat.zero_add, Nat.ofDigitChars_append]

theorem ofChars?_whole (hds : ∀ c ∈ ds, c.isDigit = true) (hne : ds ≠ [])
    (hrest : ∀ c ∈ rest.head?, asciiDigit? c = none ∧ c ≠ '.') :
    Numeral.ofChars? (signed negative (ds ++ rest)) =
      (readExponent? rest).map fun e => ⟨negative, Nat.ofDigitChars 10 ds 0, e⟩ := by
  have hlength : ds.length ≠ 0 := mt List.eq_nil_of_length_eq_zero hne
  rw [Numeral.ofChars?, readSign_signed hds hne]
  simp only [readDigits_stops hds fun c hc => (hrest c hc).1]
  split
  case h_1 => exact absurd rfl (hrest '.' rfl).2
  case h_2 =>
    simp only [Nat.add_zero, Nat.zero_add, if_neg hlength]
    simp

theorem readExponent?_signed (hds : ∀ c ∈ ds, c.isDigit = true) (hne : ds ≠ []) (negative : Bool) :
    readExponent? ('e' :: signed negative ds) =
      some (if negative then -(Nat.ofDigitChars 10 ds 0 : Int) else Nat.ofDigitChars 10 ds 0) := by
  have hlength : ds.length ≠ 0 := mt List.eq_nil_of_length_eq_zero hne
  have hsign := readSign_signed hds hne negative []
  rw [List.append_nil] at hsign
  rw [readExponent?, if_pos (.inl rfl), hsign]
  simp only [readDigits_of_isDigit hds, Nat.zero_add, if_neg hlength]

theorem readExponent?_plus (hds : ∀ c ∈ ds, c.isDigit = true) (hne : ds ≠ []) :
    readExponent? ('e' :: '+' :: ds) = some (Nat.ofDigitChars 10 ds 0 : Int) := by
  have hlength : ds.length ≠ 0 := mt List.eq_nil_of_length_eq_zero hne
  rw [readExponent?, if_pos (.inl rfl)]
  simp only [readSign, readDigits_of_isDigit hds, Nat.zero_add, if_neg hlength]
  rfl

end Numerals

section Written

theorem ofDigitChars_repr (n : Nat) : Nat.ofDigitChars 10 (Nat.repr n).toList 0 = n := by
  rw [toList_repr, Nat.ofDigitChars_ten_toDigits]

theorem ofDigitChars_zeros_repr (j n : Nat) :
    Nat.ofDigitChars 10 (List.replicate j '0' ++ (Nat.repr n).toList) 0 = n := by
  rw [Nat.ofDigitChars_append, Nat.ofDigitChars_replicate_zero, Nat.mul_zero, ofDigitChars_repr]

theorem readExponent?_written (width : Nat) (plus : Bool) (lead : Int) :
    readExponent? ("e" ++ (if lead < 0 then "-" else if plus then "+" else "")
      ++ zeroPad width (Nat.repr lead.natAbs)).toList = some lead := by
  have hds : ∀ c ∈ (zeroPad width (Nat.repr lead.natAbs)).toList, c.isDigit = true := by
    rw [zeroPad, String.toList_append, String.toList_ofList]
    exact List.forall_mem_append.2 ⟨isDigit_zeros _, isDigit_repr _⟩
  have hne : (zeroPad width (Nat.repr lead.natAbs)).toList ≠ [] := by
    rw [zeroPad, String.toList_append]
    exact List.append_ne_nil_of_right_ne_nil _ (repr_ne_nil _)
  have hvalue : Nat.ofDigitChars 10 (zeroPad width (Nat.repr lead.natAbs)).toList 0 = lead.natAbs := by
    rw [zeroPad, String.toList_append, String.toList_ofList]
    exact ofDigitChars_zeros_repr _ _
  simp only [String.toList_append]
  generalize (zeroPad width (Nat.repr lead.natAbs)).toList = ds at hds hne hvalue ⊢
  by_cases hneg : lead < 0
  · rw [if_pos hneg]
    refine (readExponent?_signed hds hne true).trans ?_
    rw [hvalue, if_pos rfl]
    congr 1
    omega
  rw [if_neg hneg]
  cases plus with
  | true =>
    refine (readExponent?_plus hds hne).trans ?_
    rw [hvalue]
    congr 1
    omega
  | false =>
    refine (readExponent?_signed hds hne false).trans ?_
    rw [hvalue, if_neg Bool.false_ne_true]
    congr 1
    omega

def StandsFor (cs : List Char) (negative : Bool) (n : Nat) (k : Int) : Prop :=
  ∃ digits exponent, Numeral.ofChars? (signed negative cs) = some ⟨negative, digits, exponent⟩ ∧
    (digits * 10 ^ exponent : ℚ) = n * 10 ^ k

theorem standsFor_point (hds : ∀ c ∈ ds, c.isDigit = true) (hne : ds ≠ []) (hps : ∀ c ∈ ps, c.isDigit = true)
    (hvalue : (Nat.ofDigitChars 10 (ds ++ ps) 0 * 10 ^ (-(ps.length : Int)) : ℚ) = n * 10 ^ k) :
    StandsFor (ds ++ '.' :: ps) negative n k := by
  refine ⟨_, _, ?_, hvalue⟩
  have hread : Numeral.ofChars? (signed negative (ds ++ '.' :: (ps ++ []))) = _ :=
    ofChars?_point hds hne hps fun c hc => by cases hc
  rw [List.append_nil] at hread
  rw [hread, readExponent?, Option.map_some, Int.zero_sub]

section Style

variable (style : DecimalStyle) (negative : Bool) (n : Nat) (k : Int)

theorem standsFor_whole (hk : 0 ≤ k) :
    StandsFor ((Nat.repr n).toList ++ List.replicate k.toNat '0' ++ '.' :: ['0']) negative n k := by
  refine standsFor_point (List.forall_mem_append.2 ⟨isDigit_repr n, isDigit_zeros _⟩)
    (List.append_ne_nil_of_left_ne_nil (repr_ne_nil n) _) (isDigit_zeros 1) ?_
  have hpow : (10 : ℚ) ^ k = 10 ^ k.toNat := by rw [← zpow_natCast, Int.toNat_of_nonneg hk]
  rw [Nat.ofDigitChars_append, Nat.ofDigitChars_append, ofDigitChars_repr, Nat.ofDigitChars_replicate_zero,
    Nat.ofDigitChars_cons, Nat.ofDigitChars_nil, hpow]
  norm_num
  ring

theorem standsFor_split {places : Nat} (hplaces : 0 < places) (hk : ((Nat.repr n).toList.length : Int) = places - k)
    (hle : k < 0) :
    StandsFor ((Nat.repr n).toList.take places ++ '.' :: (Nat.repr n).toList.drop places) negative n k := by
  have hds := isDigit_repr n
  refine standsFor_point (fun c hc => hds c (List.mem_of_mem_take hc)) ?_
    (fun c hc => hds c (List.mem_of_mem_drop hc)) ?_
  · rw [ne_eq, List.take_eq_nil_iff, not_or]
    exact ⟨hplaces.ne', repr_ne_nil n⟩
  · rw [List.take_append_drop, ofDigitChars_repr, List.length_drop]
    congr 2
    omega

theorem standsFor_fraction {zeros : Nat} (hk : ((Nat.repr n).toList.length : Int) = -k - zeros) :
    StandsFor (['0'] ++ '.' :: (List.replicate zeros '0' ++ (Nat.repr n).toList)) negative n k := by
  refine standsFor_point (isDigit_zeros 1) (List.cons_ne_nil _ _)
    (List.forall_mem_append.2 ⟨isDigit_zeros _, isDigit_repr n⟩) ?_
  rw [← List.append_assoc, List.singleton_append, ← List.replicate_succ, ofDigitChars_zeros_repr,
    List.length_append, List.length_replicate]
  congr 2
  omega

theorem standsFor_scientific {tail : String}
    (htail : readExponent? tail.toList = some (k + (Nat.repr n).toList.length - 1))
    (hmark : tail.toList.head? = some 'e') :
    StandsFor ((match (Nat.repr n).toList with
      | d :: e :: rest => String.ofList (d :: '.' :: e :: rest)
      | _ => Nat.repr n) ++ tail).toList negative n k := by
  have hds := isDigit_repr n
  have hvalue := ofDigitChars_repr n
  have hstop : ∀ c ∈ tail.toList.head?, asciiDigit? c = none ∧ c ≠ '.' := by
    rw [hmark]
    rintro c ⟨⟩
    decide
  refine ⟨n, k, ?_, rfl⟩
  rw [String.toList_append]
  split
  case h_1 d e rest hrepr =>
    rw [hrepr] at hds hvalue htail
    obtain ⟨hd, hrest⟩ := List.forall_mem_cons.1 hds
    have hread : Numeral.ofChars? (signed negative ([d] ++ '.' :: (e :: rest ++ tail.toList))) = _ :=
      ofChars?_point (by simpa using hd) (List.cons_ne_nil _ _) hrest fun c hc => (hstop c hc).1
    rw [String.toList_ofList]
    refine hread.trans ?_
    rw [htail, List.singleton_append, hvalue]
    simp
    omega
  case h_2 hshort =>
    have hone : (Nat.repr n).toList.length = 1 := by
      obtain ⟨d, ds, hrepr⟩ := List.exists_cons_of_ne_nil (repr_ne_nil n)
      cases ds with
      | nil => rw [hrepr, List.length_singleton]
      | cons e rest => exact absurd hrepr (hshort d e rest)
    rw [ofChars?_whole hds (repr_ne_nil n) hstop, htail, hvalue, hone]
    simp

theorem standsFor_write : StandsFor (style.write n k).toList negative n k := by
  have hpositive : 0 < (Nat.repr n).toList.length := List.length_pos_of_ne_nil (repr_ne_nil n)
  have hlength : (Nat.repr n).length = (Nat.repr n).toList.length := String.length_toList.symm
  rw [DecimalStyle.write]
  simp only [hlength]
  split
  case isTrue =>
    split
    case isTrue hk =>
      rw [String.toList_append, String.toList_append, String.toList_ofList]
      exact standsFor_whole negative n k hk
    split
    case isTrue hk hlead =>
      simp only [String.toList_append, String.toList_ofList, List.append_assoc]
      exact standsFor_split negative n k (Nat.succ_pos _) (by omega) (by omega)
    case isFalse hk hlead =>
      simp only [String.toList_append, String.toList_ofList, List.append_assoc]
      exact standsFor_fraction negative n k (by omega)
  case isFalse =>
    have htail := readExponent?_written style.width style.plus (k + (Nat.repr n).toList.length - 1)
    simp only [String.append_assoc] at htail ⊢
    refine standsFor_scientific negative n k htail ?_
    rw [String.toList_append]
    rfl

end Style

end Written

section Texts

open Json (Marks)

variable {cs : List Char} {c : Char}

theorem digitValue?_of_isDigit (h : c.isDigit = true) : digitValue? c = some (c.toNat - '0'.toNat) := by
  rw [Char.isDigit_iff_toNat] at h
  rw [digitValue?, if_pos]
  simpa [Char.le_def, UInt32.le_iff_toNat_le] using h

theorem asciiDigits_of_marks (h : Marks cs) : asciiDigits cs = cs := by
  refine (List.map_congr_left fun c hc => ?_).trans (List.map_id cs)
  obtain hdigit | hmark := h c hc
  · have hle : '0'.toNat ≤ c.toNat := (Char.isDigit_iff_toNat.1 hdigit).1
    rw [digitValue?_of_isDigit hdigit]
    simp only
    rw [Nat.add_sub_cancel' hle, Char.ofNat_toNat, id]
  · simp only [List.mem_cons, List.not_mem_nil, or_false] at hmark
    rcases hmark with rfl | rfl | rfl | rfl <;> rfl

theorem dropUnderscores?_of_notMem (h : '_' ∉ cs) (before : Bool) : dropUnderscores? before cs = some cs := by
  induction cs generalizing before with
  | nil => rfl
  | cons c cs ih =>
    rw [List.mem_cons, not_or] at h
    rw [dropUnderscores?.eq_def]
    split
    case h_1 heq => cases heq
    case h_2 heq => exact absurd (List.cons.inj heq).1.symm h.1
    case h_3 heq =>
      cases heq
      rw [ih h.2]
      rfl

theorem toLower_of_isMark (h : Json.IsMark c) : c.toLower = c := by
  obtain hdigit | hmark := h
  · rw [Char.isDigit_iff_toNat] at hdigit
    refine dif_neg fun hupper => absurd hdigit.2 (Nat.not_le.2 ?_)
    exact Nat.lt_of_lt_of_le (by decide) (UInt32.le_iff_toNat_le.1 hupper.1)
  · simp only [List.mem_cons, List.not_mem_nil, or_false] at hmark
    rcases hmark with rfl | rfl | rfl | rfl <;> rfl

theorem special?_of_marks (h : Marks cs) : special? cs = none := by
  have hword (s : String) (c : Char) (hc : c ∈ s.toList) (hother : ¬Json.IsMark c) :
      String.ofList ((readSign cs).2.map Char.toLower) ≠ s := by
    rintro rfl
    rw [String.toList_ofList] at hc
    obtain ⟨d, hd, rfl⟩ := List.mem_map.1 hc
    have hmark := h d (Json.readSign_suffix.mem hd)
    exact hother ((toLower_of_isMark hmark).symm ▸ hmark)
  rw [special?]
  simp only
  rw [if_neg (not_or.2 ⟨hword "inf" 'i' (by decide) (by decide), hword "infinity" 'i' (by decide) (by decide)⟩),
    if_neg (hword "nan" 'n' (by decide) (by decide))]

theorem ofText?_of_marks {s : String} (h : Marks s.toList) :
    Double.ofText? s = (Numeral.ofChars? s.toList).map (·.toDouble) := by
  have hspace (c : Char) (hc : c ∈ s.toList) : isSpace c = false := by
    rw [Bool.eq_false_iff]
    exact fun hspace => Bool.eq_false_iff.1 (h.visible.not_isBlank hc) (isBlank_of_isSpace hspace)
  have htrim : trimBy isSpace s.toList = s.toList :=
    trimBy_eq_self_iff.2 ⟨fun c hc => hspace c (List.mem_of_mem_head? hc),
      fun c hc => hspace c (List.mem_of_mem_getLast? hc)⟩
  have hunderscore : '_' ∉ s.toList := fun hc => absurd (h _ hc) (by decide)
  rw [Double.ofText?, asciiDigits_of_marks h, htrim, dropUnderscores?_of_notMem hunderscore]
  change (special? s.toList).orElse _ = _
  rw [special?_of_marks h]
  rfl

namespace Double

theorem ofDecimal_zero (negative : Bool) (n : Nat) : ofDecimal negative n 0 = ofFraction negative n 1 := by
  by_cases hn : n = 0
  · rw [ofDecimal, if_pos hn, ofFraction, if_pos hn]
  rw [ofDecimal, if_neg hn]
  change (if 310 < (0 : Int) + digitCount n then _ else if (0 : Int) + digitCount n < -330 then _ else _) = _
  split
  case isTrue hlarge =>
    refine ((ofFraction_eq_infinity_iff negative n).2 ?_).symm
    calc overflowBound ≤ 10 ^ 310 := by decide +kernel
      _ ≤ 10 ^ (digitCount n - 1) := Nat.pow_le_pow_right (by omega) (by omega)
      _ ≤ n := pow_digitCount_le hn
  case isFalse =>
    rw [if_neg (by omega), if_pos (Int.le_refl 0)]
    exact congrArg (ofFraction negative · 1) (Nat.mul_one n)

theorem ofChars?_repr (negative : Bool) (n : Nat) :
    Numeral.ofChars? (signed negative (Nat.repr n).toList) = some ⟨negative, n, 0⟩ := by
  have hread : Numeral.ofChars? (signed negative ((Nat.repr n).toList ++ [])) = _ :=
    ofChars?_whole (isDigit_repr n) (repr_ne_nil n) fun c hc => by cases hc
  rw [List.append_nil, ofDigitChars_repr] at hread
  rw [hread, readExponent?, Option.map_some]

theorem ofText?_int (n : Int) : ofText? (toString n) = some (ofFraction (n < 0) n.natAbs 1) := by
  rw [ofText?_of_marks (Json.marks_int n)]
  cases n with
  | ofNat n =>
    change (Numeral.ofChars? (signed false (Nat.repr n).toList)).map _ = _
    rw [ofChars?_repr, Option.map_some, Numeral.toDouble, ofDecimal_zero]
    rfl
  | negSucc n =>
    change (Numeral.ofChars? ("-" ++ Nat.repr (n + 1)).toList).map _ = _
    rw [String.toList_append]
    change (Numeral.ofChars? (signed true (Nat.repr (n + 1)).toList)).map _ = _
    rw [ofChars?_repr, Option.map_some, Numeral.toDouble, ofDecimal_zero, decide_eq_true (Int.negSucc_lt_zero n)]
    rfl

/-- Every number is read back from its text. -/
theorem ofText?_text {x : Double} (hx : x.Canonical) : ofText? x.text = some x := by
  cases x with
  | nan => decide
  | infinity negative => cases negative <;> decide
  | finite negative m e =>
    rw [text, ofText?_of_marks (Json.marks_writeWith_finite .plain negative m e)]
    by_cases hm : m = 0
    · subst hm
      obtain rfl : e = leastExponent := hx.2.2.2.resolve_right (by omega)
      cases negative <;> decide
    · have hnear := near_shortest hx hm
      rw [writeWith]
      generalize shortest m e = written at hnear ⊢
      obtain ⟨n, k⟩ := written
      have hn : n ≠ 0 := by
        rintro rfl
        simpa using hnear.pos hm
      obtain ⟨digits, exponent, hread, hvalue⟩ := standsFor_write .plain negative n k
      have htext : ((if negative then "-" else "") ++ DecimalStyle.plain.write n k).toList =
          signed negative (DecimalStyle.plain.write n k).toList := by
        rw [String.toList_append]
        cases negative <;> rfl
      simp only [if_neg hn]
      rw [htext, hread, Option.map_some, Numeral.toDouble, ofDecimal_of_near hx hm (hvalue ▸ hnear)]

end Double

end Texts

end Kitting
