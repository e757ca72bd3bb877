import Kitting.Json.Printer
import Kitting.Json.Reader

namespace Kitting

variable {value count : Nat} {cs rest : List Char}

theorem asciiDigit?_of_isDigit {c : Char} (h : c.isDigit = true) :
    asciiDigit? c = some (c.toNat - '0'.toNat) := by
  rw [Char.isDigit_iff_toNat] at h
  rw [asciiDigit?, if_pos]
  simpa [Char.le_def, UInt32.le_iff_toNat_le] using h

theorem readDigits_of_isDigit (h : ∀ c ∈ cs, c.isDigit = true) :
    readDigits value count cs = (Nat.ofDigitChars 10 cs value, count + cs.length, []) := by
  induction cs generalizing value count with
  | nil => rfl
  | cons c cs ih =>
    rw [readDigits, asciiDigit?_of_isDigit (h c List.mem_cons_self)]
    simp only
    rw [ih fun d hd => h d (List.mem_cons_of_mem c hd), Nat.ofDigitChars_cons, List.length_cons]
    congr 2
    omega

theorem isDigit_zeros (j : Nat) : ∀ c ∈ List.replicate j '0', c.isDigit = true := by
  intro c hc
  rw [List.eq_of_mem_replicate hc]
  rfl

theorem toList_repr (n : Nat) : (Nat.repr n).toList = Nat.toDigits 10 n := by
  rw [Nat.repr_eq_ofList_toDigits, String.toList_ofList]

theorem isDigit_repr (n : Nat) : ∀ c ∈ (Nat.repr n).toList, c.isDigit = true := by
  rw [toList_repr]
  exact fun c hc => Nat.isDigit_of_mem_toDigits (by omega) (by omega) hc

theorem repr_ne_nil (n : Nat) : (Nat.repr n).toList ≠ [] := by
  rw [toList_repr]
  exact Nat.toDigits_ne_nil

namespace Json

def Stops (rest : List Char) : Prop :=
  ∀ c ∈ rest.head?, asciiDigit? c = none ∧ ¬ (c = '.' ∨ c = 'e' ∨ c = 'E' ∨ c = '+' ∨ c = '-')

theorem stops_nil : Stops [] := fun _ h => absurd h (Option.not_mem_none _)

theorem Stops.not_digit (h : Stops rest) : ∀ c ∈ rest.head?, asciiDigit? c = none := fun c hc => (h c hc).1

theorem readDigits_append (h : ∀ c ∈ rest.head?, asciiDigit? c = none) :
    readDigits value count (cs ++ rest) =
      ((readDigits value count cs).1, (readDigits value count cs).2.1,
        (readDigits value count cs).2.2 ++ rest) := by
  induction cs generalizing value count with
  | nil =>
    cases rest with
    | nil => rfl
    | cons c rest => simp only [List.nil_append, readDigits, h c rfl]
  | cons c cs ih =>
    rw [List.cons_append, readDigits, readDigits]
    cases asciiDigit? c with
    | none => rfl
    | some d => exact ih

theorem readSign_append (h : Stops rest) :
    readSign (cs ++ rest) = ((readSign cs).1, (readSign cs).2 ++ rest) := by
  cases cs with
  | nil =>
    cases rest with
    | nil => rfl
    | cons c rest =>
      have hc := (h c rfl).2
      rw [List.nil_append, readSign.eq_def]
      split <;> simp_all [readSign]
  | cons c cs =>
    rw [List.cons_append, readSign.eq_def, readSign.eq_def]
    split <;> simp_all

variable {whole digits places : Nat} {negative : Bool} {power : Option Int} {v : Json} {r : List Char}

theorem readPlaces?_append (h : Stops rest) (hread : readPlaces? whole cs = some (digits, places, r)) :
    readPlaces? whole (cs ++ rest) = some (digits, places, r ++ rest) := by
  cases cs with
  | nil =>
    cases hread
    rw [List.nil_append, readPlaces?.eq_def]
    split
    · exact absurd (Or.inl rfl) (h _ rfl).2
    · rfl
  | cons c cs =>
    rw [readPlaces?.eq_def] at hread
    rw [List.cons_append, readPlaces?.eq_def]
    split at hread
    · rename_i cs' heq
      cases heq
      simp only [readDigits_append h.not_digit]
      generalize readDigits whole 0 cs = read at hread ⊢
      obtain ⟨n, k, r'⟩ := read
      by_cases hk : k = 0
      · simp [hk] at hread
      · simp only [hk, if_false] at hread ⊢
        cases hread
        rfl
    · rename_i hne
      cases hread
      split
      · rename_i cs' heq
        exact absurd (congrArg (· :: cs) (List.cons.inj heq).1) (hne _)
      · rfl

theorem readPower?_append (h : Stops rest) (hread : readPower? cs = some (power, r)) :
    readPower? (cs ++ rest) = some (power, r ++ rest) := by
  cases cs with
  | nil =>
    cases hread
    cases rest with
    | nil => rfl
    | cons c rest =>
      have hc : ¬ (c = 'e' ∨ c = 'E') := fun hc => (h c rfl).2 (.inr (hc.imp_right .inl))
      rw [List.nil_append, readPower?, if_neg hc]
  | cons c cs =>
    rw [readPower?] at hread
    rw [List.cons_append, readPower?]
    by_cases hc : c = 'e' ∨ c = 'E'
    · rw [if_pos hc] at hread ⊢
      simp only [readSign_append h, readDigits_append h.not_digit]
      simp only at hread
      generalize readDigits 0 0 (readSign cs).2 = read at hread ⊢
      obtain ⟨n, k, r'⟩ := read
      by_cases hk : k = 0
      · simp [hk] at hread
      · simp only [hk, if_false] at hread ⊢
        cases hread
        rfl
    · rw [if_neg hc] at hread ⊢
      cases hread
      rfl

theorem exists_digit_of_readNumber? (hread : readNumber? negative cs = some (v, r)) :
    ∃ c cs', cs = c :: cs' ∧ ∃ d, asciiDigit? c = some d := by
  cases cs with
  | nil => cases hread
  | cons c cs =>
    refine ⟨c, cs, rfl, ?_⟩
    cases hc : asciiDigit? c with
    | some d => exact ⟨d, rfl⟩
    | none =>
      rw [readNumber?, readDigits, hc] at hread
      simp at hread

theorem readNumber?_append (h : Stops rest) (hread : readNumber? negative cs = some (v, r)) :
    readNumber? negative (cs ++ rest) = some (v, r ++ rest) := by
  obtain ⟨c, cs, rfl, -⟩ := exists_digit_of_readNumber? hread
  have hhead : (c :: cs ++ rest).head? = (c :: cs).head? := rfl
  rw [readNumber?] at hread ⊢
  rw [readDigits_append h.not_digit, hhead]
  generalize readDigits 0 0 (c :: cs) = read at hread ⊢
  obtain ⟨whole, k, r₀⟩ := read
  simp only at hread ⊢
  by_cases hcount : k = 0 ∨ (1 < k ∧ (c :: cs).head? = some '0')
  · rw [if_pos hcount] at hread
    cases hread
  rw [if_neg hcount] at hread ⊢
  simp only [bind, Option.bind_eq_some_iff] at hread ⊢
  obtain ⟨⟨digits, places, r₁⟩, hplaces, ⟨power, r₂⟩, hpower, hread⟩ := hread
  refine ⟨_, readPlaces?_append h hplaces, _, readPower?_append h hpower, ?_⟩
  cases places <;> cases power <;> cases hread <;> rfl

theorem eq_append_of_afterWord? {word : List Char} (h : afterWord? word cs = some r) : cs = word ++ r := by
  induction word generalizing cs with
  | nil => exact Option.some.inj h
  | cons w word ih =>
    cases cs with
    | nil => cases h
    | cons c cs =>
      rw [afterWord?] at h
      split at h
      · rename_i hw
        rw [hw, ih h, List.cons_append]
      · cases h

theorem readScalar?_constant {word : List Char} (h : (word, v) ∈ constants) :
    readScalar? (word ++ rest) = some (v, rest) := by
  simp only [constants, List.mem_cons, List.not_mem_nil, or_false, Prod.mk.injEq] at h
  rcases h with ⟨rfl, rfl⟩ | ⟨rfl, rfl⟩ | ⟨rfl, rfl⟩ | ⟨rfl, rfl⟩ | ⟨rfl, rfl⟩ | ⟨rfl, rfl⟩ <;>
    simp [readScalar?, constants, afterWord?]

section Digit

variable {c : Char} {d : Nat} (hc : asciiDigit? c = some d)
include hc

theorem readScalar?_digit : readScalar? (c :: cs) = readNumber? false (c :: cs) := by
  have hne (w : Char) (hw : asciiDigit? w = none) : w ≠ c := by
    rintro rfl
    cases hw.symm.trans hc
  have hnone : ∀ p ∈ constants, afterWord? p.1 (c :: cs) = none := by
    simp [constants, afterWord?, hne 'n' rfl, hne 't' rfl, hne 'f' rfl, hne 'N' rfl, hne 'I' rfl, hne '-' rfl]
  unfold readScalar?
  split
  · rename_i heq
    obtain ⟨p, hp, hread⟩ := List.exists_of_findSome?_eq_some heq
    dsimp only at hread
    rw [hnone p hp] at hread
    cases hread
  split
  · rename_i heq
    exact absurd (List.cons.inj heq).1.symm (hne '-' rfl)
  · rfl

theorem readScalar?_minus : readScalar? ('-' :: c :: cs) = readNumber? true (c :: cs) := by
  have hne : 'I' ≠ c := by
    rintro rfl
    cases hc
  simp [readScalar?, constants, afterWord?, hne]

end Digit

theorem readScalar?_cases (hread : readScalar? cs = some (v, r)) :
    (∃ word, (word, v) ∈ constants ∧ cs = word ++ r) ∨
      ∃ c cs' d, asciiDigit? c = some d ∧
        (cs = c :: cs' ∧ readNumber? false (c :: cs') = some (v, r) ∨
          cs = '-' :: c :: cs' ∧ readNumber? true (c :: cs') = some (v, r)) := by
  unfold readScalar? at hread
  split at hread
  · rename_i hconstant
    cases hread
    obtain ⟨⟨word, v'⟩, hmem, hword⟩ := List.exists_of_findSome?_eq_some hconstant
    obtain ⟨r', hafter, heq⟩ := Option.map_eq_some_iff.1 hword
    cases heq
    exact .inl ⟨word, hmem, eq_append_of_afterWord? hafter⟩
  · split at hread
    · obtain ⟨c, cs', rfl, d, hd⟩ := exists_digit_of_readNumber? hread
      exact .inr ⟨c, cs', d, hd, .inr ⟨rfl, hread⟩⟩
    · obtain ⟨c, cs', rfl, d, hd⟩ := exists_digit_of_readNumber? hread
      exact .inr ⟨c, cs', d, hd, .inl ⟨rfl, hread⟩⟩

theorem readScalar?_append (h : Stops rest) (hread : readScalar? cs = some (v, r)) :
    readScalar? (cs ++ rest) = some (v, r ++ rest) := by
  obtain ⟨word, hmem, rfl⟩ | ⟨c, cs, d, hd, ⟨rfl, hnumber⟩ | ⟨rfl, hnumber⟩⟩ :=
    readScalar?_cases hread
  · rw [List.append_assoc]
    exact readScalar?_constant hmem
  · rw [List.cons_append, readScalar?_digit hd]
    exact readNumber?_append h hnumber
  · rw [List.cons_append, List.cons_append, readScalar?_minus hd]
    exact readNumber?_append h hnumber

section Suffix

theorem readDigits_suffix : (readDigits value count cs).2.2 <:+ cs := by
  induction cs generalizing value count with
  | nil => exact List.suffix_rfl
  | cons c cs ih =>
    rw [readDigits]
    split
    · exact ih.trans (List.suffix_cons c cs)
    · exact List.suffix_rfl

theorem readSign_suffix : (readSign cs).2 <:+ cs := by
  unfold readSign
  split
  · exact List.suffix_cons _ _
  · exact List.suffix_cons _ _
  · exact List.suffix_rfl

theorem readPlaces?_suffix (hread : readPlaces? whole cs = some (digits, places, r)) : r <:+ cs := by
  unfold readPlaces? at hread
  split at hread
  · rename_i cs'
    have hsuffix : (readDigits whole 0 cs').2.2 <:+ cs' := readDigits_suffix
    generalize readDigits whole 0 cs' = read at hread hsuffix
    obtain ⟨n, k, r'⟩ := read
    by_cases hk : k = 0
    · simp [hk] at hread
    · simp only [hk, if_false] at hread
      cases hread
      exact hsuffix.trans (List.suffix_cons _ _)
  · cases hread
    exact List.suffix_rfl

theorem readPower?_suffix (hread : readPower? cs = some (power, r)) : r <:+ cs := by
  cases cs with
  | nil =>
    cases hread
    exact List.suffix_rfl
  | cons c cs =>
    rw [readPower?] at hread
    split at hread
    · have hsuffix : (readDigits 0 0 (readSign cs).2).2.2 <:+ cs := readDigits_suffix.trans readSign_suffix
      simp only at hread
      generalize readDigits 0 0 (readSign cs).2 = read at hread hsuffix
      obtain ⟨n, k, r'⟩ := read
      by_cases hk : k = 0
      · simp [hk] at hread
      · simp only [hk, if_false] at hread
        cases hread
        exact hsuffix.trans (List.suffix_cons _ _)
    · cases hread
      exact List.suffix_rfl

theorem readNumber?_suffix_digits (hread : readNumber? negative cs = some (v, r)) :
    r <:+ (readDigits 0 0 cs).2.2 := by
  rw [readNumber?] at hread
  generalize readDigits 0 0 cs = read at hread ⊢
  obtain ⟨whole, k, r₀⟩ := read
  simp only at hread
  split at hread
  · cases hread
  simp only [bind, Option.bind_eq_some_iff] at hread
  obtain ⟨⟨digits, places, r₁⟩, hplaces, ⟨power, r₂⟩, hpower, hread⟩ := hread
  have hr : r₂ = r := by cases places <;> cases power <;> cases hread <;> rfl
  exact hr ▸ (readPower?_suffix hpower).trans (readPlaces?_suffix hplaces)

theorem readNumber?_suffix (hread : readNumber? negative cs = some (v, r)) : r <:+ cs :=
  (readNumber?_suffix_digits hread).trans readDigits_suffix

theorem readScalar?_suffix (hread : readScalar? cs = some (v, r)) : r <:+ cs := by
  obtain ⟨word, -, rfl⟩ | ⟨c, cs, d, -, ⟨rfl, hnumber⟩ | ⟨rfl, hnumber⟩⟩ := readScalar?_cases hread
  · exact List.suffix_append word r
  · exact readNumber?_suffix hnumber
  · exact (readNumber?_suffix hnumber).trans (List.suffix_cons _ _)

end Suffix

section Whole

variable {n : Nat}

theorem head?_toDigits_ne (hn : 0 < n) : (Nat.toDigits 10 n).head? ≠ some '0' := by
  induction n using Nat.strongRecOn with
  | ind n ih =>
    by_cases hlt : n < 10
    · rw [Nat.toDigits_of_lt_base hlt, List.head?_cons, ne_eq, Option.some_inj, Nat.digitChar_eq_zero]
      omega
    · have hrest := ih (n / 10) (by omega) (by omega)
      rw [Nat.toDigits_of_base_le (by omega) (by omega), List.head?_append]
      obtain ⟨c, cs, hcs⟩ := List.exists_cons_of_ne_nil (Nat.toDigits_ne_nil (n := n / 10) (b := 10))
      rw [hcs] at hrest ⊢
      exact hrest

theorem readNumber?_repr (n : Nat) :
    readNumber? negative (Nat.repr n).toList = some (.int (if negative then -(n : Int) else n), []) := by
  have hcount : ¬ ((Nat.toDigits 10 n).length = 0 ∨
      1 < (Nat.toDigits 10 n).length ∧ (Nat.toDigits 10 n).head? = some '0') := by
    rintro (hzero | ⟨hlong, hhead⟩)
    · exact Nat.toDigits_ne_nil (List.eq_nil_of_length_eq_zero hzero)
    · have hten : ¬ n < 10 := fun hlt =>
        absurd ((Nat.length_toDigits_le_iff (by omega) Nat.one_pos).2 (by omega)) (Nat.not_le.2 hlong)
      exact head?_toDigits_ne (by omega) hhead
  rw [readNumber?, readDigits_of_isDigit (isDigit_repr n), toList_repr]
  simp only [Nat.zero_add, if_neg hcount, Nat.ofDigitChars_ten_toDigits]
  rfl

theorem exists_digit_of_repr (n : Nat) :
    ∃ c cs d, (Nat.repr n).toList = c :: cs ∧ asciiDigit? c = some d := by
  obtain ⟨c, cs, hcs, d, hd⟩ := exists_digit_of_readNumber? (@readNumber?_repr false n)
  exact ⟨c, cs, d, hcs, hd⟩

theorem readScalar?_int (n : Int) : readScalar? (toString n).toList = some (.int n, []) := by
  cases n with
  | ofNat n =>
    obtain ⟨c, cs, d, hcs, hd⟩ := exists_digit_of_repr n
    change readScalar? (Nat.repr n).toList = _
    rw [hcs, readScalar?_digit hd, ← hcs, readNumber?_repr]
    rfl
  | negSucc n =>
    obtain ⟨c, cs, d, hcs, hd⟩ := exists_digit_of_repr (n + 1)
    change readScalar? ("-" ++ Nat.repr (n + 1)).toList = _
    rw [String.toList_append, hcs]
    change readScalar? ('-' :: c :: cs) = _
    rw [readScalar?_minus hd, ← hcs, readNumber?_repr]
    rfl

end Whole

section Binary

def Visible (cs : List Char) : Prop := ∀ c ∈ cs, ' ' < c ∧ c < '\x7f'

-- The search would also find the instance that runs over every character there is.
instance (cs : List Char) : Decidable (Visible cs) := List.decidableBAll (fun c => ' ' < c ∧ c < '\x7f') cs

theorem Visible.not_isBlank {c : Char} (h : Visible cs) (hc : c ∈ cs) : Text.isBlank c = false := by
  obtain ⟨hlow, hhigh⟩ := h c hc
  rw [Char.lt_def, UInt32.lt_iff_toNat_lt] at hlow hhigh
  have hbounds : ' '.val.toNat = 32 ∧ '\x7f'.val.toNat = 127 := by decide
  have hval : c.val.toNat = c.toNat := rfl
  rw [← Bool.not_eq_true]
  intro hblank
  simp only [Text.isBlank, Text.isSpace, Bool.or_eq_true, Bool.and_eq_true, decide_eq_true_eq, beq_iff_eq] at hblank
  omega

def IsMark (c : Char) : Prop := c.isDigit = true ∨ c ∈ ['.', 'e', '+', '-']

instance : DecidablePred IsMark := fun _ => inferInstanceAs (Decidable (_ ∨ _))

def Marks (cs : List Char) : Prop := ∀ c ∈ cs, IsMark c

instance (cs : List Char) : Decidable (Marks cs) := List.decidableBAll IsMark cs

variable {ds : List Char}

theorem Marks.append (h : Marks cs) (h' : Marks ds) : Marks (cs ++ ds) := List.forall_mem_append.2 ⟨h, h'⟩

theorem Marks.take (h : Marks cs) (n : Nat) : Marks (cs.take n) := fun c hc => h c (List.mem_of_mem_take hc)

theorem Marks.drop (h : Marks cs) (n : Nat) : Marks (cs.drop n) := fun c hc => h c (List.mem_of_mem_drop hc)

theorem Marks.visible (h : Marks cs) : Visible cs := by
  intro c hc
  obtain hdigit | hmark := h c hc
  · rw [Char.isDigit_iff_toNat] at hdigit
    rw [Char.lt_def, Char.lt_def, UInt32.lt_iff_toNat_lt, UInt32.lt_iff_toNat_lt]
    exact ⟨Nat.lt_of_lt_of_le (by decide) hdigit.1, Nat.lt_of_le_of_lt hdigit.2 (by decide)⟩
  · have hall : Visible ['.', 'e', '+', '-'] := by decide
    exact hall c hmark

theorem marks_zeros (n : Nat) : Marks (List.replicate n '0') := fun c hc => .inl (isDigit_zeros n c hc)

theorem marks_repr (n : Nat) : Marks (Nat.repr n).toList := fun c hc => .inl (isDigit_repr n c hc)

theorem marks_int (n : Int) : Marks (toString n).toList := by
  cases n with
  | ofNat n => exact marks_repr n
  | negSucc n =>
    change Marks ("-" ++ Nat.repr (n + 1)).toList
    rw [String.toList_append]
    exact Marks.append (by decide) (marks_repr _)

theorem visible_int (n : Int) : Visible (toString n).toList := (marks_int n).visible

theorem marks_write (style : DecimalStyle) (n : Nat) (k : Int) : Marks (style.write n k).toList := by
  have hds := marks_repr n
  rw [DecimalStyle.write]
  simp only
  split
  · split
    · simp only [String.toList_append, String.toList_ofList]
      exact (hds.append (marks_zeros _)).append (by decide)
    split
    · simp only [String.toList_append, String.toList_ofList]
      exact ((hds.take _).append (by decide)).append (hds.drop _)
    · simp only [String.toList_append, String.toList_ofList]
      exact (Marks.append (by decide) (marks_zeros _)).append hds
  · simp only [String.toList_append, zeroPad, String.toList_ofList]
    refine Marks.append (Marks.append (Marks.append ?_ (by decide)) ?_) ?_
    · split
      · rename_i d e rest heq
        rw [heq] at hds
        rw [String.toList_ofList]
        exact Marks.append (hds.take 1) (Marks.append (show Marks ['.'] by decide) (hds.drop 1))
      · exact hds
    · split
      · decide
      split <;> decide
    · exact (marks_zeros _).append (marks_repr _)

theorem marks_writeWith_finite (style : DecimalStyle) (negative : Bool) (m : Nat) (e : Int) :
    Marks ((Double.finite negative m e).writeWith style).toList := by
  simp only [Double.writeWith, String.toList_append]
  refine Marks.append ?_ ?_
  · split <;> decide
  · split
    · decide
    · exact marks_write style _ _

theorem visible_writeWith (style : DecimalStyle) (x : Double) : Visible (x.writeWith style).toList := by
  cases x with
  | nan => exact show Visible "nan".toList by decide
  | infinity negative =>
    cases negative with
    | false => exact show Visible "inf".toList by decide
    | true => exact show Visible "-inf".toList by decide
  | finite negative m e => exact (marks_writeWith_finite style negative m e).visible

theorem visible_floatText (style : DecimalStyle) (x : Double) : Visible (floatText style x).toList := by
  cases x with
  | nan => exact show Visible "NaN".toList by decide
  | infinity negative =>
    cases negative with
    | false => exact show Visible "Infinity".toList by decide
    | true => exact show Visible "-Infinity".toList by decide
  | finite negative m e => exact visible_writeWith style (.finite negative m e)

end Binary

end Json

end Kitting
