import Kitting.Proofs.Json.RoundTrip

namespace Kitting.Json

variable {fuel n : Nat} {c d e : Char} {cs cs' r s : List Char}

section Strings

/-- The inside of a string up to the quote that closes it, taken off by characters and escapes. -/
inductive Quoted : List Char → List Char → Prop
  | close (r : List Char) : Quoted ('"' :: r) r
  | plain {c : Char} {cs r : List Char} : c ≠ '"' → c ≠ '\\' → ¬c.toNat < 0x20 → Quoted cs r → Quoted (c :: cs) r
  | escape {e d : Char} {cs r : List Char} : e ≠ 'u' → escaped? e = some d → Quoted cs r → Quoted ('\\' :: e :: cs) r
  | unit {n : Nat} {cs cs' r : List Char} : readHex4? cs = some (n, cs') → Quoted cs' r → Quoted ('\\' :: 'u' :: cs) r

theorem readString?_plain (hquote : c ≠ '"') (hslash : c ≠ '\\') (hcontrol : ¬c.toNat < 0x20) :
    readString? (fuel + 1) (c :: cs) = (readString? fuel cs).map fun p => (c :: p.1, p.2) := by
  simp only [readString?, hquote, hslash, hcontrol, if_false]
  cases readString? fuel cs <;> rfl

theorem readString?_escape (he : e ≠ 'u') (hd : escaped? e = some d) :
    readString? (fuel + 1) ('\\' :: e :: cs) = (readString? fuel cs).map fun p => (d :: p.1, p.2) := by
  simp only [readString?, Char.reduceEq, if_false, if_true, hd]
  cases readString? fuel cs <;> rfl

theorem readString?_unit (h : readHex4? cs = some (n, cs')) :
    readString? (fuel + 1) ('\\' :: 'u' :: cs) =
      (readString? fuel (readUnit n cs').2).map fun p => ((readUnit n cs').1 :: p.1, p.2) := by
  simp only [readString?, Char.reduceEq, if_false, if_true, h, Option.bind_eq_bind, Option.bind_some]
  cases readString? fuel (readUnit n cs').2 <;> rfl

theorem readString?_cases (h : readString? (fuel + 1) cs = some (s, r)) :
    cs = '"' :: r ∧ s = [] ∨
      (∃ c cs' s', cs = c :: cs' ∧ s = c :: s' ∧ (c ≠ '"' ∧ c ≠ '\\' ∧ ¬c.toNat < 0x20) ∧
        readString? fuel cs' = some (s', r)) ∨
      (∃ e d cs' s', cs = '\\' :: e :: cs' ∧ s = d :: s' ∧ (e ≠ 'u' ∧ escaped? e = some d) ∧
        readString? fuel cs' = some (s', r)) ∨
      ∃ n digits cs' s', cs = '\\' :: 'u' :: digits ∧ s = (readUnit n cs').1 :: s' ∧
        readHex4? digits = some (n, cs') ∧ readString? fuel (readUnit n cs').2 = some (s', r) := by
  cases cs with
  | nil => cases h
  | cons c cs =>
    by_cases hquote : c = '"'
    · subst hquote
      simp only [readString?, if_true, Option.some.injEq, Prod.mk.injEq] at h
      exact .inl ⟨by rw [h.2], h.1.symm⟩
    by_cases hslash : c = '\\'
    · subst hslash
      cases cs with
      | nil => cases h
      | cons e cs =>
        by_cases he : e = 'u'
        · subst he
          cases hhex : readHex4? cs with
          | none => simp [readString?, hhex] at h
          | some p =>
            rw [readString?_unit hhex, Option.map_eq_some_iff] at h
            obtain ⟨⟨s', r'⟩, hread, heq⟩ := h
            cases heq
            exact .inr (.inr (.inr ⟨p.1, cs, p.2, s', rfl, rfl, hhex, hread⟩))
        · cases hd : escaped? e with
          | none => simp [readString?, hd] at h
          | some d =>
            rw [readString?_escape he hd, Option.map_eq_some_iff] at h
            obtain ⟨⟨s', r'⟩, hread, heq⟩ := h
            cases heq
            exact .inr (.inr (.inl ⟨e, d, cs, s', rfl, rfl, ⟨he, hd⟩, hread⟩))
    by_cases hcontrol : c.toNat < 0x20
    · simp [readString?, hquote, hslash, hcontrol] at h
    · rw [readString?_plain hquote hslash hcontrol, Option.map_eq_some_iff] at h
      obtain ⟨⟨s', r'⟩, hread, heq⟩ := h
      cases heq
      exact .inr (.inl ⟨c, cs, s', rfl, rfl, ⟨hquote, hslash, hcontrol⟩, hread⟩)

theorem exists_of_readHex4? (h : readHex4? cs = some (n, r)) :
    ∃ digits, cs = digits ++ r ∧ digits.length = 4 ∧ (∀ c ∈ digits, (hexDigit? c).isSome) ∧
      ∀ rest, readHex4? (digits ++ rest) = some (n, rest) := by
  unfold readHex4? at h
  split at h
  · rename_i a b c d cs'
    simp only [bind, Option.bind_eq_some_iff] at h
    obtain ⟨x, hx, y, hy, z, hz, t, ht, heq⟩ := h
    cases heq
    exact ⟨[a, b, c, d], rfl, rfl, by simp [hx, hy, hz, ht], fun rest => by simp [readHex4?, hx, hy, hz, ht]⟩
  · cases h

theorem readUnit_cases (n : Nat) (cs : List Char) : (readUnit n cs).2 = cs ∨
    ∃ digits m, cs = '\\' :: 'u' :: digits ∧ readHex4? digits = some (m, (readUnit n cs).2) := by
  by_cases hhigh : 0xd800 ≤ n ∧ n < 0xdc00
  · unfold readUnit
    rw [if_pos hhigh]
    split
    · rename_i digits
      cases hhex : readHex4? digits with
      | none => exact .inl rfl
      | some p =>
        by_cases hlow : 0xdc00 ≤ p.1 ∧ p.1 < 0xe000
        · simp only [if_pos hlow]
          exact .inr ⟨digits, p.1, rfl, hhex⟩
        · simp only [if_neg hlow]
          exact .inl trivial
    · exact .inl rfl
  · rw [readUnit.eq_def, if_neg hhigh]
    split <;> exact .inl rfl

theorem length_readUnit_le (n : Nat) (cs : List Char) : (readUnit n cs).2.length ≤ cs.length := by
  obtain hsame | ⟨digits, m, hcs, hhex⟩ := readUnit_cases n cs
  · exact Nat.le_of_eq (congrArg List.length hsame)
  · obtain ⟨four, hdigits, -⟩ := exists_of_readHex4? hhex
    have hlength := congrArg List.length hcs
    have hlength' := congrArg List.length hdigits
    simp only [List.length_cons, List.length_append] at hlength hlength'
    omega

theorem readUnit_of_ne {ds : List Char} (h : ∀ digits, cs ≠ '\\' :: 'u' :: digits)
    (h' : ∀ digits, ds ≠ '\\' :: 'u' :: digits) : (readUnit n cs).2 = cs ∧ readUnit n ds = ((readUnit n cs).1, ds) := by
  have hplain {cs : List Char} (h : ∀ digits, cs ≠ '\\' :: 'u' :: digits) :
      readUnit n cs = ((readUnit n []).1, cs) := by
    by_cases hhigh : 0xd800 ≤ n ∧ n < 0xdc00
    · rw [readUnit.eq_def, if_pos hhigh, readUnit.eq_def, if_pos hhigh]
      split
      · exact absurd rfl (h _)
      · rfl
    · rw [readUnit.eq_def, if_neg hhigh, readUnit.eq_def, if_neg hhigh]
      split <;> rfl
  constructor
  · rw [hplain h]
  · rw [hplain h, hplain h']

theorem readUnit_unit {m : Nat} (h : readHex4? cs = some (m, cs')) : readUnit n ('\\' :: 'u' :: cs) =
    if 0xd800 ≤ n ∧ n < 0xdc00 then
      if 0xdc00 ≤ m ∧ m < 0xe000 then (Char.ofNat (0x10000 + (n - 0xd800) * 0x400 + (m - 0xdc00)), cs')
      else ('\ufffd', '\\' :: 'u' :: cs)
    else if 0xdc00 ≤ n ∧ n < 0xe000 then ('\ufffd', '\\' :: 'u' :: cs)
    else (Char.ofNat n, '\\' :: 'u' :: cs) := by
  simp only [readUnit, h]

namespace Quoted

theorem tail (h : Quoted (c :: cs) r) (hquote : c ≠ '"') (hslash : c ≠ '\\') : Quoted cs r := by
  cases h with
  | close => exact absurd rfl hquote
  | plain _ _ _ h => exact h
  | escape => exact absurd rfl hslash
  | unit => exact absurd rfl hslash

theorem unit_iff (h : readHex4? cs = some (n, cs')) : Quoted ('\\' :: 'u' :: cs) r ↔ Quoted cs' r := by
  constructor
  · intro hquoted
    cases hquoted with
    | plain _ hslash => exact absurd rfl hslash
    | escape he => exact absurd rfl he
    | unit hhex hquoted =>
      cases h.symm.trans hhex
      exact hquoted
  · exact .unit h

theorem readUnit_iff : Quoted (readUnit n cs).2 r ↔ Quoted cs r := by
  obtain hsame | ⟨digits, m, rfl, hhex⟩ := readUnit_cases n cs
  · rw [hsame]
  · exact (unit_iff hhex).symm

theorem of_readString? (h : readString? fuel cs = some (s, r)) : Quoted cs r := by
  induction fuel generalizing cs s with
  | zero => cases h
  | succ fuel ih =>
    obtain ⟨rfl, -⟩ | ⟨c, cs, s, rfl, -, ⟨hquote, hslash, hcontrol⟩, hread⟩ |
      ⟨e, d, cs, s, rfl, -, ⟨he, hd⟩, hread⟩ | ⟨n, digits, cs, s, rfl, -, hhex, hread⟩ := readString?_cases h
    · exact .close r
    · exact .plain hquote hslash hcontrol (ih hread)
    · exact .escape he hd (ih hread)
    · exact .unit hhex (readUnit_iff.1 (ih hread))

theorem exists_readString? (h : Quoted cs r) (hfuel : cs.length < fuel) : ∃ s, readString? fuel cs = some (s, r) := by
  induction fuel generalizing cs with
  | zero => omega
  | succ fuel ih =>
    cases h with
    | close => exact ⟨[], by simp [readString?]⟩
    | plain hquote hslash hcontrol h =>
      obtain ⟨s, hread⟩ := ih h (Nat.lt_of_succ_lt_succ hfuel)
      exact ⟨_, by rw [readString?_plain hquote hslash hcontrol, hread, Option.map_some]⟩
    | escape he hd h =>
      simp only [List.length_cons] at hfuel
      obtain ⟨s, hread⟩ := ih h (by omega)
      exact ⟨_, by rw [readString?_escape he hd, hread, Option.map_some]⟩
    | @unit n digits cs _ hhex h =>
      obtain ⟨four, rfl, -⟩ := exists_of_readHex4? hhex
      have hlength := length_readUnit_le n cs
      simp only [List.length_cons, List.length_append] at hfuel
      have hshort : (readUnit n cs).2.length < fuel := by omega
      obtain ⟨s, hread⟩ := ih (readUnit_iff.2 h) hshort
      exact ⟨_, by rw [readString?_unit hhex, hread, Option.map_some]⟩

theorem length_lt (h : Quoted cs r) : r.length < cs.length := by
  induction h with
  | close => exact Nat.lt_succ_self _
  | plain _ _ _ _ ih => exact Nat.lt_succ_of_lt ih
  | escape _ _ _ ih => exact Nat.lt_succ_of_lt (Nat.lt_succ_of_lt ih)
  | unit hhex _ ih =>
    obtain ⟨digits, rfl, -⟩ := exists_of_readHex4? hhex
    simp only [List.length_cons, List.length_append]
    omega

end Quoted

end Strings

section Values

variable {v : Json} {vs : List Json} {ms : List (String × Json)}

theorem exists_of_readScalar? (h : readScalar? cs = some (v, r)) : ∃ c cs', cs = c :: cs' ∧ c ≠ '\x60' ∧ c ≠ ']' := by
  obtain ⟨word, hmem, rfl⟩ | ⟨c, cs, d, hd, ⟨rfl, -⟩ | ⟨rfl, -⟩⟩ := readScalar?_cases h
  · simp only [constants, List.mem_cons, List.not_mem_nil, or_false, Prod.mk.injEq] at hmem
    rcases hmem with ⟨rfl, -⟩ | ⟨rfl, -⟩ | ⟨rfl, -⟩ | ⟨rfl, -⟩ | ⟨rfl, -⟩ | ⟨rfl, -⟩ <;>
      exact ⟨_, _, rfl, by decide⟩
  · refine ⟨c, cs, rfl, ?_⟩
    constructor <;> rintro rfl <;> cases hd
  · exact ⟨_, _, rfl, by decide⟩

theorem exists_of_readValue? (h : readValue? fuel cs = some (v, r)) :
    ∃ c cs', cs = c :: cs' ∧ c ≠ '\x60' ∧ c ≠ ']' := by
  rw [readValue?.eq_def] at h
  split at h
  · cases h
  · split at h
    · exact ⟨_, _, rfl, by decide⟩
    · exact ⟨_, _, rfl, by decide⟩
    · exact ⟨_, _, rfl, by decide⟩
    · exact exists_of_readScalar? h

theorem exists_of_readItems? (h : readItems? fuel cs = some (vs, r)) :
    ∃ c cs', cs = c :: cs' ∧ c ≠ '\x60' ∧ c ≠ ']' := by
  cases fuel with
  | zero => cases h
  | succ fuel =>
    rw [readItems?] at h
    obtain ⟨⟨v, r'⟩, hread, -⟩ := Option.bind_eq_some_iff.1 h
    exact exists_of_readValue? hread

theorem exists_of_readMembers? (h : readMembers? fuel cs = some (ms, r)) : ∃ rest, cs = '"' :: rest := by
  cases fuel with
  | zero => cases h
  | succ fuel =>
    rw [readMembers?.eq_def] at h
    split at h
    · cases h
    · split at h
      · exact ⟨_, rfl⟩
      · cases h

theorem readValue?_of_readItems? (h : readItems? fuel (skip cs) = some (vs, r)) :
    readValue? (fuel + 1) ('[' :: cs) = some (.arr vs, r) := by
  obtain ⟨c, rest, hskip, -, hc⟩ := exists_of_readItems? h
  rw [hskip] at h
  rw [readValue?_arr hskip hc, h, Option.map_some]

theorem readValue?_of_readMembers? (h : readMembers? fuel (skip cs) = some (ms, r)) :
    readValue? (fuel + 1) ('{' :: cs) = some (.obj (Assoc.ofPairs ms), r) := by
  obtain ⟨rest, hskip⟩ := exists_of_readMembers? h
  rw [hskip] at h
  rw [readValue?_obj hskip (by decide), h, Option.map_some]

theorem length_skip_le (cs : List Char) : (skip cs).length ≤ cs.length := (List.dropWhile_suffix _).length_le

theorem length_of_skip {c : Char} (h : skip cs = c :: r) : r.length < cs.length := by
  have hlength := length_skip_le cs
  rw [h, List.length_cons] at hlength
  omega

/-- Some of the text is taken off, and as much fuel as that is enough. -/
structure Consumes {α : Type} (read : Nat → List Char → Option (α × List Char)) (cs : List Char) (a : α)
    (r : List Char) : Prop where
  shorter : r.length < cs.length
  enough : ∀ fuel, cs.length ≤ fuel + r.length → read fuel cs = some (a, r)

theorem Consumes.of_succ {α : Type} {read : Nat → List Char → Option (α × List Char)} {a : α}
    (hshorter : r.length < cs.length)
    (henough : ∀ fuel, cs.length ≤ fuel + 1 + r.length → read (fuel + 1) cs = some (a, r)) : Consumes read cs a r := by
  refine ⟨hshorter, fun fuel hle => ?_⟩
  cases fuel with
  | zero => omega
  | succ fuel => exact henough fuel hle

theorem length_lt_of_readNumber? {negative : Bool} (h : readNumber? negative cs = some (v, r)) :
    r.length < cs.length := by
  have hsuffix := readNumber?_suffix_digits h
  obtain ⟨c, cs, rfl, d, hd⟩ := exists_digit_of_readNumber? h
  rw [readDigits, hd] at hsuffix
  exact Nat.lt_succ_of_le (hsuffix.trans readDigits_suffix).length_le

theorem length_lt_of_readScalar? (h : readScalar? cs = some (v, r)) : r.length < cs.length := by
  obtain ⟨word, hmem, rfl⟩ | ⟨c, cs, d, -, ⟨rfl, hnumber⟩ | ⟨rfl, hnumber⟩⟩ := readScalar?_cases h
  · have hword : ∀ e ∈ constants, 0 < e.1.length := by decide
    have hpos : 0 < word.length := hword _ hmem
    rw [List.length_append]
    omega
  · exact length_lt_of_readNumber? hnumber
  · exact Nat.lt_succ_of_lt (length_lt_of_readNumber? hnumber)

section Step

variable (hvalue : ∀ {cs v r}, readValue? fuel cs = some (v, r) → Consumes readValue? cs v r)
  (hitems : ∀ {cs vs r}, readItems? fuel cs = some (vs, r) → Consumes readItems? cs vs r)
  (hmembers : ∀ {cs ms r}, readMembers? fuel cs = some (ms, r) → Consumes readMembers? cs ms r)

include hitems hmembers in
theorem consumes_readValue? (h : readValue? (fuel + 1) cs = some (v, r)) : Consumes readValue? cs v r := by
  rw [readValue?.eq_def] at h
  simp only at h
  split at h
  · rename_i rest
    obtain ⟨⟨s, r'⟩, hread, heq⟩ := Option.map_eq_some_iff.1 h
    cases heq
    refine .of_succ (Nat.lt_succ_of_lt (Quoted.of_readString? hread).length_lt) fun fuel _ => ?_
    rw [readValue?, hread, Option.map_some]
  · rename_i rest
    have hlength := length_skip_le rest
    split at h
    · rename_i hskip
      cases h
      refine .of_succ (Nat.lt_succ_of_lt (length_of_skip hskip)) fun fuel _ => ?_
      simp only [readValue?, hskip]
    · obtain ⟨⟨vs, r'⟩, hread, heq⟩ := Option.map_eq_some_iff.1 h
      cases heq
      obtain ⟨hshorter, henough⟩ := hitems hread
      refine .of_succ (by simp only [List.length_cons]; omega) fun fuel hle => ?_
      simp only [List.length_cons] at hle
      exact readValue?_of_readItems? (henough fuel (by omega))
  · rename_i rest
    have hlength := length_skip_le rest
    split at h
    · rename_i hskip
      cases h
      refine .of_succ (Nat.lt_succ_of_lt (length_of_skip hskip)) fun fuel _ => ?_
      simp only [readValue?, hskip]
    · obtain ⟨⟨ms, r'⟩, hread, heq⟩ := Option.map_eq_some_iff.1 h
      cases heq
      obtain ⟨hshorter, henough⟩ := hmembers hread
      refine .of_succ (by simp only [List.length_cons]; omega) fun fuel hle => ?_
      simp only [List.length_cons] at hle
      exact readValue?_of_readMembers? (henough fuel (by omega))
  · exact .of_succ (length_lt_of_readScalar? h) fun fuel _ => readValue?_of_readScalar? h

include hvalue hitems in
theorem consumes_readItems? (h : readItems? (fuel + 1) cs = some (vs, r)) : Consumes readItems? cs vs r := by
  rw [readItems?] at h
  obtain ⟨⟨v, r₁⟩, hread, h⟩ := Option.bind_eq_some_iff.1 h
  obtain ⟨hshorter, henough⟩ := hvalue hread
  dsimp only at h
  split at h
  · rename_i hskip
    cases h
    have hlength := length_of_skip hskip
    refine .of_succ (by omega) fun fuel hle => ?_
    simp [readItems?, henough fuel (by omega), hskip]
  · rename_i rest hskip
    obtain ⟨⟨vs, r₂⟩, hnext, heq⟩ := Option.bind_eq_some_iff.1 h
    simp only [Option.some.injEq, Prod.mk.injEq] at heq
    obtain ⟨rfl, rfl⟩ := heq
    obtain ⟨hshorter', henough'⟩ := hitems hnext
    have hlength := length_of_skip hskip
    have hlength' := length_skip_le rest
    refine .of_succ (by omega) fun fuel hle => ?_
    simp [readItems?, henough fuel (by omega), hskip, henough' fuel (by omega)]
  · cases h

include hvalue hmembers in
theorem consumes_readMembers? (h : readMembers? (fuel + 1) cs = some (ms, r)) : Consumes readMembers? cs ms r := by
  obtain ⟨cs, rfl⟩ := exists_of_readMembers? h
  rw [readMembers?] at h
  obtain ⟨⟨s, r₁⟩, hname, h⟩ := Option.bind_eq_some_iff.1 h
  have hlength₁ := (Quoted.of_readString? hname).length_lt
  dsimp only at h
  split at h
  case h_2 => cases h
  rename_i r₂ hcolon
  have hlength₂ := length_of_skip hcolon
  have hgap := length_skip_le r₂
  obtain ⟨⟨v, r₃⟩, hread, h⟩ := Option.bind_eq_some_iff.1 h
  obtain ⟨hshorter, henough⟩ := hvalue hread
  dsimp only at h
  split at h
  · rename_i hskip
    cases h
    have hlength₃ := length_of_skip hskip
    refine .of_succ (by simp only [List.length_cons]; omega) fun fuel hle => ?_
    rw [List.length_cons] at hle
    simp [readMembers?, hname, hcolon, henough fuel (by omega), hskip]
  · rename_i rest hskip
    obtain ⟨⟨ms, r₄⟩, hnext, heq⟩ := Option.bind_eq_some_iff.1 h
    simp only [Option.some.injEq, Prod.mk.injEq] at heq
    obtain ⟨rfl, rfl⟩ := heq
    obtain ⟨hshorter', henough'⟩ := hmembers hnext
    have hlength₃ := length_of_skip hskip
    have hlength₄ := length_skip_le rest
    refine .of_succ (by simp only [List.length_cons]; omega) fun fuel hle => ?_
    rw [List.length_cons] at hle
    simp [readMembers?, hname, hcolon, henough fuel (by omega), hskip, henough' fuel (by omega)]
  · cases h

end Step

theorem consumes (fuel : Nat) :
    (∀ {cs v r}, readValue? fuel cs = some (v, r) → Consumes readValue? cs v r) ∧
      (∀ {cs vs r}, readItems? fuel cs = some (vs, r) → Consumes readItems? cs vs r) ∧
      ∀ {cs ms r}, readMembers? fuel cs = some (ms, r) → Consumes readMembers? cs ms r := by
  induction fuel with
  | zero => refine ⟨fun h => ?_, fun h => ?_, fun h => ?_⟩ <;> cases h
  | succ fuel ih =>
    obtain ⟨hvalue, hitems, hmembers⟩ := ih
    exact ⟨consumes_readValue? hitems hmembers, consumes_readItems? hvalue hitems,
      consumes_readMembers? hvalue hmembers⟩

theorem ofChars?_of_readValue? (h : readValue? fuel (skip cs) = some (v, r)) (hr : skip r = []) :
    ofChars? cs = some v := by
  have hlength := length_skip_le cs
  have hread := ((consumes fuel).1 h).enough (cs.length + 1) (by omega)
  rw [ofChars?, hread]
  simp [hr]

end Values

end Kitting.Json
