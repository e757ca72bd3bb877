import Kitting.Order
import Kitting.Proofs.Json.Reader

namespace Kitting.Order

open Json

variable {fuel n : Nat} {c : Char} {cs rest r s u : List Char}

def FenceFree (cs : List Char) : Prop := ¬['\x60', '\x60', '\x60'] <:+: cs

instance (cs : List Char) : Decidable (FenceFree cs) := inferInstanceAs (Decidable ¬_)

def withoutFences (cs : List Char) : List Char := dropFences cs.length cs

def isWordLetter (c : Char) : Bool := "json".toList.any (isFenceLetter · c)

section Equations

theorem length_dropFenceWord_le (cs : List Char) : (dropFenceWord cs).length ≤ cs.length := by
  unfold dropFenceWord
  split
  · split
    · simp only [List.length_cons]
      omega
    · exact Nat.le_refl _
  · exact Nat.le_refl _

theorem afterFence?_eq_some_iff :
    afterFence? cs = some rest ↔ ∃ u, cs = '\x60' :: '\x60' :: '\x60' :: u ∧ rest = dropFenceWord u := by
  unfold afterFence?
  split
  · simp [eq_comm]
  · rename_i hne
    simp only [reduceCtorEq, false_iff, not_exists, not_and]
    rintro u rfl
    exact absurd rfl (hne u)

theorem length_lt_of_afterFence? (h : afterFence? cs = some rest) : rest.length < cs.length := by
  obtain ⟨u, rfl, rfl⟩ := afterFence?_eq_some_iff.1 h
  have hword := length_dropFenceWord_le u
  simp only [List.length_cons]
  omega

theorem dropFences_eq (h : cs.length ≤ fuel) : dropFences fuel cs = withoutFences cs := by
  suffices henough : ∀ fuel' cs, cs.length ≤ fuel → cs.length ≤ fuel' → dropFences fuel cs = dropFences fuel' cs from
    henough _ _ h (Nat.le_refl _)
  clear h
  induction fuel with
  | zero =>
    intro fuel' cs h _
    obtain rfl := List.eq_nil_of_length_eq_zero (Nat.le_zero.1 h)
    cases fuel' <;> rfl
  | succ fuel ih =>
    intro fuel' cs h h'
    cases cs with
    | nil => cases fuel' <;> rfl
    | cons c cs =>
      obtain ⟨fuel', rfl⟩ := Nat.exists_eq_add_one_of_ne_zero (Nat.ne_zero_of_lt h')
      rw [dropFences, dropFences]
      cases hfence : afterFence? (c :: cs) with
      | some rest =>
        have hrest := length_lt_of_afterFence? hfence
        exact ih _ _ (by omega) (by omega)
      | none => exact congrArg (c :: ·) (ih _ _ (Nat.le_of_succ_le_succ h) (Nat.le_of_succ_le_succ h'))

theorem withoutFences_nil : withoutFences [] = [] := rfl

theorem withoutFences_fence (h : afterFence? cs = some rest) : withoutFences cs = withoutFences rest := by
  have hrest := length_lt_of_afterFence? h
  cases cs with
  | nil => cases h
  | cons c cs =>
    rw [withoutFences, List.length_cons, dropFences, h]
    exact dropFences_eq (Nat.le_of_lt_succ hrest)

theorem withoutFences_cons (h : afterFence? (c :: cs) = none) : withoutFences (c :: cs) = c :: withoutFences cs := by
  rw [withoutFences, List.length_cons, dropFences, h]
  rfl

theorem afterFence?_of_ne (h : c ≠ '\x60') : afterFence? (c :: cs) = none := by
  rw [Option.eq_none_iff_forall_ne_some]
  intro rest hrest
  obtain ⟨u, heq, -⟩ := afterFence?_eq_some_iff.1 hrest
  exact h (List.cons.inj heq).1

theorem withoutFences_cons_of_ne (h : c ≠ '\x60') : withoutFences (c :: cs) = c :: withoutFences cs :=
  withoutFences_cons (afterFence?_of_ne h)

theorem withoutFences_append_of_notMem (h : '\x60' ∉ u) : withoutFences (u ++ rest) = u ++ withoutFences rest := by
  induction u with
  | nil => rfl
  | cons c u ih =>
    rw [List.mem_cons, not_or] at h
    rw [List.cons_append, withoutFences_cons_of_ne (Ne.symm h.1), ih h.2, List.cons_append]

theorem dropFenceWord_eq_self (h : ∀ a b d e u, cs = a :: b :: d :: e :: u → isFenceLetter 'j' a = true →
    isFenceLetter 's' b = true → isFenceLetter 'o' d = true → isFenceLetter 'n' e = false) :
    dropFenceWord cs = cs := by
  unfold dropFenceWord
  split
  · rename_i a b d e u
    refine if_neg fun hword => ?_
    simp only [Bool.and_eq_true] at hword
    obtain ⟨⟨⟨hj, hs⟩, ho⟩, hn⟩ := hword
    exact Bool.false_ne_true ((h a b d e u rfl hj hs ho).symm.trans hn)
  · rfl

theorem isWordLetter_of_mem {letter : Char} (hmem : letter ∈ "json".toList) (h : isFenceLetter letter c = true) :
    isWordLetter c = true :=
  List.any_eq_true.2 ⟨letter, hmem, h⟩

theorem dropFenceWord_append (hc : isWordLetter c = false) :
    dropFenceWord (u ++ c :: rest) = dropFenceWord u ++ c :: rest := by
  have hletter {letter : Char} (hmem : letter ∈ "json".toList) : isFenceLetter letter c = false :=
    Bool.eq_false_iff.2 fun h => Bool.false_ne_true (hc.symm.trans (isWordLetter_of_mem hmem h))
  have hj : isFenceLetter 'j' c = false := hletter (by decide)
  have hs : isFenceLetter 's' c = false := hletter (by decide)
  have ho : isFenceLetter 'o' c = false := hletter (by decide)
  have hn : isFenceLetter 'n' c = false := hletter (by decide)
  match u with
  | a :: b :: d :: e :: u =>
    simp only [List.cons_append, dropFenceWord]
    split <;> rfl
  | [] => exact dropFenceWord_eq_self (by grind)
  | [a] => exact dropFenceWord_eq_self (by grind)
  | [a, b] => exact dropFenceWord_eq_self (by grind)
  | [a, b, d] => exact dropFenceWord_eq_self (by grind)

/-- A character that belongs to no fence parts the text: what stands in front of it and what stands behind it lose their
fences apart. -/
theorem withoutFences_append_cons (hc : c ≠ '\x60') (hletter : isWordLetter c = false) :
    withoutFences (cs ++ c :: rest) = withoutFences cs ++ c :: withoutFences rest := by
  induction hn : cs.length using Nat.strongRecOn generalizing cs with
  | ind n ih =>
    subst hn
    cases cs with
    | nil => exact withoutFences_cons_of_ne hc
    | cons a cs =>
      cases hfence : afterFence? (a :: cs) with
      | some t =>
        have hlength := length_lt_of_afterFence? hfence
        obtain ⟨u, heq, rfl⟩ := afterFence?_eq_some_iff.1 hfence
        have hjoined : afterFence? (a :: cs ++ c :: rest) = some (dropFenceWord u ++ c :: rest) :=
          afterFence?_eq_some_iff.2 ⟨u ++ c :: rest, by rw [heq]; rfl, (dropFenceWord_append hletter).symm⟩
        rw [withoutFences_fence hfence, withoutFences_fence hjoined]
        exact ih _ hlength rfl
      | none =>
        have hjoined : afterFence? (a :: (cs ++ c :: rest)) = none := by
          rw [Option.eq_none_iff_forall_ne_some] at hfence ⊢
          intro t ht
          obtain ⟨u, heq, -⟩ := afterFence?_eq_some_iff.1 ht
          match cs with
          | [] => exact hc (List.cons.inj (List.cons.inj heq).2).1
          | [b] => exact hc (List.cons.inj (List.cons.inj (List.cons.inj heq).2).2).1
          | b :: d :: cs =>
            simp only [List.cons_append, List.cons.injEq] at heq
            obtain ⟨rfl, rfl, rfl, -⟩ := heq
            exact hfence _ (afterFence?_eq_some_iff.2 ⟨cs, rfl, rfl⟩)
        rw [withoutFences_cons hfence, List.cons_append, withoutFences_cons hjoined, List.cons_append,
          ih _ (Nat.lt_succ_self _) rfl]

end Equations

def Clear (cs : List Char) : Prop := cs.head? ≠ some '\x60'

theorem clear_cons : Clear (c :: cs) ↔ c ≠ '\x60' := by simp [Clear]

theorem head?_withoutFences (h : Clear cs) : (withoutFences cs).head? = cs.head? := by
  cases cs with
  | nil => rfl
  | cons c cs => rw [withoutFences_cons_of_ne (clear_cons.1 h)]; rfl

section Numbers

variable {value count whole digits places : Nat} {negative : Bool} {power : Option Int} {v : Json}

theorem readDigits_withoutFences (h : Clear (readDigits value count cs).2.2) :
    readDigits value count (withoutFences cs) =
      ((readDigits value count cs).1, (readDigits value count cs).2.1,
        withoutFences (readDigits value count cs).2.2) := by
  induction cs generalizing value count with
  | nil => rfl
  | cons c cs ih =>
    rw [readDigits] at h ⊢
    cases hc : asciiDigit? c with
    | none =>
      rw [hc] at h
      rw [withoutFences_cons_of_ne (clear_cons.1 h), readDigits, hc]
    | some d =>
      rw [hc] at h
      have hne : c ≠ '\x60' := by
        rintro rfl
        cases hc
      rw [withoutFences_cons_of_ne hne, readDigits, hc]
      exact ih h

theorem readSign_withoutFences (h : Clear (readSign cs).2) :
    readSign (withoutFences cs) = ((readSign cs).1, withoutFences (readSign cs).2) := by
  cases cs with
  | nil => rfl
  | cons c cs =>
    have hne : c ≠ '\x60' := by
      rintro rfl
      exact clear_cons.1 h rfl
    rw [withoutFences_cons_of_ne hne, readSign.eq_def, readSign.eq_def (c :: cs)]
    split <;> split <;> simp_all [withoutFences_cons_of_ne]

theorem clear_of_readDigits (h : Clear (readDigits value count cs).2.2) : Clear cs := by
  cases cs with
  | nil => exact h
  | cons c cs =>
    rw [clear_cons]
    rintro rfl
    exact clear_cons.1 h rfl

theorem readPlaces?_withoutFences (h : Clear r) (hread : readPlaces? whole cs = some (digits, places, r)) :
    Clear cs ∧ readPlaces? whole (withoutFences cs) = some (digits, places, withoutFences r) := by
  cases cs with
  | nil =>
    cases hread
    exact ⟨h, rfl⟩
  | cons c cs =>
    by_cases hc : c = '.'
    · subst hc
      refine ⟨clear_cons.2 (by decide), ?_⟩
      rw [withoutFences_cons_of_ne (by decide), readPlaces?]
      rw [readPlaces?] at hread
      have hdigits := @readDigits_withoutFences cs whole 0
      generalize readDigits whole 0 cs = read at hread hdigits
      obtain ⟨m, k, r'⟩ := read
      by_cases hk : k = 0
      · simp [hk] at hread
      · simp only [hk, if_false] at hread
        cases hread
        simp only [hdigits h, hk, if_false]
    · have hplain (ds : List Char) : readPlaces? whole (c :: ds) = some (whole, 0, c :: ds) := by
        rw [readPlaces?]
        rintro ds' heq
        exact hc (List.cons.inj heq).1
      rw [hplain] at hread
      cases hread
      exact ⟨h, by rw [withoutFences_cons_of_ne (clear_cons.1 h), hplain]⟩

theorem readPower?_withoutFences (h : Clear r) (hread : readPower? cs = some (power, r)) :
    Clear cs ∧ readPower? (withoutFences cs) = some (power, withoutFences r) := by
  cases cs with
  | nil =>
    cases hread
    exact ⟨h, rfl⟩
  | cons c cs =>
    rw [readPower?] at hread
    by_cases hc : c = 'e' ∨ c = 'E'
    · have hne : c ≠ '\x60' := by rcases hc with rfl | rfl <;> decide
      refine ⟨clear_cons.2 hne, ?_⟩
      rw [withoutFences_cons_of_ne hne, readPower?, if_pos hc]
      rw [if_pos hc] at hread
      have hsign := @readSign_withoutFences cs
      generalize readSign cs = sign at hread hsign
      obtain ⟨negative, cs'⟩ := sign
      have hdigits := @readDigits_withoutFences cs' 0 0
      have hclear := @clear_of_readDigits cs' 0 0
      simp only at hread hsign
      generalize readDigits 0 0 cs' = read at hread hdigits hclear
      obtain ⟨m, k, r'⟩ := read
      by_cases hk : k = 0
      · simp [hk] at hread
      · simp only [hk, if_false] at hread
        cases hread
        simp only [hsign (hclear h), hdigits h, hk, if_false]
    · rw [if_neg hc] at hread
      cases hread
      refine ⟨h, ?_⟩
      rw [withoutFences_cons_of_ne (clear_cons.1 h), readPower?, if_neg hc]

theorem readNumber?_withoutFences (h : Clear r) (hread : readNumber? negative cs = some (v, r)) :
    readNumber? negative (withoutFences cs) = some (v, withoutFences r) := by
  have hdigits := @readDigits_withoutFences cs 0 0
  have hclear := @clear_of_readDigits cs 0 0
  rw [readNumber?] at hread ⊢
  generalize readDigits 0 0 cs = read at hread hdigits hclear
  obtain ⟨whole, k, r₀⟩ := read
  simp only at hread hdigits hclear
  by_cases hcount : k = 0 ∨ (1 < k ∧ cs.head? = some '0')
  · rw [if_pos hcount] at hread
    cases hread
  rw [if_neg hcount] at hread
  simp only [bind, Option.bind_eq_some_iff] at hread
  obtain ⟨⟨digits, places, r₁⟩, hplaces, ⟨power, r₂⟩, hpower, hread⟩ := hread
  have hr : r₂ = r := by cases places <;> cases power <;> cases hread <;> rfl
  subst hr
  obtain ⟨hclear₁, hpower⟩ := readPower?_withoutFences h hpower
  obtain ⟨hclear₀, hplaces⟩ := readPlaces?_withoutFences hclear₁ hplaces
  rw [hdigits hclear₀, head?_withoutFences (hclear hclear₀)]
  simp only
  rw [if_neg hcount]
  simp only [bind, hplaces, hpower, Option.bind_some]
  cases places <;> cases power <;> cases hread <;> rfl

theorem notMem_constants : ∀ e ∈ constants, '\x60' ∉ e.1 := by decide

theorem readScalar?_withoutFences (h : Clear r) (hread : readScalar? cs = some (v, r)) :
    readScalar? (withoutFences cs) = some (v, withoutFences r) := by
  -- A scalar has no backtick, and none may follow on it: the characters behind a fence could go on with a number.
  obtain ⟨word, hmem, rfl⟩ | ⟨c, cs, d, hd, hnumber⟩ := readScalar?_cases hread
  · rw [withoutFences_append_of_notMem (notMem_constants _ hmem)]
    exact readScalar?_constant hmem
  have hne : c ≠ '\x60' := by
    rintro rfl
    cases hd
  obtain ⟨rfl, hnumber⟩ | ⟨rfl, hnumber⟩ := hnumber
  · have hstripped := readNumber?_withoutFences h hnumber
    rw [withoutFences_cons_of_ne hne] at hstripped ⊢
    rw [readScalar?_digit hd, hstripped]
  · have hstripped := readNumber?_withoutFences h hnumber
    rw [withoutFences_cons_of_ne (by decide)]
    rw [withoutFences_cons_of_ne hne] at hstripped ⊢
    rw [readScalar?_minus hd, hstripped]

end Numbers

section Strings

variable {d e : Char} {cs' : List Char}

theorem readHex4?_withoutFences (h : readHex4? cs = some (n, r)) :
    readHex4? (withoutFences cs) = some (n, withoutFences r) := by
  obtain ⟨digits, rfl, -, hdigits, hread⟩ := exists_of_readHex4? h
  rw [withoutFences_append_of_notMem fun hmem => absurd (hdigits _ hmem) (by decide)]
  exact hread _

theorem quoted_dropFenceWord (h : Quoted cs r) : Quoted (dropFenceWord cs) r := by
  have hletter {letter c : Char} {cs : List Char} (hmem : letter ∈ "json".toList)
      (hc : isFenceLetter letter c = true) (h : Quoted (c :: cs) r) : Quoted cs r := by
    have hword := isWordLetter_of_mem hmem hc
    refine h.tail ?_ ?_ <;> rintro rfl <;> exact absurd hword (by decide)
  unfold dropFenceWord
  split
  · split
    · rename_i hword
      simp only [Bool.and_eq_true] at hword
      obtain ⟨⟨⟨hj, hs⟩, ho⟩, hn⟩ := hword
      exact hletter (by decide) hn (hletter (by decide) ho (hletter (by decide) hs (hletter (by decide) hj h)))
    · exact h
  · exact h

theorem quoted_withoutFences (h : Quoted cs r) : Quoted (withoutFences cs) (withoutFences r) := by
  induction hn : cs.length using Nat.strongRecOn generalizing cs with
  | ind n ih =>
    subst hn
    cases h with
    | close =>
      rw [withoutFences_cons_of_ne (by decide)]
      exact .close _
    | @plain c cs _ hquote hslash hcontrol h =>
      cases hfence : afterFence? (c :: cs) with
      | none =>
        rw [withoutFences_cons hfence]
        exact .plain hquote hslash hcontrol (ih _ (Nat.lt_succ_self _) h rfl)
      | some rest =>
        -- The backticks and the word behind them are plain characters, so the string goes on behind the fence.
        rw [withoutFences_fence hfence]
        have hlength := length_lt_of_afterFence? hfence
        obtain ⟨u, heq, rfl⟩ := afterFence?_eq_some_iff.1 hfence
        cases heq
        have hinside := (h.tail (by decide) (by decide)).tail (by decide) (by decide)
        exact ih _ hlength (quoted_dropFenceWord hinside) rfl
    | @escape e d cs _ he hd h =>
      have hne : e ≠ '\x60' := by
        rintro rfl
        cases hd
      rw [withoutFences_cons_of_ne (by decide), withoutFences_cons_of_ne hne]
      refine .escape he hd (ih _ ?_ h rfl)
      simp only [List.length_cons]
      omega
    | @unit n digits cs _ hhex h =>
      obtain ⟨four, hdigits, -⟩ := exists_of_readHex4? hhex
      rw [withoutFences_cons_of_ne (by decide), withoutFences_cons_of_ne (by decide)]
      refine .unit (readHex4?_withoutFences hhex) (ih _ ?_ h rfl)
      rw [hdigits]
      simp only [List.length_cons, List.length_append]
      omega

theorem readUnit_withoutFences (hfence : afterFence? cs = none) (h : Quoted cs r) :
    readUnit n (withoutFences cs) = ((readUnit n cs).1, withoutFences (readUnit n cs).2) := by
  suffices hplain : (∀ digits, cs ≠ '\\' :: 'u' :: digits) ∧ (∀ digits, withoutFences cs ≠ '\\' :: 'u' :: digits) ∨
      ∃ digits m cs', cs = '\\' :: 'u' :: digits ∧ readHex4? digits = some (m, cs') by
    obtain ⟨hne, hne'⟩ | ⟨digits, m, cs', rfl, hhex⟩ := hplain
    · obtain ⟨hsame, hread⟩ := readUnit_of_ne hne hne'
      rw [hread, hsame]
    · have hslash : withoutFences ('\\' :: 'u' :: digits) = '\\' :: 'u' :: withoutFences digits := by
        rw [withoutFences_cons_of_ne (by decide), withoutFences_cons_of_ne (by decide)]
      rw [hslash, readUnit_unit hhex, readUnit_unit (readHex4?_withoutFences hhex)]
      split
      · split
        · simp only
        · simp only [hslash]
      · split <;> simp only [hslash]
  cases h with
  | close => exact .inl (by simp [withoutFences_cons hfence])
  | plain _ hslash => exact .inl (by simp [withoutFences_cons hfence, hslash])
  | @escape e d _ _ he hd =>
    have hne : e ≠ '\x60' := by
      rintro rfl
      cases hd
    exact .inl (by simp [withoutFences_cons hfence, withoutFences_cons_of_ne hne, he])
  | unit hhex => exact .inr ⟨_, _, _, rfl, hhex⟩

theorem fenceFree_cons (h : FenceFree (c :: s)) : FenceFree s :=
  fun hfence => h (hfence.trans (List.suffix_cons c s).isInfix)

theorem afterFence?_of_readString? (h : readString? fuel cs = some (s, r)) (hfree : FenceFree s) :
    afterFence? cs = none := by
  rw [Option.eq_none_iff_forall_ne_some]
  intro rest hrest
  obtain ⟨u, rfl, -⟩ := afterFence?_eq_some_iff.1 hrest
  have hplain {fuel : Nat} {cs s : List Char} (h : readString? fuel ('\x60' :: cs) = some (s, r)) :
      ∃ fuel' s', s = '\x60' :: s' ∧ readString? fuel' cs = some (s', r) := by
    cases fuel with
    | zero => cases h
    | succ fuel =>
      rw [readString?_plain (by decide) (by decide) (by decide), Option.map_eq_some_iff] at h
      obtain ⟨⟨s', r'⟩, hread, heq⟩ := h
      cases heq
      exact ⟨fuel, s', rfl, hread⟩
  obtain ⟨_, s₁, rfl, h₁⟩ := hplain h
  obtain ⟨_, s₂, rfl, h₂⟩ := hplain h₁
  obtain ⟨_, s₃, rfl, -⟩ := hplain h₂
  exact hfree (List.prefix_append ['\x60', '\x60', '\x60'] s₃).isInfix

theorem readString?_of_fenceFree {fuel' : Nat} (h : readString? fuel cs = some (s, r)) (hfree : FenceFree s)
    (hfuel : (withoutFences cs).length < fuel') : readString? fuel' (withoutFences cs) = some (s, withoutFences r) := by
  induction fuel generalizing cs s fuel' with
  | zero => cases h
  | succ fuel ih =>
    obtain ⟨fuel', rfl⟩ := Nat.exists_eq_add_one_of_ne_zero (Nat.ne_zero_of_lt hfuel)
    have hfence := afterFence?_of_readString? h hfree
    obtain ⟨rfl, rfl⟩ | ⟨c, cs, s, rfl, rfl, ⟨hquote, hslash, hcontrol⟩, hread⟩ |
      ⟨e, d, cs, s, rfl, rfl, ⟨he, hd⟩, hread⟩ | ⟨n, digits, cs, s, rfl, rfl, hhex, hread⟩ := readString?_cases h
    · rw [withoutFences_cons_of_ne (by decide)]
      simp [readString?]
    · rw [withoutFences_cons hfence] at hfuel ⊢
      rw [readString?_plain hquote hslash hcontrol, ih hread (fenceFree_cons hfree) (Nat.lt_of_succ_lt_succ hfuel),
        Option.map_some]
    · have hne : e ≠ '\x60' := by
        rintro rfl
        cases hd
      rw [withoutFences_cons_of_ne (by decide), withoutFences_cons_of_ne hne] at hfuel ⊢
      simp only [List.length_cons] at hfuel
      rw [readString?_escape he hd, ih hread (fenceFree_cons hfree) (by omega), Option.map_some]
    · have hstripped := readHex4?_withoutFences hhex
      have hlength := length_readUnit_le n (withoutFences cs)
      obtain ⟨four, hdigits, -⟩ := exists_of_readHex4? hstripped
      -- Behind the unit stands what is read next, or the other half of a pair: neither is a fence.
      have hinside : afterFence? cs = none := by
        obtain hsame | ⟨_, _, rfl, -⟩ := readUnit_cases n cs
        · rw [hsame] at hread
          exact afterFence?_of_readString? hread (fenceFree_cons hfree)
        · exact afterFence?_of_ne (by decide)
      have hquoted : Quoted cs r := Quoted.readUnit_iff.1 (.of_readString? hread)
      have hunit : readUnit n (withoutFences cs) = _ := readUnit_withoutFences hinside hquoted
      rw [withoutFences_cons_of_ne (by decide), withoutFences_cons_of_ne (by decide)] at hfuel ⊢
      rw [hdigits] at hfuel
      rw [hunit] at hlength
      dsimp only at hlength
      simp only [List.length_cons, List.length_append] at hfuel
      rw [readString?_unit hstripped, hunit, ih hread (fenceFree_cons hfree) (by omega), Option.map_some]

theorem exists_readString? (h : readString? fuel cs = some (s, r)) {fuel' : Nat}
    (hfuel : (withoutFences cs).length < fuel') :
    ∃ s', readString? fuel' (withoutFences cs) = some (s', withoutFences r) ∧ (FenceFree s → s' = s) := by
  by_cases hfree : FenceFree s
  · exact ⟨s, readString?_of_fenceFree h hfree hfuel, fun _ => rfl⟩
  · obtain ⟨s', hread⟩ := (quoted_withoutFences (.of_readString? h)).exists_readString? hfuel
    exact ⟨s', hread, fun h => absurd h hfree⟩

end Strings

/-- What the text of a value may be read as without its fences: the strings with a fence in them may differ. -/
inductive Stripped : Json → Json → Prop
  | same (v : Json) : Stripped v v
  | str {s s' : String} : (FenceFree s.toList → s' = s) → Stripped (.str s) (.str s')
  | arr {vs vs' : List Json} : List.Forall₂ Stripped vs vs' → Stripped (.arr vs) (.arr vs')
  | obj {ms ms' : List (String × Json)} :
      List.Forall₂ (fun name name' => FenceFree name.toList → name' = name) (ms.map Prod.fst) (ms'.map Prod.fst) →
      List.Forall₂ Stripped (ms.map Prod.snd) (ms'.map Prod.snd) →
      Stripped (.obj (Assoc.ofPairs ms)) (.obj (Assoc.ofPairs ms'))

namespace Stripped

variable {v v' : Json} {vs : List Json} {ms : List (String × Json)}

theorem eq_null (h : Stripped .null v') : v' = .null := by
  cases h
  rfl

theorem eq_str {s : String} (h : Stripped (.str s) v') (hfree : FenceFree s.toList) : v' = .str s := by
  cases h with
  | same => rfl
  | str hsame => rw [hsame hfree]

theorem exists_arr (h : Stripped (.arr vs) v') : ∃ vs', v' = .arr vs' ∧ List.Forall₂ Stripped vs vs' := by
  cases h with
  | same => exact ⟨vs, rfl, List.forall₂_same.2 fun v _ => .same v⟩
  | arr h => exact ⟨_, rfl, h⟩

theorem ne_obj (h : Stripped v v') (hv : ∀ ms, v ≠ .obj ms) (ms' : List (String × Json)) : v' ≠ .obj ms' := by
  cases h with
  | same => exact hv ms'
  | str => simp
  | arr => simp
  | obj => exact absurd rfl (hv _)

theorem rel_get?_foldl {raw raw' m m' : List (String × Json)} (hnames : ∀ m ∈ raw, FenceFree m.1.toList)
    (hfst : List.Forall₂ (fun m m' => FenceFree m.1.toList → m'.1 = m.1) raw raw')
    (hsnd : List.Forall₂ (fun m m' => Stripped m.2 m'.2) raw raw')
    (h : ∀ name, Option.Rel Stripped (Assoc.get? m name) (Assoc.get? m' name)) (name : String) :
    Option.Rel Stripped (Assoc.get? (raw.foldl (fun m p => Assoc.put m p.1 p.2) m) name)
      (Assoc.get? (raw'.foldl (fun m p => Assoc.put m p.1 p.2) m') name) := by
  induction hfst generalizing m m' with
  | nil => exact h name
  | cons hname _ ih =>
    rw [List.forall_mem_cons] at hnames
    cases hsnd with
    | cons hvalue hsnd =>
      refine ih hnames.2 hsnd fun name => ?_
      rw [Assoc.get?_put, Assoc.get?_put, hname hnames.1]
      split
      · exact .some hvalue
      · exact h name

theorem exists_obj (h : Stripped (.obj ms) v') (hnames : ∀ m ∈ ms, FenceFree m.1.toList) :
    ∃ ms', v' = .obj ms' ∧ ∀ name, Option.Rel Stripped (Assoc.get? ms name) (Assoc.get? ms' name) := by
  have hsame (o : Option Json) : Option.Rel Stripped o o := by
    cases o with
    | none => exact .none
    | some v => exact .some (.same v)
  generalize hv : Json.obj ms = v at h
  cases h with
  | same => exact ⟨ms, hv.symm, fun name => hsame _⟩
  | str => cases hv
  | arr => cases hv
  | @obj raw raw' hfst hsnd =>
    cases hv
    have hraw : ∀ m ∈ raw, FenceFree m.1.toList := by
      intro m hm
      have hkey : m.1 ∈ Assoc.keys (Assoc.ofPairs raw) := by
        rw [Assoc.keys_ofPairs, List.mem_eraseDups]
        exact List.mem_map_of_mem hm
      obtain ⟨m', hm', heq⟩ := List.mem_map.1 hkey
      exact heq ▸ hnames m' hm'
    rw [List.forall₂_map_left_iff, List.forall₂_map_right_iff] at hfst hsnd
    exact ⟨_, rfl, rel_get?_foldl hraw hfst hsnd fun _ => .none⟩

end Stripped

section Values

variable {v : Json} {vs : List Json} {ms : List (String × Json)}

theorem clear_of_skip (h : Clear (skip cs)) : Clear cs := by
  cases cs with
  | nil => exact h
  | cons c cs =>
    rw [clear_cons]
    rintro rfl
    exact clear_cons.1 h rfl

theorem skip_withoutFences (h : Clear (skip cs)) : skip (withoutFences cs) = withoutFences (skip cs) := by
  induction cs with
  | nil => rfl
  | cons c cs ih =>
    rw [withoutFences_cons_of_ne (clear_cons.1 (clear_of_skip h))]
    by_cases hc : isSpace c = true
    · rw [skip, List.dropWhile_cons_of_pos hc] at h ⊢
      rw [skip, List.dropWhile_cons_of_pos hc]
      exact ih h
    · rw [skip, List.dropWhile_cons_of_neg hc, skip, List.dropWhile_cons_of_neg hc,
        withoutFences_cons_of_ne (clear_cons.1 (clear_of_skip h))]

theorem skip_withoutFences_of_eq (h : skip cs = c :: r) (hc : c ≠ '\x60') :
    Clear cs ∧ skip (withoutFences cs) = c :: withoutFences r := by
  have hclear : Clear (skip cs) := by rw [h]; exact clear_cons.2 hc
  exact ⟨clear_of_skip hclear, by rw [skip_withoutFences hclear, h, withoutFences_cons_of_ne hc]⟩

theorem clear_of_readValue? (h : readValue? fuel cs = some (v, r)) : Clear cs := by
  obtain ⟨c, cs, rfl, hc, -⟩ := exists_of_readValue? h
  exact clear_cons.2 hc

theorem clear_of_readItems? (h : readItems? fuel cs = some (vs, r)) : Clear cs := by
  obtain ⟨c, cs, rfl, hc, -⟩ := exists_of_readItems? h
  exact clear_cons.2 hc

theorem clear_of_readMembers? (h : readMembers? fuel cs = some (ms, r)) : Clear cs := by
  obtain ⟨rest, rfl⟩ := exists_of_readMembers? h
  exact clear_cons.2 (by decide)

/-- Values are read from the text without fences as from the text itself. A value must not end in front of a
backtick. -/
def StripsValue (fuel : Nat) : Prop :=
  ∀ {cs v r}, readValue? fuel cs = some (v, r) → Clear r →
    ∃ v', readValue? fuel (withoutFences cs) = some (v', withoutFences r) ∧ Stripped v v'

def StripsItems (fuel : Nat) : Prop :=
  ∀ {cs vs r}, readItems? fuel cs = some (vs, r) →
    ∃ vs', readItems? fuel (withoutFences cs) = some (vs', withoutFences r) ∧ List.Forall₂ Stripped vs vs'

def StripsMembers (fuel : Nat) : Prop :=
  ∀ {cs ms r}, readMembers? fuel cs = some (ms, r) →
    ∃ ms', readMembers? fuel (withoutFences cs) = some (ms', withoutFences r) ∧
      List.Forall₂ (fun name name' => FenceFree name.toList → name' = name) (ms.map Prod.fst) (ms'.map Prod.fst) ∧
      List.Forall₂ Stripped (ms.map Prod.snd) (ms'.map Prod.snd)

theorem StripsValue.succ (hitems : StripsItems fuel) (hmembers : StripsMembers fuel) : StripsValue (fuel + 1) := by
  intro cs v r h hclear
  rw [readValue?.eq_def] at h
  simp only at h
  split at h
  · rename_i rest
    obtain ⟨⟨s, r'⟩, hread, heq⟩ := Option.map_eq_some_iff.1 h
    cases heq
    obtain ⟨s', hread', hsame⟩ := exists_readString? hread (Nat.lt_succ_self _)
    rw [withoutFences_cons_of_ne (by decide), readValue?, hread', Option.map_some]
    refine ⟨_, rfl, .str fun hfree => ?_⟩
    rw [String.toList_ofList] at hfree
    rw [hsame hfree]
  · rename_i rest
    rw [withoutFences_cons_of_ne (by decide)]
    split at h
    · rename_i hskip
      cases h
      obtain ⟨-, hskip'⟩ := skip_withoutFences_of_eq hskip (by decide)
      exact ⟨_, by simp only [readValue?, hskip'], .same _⟩
    · obtain ⟨⟨vs, r'⟩, hread, heq⟩ := Option.map_eq_some_iff.1 h
      cases heq
      obtain ⟨vs', hread', hstripped⟩ := hitems hread
      rw [← skip_withoutFences (clear_of_readItems? hread)] at hread'
      exact ⟨_, readValue?_of_readItems? hread', .arr hstripped⟩
  · rename_i rest
    rw [withoutFences_cons_of_ne (by decide)]
    split at h
    · rename_i hskip
      cases h
      obtain ⟨-, hskip'⟩ := skip_withoutFences_of_eq hskip (by decide)
      exact ⟨_, by simp only [readValue?, hskip'], .same _⟩
    · obtain ⟨⟨ms, r'⟩, hread, heq⟩ := Option.map_eq_some_iff.1 h
      cases heq
      obtain ⟨ms', hread', hnames, hstripped⟩ := hmembers hread
      rw [← skip_withoutFences (clear_of_readMembers? hread)] at hread'
      exact ⟨_, readValue?_of_readMembers? hread', .obj hnames hstripped⟩
  · exact ⟨v, readValue?_of_readScalar? (readScalar?_withoutFences hclear h), .same v⟩

theorem StripsItems.succ (hvalue : StripsValue fuel) (hitems : StripsItems fuel) : StripsItems (fuel + 1) := by
  intro cs vs r h
  rw [readItems?] at h
  obtain ⟨⟨v, r₁⟩, hread, h⟩ := Option.bind_eq_some_iff.1 h
  dsimp only at h
  split at h
  · rename_i hskip
    cases h
    obtain ⟨hclear, hskip'⟩ := skip_withoutFences_of_eq hskip (by decide)
    obtain ⟨v', hread', hstripped⟩ := hvalue hread hclear
    exact ⟨[v'], by simp [readItems?, hread', hskip'], .cons hstripped .nil⟩
  · rename_i rest hskip
    obtain ⟨⟨vs, r₂⟩, hnext, heq⟩ := Option.bind_eq_some_iff.1 h
    cases heq
    obtain ⟨hclear, hskip'⟩ := skip_withoutFences_of_eq hskip (by decide)
    obtain ⟨v', hread', hstripped⟩ := hvalue hread hclear
    obtain ⟨vs', hnext', hrest⟩ := hitems hnext
    rw [← skip_withoutFences (clear_of_readItems? hnext)] at hnext'
    exact ⟨v' :: vs', by simp [readItems?, hread', hskip', hnext'], .cons hstripped hrest⟩
  · cases h

theorem StripsMembers.succ (hvalue : StripsValue fuel) (hmembers : StripsMembers fuel) :
    StripsMembers (fuel + 1) := by
  intro cs ms r h
  obtain ⟨cs, rfl⟩ := exists_of_readMembers? h
  rw [readMembers?] at h
  obtain ⟨⟨s, r₁⟩, hname, h⟩ := Option.bind_eq_some_iff.1 h
  obtain ⟨s', hname', hsame⟩ := exists_readString? hname (Nat.lt_succ_self _)
  have hnames : FenceFree (String.ofList s).toList → String.ofList s' = String.ofList s := fun hfree => by
    rw [String.toList_ofList] at hfree
    rw [hsame hfree]
  rw [withoutFences_cons_of_ne (by decide)]
  dsimp only at h
  split at h
  case h_2 => cases h
  rename_i r₂ hcolon
  obtain ⟨⟨v, r₃⟩, hread, h⟩ := Option.bind_eq_some_iff.1 h
  dsimp only at h
  obtain ⟨-, hcolon'⟩ := skip_withoutFences_of_eq hcolon (by decide)
  have hgap := skip_withoutFences (clear_of_readValue? hread)
  split at h
  · rename_i hskip
    cases h
    obtain ⟨hclear, hskip'⟩ := skip_withoutFences_of_eq hskip (by decide)
    obtain ⟨v', hread', hstripped⟩ := hvalue hread hclear
    rw [← hgap] at hread'
    exact ⟨[(.ofList s', v')], by simp [readMembers?, hname', hcolon', hread', hskip'], .cons hnames .nil,
      .cons hstripped .nil⟩
  · rename_i rest hskip
    obtain ⟨⟨ms, r₄⟩, hnext, heq⟩ := Option.bind_eq_some_iff.1 h
    cases heq
    obtain ⟨hclear, hskip'⟩ := skip_withoutFences_of_eq hskip (by decide)
    obtain ⟨v', hread', hstripped⟩ := hvalue hread hclear
    obtain ⟨ms', hnext', hnames', hrest⟩ := hmembers hnext
    rw [← hgap] at hread'
    rw [← skip_withoutFences (clear_of_readMembers? hnext)] at hnext'
    exact ⟨(.ofList s', v') :: ms', by simp [readMembers?, hname', hcolon', hread', hskip', hnext'],
      .cons hnames hnames', .cons hstripped hrest⟩
  · cases h

theorem strips (fuel : Nat) : StripsValue fuel ∧ StripsItems fuel ∧ StripsMembers fuel := by
  induction fuel with
  | zero =>
    refine ⟨fun h => ?_, fun h => ?_, fun h => ?_⟩ <;> cases h
  | succ fuel ih =>
    obtain ⟨hvalue, hitems, hmembers⟩ := ih
    exact ⟨StripsValue.succ hitems hmembers, StripsItems.succ hvalue hitems, StripsMembers.succ hvalue hmembers⟩

/-- A text that is read as a value is read without its fences, too. -/
theorem ofChars?_withoutFences (h : ofChars? cs = some v) :
    ∃ v', ofChars? (withoutFences cs) = some v' ∧ Stripped v v' := by
  obtain ⟨⟨v, r⟩, hread, h⟩ := Option.bind_eq_some_iff.1 h
  dsimp only at h
  split at h
  case isFalse => cases h
  rename_i hr
  cases h
  rw [List.isEmpty_iff] at hr
  have hclear : Clear (skip r) := by rw [hr]; simp [Clear]
  obtain ⟨v', hread', hstripped⟩ := (strips _).1 hread (clear_of_skip hclear)
  rw [← skip_withoutFences (clear_of_readValue? hread)] at hread'
  exact ⟨v', ofChars?_of_readValue? hread' (by rw [skip_withoutFences hclear, hr, withoutFences_nil]), hstripped⟩

end Values

end Kitting.Order
