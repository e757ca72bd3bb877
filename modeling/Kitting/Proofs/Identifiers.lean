import Kitting.Proofs.Text.UpperCase
import Kitting.Token
import Mathlib.Logic.Relation

namespace Kitting.Token

open Text

variable {c d : Char} {cs ds front : List Char} {s t : String}

/-- Shows no letter or digit of ASCII in upper case. -/
def isSilent (c : Char) : Bool := (upperChar c).all (!isAlnum ·)

def shown (cs : List Char) : List Char := (upperChars cs).filter isAlnum

/-- Capitals and digits of ASCII, the first of them no zero. -/
structure IsCanonical (s : String) : Prop where
  alnum : ∀ c ∈ s.toList, isAlnum c
  lead : s.toList.head? ≠ some '0'

/-- One change after which a text spells what it did. -/
inductive Respelled : List Char → List Char → Prop
  | upper (cs : List Char) : Respelled cs (upperChars cs)
  | zero (cs : List Char) : Respelled cs ('0' :: cs)
  | silent {c : Char} (h : isSilent c) (before after : List Char) :
      Respelled (before ++ after) (before ++ c :: after)

def SpellAlike (s t : String) : Prop := Relation.EqvGen Respelled s.toList t.toList

section Characters

theorem isAlnum_iff : isAlnum c ↔
    'A'.toNat ≤ c.toNat ∧ c.toNat ≤ 'Z'.toNat ∨ '0'.toNat ≤ c.toNat ∧ c.toNat ≤ '9'.toNat := by
  simp only [isAlnum, Char.le_def, UInt32.le_iff_toNat_le, Bool.or_eq_true, Bool.and_eq_true, decide_eq_true_eq]
  rfl

theorem isSilent_iff : isSilent c ↔ ∀ d ∈ upperChar c, isAlnum d = false := by
  simp [isSilent]

theorem upperChar_of_isAlnum (h : isAlnum c) : upperChar c = [c] := by
  have hascii : c.toNat < 0x80 := by
    have hbounds : 'Z'.toNat < 0x80 ∧ '9'.toNat < 0x80 := by decide
    rw [isAlnum_iff] at h
    omega
  have hc : isAlnum c → upperChar c = [c] := of_ascii c hascii (by decide +kernel)
  exact hc h

theorem isSilent_of_upperChar (hupper : upperChar c = [c]) (h : isAlnum c = false) : isSilent c := by
  rw [isSilent_iff, hupper]
  simpa using h

theorem isSilent_of_isBlank (h : isBlank c) : isSilent c := by
  refine isSilent_of_upperChar (upperChar_of_isBlank h) ?_
  rw [Bool.eq_false_iff]
  intro halnum
  have hbounds : 'A'.toNat = 65 ∧ 'Z'.toNat = 90 ∧ '0'.toNat = 48 ∧ '9'.toNat = 57 := by decide
  rw [isAlnum_iff] at halnum
  simp only [isBlank, isSpace, Bool.or_eq_true, Bool.and_eq_true, decide_eq_true_eq, beq_iff_eq] at h
  omega

end Characters

section Shown

theorem mem_shown : d ∈ shown cs ↔ isAlnum d ∧ ∃ c ∈ cs, d ∈ upperChar c := by
  rw [shown, List.mem_filter, mem_upperChars, and_comm]

@[simp] theorem shown_append (cs ds : List Char) : shown (cs ++ ds) = shown cs ++ shown ds := by
  rw [shown, upperChars_append, List.filter_append, shown, shown]

@[simp] theorem shown_upperChars (cs : List Char) : shown (upperChars cs) = shown cs := by
  rw [shown, upperChars_upperChars, shown]

theorem shown_cons (c : Char) (cs : List Char) : shown (c :: cs) = (upperChar c).filter isAlnum ++ shown cs := by
  rw [shown, upperChars_cons, List.filter_append, shown]

theorem shown_filter (cs : List Char) : shown (cs.filter (!isSilent ·)) = shown cs := by
  induction cs with
  | nil => rfl
  | cons c cs ih =>
    by_cases h : isSilent c
    · have hnone : (upperChar c).filter isAlnum = [] := by
        rw [List.filter_eq_nil_iff]
        exact fun d hd => Bool.eq_false_iff.1 (isSilent_iff.1 h d hd)
      rw [List.filter_cons_of_neg (by simp [h]), shown_cons, hnone, List.nil_append, ih]
    · rw [List.filter_cons_of_pos (by simp [h]), shown_cons, shown_cons, ih]

theorem shown_eq_self (h : ∀ c ∈ cs, isAlnum c) : shown cs = cs := by
  rw [shown, upperChars_eq_self fun c hc => upperChar_of_isAlnum (h c hc), List.filter_eq_self]
  exact h

end Shown

section Canonical

theorem canonicalChars_eq (cs : List Char) : canonicalChars cs = (shown cs).dropWhile (· == '0') := rfl

@[simp] theorem toList_canonical (s : String) : (canonical s).toList = canonicalChars s.toList := by
  rw [canonical, String.toList_ofList]

theorem canonical_eq_canonical_iff : canonical s = canonical t ↔ canonicalChars s.toList = canonicalChars t.toList := by
  rw [← String.toList_inj, toList_canonical, toList_canonical]

theorem isCanonical_canonical (s : String) : IsCanonical (canonical s) where
  alnum c hc := by
    rw [toList_canonical, canonicalChars_eq] at hc
    exact (mem_shown.1 ((List.dropWhile_sublist _).subset hc)).1
  lead hlead := by
    have hhead := List.head?_dropWhile_not (· == '0') (shown s.toList)
    rw [toList_canonical, canonicalChars_eq] at hlead
    rw [hlead] at hhead
    cases hhead

theorem IsCanonical.canonical_eq (h : IsCanonical s) : canonical s = s := by
  rw [← String.toList_inj, toList_canonical, canonicalChars_eq, shown_eq_self h.alnum]
  have hlead := h.lead
  cases hs : s.toList with
  | nil => rfl
  | cons c cs =>
    rw [hs, List.head?_cons] at hlead
    exact List.dropWhile_cons_of_neg (by simpa using hlead)

theorem canonical_eq_self_iff : canonical s = s ↔ IsCanonical s := by
  constructor
  · intro h
    rw [← h]
    exact isCanonical_canonical s
  · exact IsCanonical.canonical_eq

theorem canonicalChars_upperChars (cs : List Char) : canonicalChars (upperChars cs) = canonicalChars cs := by
  rw [canonicalChars_eq, shown_upperChars, canonicalChars_eq]

theorem canonicalChars_congr (h : cs.filter (!isSilent ·) = ds.filter (!isSilent ·)) :
    canonicalChars cs = canonicalChars ds := by
  rw [canonicalChars_eq, canonicalChars_eq, ← shown_filter cs, h, shown_filter]

theorem canonicalChars_append (h : ∀ c ∈ front, c = '0' ∨ isSilent c) (cs : List Char) :
    canonicalChars (front ++ cs) = canonicalChars cs := by
  rw [canonicalChars_eq, shown_append, List.dropWhile_append_of_pos, canonicalChars_eq]
  intro d hd
  obtain ⟨halnum, c, hc, hd⟩ := mem_shown.1 hd
  rcases h c hc with rfl | hsilent
  · have hzero : upperChar '0' = ['0'] := upperChar_of_isAlnum (by decide)
    rw [hzero, List.mem_singleton] at hd
    rw [hd]
    rfl
  · rw [isSilent_iff.1 hsilent d hd] at halnum
    cases halnum

@[simp] theorem canonical_trim (s : String) : canonical (trim s) = canonical s := by
  obtain ⟨u, v, heq, hu, hv⟩ := exists_trimBy isBlank s.toList
  have hblank {w : List Char} (hw : ∀ c ∈ w, isBlank c) : w.filter (!isSilent ·) = [] := by
    rw [List.filter_eq_nil_iff]
    intro c hc
    simp [isSilent_of_isBlank (hw c hc)]
  rw [canonical_eq_canonical_iff, toList_trim]
  refine canonicalChars_congr ?_
  rw [← heq, List.filter_append, List.filter_append, hblank hu, hblank hv, List.nil_append, List.append_nil, heq]
  rfl

end Canonical

section Spelling

open Relation (EqvGen)

theorem Respelled.canonicalChars_eq (h : Respelled cs ds) : canonicalChars cs = canonicalChars ds := by
  cases h with
  | upper => exact (canonicalChars_upperChars cs).symm
  | zero =>
    have hfront : ∀ c ∈ ['0'], c = '0' ∨ isSilent c := by simp
    exact (canonicalChars_append hfront cs).symm
  | silent h before after =>
    refine canonicalChars_congr ?_
    rw [List.filter_append, List.filter_append, List.filter_cons_of_neg (by simp [h])]

theorem eqvGen_filter (h : ∀ c ∈ cs, upperChar c = [c]) (before : List Char) :
    EqvGen Respelled (before ++ cs) (before ++ cs.filter isAlnum) := by
  -- A change in the middle needs the text in front of it, so `before` grows by each character that stays.
  induction cs generalizing before with
  | nil => exact .refl _
  | cons c cs ih =>
    rw [List.forall_mem_cons] at h
    cases halnum : isAlnum c with
    | true =>
      have hrest := ih h.2 (before ++ [c])
      rw [List.filter_cons_of_pos halnum]
      rwa [← List.append_cons, ← List.append_cons] at hrest
    | false =>
      have hsilent : Respelled (before ++ cs) (before ++ c :: cs) :=
        .silent (isSilent_of_upperChar h.1 halnum) before cs
      rw [List.filter_cons_of_neg (by simp [halnum])]
      exact .trans _ _ _ (.symm _ _ (.rel _ _ hsilent)) (ih h.2 before)

theorem eqvGen_dropWhile (cs : List Char) : EqvGen Respelled cs (cs.dropWhile (· == '0')) := by
  induction cs with
  | nil => exact .refl _
  | cons c cs ih =>
    by_cases h : c = '0'
    · rw [h]
      exact .trans _ _ _ (.symm _ _ (.rel _ _ (.zero cs))) ih
    · rw [List.dropWhile_cons_of_neg (by simpa using h)]
      exact .refl _

theorem eqvGen_canonicalChars (cs : List Char) : EqvGen Respelled cs (canonicalChars cs) := by
  have hupper : EqvGen Respelled cs (upperChars cs) := .rel _ _ (.upper cs)
  have hshown : EqvGen Respelled (upperChars cs) (shown cs) := by
    refine eqvGen_filter ?_ []
    intro d hd
    obtain ⟨c, -, hd⟩ := mem_upperChars.1 hd
    exact upperChar_of_mem hd
  exact .trans _ _ _ hupper (.trans _ _ _ hshown (eqvGen_dropWhile _))

theorem canonical_eq_iff_spellAlike : canonical s = canonical t ↔ SpellAlike s t := by
  rw [canonical_eq_canonical_iff, SpellAlike]
  constructor
  · intro h
    have ht := eqvGen_canonicalChars t.toList
    rw [← h] at ht
    exact .trans _ _ _ (eqvGen_canonicalChars s.toList) (.symm _ _ ht)
  · intro h
    generalize s.toList = cs, t.toList = ds at h
    induction h with
    | rel cs ds hstep => exact hstep.canonicalChars_eq
    | refl cs => rfl
    | symm cs ds _ ih => exact ih.symm
    | trans cs ds es _ _ ih ih' => exact ih.trans ih'

end Spelling

/-- The canonical form of a text is canonical, and exactly the canonical texts are their own. It sees neither the letter
case nor zeros in front nor silent characters, and texts have it in common exactly if they spell one identifier. -/
theorem canonical_form (s : String) :
    IsCanonical (canonical s) ∧ (canonical s = s ↔ IsCanonical s) ∧ canonical (canonical s) = canonical s ∧
      canonical (upper s) = canonical s ∧
      (∀ front : String, (∀ c ∈ front.toList, c = '0' ∨ isSilent c) → canonical (front ++ s) = canonical s) ∧
      ∀ t, (s.toList.filter (!isSilent ·) = t.toList.filter (!isSilent ·) → canonical s = canonical t) ∧
        (canonical s = canonical t ↔ SpellAlike s t) := by
  refine ⟨isCanonical_canonical s, canonical_eq_self_iff, (isCanonical_canonical s).canonical_eq, ?_, ?_, ?_⟩
  · rw [canonical_eq_canonical_iff, toList_upper, canonicalChars_upperChars]
  · intro front hfront
    rw [canonical_eq_canonical_iff, String.toList_append, canonicalChars_append hfront]
  · intro t
    exact ⟨fun hsame => canonical_eq_canonical_iff.2 (canonicalChars_congr hsame), canonical_eq_iff_spellAlike⟩

theorem canonical_form_ligature :
    IsCanonical "FI7B" ∧ (∀ c ∈ "0é-0".toList, c = '0' ∨ isSilent c) ∧
      "ﬁ7b".toList.filter (!isSilent ·) = "ﬁ-7·b".toList.filter (!isSilent ·) ∧
      canonical "FI7B" = "FI7B" ∧ canonical ("0é-0" ++ "ﬁ7b") = "FI7B" ∧ canonical "ﬁ-7·b" = "FI7B" ∧
      SpellAlike "ﬁ7b" "FI7B" := by
  have hcanonical : IsCanonical "FI7B" := canonical_eq_self_iff.1 (by decide +kernel)
  have hfront : ∀ c ∈ "0é-0".toList, c = '0' ∨ isSilent c := by
    have hall : "0é-0".toList.all (fun c => c = '0' ∨ isSilent c) := by decide +kernel
    simpa only [List.all_eq_true, decide_eq_true_eq] using hall
  have hsame : "ﬁ7b".toList.filter (!isSilent ·) = "ﬁ-7·b".toList.filter (!isSilent ·) := by decide +kernel
  have hvalue : canonical "ﬁ7b" = "FI7B" := by decide +kernel
  obtain ⟨-, -, -, -, happend, hcongr⟩ := canonical_form "ﬁ7b"
  have hself : canonical "FI7B" = "FI7B" := (canonical_form "FI7B").2.1.2 hcanonical
  refine ⟨hcanonical, hfront, hsame, hself, (happend _ hfront).trans hvalue, ?_, ?_⟩
  · exact ((hcongr _).1 hsame).symm.trans hvalue
  · exact (hcongr _).2.1 (hvalue.trans hself.symm)

end Kitting.Token
