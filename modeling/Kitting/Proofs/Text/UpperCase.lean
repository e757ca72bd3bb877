import Kitting.Proofs.Text.Words
import Kitting.Text.Case
import Mathlib.Data.Nat.Bitwise

/-!
Upper case, character by character.

A character either is its own upper case or goes to characters of the table, and these are in upper case
themselves, never blank, and in ASCII only letters. So upper case is idempotent, takes every word to a word
and leaves white space and punctuation where they stand.

The table is compared with itself as a whole: a set of code points is the number whose bits they are, and
two sets without a common point have no common bit.
-/

namespace Kitting.Text

variable {c d : Char} {w cs : List Char} {n m : Nat}

/-- The number whose bits are the given points. -/
def bits (points : List Nat) : Nat := points.foldr (fun n mask => 2 ^ n ||| mask) 0

def jointBits (groups : List (List Nat)) : Nat := groups.foldr (fun g mask => bits g ||| mask) 0

theorem testBit_bits (points : List Nat) : (bits points).testBit n ↔ n ∈ points := by
  induction points with
  | nil => simp [bits]
  | cons p points ih =>
    rw [bits, List.foldr_cons, Nat.testBit_or, Bool.or_eq_true, ← bits, ih, Nat.testBit_two_pow,
      List.mem_cons, decide_eq_true_eq, eq_comm]

theorem testBit_jointBits (groups : List (List Nat)) :
    (jointBits groups).testBit n ↔ n ∈ groups.flatten := by
  induction groups with
  | nil => simp [jointBits]
  | cons g groups ih =>
    rw [jointBits, List.foldr_cons, Nat.testBit_or, Bool.or_eq_true, ← jointBits, ih, testBit_bits,
      List.flatten_cons, List.mem_append]

theorem notMem_of_jointBits (groups groups' : List (List Nat))
    (h : jointBits groups &&& jointBits groups' = 0) (hn : n ∈ groups.flatten) :
    n ∉ groups'.flatten := by
  intro hn'
  have hbit : (jointBits groups &&& jointBits groups').testBit n = true := by
    rw [Nat.testBit_and, (testBit_jointBits groups).2 hn, (testBit_jointBits groups').2 hn']
    rfl
  rw [h, Nat.zero_testBit] at hbit
  cases hbit

namespace CaseRun

variable {r : CaseRun}

def offsets (r : CaseRun) : List Nat :=
  (List.range (r.last + 1 - r.first)).filter (· % r.step == 0)

def sources (r : CaseRun) : List Nat := r.offsets.map (r.first + ·)

def images (r : CaseRun) : List Nat := r.offsets.map (r.target + ·)

theorem mem_of_map? (h : r.map? n = some m) : n ∈ r.sources ∧ m ∈ r.images := by
  simp only [map?] at h
  split at h
  case isTrue hn =>
    simp only [Bool.and_eq_true, decide_eq_true_eq] at hn
    have hoff : n - r.first ∈ r.offsets := by
      refine List.mem_filter.2 ⟨List.mem_range.2 ?_, hn.2⟩
      omega
    cases h
    exact ⟨List.mem_map.2 ⟨_, hoff, Nat.add_sub_cancel' hn.1.1⟩, List.mem_map.2 ⟨_, hoff, rfl⟩⟩
  case isFalse => cases h

end CaseRun

def upperSources : List (List Nat) :=
  upperExpansions.map Prod.fst :: upperRuns.map CaseRun.sources

def upperImages : List (List Nat) :=
  upperExpansions.flatMap Prod.snd :: upperRuns.map CaseRun.images

def blankPoints : List Nat :=
  List.range' 0x9 5 ++ List.range' 0x1c 5 ++ List.range' 0x2000 11 ++
    [0x85, 0xa0, 0x1680, 0x2028, 0x2029, 0x202f, 0x205f, 0x3000]

theorem mem_blankPoints (h : isBlank c) : c.toNat ∈ blankPoints := by
  simp only [isBlank, isSpace, Bool.or_eq_true, Bool.and_eq_true, decide_eq_true_eq, beq_iff_eq] at h
  simp only [blankPoints, List.mem_append, List.mem_range'_1, List.mem_cons, List.not_mem_nil, or_false]
  omega

theorem notMem_upperSources (h : n ∈ upperImages.flatten ∨ n ∈ blankPoints) :
    n ∉ upperSources.flatten := by
  refine notMem_of_jointBits (blankPoints :: upperImages) _ (by decide +kernel) ?_
  rw [List.flatten_cons, List.mem_append]
  exact h.symm

theorem notMem_blankPoints (h : n ∈ upperImages.flatten) : n ∉ blankPoints := by
  have hnot := notMem_of_jointBits _ [blankPoints] (by decide +kernel) h
  simpa using hnot

theorem upperImages_bounds : ∀ n ∈ upperImages.flatten, n.isValidChar ∧
    (n < 0x80 → 'A'.toNat ≤ n ∧ n ≤ 'Z'.toNat ∧ n ≠ 'O'.toNat ∧ n ≠ 'R'.toNat) := by
  decide +kernel

theorem mapCase_upper_cases (c : Char) : mapCase upperExpansions upperRuns c = [c] ∨
    mapCase upperExpansions upperRuns c ≠ [] ∧
      ∀ d ∈ mapCase upperExpansions upperRuns c, d.toNat ∈ upperImages.flatten := by
  have hofNat : ∀ n ∈ upperImages.flatten, (Char.ofNat n).toNat ∈ upperImages.flatten := by
    intro n hn
    have hvalid := (upperImages_bounds n hn).1
    have htoNat : (Char.ofNat n).toNat = n := by
      rw [Char.ofNat, dif_pos hvalid]
      rfl
    rwa [htoNat]
  rw [mapCase]
  cases hlookup : upperExpansions.lookup c.toNat with
  | some ns =>
    obtain ⟨before, after, hmem, -⟩ := List.lookup_eq_some_iff.1 hlookup
    have hentry : (c.toNat, ns) ∈ upperExpansions := by simp [hmem]
    have hne : ∀ e ∈ upperExpansions, e.2 ≠ [] := by decide +kernel
    refine .inr ⟨by simpa using hne _ hentry, ?_⟩
    intro d hd
    obtain ⟨n, hn, rfl⟩ := List.mem_map.1 hd
    refine hofNat n ?_
    rw [upperImages, List.flatten_cons, List.mem_append]
    exact .inl (List.mem_flatMap.2 ⟨_, hentry, hn⟩)
  | none =>
    cases hrun : upperRuns.findSome? (·.map? c.toNat) with
    | none => exact .inl rfl
    | some m =>
      obtain ⟨r, hr, hm⟩ := List.exists_of_findSome?_eq_some hrun
      refine .inr ⟨List.cons_ne_nil _ _, ?_⟩
      intro d hd
      rw [List.mem_singleton.1 hd]
      refine hofNat m ?_
      rw [upperImages, List.flatten_cons, List.mem_append]
      exact .inr (List.mem_flatten_of_mem (List.mem_map_of_mem hr) (CaseRun.mem_of_map? hm).2)

theorem mapCase_upper_of_notMem (h : c.toNat ∉ upperSources.flatten) :
    mapCase upperExpansions upperRuns c = [c] := by
  rw [upperSources, List.flatten_cons, List.mem_append, not_or] at h
  have hlookup : upperExpansions.lookup c.toNat = none := by
    rw [List.lookup_eq_none_iff]
    intro e he
    rw [bne_iff_ne]
    rintro heq
    exact h.1 (heq ▸ List.mem_map_of_mem he)
  have hrun : upperRuns.findSome? (·.map? c.toNat) = none := by
    rw [List.findSome?_eq_none_iff]
    intro r hr
    rw [Option.eq_none_iff_forall_ne_some]
    intro m hm
    exact h.2 (List.mem_flatten_of_mem (List.mem_map_of_mem hr) (CaseRun.mem_of_map? hm).1)
  rw [mapCase, hlookup, hrun]
  rfl

@[elab_as_elim] theorem of_ascii {motive : Char → Prop} (c : Char) (hascii : c.toNat < 0x80)
    (h : ∀ n < 0x80, motive (Char.ofNat n)) : motive c := by
  have hc := h c.toNat hascii
  rwa [Char.ofNat_toNat] at hc

theorem upperChar_of_isBlank (h : isBlank c) : upperChar c = [c] := by
  rw [upperChar]
  split
  case isTrue hascii =>
    have hc : isBlank c → c.toUpper = c := of_ascii c hascii (by decide +kernel)
    rw [hc h]
  case isFalse => exact mapCase_upper_of_notMem (notMem_upperSources (.inr (mem_blankPoints h)))

structure IsCapital (d : Char) : Prop where
  upper : upperChar d = [d]
  word : isBlank d = false
  letter : d.toNat < 0x80 → 'A'.toNat ≤ d.toNat ∧ d.toNat ≤ 'Z'.toNat

theorem isCapital_of_mem (h : d.toNat ∈ upperImages.flatten) : IsCapital d where
  upper := by
    rw [upperChar]
    split
    case isTrue hascii =>
      have hd : 'A'.toNat ≤ d.toNat ∧ d.toNat ≤ 'Z'.toNat → d.toUpper = d := of_ascii d hascii (by decide +kernel)
      obtain ⟨hA, hZ, -⟩ := (upperImages_bounds _ h).2 hascii
      rw [hd ⟨hA, hZ⟩]
    case isFalse => exact mapCase_upper_of_notMem (notMem_upperSources (.inl h))
  word := by
    rw [Bool.eq_false_iff]
    exact fun hblank => notMem_blankPoints h (mem_blankPoints hblank)
  letter hascii := by
    obtain ⟨hA, hZ, -⟩ := (upperImages_bounds _ h).2 hascii
    exact ⟨hA, hZ⟩

theorem upperChar_cases (c : Char) :
    upperChar c = [c] ∨ upperChar c ≠ [] ∧ ∀ d ∈ upperChar c, IsCapital d := by
  by_cases hascii : c.toNat < 0x80
  · have hc : c.toUpper = c ∨ upperChar c.toUpper = [c.toUpper] ∧ isBlank c.toUpper = false ∧
        'A'.toNat ≤ c.toUpper.toNat ∧ c.toUpper.toNat ≤ 'Z'.toNat := of_ascii c hascii (by decide +kernel)
    rw [upperChar, if_pos hascii]
    rcases hc with hc | ⟨hupper, hword, hletter⟩
    · rw [hc]
      exact .inl rfl
    · refine .inr ⟨List.cons_ne_nil _ _, ?_⟩
      intro d hd
      rw [List.mem_singleton.1 hd]
      exact ⟨hupper, hword, fun _ => hletter⟩
  · rw [upperChar, if_neg hascii]
    rcases mapCase_upper_cases c with h | ⟨hne, h⟩
    · exact .inl h
    · exact .inr ⟨hne, fun d hd => isCapital_of_mem (h d hd)⟩

theorem upperChar_ne_nil (c : Char) : upperChar c ≠ [] := by
  rcases upperChar_cases c with h | ⟨hne, -⟩
  · simp [h]
  · exact hne

theorem upperChar_of_mem (h : d ∈ upperChar c) : upperChar d = [d] := by
  rcases upperChar_cases c with hc | ⟨-, hall⟩
  · rw [hc, List.mem_singleton] at h
    rw [h, hc]
  · exact (hall d h).upper

theorem isBlank_of_mem_upperChar (h : d ∈ upperChar c) : isBlank d = isBlank c := by
  cases hblank : isBlank c with
  | true =>
    rw [upperChar_of_isBlank hblank, List.mem_singleton] at h
    rw [h, hblank]
  | false =>
    rcases upperChar_cases c with hc | ⟨-, hall⟩
    · rw [hc, List.mem_singleton] at h
      rw [h, hblank]
    · exact (hall d h).word

theorem eq_of_mem_upperChar (h : d ∈ upperChar c) (hascii : d.toNat < 0x80)
    (hletter : d.toNat < 'A'.toNat ∨ 'Z'.toNat < d.toNat) : d = c := by
  rcases upperChar_cases c with hc | ⟨-, hall⟩
  · rwa [hc, List.mem_singleton] at h
  · have hbounds := (hall d h).letter hascii
    omega

theorem ascii_of_mem_upperChar (hd : d = 'O' ∨ d = 'R') (h : d ∈ upperChar c) : c.toNat < 0x80 := by
  by_contra hascii
  rw [upperChar, if_neg hascii] at h
  rcases mapCase_upper_cases c with hc | ⟨-, hall⟩
  · rw [hc, List.mem_singleton] at h
    rw [← h] at hascii
    rcases hd with rfl | rfl <;> exact hascii (by decide)
  · have hbounds := (upperImages_bounds _ (hall d h)).2
    rcases hd with rfl | rfl
    · exact (hbounds (by decide)).2.2.1 rfl
    · exact (hbounds (by decide)).2.2.2 rfl

theorem eq_or_eq_toLower_of_mem_upperChar (hd : d = 'O' ∨ d = 'R') (h : d ∈ upperChar c) :
    c = d ∨ c = d.toLower := by
  have hascii := ascii_of_mem_upperChar hd h
  have hc : c = c.toUpper ∨ c = c.toUpper.toLower := of_ascii c hascii (by decide +kernel)
  rw [upperChar, if_pos hascii, List.mem_singleton] at h
  rwa [h]

@[simp] theorem upperChars_cons (c : Char) (cs : List Char) :
    upperChars (c :: cs) = upperChar c ++ upperChars cs := by
  rw [upperChars, List.flatMap_cons, upperChars]

theorem mem_upperChars : d ∈ upperChars cs ↔ ∃ c ∈ cs, d ∈ upperChar c := by
  rw [upperChars, List.mem_flatMap]

@[simp] theorem upperChars_eq_nil : upperChars cs = [] ↔ cs = [] := by
  cases cs with
  | nil => simp
  | cons c cs => simp [upperChar_ne_nil]

theorem upperChars_eq_self (h : ∀ c ∈ cs, upperChar c = [c]) : upperChars cs = cs := by
  induction cs with
  | nil => rfl
  | cons c cs ih =>
    rw [upperChars_cons, h c List.mem_cons_self, ih fun d hd => h d (List.mem_cons_of_mem c hd)]
    rfl

@[simp] theorem upperChars_upperChars (cs : List Char) : upperChars (upperChars cs) = upperChars cs := by
  refine upperChars_eq_self ?_
  intro d hd
  obtain ⟨c, -, hd⟩ := mem_upperChars.1 hd
  exact upperChar_of_mem hd

@[simp] theorem upper_upper (s : String) : upper (upper s) = upper s := by
  rw [upper, toList_upper, upperChars_upperChars, ← upper]

theorem upperChars_of_isBlank (h : ∀ c ∈ w, isBlank c) : upperChars w = w :=
  upperChars_eq_self fun c hc => upperChar_of_isBlank (h c hc)

theorem isBlank_head?_upperChars (h : ∀ c ∈ cs.head?, isBlank c = false) :
    ∀ d ∈ (upperChars cs).head?, isBlank d = false := by
  cases cs with
  | nil => simp
  | cons c cs =>
    intro d hd
    rw [upperChars_cons, List.head?_append_of_ne_nil _ (upperChar_ne_nil c)] at hd
    rw [isBlank_of_mem_upperChar (List.mem_of_mem_head? hd), h c rfl]

theorem isBlank_getLast?_upperChars (h : ∀ c ∈ cs.getLast?, isBlank c = false) :
    ∀ d ∈ (upperChars cs).getLast?, isBlank d = false := by
  rcases List.eq_nil_or_concat cs with rfl | ⟨cs, c, rfl⟩
  · simp
  · intro d hd
    rw [List.concat_eq_append, upperChars_append, upperChars_cons, upperChars_nil, List.append_nil,
      List.getLast?_append_of_ne_nil _ (upperChar_ne_nil c)] at hd
    rw [isBlank_of_mem_upperChar (List.mem_of_mem_getLast? hd), h c (by simp)]

theorem trimChars_upperChars (h : trimChars cs = cs) : trimChars (upperChars cs) = upperChars cs := by
  obtain ⟨hhead, hlast⟩ := trimBy_eq_self_iff.1 h
  exact trimBy_eq_self_iff.2 ⟨isBlank_head?_upperChars hhead, isBlank_getLast?_upperChars hlast⟩

theorem upperChars_trimChars (cs : List Char) : upperChars (trimChars cs) = trimChars (upperChars cs) := by
  obtain ⟨u, v, heq, hu, hv⟩ := exists_trimBy isBlank cs
  nth_rewrite 2 [← heq]
  rw [upperChars_append, upperChars_append, upperChars_of_isBlank hu, upperChars_of_isBlank hv]
  exact (trimBy_margins hu hv (trimChars_upperChars (trimChars_trimChars cs))).symm

theorem head?_any_upperChars (cs : List Char) : (upperChars cs).head?.any isBlank = cs.head?.any isBlank := by
  cases cs with
  | nil => rfl
  | cons c cs =>
    obtain ⟨d, ds, hd⟩ := List.exists_cons_of_ne_nil (upperChar_ne_nil c)
    rw [upperChars_cons, hd]
    exact isBlank_of_mem_upperChar (hd ▸ List.mem_cons_self)

theorem dropWhile_upperChars (cs : List Char) :
    (upperChars cs).dropWhile isBlank = upperChars (cs.dropWhile isBlank) := by
  induction cs with
  | nil => rfl
  | cons c cs ih =>
    cases hc : isBlank c with
    | true =>
      rw [upperChars_cons, upperChar_of_isBlank hc, List.singleton_append, List.dropWhile_cons_of_pos hc,
        List.dropWhile_cons_of_pos hc, ih]
    | false =>
      obtain ⟨d, ds, hd⟩ := List.exists_cons_of_ne_nil (upperChar_ne_nil c)
      have hblank : isBlank d = false := (isBlank_of_mem_upperChar (hd ▸ List.mem_cons_self)).trans hc
      rw [List.dropWhile_cons_of_neg (by simp [hc]), upperChars_cons, hd, List.cons_append,
        List.dropWhile_cons_of_neg (by simp [hblank])]

theorem trim_upper {s : String} (h : trim s = s) : trim (upper s) = upper s := by
  rw [trim_eq_self_iff] at h ⊢
  rw [toList_upper]
  exact trimChars_upperChars h

theorem wordChars_upperChars (cs : List Char) :
    wordChars (upperChars cs) = (wordChars cs).map upperChars := by
  have hword {c : Char} (hc : isBlank c = false) : ∀ d ∈ upperChar c, isBlank d = false :=
    fun d hd => (isBlank_of_mem_upperChar hd).trans hc
  induction cs with
  | nil => rfl
  | cons c cs ih =>
    rw [upperChars_cons]
    by_cases hc : isBlank c
    · rw [upperChar_of_isBlank hc, List.singleton_append, wordChars, wordChars, pieces_cons_sep hc,
        pieces_cons_sep hc]
      exact ih
    rw [Bool.not_eq_true] at hc
    cases cs with
    | nil =>
      rw [upperChars_nil, List.append_nil, wordChars, wordChars,
        pieces_eq_singleton (upperChar_ne_nil c) (hword hc), pieces_eq_singleton (by simp) (by simpa)]
      simp
    | cons d cs =>
      rw [wordChars, wordChars] at ih ⊢
      by_cases hd : isBlank d
      · rw [pieces_cons_of_sep hc hd, List.map_cons, ← ih]
        rw [upperChars_cons, upperChar_of_isBlank hd, pieces_append (upperChar_ne_nil c) (hword hc)]
        · simp
        · simpa using hd
      rw [Bool.not_eq_true] at hd
      obtain ⟨w, ws, hw⟩ := List.exists_cons_of_ne_nil (pieces_ne_nil hd cs)
      obtain ⟨e, es, he⟩ := List.exists_cons_of_ne_nil (upperChar_ne_nil d)
      rw [pieces_cons_of_not_sep hc hd hw, List.map_cons, upperChars_cons]
      rw [hw, List.map_cons, upperChars_cons, he] at ih
      rw [upperChars_cons, he]
      have hblank : isBlank e = false := hword hd e (by simp [he])
      exact pieces_append_of_not_sep (hword hc) hblank ih

end Kitting.Text
