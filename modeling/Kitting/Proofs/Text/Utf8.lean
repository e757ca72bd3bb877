import Kitting.Text.Utf8

namespace Kitting.Text.Utf8

variable {a b c d : UInt8} {m n : Nat}

theorem lengthOf_eq (a : UInt8) :
    lengthOf a = if a.toNat < 0x80 then 1 else if a.toNat < 0xc2 then 0 else if a.toNat < 0xe0 then 2
      else if a.toNat < 0xf0 then 3 else if a.toNat < 0xf5 then 4 else 0 := by
  simp [lengthOf, UInt8.lt_iff_toNat_lt]

theorem isContinuation_eq_true_iff : isContinuation b = true ↔ 0x80 ≤ b.toNat ∧ b.toNat ≤ 0xbf := by
  simp [isContinuation, UInt8.le_iff_toNat_le]

theorem mayFollow_eq_true_iff : mayFollow a b = true ↔ (0x80 ≤ b.toNat ∧ b.toNat ≤ 0xbf) ∧
    (a.toNat = 0xe0 → 0xa0 ≤ b.toNat) ∧ (a.toNat = 0xed → b.toNat ≤ 0x9f) ∧
    (a.toNat = 0xf0 → 0x90 ≤ b.toNat) ∧ (a.toNat = 0xf4 → b.toNat ≤ 0x8f) := by
  simp only [mayFollow, ← UInt8.toNat_inj, UInt8.le_iff_toNat_le, isContinuation]
  simp
  grind

theorem toNat_ofNat (h : m < 256) : (UInt8.ofNat m).toNat = m := Nat.mod_eq_of_lt h

theorem lengthOf_ofNat (hm : m < 256) :
    lengthOf (.ofNat m) = if m < 0x80 then 1 else if m < 0xc2 then 0 else if m < 0xe0 then 2
      else if m < 0xf0 then 3 else if m < 0xf5 then 4 else 0 := by
  rw [lengthOf_eq, toNat_ofNat hm]

theorem mayFollow_ofNat (hm : m < 256) (hn : n < 256) (hle : 0x80 ≤ n) (hge : n ≤ 0xbf)
    (h0 : m = 0xe0 → 0xa0 ≤ n) (hd : m = 0xed → n ≤ 0x9f) (hf0 : m = 0xf0 → 0x90 ≤ n)
    (hf4 : m = 0xf4 → n ≤ 0x8f) : mayFollow (.ofNat m) (.ofNat n) = true := by
  rw [mayFollow_eq_true_iff, toNat_ofNat hm, toNat_ofNat hn]
  exact ⟨⟨hle, hge⟩, h0, hd, hf0, hf4⟩

theorem isContinuation_tail (n : Nat) : isContinuation (.ofNat (n % 64 + 128)) = true := by
  rw [isContinuation_eq_true_iff, toNat_ofNat (by omega)]
  omega

theorem low_tail (n : Nat) : low (.ofNat (n % 64 + 128)) = n % 64 := by
  rw [low, toNat_ofNat (by omega)]
  omega

section Scan

variable (rest : List UInt8)

theorem scan_one (ha : lengthOf a = 1) : scan (a :: rest) = .char (Char.ofNat a.toNat) 1 :: scan rest := by
  rw [scan.eq_def]
  simp only [ha]

theorem scan_two (ha : lengthOf a = 2) (hb : mayFollow a b = true) :
    scan (a :: b :: rest) = .char (Char.ofNat (a.toNat % 0x20 * 0x40 + low b)) 2 :: scan rest := by
  rw [scan.eq_def]
  simp only [ha, hb, if_true]

theorem scan_three (ha : lengthOf a = 3) (hb : mayFollow a b = true) (hc : isContinuation c = true) :
    scan (a :: b :: c :: rest) =
      .char (Char.ofNat ((a.toNat % 0x10 * 0x40 + low b) * 0x40 + low c)) 3 :: scan rest := by
  rw [scan.eq_def]
  simp only [ha, hb, hc, if_true]

theorem scan_four (ha : lengthOf a = 4) (hb : mayFollow a b = true) (hc : isContinuation c = true)
    (hd : isContinuation d = true) :
    scan (a :: b :: c :: d :: rest) =
      .char (Char.ofNat (((a.toNat % 0x8 * 0x40 + low b) * 0x40 + low c) * 0x40 + low d)) 4 :: scan rest := by
  rw [scan.eq_def]
  simp only [ha, hb, hc, hd, if_true]

end Scan

theorem scan_utf8EncodeChar (c : Char) (rest : List UInt8) :
    scan (String.utf8EncodeChar c ++ rest) = .char c (String.utf8EncodeChar c).length :: scan rest := by
  have hvalid : c.toNat < 0xd800 ∨ 0xdfff < c.toNat ∧ c.toNat < 0x110000 := c.valid
  rw [String.utf8EncodeChar, show c.val.toNat = c.toNat from rfl]
  generalize hn : c.toNat = n at hvalid
  have hchar (m : Nat) (hm : m = n) : Char.ofNat m = c := by rw [hm, ← hn, Char.ofNat_toNat]
  split
  · have hlead : n < 256 := by omega
    have hlength : lengthOf (.ofNat n) = 1 := by rw [lengthOf_ofNat hlead, if_pos (by omega)]
    refine (scan_one _ hlength).trans ?_
    rw [toNat_ofNat hlead, hchar n rfl]
    rfl
  split
  · have hlead : n / 64 % 32 + 192 < 256 := by omega
    have hlength : lengthOf (.ofNat (n / 64 % 32 + 192)) = 2 := by
      rw [lengthOf_ofNat hlead, if_neg (by omega), if_neg (by omega), if_pos (by omega)]
    have hfollow : mayFollow (.ofNat (n / 64 % 32 + 192)) (.ofNat (n % 64 + 128)) = true :=
      mayFollow_ofNat hlead (by omega) (by omega) (by omega) (by omega) (by omega) (by omega) (by omega)
    refine (scan_two _ hlength hfollow).trans ?_
    rw [toNat_ofNat hlead, low_tail, hchar _ (by omega)]
    rfl
  split
  · have hlead : n / 4096 % 16 + 224 < 256 := by omega
    have hlength : lengthOf (.ofNat (n / 4096 % 16 + 224)) = 3 := by
      rw [lengthOf_ofNat hlead, if_neg (by omega), if_neg (by omega), if_neg (by omega), if_pos (by omega)]
    have hfollow : mayFollow (.ofNat (n / 4096 % 16 + 224)) (.ofNat (n / 64 % 64 + 128)) = true :=
      mayFollow_ofNat hlead (by omega) (by omega) (by omega) (by omega) (by omega) (by omega) (by omega)
    refine (scan_three _ hlength hfollow (isContinuation_tail _)).trans ?_
    rw [toNat_ofNat hlead, low_tail, low_tail, hchar _ (by omega)]
    rfl
  · have hlead : n / 262144 % 8 + 240 < 256 := by omega
    have hlength : lengthOf (.ofNat (n / 262144 % 8 + 240)) = 4 := by
      rw [lengthOf_ofNat hlead, if_neg (by omega), if_neg (by omega), if_neg (by omega), if_neg (by omega),
        if_pos (by omega)]
    have hfollow : mayFollow (.ofNat (n / 262144 % 8 + 240)) (.ofNat (n / 4096 % 64 + 128)) = true :=
      mayFollow_ofNat hlead (by omega) (by omega) (by omega) (by omega) (by omega) (by omega) (by omega)
    refine (scan_four _ hlength hfollow (isContinuation_tail _) (isContinuation_tail _)).trans ?_
    rw [toNat_ofNat hlead, low_tail, low_tail, low_tail, hchar _ (by omega)]
    rfl

theorem charsFrom_scan_encode (cs : List Char) (position : Nat) :
    charsFrom position (scan (encode cs)) = .ok cs := by
  induction cs generalizing position with
  | nil => rfl
  | cons c cs ih =>
    change charsFrom position (scan (String.utf8EncodeChar c ++ encode cs)) = _
    rw [scan_utf8EncodeChar, charsFrom, ih]
    rfl

theorem decode_encode (cs : List Char) : decode (encode cs) = .ok cs := charsFrom_scan_encode cs 0

theorem utf8EncodeChar_ofNat (h : n < 0xd800 ∨ 0xdfff < n ∧ n < 0x110000) :
    String.utf8EncodeChar (Char.ofNat n) =
      if n ≤ 0x7f then [.ofNat n]
      else if n ≤ 0x7ff then [.ofNat (n / 64 % 32 + 192), .ofNat (n % 64 + 128)]
      else if n ≤ 0xffff then
        [.ofNat (n / 4096 % 16 + 224), .ofNat (n / 64 % 64 + 128), .ofNat (n % 64 + 128)]
      else [.ofNat (n / 262144 % 8 + 240), .ofNat (n / 4096 % 64 + 128), .ofNat (n / 64 % 64 + 128),
        .ofNat (n % 64 + 128)] := by
  have hvalue : (Char.ofNat n).val.toNat = n := by
    rw [Char.ofNat, dif_pos h]
    rfl
  rw [String.utf8EncodeChar, hvalue]

theorem ofNat_eq {m : Nat} (h : m = a.toNat) : UInt8.ofNat m = a := by rw [h, UInt8.ofNat_toNat]

theorem utf8EncodeChar_one (ha : lengthOf a = 1) : String.utf8EncodeChar (Char.ofNat a.toNat) = [a] := by
  have hlead : a.toNat < 0x80 := by
    rw [lengthOf_eq] at ha
    grind
  rw [utf8EncodeChar_ofNat (by omega), if_pos (by omega), UInt8.ofNat_toNat]

theorem utf8EncodeChar_two (ha : lengthOf a = 2) (hb : mayFollow a b = true) :
    String.utf8EncodeChar (Char.ofNat (a.toNat % 0x20 * 0x40 + low b)) = [a, b] := by
  have hlead : 0xc2 ≤ a.toNat ∧ a.toNat < 0xe0 := by
    rw [lengthOf_eq] at ha
    grind
  obtain ⟨hb, -⟩ := mayFollow_eq_true_iff.1 hb
  rw [low]
  rw [utf8EncodeChar_ofNat (by omega), if_neg (by omega), if_pos (by omega), ofNat_eq (a := a) (by omega),
    ofNat_eq (a := b) (by omega)]

theorem utf8EncodeChar_three (ha : lengthOf a = 3) (hb : mayFollow a b = true) (hc : isContinuation c = true) :
    String.utf8EncodeChar (Char.ofNat ((a.toNat % 0x10 * 0x40 + low b) * 0x40 + low c)) = [a, b, c] := by
  have hlead : 0xe0 ≤ a.toNat ∧ a.toNat < 0xf0 := by
    rw [lengthOf_eq] at ha
    grind
  obtain ⟨hb, h0, hd, -, -⟩ := mayFollow_eq_true_iff.1 hb
  have hc := isContinuation_eq_true_iff.1 hc
  rw [low, low]
  rw [utf8EncodeChar_ofNat (by omega), if_neg (by omega), if_neg (by omega), if_pos (by omega),
    ofNat_eq (a := a) (by omega), ofNat_eq (a := b) (by omega), ofNat_eq (a := c) (by omega)]

theorem utf8EncodeChar_four (ha : lengthOf a = 4) (hb : mayFollow a b = true) (hc : isContinuation c = true)
    (hd : isContinuation d = true) :
    String.utf8EncodeChar
      (Char.ofNat (((a.toNat % 0x8 * 0x40 + low b) * 0x40 + low c) * 0x40 + low d)) = [a, b, c, d] := by
  have hlead : 0xf0 ≤ a.toNat ∧ a.toNat < 0xf5 := by
    rw [lengthOf_eq] at ha
    grind
  obtain ⟨hb, -, -, h0, h4⟩ := mayFollow_eq_true_iff.1 hb
  have hc := isContinuation_eq_true_iff.1 hc
  have hd := isContinuation_eq_true_iff.1 hd
  rw [low, low, low]
  rw [utf8EncodeChar_ofNat (by omega), if_neg (by omega), if_neg (by omega), if_neg (by omega),
    ofNat_eq (a := a) (by omega), ofNat_eq (a := b) (by omega), ofNat_eq (a := c) (by omega),
    ofNat_eq (a := d) (by omega)]

theorem lengthOf_eq_four (h0 : lengthOf a ≠ 0) (h1 : lengthOf a ≠ 1) (h2 : lengthOf a ≠ 2) (h3 : lengthOf a ≠ 3) :
    lengthOf a = 4 := by
  rw [lengthOf_eq] at *
  grind

theorem eq_encode_cons_of_charsFrom {position size : Nat} {c : Char} {bytes rest : List UInt8} {cs : List Char}
    (hbytes : bytes = String.utf8EncodeChar c ++ rest)
    (h : charsFrom position (.char c size :: scan rest) = .ok cs)
    (ih : ∀ position cs, charsFrom position (scan rest) = .ok cs → rest = encode cs) : bytes = encode cs := by
  rw [charsFrom] at h
  cases hrest : charsFrom (position + size) (scan rest) with
  | error e =>
    rw [hrest] at h
    cases h
  | ok cs' =>
    rw [hrest] at h
    cases h
    rw [hbytes, ih _ _ hrest]
    rfl

theorem eq_encode_of_charsFrom {bytes : List UInt8} {position : Nat} {cs : List Char}
    (h : charsFrom position (scan bytes) = .ok cs) : bytes = encode cs := by
  fun_induction scan bytes generalizing position cs with
  | case1 =>
    cases h
    rfl
  | case3 a rest ha ih =>
    exact eq_encode_cons_of_charsFrom (by rw [utf8EncodeChar_one ha]; rfl) h fun _ _ => ih
  | case5 a ha b rest hb ih =>
    exact eq_encode_cons_of_charsFrom (by rw [utf8EncodeChar_two ha hb]; rfl) h fun _ _ => ih
  | case9 a ha b hb c rest hc ih =>
    exact eq_encode_cons_of_charsFrom (by rw [utf8EncodeChar_three ha hb hc]; rfl) h fun _ _ => ih
  | case15 a b hb c hc d rest hd h0 h1 h2 h3 ih =>
    have ha := lengthOf_eq_four h0 h1 h2 h3
    exact eq_encode_cons_of_charsFrom (by rw [utf8EncodeChar_four ha hb hc hd]; rfl) h fun _ _ => ih
  | _ => cases h

def IsText (bytes : List UInt8) : Prop := ∃ cs, bytes = encode cs

/-- The bytes of a text are those that it is written in, and no others. -/
theorem decode_eq_ok_iff {bytes : List UInt8} {cs : List Char} : decode bytes = .ok cs ↔ bytes = encode cs := by
  constructor
  · exact eq_encode_of_charsFrom
  · rintro rfl
    exact decode_encode cs

end Kitting.Text.Utf8
