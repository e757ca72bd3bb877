import Kitting.Text.Blank
import Mathlib.Data.List.Infix

namespace Kitting.Text

variable {sep p : Char → Bool} {c : Char} {w cs : List Char}

theorem pieces_ne_nil (hc : sep c = false) (cs : List Char) : pieces sep (c :: cs) ≠ [] := by
  cases cs with
  | nil => simp [pieces, hc]
  | cons d cs =>
    by_cases hd : sep d
    · simp [pieces, hc, hd]
    · rw [pieces, if_neg (by simp [hc])]
      simp only [if_neg hd]
      split <;> simp

theorem pieces_cons_of_sep {d : Char} (hc : sep c = false) (hd : sep d) (cs : List Char) :
    pieces sep (c :: d :: cs) = [c] :: pieces sep (d :: cs) := by
  rw [pieces, if_neg (by simp [hc])]
  simp only [if_pos hd]

theorem pieces_cons_of_not_sep {d : Char} {ws : List (List Char)} (hc : sep c = false)
    (hd : sep d = false) (h : pieces sep (d :: cs) = w :: ws) :
    pieces sep (c :: d :: cs) = (c :: w) :: ws := by
  rw [pieces, if_neg (by simp [hc])]
  simp only [hd, Bool.false_eq_true, if_false]
  rw [h]

theorem pieces_append_cons (hc : sep c) (u v : List Char) :
    pieces sep (u ++ c :: v) = pieces sep u ++ pieces sep v := by
  induction u with
  | nil => rw [List.nil_append, pieces_cons_sep hc, pieces_nil, List.nil_append]
  | cons x u ih =>
    by_cases hx : sep x
    · rw [List.cons_append, pieces_cons_sep hx, pieces_cons_sep hx, ih]
    rw [Bool.not_eq_true] at hx
    cases u with
    | nil =>
      rw [List.singleton_append, pieces_cons_of_sep hx hc, pieces_cons_sep hc]
      simp [pieces, hx]
    | cons y u =>
      rw [List.cons_append] at ih
      by_cases hy : sep y
      · rw [List.cons_append, List.cons_append, pieces_cons_of_sep hx hy, pieces_cons_of_sep hx hy, ih,
          List.cons_append]
      rw [Bool.not_eq_true] at hy
      obtain ⟨w, ws, hw⟩ := List.exists_cons_of_ne_nil (pieces_ne_nil hy u)
      rw [hw, List.cons_append] at ih
      rw [List.cons_append, List.cons_append, pieces_cons_of_not_sep hx hy ih,
        pieces_cons_of_not_sep hx hy hw, List.cons_append]

theorem pieces_append_flatMap (hc : sep c) (us : List (List Char)) :
    pieces sep (cs ++ us.flatMap (c :: ·)) = pieces sep cs ++ us.flatMap (pieces sep) := by
  induction us generalizing cs with
  | nil => rw [List.flatMap_nil, List.flatMap_nil, List.append_nil, List.append_nil]
  | cons u us ih =>
    rw [List.flatMap_cons, List.flatMap_cons, List.cons_append, pieces_append_cons hc, ih]

theorem pieces_eq_nil (h : ∀ c ∈ cs, sep c) : pieces sep cs = [] := by
  induction cs with
  | nil => rfl
  | cons c cs ih =>
    rw [pieces_cons_sep (h c List.mem_cons_self)]
    exact ih fun d hd => h d (List.mem_cons_of_mem c hd)

theorem pieces_append_of_sep (h : ∀ c ∈ w, sep c) (cs : List Char) :
    pieces sep (w ++ cs) = pieces sep cs := by
  induction w with
  | nil => rfl
  | cons c w ih =>
    rw [List.cons_append, pieces_cons_sep (h c List.mem_cons_self)]
    exact ih fun d hd => h d (List.mem_cons_of_mem c hd)

theorem pieces_append_of_sep_right (h : ∀ c ∈ w, sep c) (cs : List Char) :
    pieces sep (cs ++ w) = pieces sep cs := by
  cases w with
  | nil => rw [List.append_nil]
  | cons c w =>
    rw [List.forall_mem_cons] at h
    rw [pieces_append_cons h.1, pieces_eq_nil h.2, List.append_nil]

theorem pieces_eq_singleton (hne : w ≠ []) (h : ∀ c ∈ w, sep c = false) : pieces sep w = [w] := by
  induction w with
  | nil => exact absurd rfl hne
  | cons c w ih =>
    have hc : sep c = false := h c List.mem_cons_self
    cases w with
    | nil => simp [pieces, hc]
    | cons d w =>
      have hd : sep d = false := h d (by simp)
      refine pieces_cons_of_not_sep hc hd (ih (by simp) ?_)
      intro e he
      exact h e (List.mem_cons_of_mem c he)

theorem pieces_append (hne : w ≠ []) (h : ∀ c ∈ w, sep c = false) (hcs : ∀ c ∈ cs.head?, sep c) :
    pieces sep (w ++ cs) = w :: pieces sep cs := by
  cases cs with
  | nil => rw [List.append_nil, pieces_eq_singleton hne h, pieces_nil]
  | cons d cs =>
    have hd : sep d := hcs d rfl
    rw [pieces_append_cons hd, pieces_eq_singleton hne h, pieces_cons_sep hd, List.singleton_append]

theorem pieces_append_of_not_sep {rest : List Char} {ws : List (List Char)}
    (h : ∀ c ∈ w, sep c = false) (hcs : sep c = false) (hrest : pieces sep (c :: cs) = rest :: ws) :
    pieces sep (w ++ c :: cs) = (w ++ rest) :: ws := by
  induction w with
  | nil => exact hrest
  | cons x w ih =>
    have hx : sep x = false := h x List.mem_cons_self
    have htail := ih fun d hd => h d (List.mem_cons_of_mem x hd)
    cases w with
    | nil => exact pieces_cons_of_not_sep hx hcs htail
    | cons y w => exact pieces_cons_of_not_sep hx (h y (by simp)) htail

theorem of_mem_pieces (hw : w ∈ pieces sep cs) : w ≠ [] ∧ ∀ c ∈ w, sep c = false := by
  induction cs generalizing w with
  | nil => simp at hw
  | cons c cs ih =>
    by_cases hc : sep c
    · rw [pieces_cons_sep hc] at hw
      exact ih hw
    rw [Bool.not_eq_true] at hc
    cases cs with
    | nil =>
      rw [pieces_eq_singleton (List.cons_ne_nil c []) (by simpa using hc), List.mem_singleton] at hw
      simpa [hw] using hc
    | cons d cs =>
      by_cases hd : sep d
      · rw [pieces_cons_of_sep hc hd, List.mem_cons] at hw
        rcases hw with rfl | hw
        · simpa using hc
        · exact ih hw
      rw [Bool.not_eq_true] at hd
      obtain ⟨v, vs, hvs⟩ := List.exists_cons_of_ne_nil (pieces_ne_nil hd cs)
      rw [pieces_cons_of_not_sep hc hd hvs, List.mem_cons] at hw
      rcases hw with rfl | hw
      · obtain ⟨-, hv⟩ := ih (hvs ▸ List.mem_cons_self)
        exact ⟨List.cons_ne_nil c v, List.forall_mem_cons.2 ⟨hc, hv⟩⟩
      · exact ih (hvs ▸ List.mem_cons_of_mem v hw)

theorem prefix_of_pieces {ws : List (List Char)} (hc : sep c = false) (h : pieces sep (c :: cs) = w :: ws) :
    w <+: c :: cs := by
  induction cs generalizing c w ws with
  | nil =>
    rw [pieces_eq_singleton (List.cons_ne_nil c []) (by simpa using hc)] at h
    cases h
    exact List.prefix_rfl
  | cons d cs ih =>
    by_cases hd : sep d
    · rw [pieces_cons_of_sep hc hd] at h
      cases h
      exact List.prefix_append [c] (d :: cs)
    · rw [Bool.not_eq_true] at hd
      obtain ⟨v, vs, hv⟩ := List.exists_cons_of_ne_nil (pieces_ne_nil hd cs)
      rw [pieces_cons_of_not_sep hc hd hv] at h
      cases h
      exact (List.prefix_cons_inj c).2 (ih hd hv)

theorem infix_of_mem_pieces (hw : w ∈ pieces sep cs) : w <:+: cs := by
  induction cs with
  | nil => simp at hw
  | cons c cs ih =>
    by_cases hc : sep c
    · rw [pieces_cons_sep hc] at hw
      exact List.infix_cons (ih hw)
    rw [Bool.not_eq_true] at hc
    obtain ⟨v, vs, hv⟩ := List.exists_cons_of_ne_nil (pieces_ne_nil hc cs)
    rw [hv, List.mem_cons] at hw
    rcases hw with rfl | hw
    · exact (prefix_of_pieces hc hv).isInfix
    · refine List.infix_cons (ih ?_)
      cases cs with
      | nil =>
        rw [pieces_eq_singleton (List.cons_ne_nil c []) (by simpa using hc)] at hv
        cases hv
        cases hw
      | cons d cs =>
        by_cases hd : sep d
        · rw [pieces_cons_of_sep hc hd] at hv
          cases hv
          exact hw
        · rw [Bool.not_eq_true] at hd
          obtain ⟨u, us, hu⟩ := List.exists_cons_of_ne_nil (pieces_ne_nil hd cs)
          rw [pieces_cons_of_not_sep hc hd hu] at hv
          cases hv
          rw [hu]
          exact List.mem_cons_of_mem u hw

theorem exists_mem_pieces_iff {b : Char} (hb : sep b = false) (cs : List Char) :
    (∃ w ∈ pieces sep cs, b ∈ w) ↔ b ∈ cs := by
  induction cs with
  | nil => simp
  | cons c cs ih =>
    by_cases hc : sep c
    · have hne : b ≠ c := by
        rintro rfl
        rw [hb] at hc
        cases hc
      rw [pieces_cons_sep hc, List.mem_cons, or_iff_right hne]
      exact ih
    rw [Bool.not_eq_true] at hc
    rw [List.mem_cons]
    refine Iff.trans ?_ (or_congr_right ih)
    cases cs with
    | nil => simp [pieces, hc]
    | cons d cs =>
      by_cases hd : sep d
      · simp only [pieces_cons_of_sep hc hd, List.mem_cons, exists_eq_or_imp, List.not_mem_nil, or_false]
      rw [Bool.not_eq_true] at hd
      obtain ⟨w, ws, hw⟩ := List.exists_cons_of_ne_nil (pieces_ne_nil hd cs)
      simp only [pieces_cons_of_not_sep hc hd hw, hw, List.mem_cons, exists_eq_or_imp, or_assoc]

theorem mem_pieces_of_delimited {u v : List Char} (hu : ∀ c ∈ u.getLast?, sep c)
    (hv : ∀ c ∈ v.head?, sep c) (hne : w ≠ []) (h : ∀ c ∈ w, sep c = false) :
    w ∈ pieces sep (u ++ w ++ v) := by
  rw [List.append_assoc]
  rcases List.eq_nil_or_concat u with rfl | ⟨u, c, rfl⟩
  · rw [List.nil_append, pieces_append hne h hv]
    exact List.mem_cons_self
  · have hc : sep c := hu c (by simp)
    rw [List.concat_eq_append, List.append_assoc, List.singleton_append, pieces_append_cons hc,
      pieces_append hne h hv]
    exact List.mem_append_right _ List.mem_cons_self

theorem exists_dropEndWhile (p : Char → Bool) (cs : List Char) :
    ∃ v, dropEndWhile p cs ++ v = cs ∧ ∀ c ∈ v, p c := by
  induction cs with
  | nil => exact ⟨[], rfl, by simp⟩
  | cons c cs ih =>
    obtain ⟨v, hv, hall⟩ := ih
    rw [dropEndWhile]
    split
    case h_1 hnil =>
      rw [hnil, List.nil_append] at hv
      split
      case isTrue hc => exact ⟨c :: v, by rw [hv, List.nil_append], List.forall_mem_cons.2 ⟨hc, hall⟩⟩
      case isFalse => exact ⟨v, by rw [hv, List.singleton_append], hall⟩
    case h_2 d ds hds =>
      rw [hds] at hv
      exact ⟨v, by rw [List.cons_append, hv], hall⟩

theorem exists_trimBy (p : Char → Bool) (cs : List Char) :
    ∃ u v, u ++ trimBy p cs ++ v = cs ∧ (∀ c ∈ u, p c) ∧ ∀ c ∈ v, p c := by
  obtain ⟨v, hv, hall⟩ := exists_dropEndWhile p (cs.dropWhile p)
  refine ⟨cs.takeWhile p, v, ?_, List.all_eq_true.1 List.all_takeWhile, hall⟩
  rw [List.append_assoc, trimBy, hv, List.takeWhile_append_dropWhile]

theorem not_of_mem_getLast?_dropEndWhile (hc : c ∈ (dropEndWhile p cs).getLast?) : p c = false := by
  induction cs with
  | nil => simp [dropEndWhile] at hc
  | cons x cs ih =>
    rw [dropEndWhile] at hc
    split at hc
    case h_1 =>
      split at hc
      case isTrue => simp at hc
      case isFalse hx =>
        simp only [List.getLast?_singleton, Option.mem_some_iff] at hc
        rw [← hc]
        simpa using hx
    case h_2 d ds hds =>
      rw [List.getLast?_cons_cons, ← hds] at hc
      exact ih hc

theorem dropEndWhile_eq_self (h : ∀ c ∈ cs.getLast?, p c = false) : dropEndWhile p cs = cs := by
  induction cs with
  | nil => rfl
  | cons c cs ih =>
    cases cs with
    | nil => simp [dropEndWhile, h c rfl]
    | cons d ds =>
      rw [List.getLast?_cons_cons] at h
      rw [dropEndWhile, ih h]

theorem not_of_mem_head?_trimBy (hc : c ∈ (trimBy p cs).head?) : p c = false := by
  obtain ⟨rest, hrest, -⟩ := exists_dropEndWhile p (cs.dropWhile p)
  have hhead : (cs.dropWhile p).head? = some c := by
    rw [← hrest, List.head?_append, ← trimBy, hc]
    rfl
  have hnot := List.head?_dropWhile_not p cs
  simpa [hhead] using hnot

theorem not_of_mem_getLast?_trimBy (hc : c ∈ (trimBy p cs).getLast?) : p c = false :=
  not_of_mem_getLast?_dropEndWhile hc

theorem trimBy_eq_self_iff : trimBy p cs = cs ↔
    (∀ c ∈ cs.head?, p c = false) ∧ ∀ c ∈ cs.getLast?, p c = false := by
  constructor
  · intro h
    rw [← h]
    exact ⟨fun c => not_of_mem_head?_trimBy, fun c => not_of_mem_getLast?_trimBy⟩
  · rintro ⟨hhead, hlast⟩
    have hdrop : cs.dropWhile p = cs := by
      cases cs with
      | nil => rfl
      | cons c cs => simp [hhead c rfl]
    rw [trimBy, hdrop, dropEndWhile_eq_self hlast]

theorem dropEndWhile_append_right (h : ∀ c ∈ w, p c) (cs : List Char) :
    dropEndWhile p (cs ++ w) = dropEndWhile p cs := by
  induction cs with
  | nil =>
    induction w with
    | nil => rfl
    | cons c w ih =>
      rw [List.forall_mem_cons] at h
      rw [List.nil_append] at ih ⊢
      simp [dropEndWhile, ih h.2, h.1]
  | cons c cs ih => rw [List.cons_append, dropEndWhile, ih, dropEndWhile]

theorem trimBy_margins {u v : List Char} (hu : ∀ c ∈ u, p c) (hv : ∀ c ∈ v, p c) (h : trimBy p cs = cs) :
    trimBy p (u ++ cs ++ v) = cs := by
  rw [trimBy, List.append_assoc, List.dropWhile_append_of_pos hu]
  cases cs with
  | nil => rw [List.nil_append, ← List.append_nil v, List.dropWhile_append_of_pos hv, List.dropWhile_nil, dropEndWhile]
  | cons c cs =>
    obtain ⟨hhead, hlast⟩ := trimBy_eq_self_iff.1 h
    rw [List.cons_append, List.dropWhile_cons_of_neg (by simp [hhead c rfl]), ← List.cons_append,
      dropEndWhile_append_right hv, dropEndWhile_eq_self hlast]

@[simp] theorem trimChars_trimChars (cs : List Char) : trimChars (trimChars cs) = trimChars cs :=
  trimBy_eq_self_iff.2 ⟨fun _ => not_of_mem_head?_trimBy, fun _ => not_of_mem_getLast?_trimBy⟩

@[simp] theorem toList_trim (s : String) : (trim s).toList = trimChars s.toList := by
  simp [trim]

@[simp] theorem trim_trim (s : String) : trim (trim s) = trim s := by
  rw [trim, toList_trim, trimChars_trimChars, ← trim]

theorem trim_eq_self_iff {s : String} : trim s = s ↔ trimChars s.toList = s.toList := by
  rw [← String.toList_inj, toList_trim]

theorem trim_ofList (h : trimChars cs = cs) : trim (.ofList cs) = .ofList cs := by
  rw [trim, String.toList_ofList, h]

theorem trimChars_eq_self (hblank : ∀ c ∈ cs, isBlank c = false) : trimChars cs = cs :=
  trimBy_eq_self_iff.2 ⟨fun c hc => hblank c (List.mem_of_mem_head? hc),
    fun c hc => hblank c (List.mem_of_mem_getLast? hc)⟩

theorem trimChars_eq_nil_iff : trimChars cs = [] ↔ ∀ c ∈ cs, isBlank c := by
  obtain ⟨u, v, heq, hu, hv⟩ := exists_trimBy isBlank cs
  constructor
  · intro h
    rw [← heq, ← trimChars, h, List.append_nil]
    exact List.forall_mem_append.2 ⟨hu, hv⟩
  · intro h
    have hall := trimBy_margins h (List.forall_mem_nil _) (rfl : trimBy isBlank [] = [])
    rwa [List.append_nil, List.append_nil] at hall

theorem trim_eq_empty_iff {s : String} : trim s = "" ↔ ∀ c ∈ s.toList, isBlank c := by
  rw [← String.toList_inj, toList_trim]
  exact trimChars_eq_nil_iff

theorem mem_trimChars_iff (hc : isBlank c = false) : c ∈ trimChars cs ↔ c ∈ cs := by
  have hnot {ds : List Char} (hds : ∀ d ∈ ds, isBlank d) : c ∉ ds := by
    intro hmem
    rw [hds c hmem] at hc
    cases hc
  obtain ⟨u, v, heq, hu, hv⟩ := exists_trimBy isBlank cs
  nth_rewrite 2 [← heq]
  simp [trimChars, hnot hu, hnot hv]

theorem trimChars_intercalate {ws : List (List Char)} (h : ∀ w ∈ ws, w ≠ [] ∧ ∀ c ∈ w, isBlank c = false) :
    trimChars ([' '].intercalate ws) = [' '].intercalate ws := by
  cases ws with
  | nil => rfl
  | cons w ws =>
    suffices hends : [' '].intercalate (w :: ws) ≠ [] ∧
        (∀ c ∈ ([' '].intercalate (w :: ws)).head?, isBlank c = false) ∧
          ∀ c ∈ ([' '].intercalate (w :: ws)).getLast?, isBlank c = false from
      trimBy_eq_self_iff.2 hends.2
    induction ws generalizing w with
    | nil =>
      obtain ⟨hne, hw⟩ := h w List.mem_cons_self
      rw [List.intercalate_singleton]
      exact ⟨hne, fun c hc => hw c (List.mem_of_mem_head? hc), fun c hc => hw c (List.mem_of_mem_getLast? hc)⟩
    | cons v ws ih =>
      obtain ⟨hne, hw⟩ := h w List.mem_cons_self
      obtain ⟨hrest, -, hlast⟩ := ih v fun u hu => h u (List.mem_cons_of_mem w hu)
      rw [List.intercalate_cons_of_ne_nil (List.cons_ne_nil v ws), List.append_assoc]
      refine ⟨List.append_ne_nil_of_left_ne_nil hne _, fun c hc => ?_, fun c hc => ?_⟩
      · rw [List.head?_append_of_ne_nil _ hne] at hc
        exact hw c (List.mem_of_mem_head? hc)
      · rw [← List.append_assoc, List.getLast?_append_of_ne_nil _ hrest] at hc
        exact hlast c hc

end Kitting.Text
