import Kitting.Formula.Split
import Kitting.Proofs.Text.UpperCase
import Mathlib.Data.List.TakeWhile

namespace Kitting.Formula

open Text

variable {t s cs rest m w : List Char} {c : Char}

def Blank (cs : List Char) : Prop := ∀ c ∈ cs, isBlank c

instance : Decidable (Blank cs) := List.decidableBAll _ cs

theorem blank_nil : Blank [] := by decide

theorem blank_space : Blank [' '] := by decide

inductive OrMark : List Char → Prop
  | mk {lead word trail : List Char} : lead ≠ [] → Blank lead → isOrWord word → trail ≠ [] → Blank trail →
      OrMark (lead ++ word ++ trail)

inductive SlashMark : List Char → Prop
  | mk {lead trail : List Char} : Blank lead → Blank trail → SlashMark (lead ++ '/' :: trail)

inductive Joined (Mark : List Char → Prop) : List String → List Char → Prop
  | single (t : String) : Joined Mark [t] t.toList
  | cons {t : String} {ts : List String} {m rest : List Char} : Mark m → Joined Mark ts rest →
      Joined Mark (t :: ts) (t.toList ++ m ++ rest)

/-- A text that may stand between marks: not empty, trimmed, and without the word OR. -/
structure IsPhrase (t : String) : Prop where
  ne_empty : t ≠ ""
  trimmed : trim t = t
  whole : ∀ w ∈ words t, upper w ≠ "OR"

instance (t : String) : Decidable (IsPhrase t) :=
  decidable_of_iff (t ≠ "" ∧ trim t = t ∧ ∀ w ∈ words t, upper w ≠ "OR")
    ⟨fun ⟨h₁, h₂, h₃⟩ => ⟨h₁, h₂, h₃⟩, fun h => ⟨h.ne_empty, h.trimmed, h.whole⟩⟩

theorem isOrWord_iff : isOrWord w ↔
    ∃ a b, w = [a, b] ∧ (a = 'O' ∨ a = 'o') ∧ (b = 'R' ∨ b = 'r') := by
  rw [isOrWord, beq_iff_eq]
  constructor
  · intro h
    obtain _ | ⟨a, _ | ⟨b, w⟩⟩ := w
    · simp at h
    · have hO : 'O' ∈ upperChar a := by simp_all
      have hR : 'R' ∈ upperChar a := by simp_all
      rcases eq_or_eq_toLower_of_mem_upperChar (.inl rfl) hO with rfl | rfl <;> exact absurd hR (by decide)
    · obtain ⟨d, ds, hd⟩ := List.exists_cons_of_ne_nil (upperChar_ne_nil a)
      obtain ⟨e, es, he⟩ := List.exists_cons_of_ne_nil (upperChar_ne_nil b)
      rw [upperChars_cons, upperChars_cons, hd, he, List.cons_append, List.cons.injEq] at h
      obtain ⟨rfl, htail⟩ := h
      obtain ⟨rfl, hrest⟩ | ⟨ds, rfl, hrest⟩ := List.append_eq_cons_iff.1 htail
      · rw [List.cons_append, List.cons.injEq] at hrest
        obtain ⟨rfl, hnil⟩ := hrest
        rw [List.append_eq_nil_iff, upperChars_eq_nil] at hnil
        refine ⟨a, b, by rw [hnil.2], eq_or_eq_toLower_of_mem_upperChar (.inl rfl) ?_,
          eq_or_eq_toLower_of_mem_upperChar (.inr rfl) ?_⟩
        · rw [hd]
          exact List.mem_cons_self
        · rw [he]
          exact List.mem_cons_self
      · simp at htail
  · rintro ⟨a, b, rfl, rfl | rfl, rfl | rfl⟩ <;> decide

theorem isOrWord_upperChars (w : List Char) : isOrWord (upperChars w) = isOrWord w := by
  rw [isOrWord, upperChars_upperChars, isOrWord]

theorem not_isBlank_of_isOrWord (h : isOrWord w) (hc : c ∈ w) : isBlank c = false := by
  obtain ⟨a, b, rfl, ha, hb⟩ := isOrWord_iff.1 h
  rcases List.mem_cons.1 hc with rfl | hc
  · rcases ha with rfl | rfl <;> decide
  · rw [List.mem_singleton] at hc
    rw [hc]
    rcases hb with rfl | rfl <;> decide

namespace IsPhrase

variable {t : String}

theorem toList_ne_nil (h : IsPhrase t) : t.toList ≠ [] := mt String.toList_eq_nil_iff.1 h.ne_empty

theorem trimChars_toList (h : IsPhrase t) : trimChars t.toList = t.toList := by
  have htrim := congrArg String.toList h.trimmed
  rwa [trim, String.toList_ofList] at htrim

theorem head?_toList (h : IsPhrase t) : ∀ c ∈ t.toList.head?, isBlank c = false :=
  (trimBy_eq_self_iff.1 h.trimChars_toList).1

theorem getLast?_toList (h : IsPhrase t) : ∀ c ∈ t.toList.getLast?, isBlank c = false :=
  (trimBy_eq_self_iff.1 h.trimChars_toList).2

theorem not_isOrWord (h : IsPhrase t) (hw : w ∈ wordChars t.toList) : isOrWord w = false := by
  have hne := h.whole (.ofList w) (List.mem_map_of_mem hw)
  rw [Bool.eq_false_iff]
  intro hor
  refine hne (String.toList_inj.1 ?_)
  rw [toList_upper, String.toList_ofList]
  exact eq_of_beq hor

protected theorem upper (h : IsPhrase t) : IsPhrase (upper t) where
  ne_empty := by
    intro heq
    have hnil : upperChars t.toList = [] := by rw [← toList_upper, heq]; rfl
    exact h.toList_ne_nil (upperChars_eq_nil.1 hnil)
  trimmed := by
    rw [trim, toList_upper, trimChars_upperChars h.trimChars_toList, ← Text.upper]
  whole := by
    intro v hv heq
    rw [words, toList_upper, wordChars_upperChars, List.map_map] at hv
    obtain ⟨w, hw, rfl⟩ := List.mem_map.1 hv
    refine h.whole (.ofList w) (List.mem_map_of_mem hw) ?_
    rw [← heq, Function.comp_apply, upper, upper, String.toList_ofList, String.toList_ofList,
      upperChars_upperChars]

end IsPhrase

theorem dropWhile_append_of_blank (h : Blank s) (hrest : ∀ c ∈ rest.head?, isBlank c = false) :
    (s ++ rest).dropWhile isBlank = rest := by
  rw [List.dropWhile_append_of_pos h]
  cases rest with
  | nil => rfl
  | cons c rest => simp [hrest c rfl]

theorem exists_blank_takeWhile (h : cs.head?.any isBlank) :
    ∃ lead, lead ≠ [] ∧ Blank lead ∧ cs = lead ++ cs.dropWhile isBlank := by
  refine ⟨cs.takeWhile isBlank, ?_, fun c => List.mem_takeWhile_imp, List.takeWhile_append_dropWhile.symm⟩
  cases cs with
  | nil => simp at h
  | cons c cs => simp_all

theorem head?_any_isBlank (hne : s ≠ []) (h : Blank s) (rest : List Char) :
    (s ++ rest).head?.any isBlank := by
  cases s with
  | nil => exact absurd rfl hne
  | cons c s => exact h c List.mem_cons_self

theorem head?_isOrWord (h : isOrWord w) (rest : List Char) :
    ∀ c ∈ (w ++ rest).head?, isBlank c = false ∧ c ≠ '/' := by
  obtain ⟨a, b, rfl, ha, -⟩ := isOrWord_iff.1 h
  intro c hc
  rw [List.cons_append, List.head?_cons, Option.mem_some_iff] at hc
  rw [← hc]
  rcases ha with rfl | rfl <;> decide

theorem afterOr?_eq_some_iff : afterOr? cs = some rest ↔ ∃ w, isOrWord w ∧ cs = w ++ rest := by
  constructor
  · intro h
    obtain _ | ⟨a, _ | ⟨b, cs⟩⟩ := cs
    · cases h
    · cases h
    · rw [afterOr?] at h
      split at h
      case isTrue hab =>
        cases h
        exact ⟨[a, b], isOrWord_iff.2 ⟨a, b, rfl, hab⟩, rfl⟩
      case isFalse => cases h
  · rintro ⟨w, hw, rfl⟩
    obtain ⟨a, b, rfl, hab⟩ := isOrWord_iff.1 hw
    rw [List.cons_append, List.cons_append, afterOr?, if_pos hab]
    rfl

theorem afterOrMark?_eq_some_iff : afterOrMark? cs = some rest ↔
    ∃ m, OrMark m ∧ cs = m ++ rest ∧ ∀ c ∈ rest.head?, isBlank c = false := by
  constructor
  · intro h
    rw [afterOrMark?] at h
    split at h
    case isFalse => cases h
    case isTrue hlead =>
      split at h
      case h_2 => cases h
      case h_1 r hor =>
        split at h
        case isFalse => cases h
        case isTrue htrail =>
          cases h
          obtain ⟨w, hw, hcs⟩ := afterOr?_eq_some_iff.1 hor
          obtain ⟨lead, hne, hblank, hlead⟩ := exists_blank_takeWhile hlead
          obtain ⟨trail, hne', hblank', htrail⟩ := exists_blank_takeWhile htrail
          refine ⟨lead ++ w ++ trail, .mk hne hblank hw hne' hblank', ?_, ?_⟩
          · rw [List.append_assoc, ← htrail, List.append_assoc, ← hcs, ← hlead]
          · intro c hc
            have hnot := List.head?_dropWhile_not isBlank r
            rw [Option.mem_def.1 hc] at hnot
            simpa using hnot
  · rintro ⟨_, ⟨hne, hblank, hw, hne', hblank'⟩, rfl, hrest⟩
    rename_i lead w trail
    have hword : ∀ c ∈ (w ++ (trail ++ rest)).head?, isBlank c = false :=
      fun c hc => (head?_isOrWord hw _ c hc).1
    have hor : afterOr? (w ++ (trail ++ rest)) = some (trail ++ rest) :=
      afterOr?_eq_some_iff.2 ⟨w, hw, rfl⟩
    rw [List.append_assoc, List.append_assoc, afterOrMark?, if_pos (head?_any_isBlank hne hblank _),
      dropWhile_append_of_blank hblank hword, hor]
    simp only [head?_any_isBlank hne' hblank', if_true, dropWhile_append_of_blank hblank' hrest]

theorem afterSlash?_eq_some_iff : afterSlash? cs = some rest ↔
    ∃ m, SlashMark m ∧ cs = m ++ rest ∧ ∀ c ∈ rest.head?, isBlank c = false := by
  constructor
  · intro h
    rw [afterSlash?] at h
    split at h
    case h_2 => cases h
    case h_1 r hr =>
      cases h
      refine ⟨cs.takeWhile isBlank ++ '/' :: r.takeWhile isBlank, .mk ?_ ?_, ?_, ?_⟩
      · exact fun c => List.mem_takeWhile_imp
      · exact fun c => List.mem_takeWhile_imp
      · rw [List.append_assoc, List.cons_append, List.takeWhile_append_dropWhile, ← hr,
          List.takeWhile_append_dropWhile]
      · intro c hc
        have hnot := List.head?_dropWhile_not isBlank r
        rw [Option.mem_def.1 hc] at hnot
        simpa using hnot
  · rintro ⟨_, ⟨hblank, hblank'⟩, rfl, hrest⟩
    rename_i lead trail
    have hslash : ∀ c ∈ ('/' :: (trail ++ rest)).head?, isBlank c = false := by
      intro c hc
      cases hc
      decide
    rw [List.append_assoc, List.cons_append, afterSlash?, dropWhile_append_of_blank hblank hslash]
    simp only [dropWhile_append_of_blank hblank' hrest]

theorem afterSlashOrMark?_eq_some_iff : afterSlashOrMark? cs = some rest ↔
    ∃ m, (SlashMark m ∨ OrMark m) ∧ cs = m ++ rest ∧ ∀ c ∈ rest.head?, isBlank c = false := by
  rw [afterSlashOrMark?]
  constructor
  · intro h
    cases hslash : afterSlash? cs with
    | some r =>
      rw [hslash] at h
      cases h
      obtain ⟨m, hm, hcs⟩ := afterSlash?_eq_some_iff.1 hslash
      exact ⟨m, .inl hm, hcs⟩
    | none =>
      rw [hslash] at h
      obtain ⟨m, hm, hcs⟩ := afterOrMark?_eq_some_iff.1 h
      exact ⟨m, .inr hm, hcs⟩
  · rintro ⟨m, hm | hm, hcs⟩
    · rw [afterSlash?_eq_some_iff.2 ⟨m, hm, hcs⟩]
      rfl
    · have hslash : afterSlash? cs = none := by
        obtain ⟨-, hblank, hw, -, -⟩ := hm
        rename_i lead w trail
        have hhead := head?_isOrWord hw (trail ++ rest)
        rw [afterSlash?, hcs.1, List.append_assoc, List.append_assoc,
          dropWhile_append_of_blank hblank fun c hc => (hhead c hc).1]
        split
        case h_1 r hr => exact absurd rfl (hhead '/' (by simp [hr])).2
        case h_2 => rfl
      rw [hslash]
      exact afterOrMark?_eq_some_iff.2 ⟨m, hm, hcs⟩

def Ends (rest : List Char) : Prop := ∀ c ∈ rest.head?, isBlank c ∨ c = '/'

def Unmarked (after? : List Char → Option (List Char)) (t : List Char) : Prop :=
  ∀ s, s <:+ t → s ≠ [] → ∀ rest, Ends rest → after? (s ++ rest) = none

theorem IsPhrase.exists_of_blank_prefix {t : String} {lead more : List Char} (ht : IsPhrase t)
    (hs : s <:+ t.toList) (hne : s ≠ []) (hlead : Blank lead) (h : s ++ rest = lead ++ more) :
    ∃ c s', s = lead ++ c :: s' ∧ more = c :: s' ++ rest := by
  -- White space at the end of a phrase would not be trimmed, so white space inside it stops.
  have hlast : ¬ Blank s := by
    intro hblank
    obtain ⟨u, hu⟩ := hs
    have hc : s.getLast hne ∈ t.toList.getLast? := by
      rw [← hu, List.getLast?_append_of_ne_nil _ hne, List.getLast?_eq_some_getLast hne]
      rfl
    have hword := ht.getLast?_toList _ hc
    rw [hblank _ (List.getLast_mem hne)] at hword
    cases hword
  rcases List.append_eq_append_iff.1 h with ⟨s', rfl, -⟩ | ⟨s', rfl, hmore⟩
  · exact absurd (fun c hc => hlead c (List.mem_append_left _ hc)) hlast
  · cases s' with
    | nil => exact absurd (by simpa using hlead) hlast
    | cons c s' => exact ⟨c, s', rfl, hmore⟩

theorem IsPhrase.unmarked_or {t : String} (ht : IsPhrase t) : Unmarked afterOrMark? t.toList := by
  intro s hs hne rest hrest
  rw [Option.eq_none_iff_forall_ne_some]
  intro r hr
  obtain ⟨m, hm, heq, -⟩ := afterOrMark?_eq_some_iff.1 hr
  obtain ⟨hlead, hblank, hw, htrail, hblank'⟩ := hm
  rename_i lead w trail
  rw [List.append_assoc, List.append_assoc] at heq
  obtain ⟨x, s', rfl, hmore⟩ := ht.exists_of_blank_prefix hs hne hblank heq
  obtain ⟨a, b, rfl, ha, hb⟩ := isOrWord_iff.1 hw
  obtain ⟨u, hu⟩ := hs
  cases s' with
  | nil =>
    -- The mark would begin with the last letter of the phrase.
    obtain ⟨rfl, rfl⟩ : a = x ∧ rest = b :: (trail ++ r) := by simpa [eq_comm] using hmore
    have hend := hrest b rfl
    rcases hb with rfl | rfl <;> revert hend <;> decide
  | cons y s' =>
    obtain ⟨rfl, rfl, htail⟩ : a = x ∧ b = y ∧ trail ++ r = s' ++ rest := by simpa using hmore
    have hmem : [a, b] ∈ wordChars t.toList := by
      rw [← hu, show u ++ (lead ++ a :: b :: s') = (u ++ lead) ++ [a, b] ++ s' by simp]
      refine mem_pieces_of_delimited ?_ ?_ (by simp) fun c hc => not_isBlank_of_isOrWord hw hc
      · intro c hc
        rw [List.getLast?_append_of_ne_nil _ hlead] at hc
        exact hblank c (List.mem_of_mem_getLast? hc)
      · intro c hc
        obtain ⟨d, trail, rfl⟩ := List.exists_cons_of_ne_nil htrail
        cases s' with
        | nil => cases hc
        | cons e s' =>
          obtain ⟨rfl, -⟩ : d = e ∧ _ := by simpa using htail
          cases hc
          exact hblank' _ List.mem_cons_self
    rw [ht.not_isOrWord hmem] at hw
    cases hw

theorem IsPhrase.unmarked_slashOr {t : String} (ht : IsPhrase t) (hslash : '/' ∉ t.toList) :
    Unmarked afterSlashOrMark? t.toList := by
  intro s hs hne rest hrest
  have hnone : afterSlash? (s ++ rest) = none := by
    rw [Option.eq_none_iff_forall_ne_some]
    intro r hr
    obtain ⟨m, hm, heq, -⟩ := afterSlash?_eq_some_iff.1 hr
    obtain ⟨hblank, -⟩ := hm
    rw [List.append_assoc, List.cons_append] at heq
    obtain ⟨x, s', rfl, hmore⟩ := ht.exists_of_blank_prefix hs hne hblank heq
    rw [List.cons_append, List.cons.injEq] at hmore
    refine hslash (hs.subset ?_)
    rw [hmore.1]
    exact List.mem_append_right _ List.mem_cons_self
  rw [afterSlashOrMark?, hnone]
  exact ht.unmarked_or s hs hne rest hrest

/-- `after?` finds the marks, and what it finds takes all white space along. -/
structure Recognizes (after? : List Char → Option (List Char)) (Mark : List Char → Prop) : Prop where
  eq_some_iff : ∀ cs rest, after? cs = some rest ↔
    ∃ m, Mark m ∧ cs = m ++ rest ∧ ∀ c ∈ rest.head?, isBlank c = false
  ne_nil : ∀ m, Mark m → m ≠ []
  ends : ∀ m, Mark m → Ends m

theorem OrMark.ne_nil (h : OrMark m) : m ≠ [] := by
  obtain ⟨hne, -, -, -, -⟩ := h
  simp [hne]

theorem OrMark.ends (h : OrMark m) : Ends m := by
  obtain ⟨hne, hblank, -, -, -⟩ := h
  intro c hc
  rw [List.append_assoc, List.head?_append_of_ne_nil _ hne] at hc
  exact .inl (hblank c (List.mem_of_mem_head? hc))

theorem SlashMark.ends (h : SlashMark m) : Ends m := by
  obtain ⟨hblank, -⟩ := h
  rename_i lead trail
  intro c hc
  cases lead with
  | nil => exact .inr (Option.some.inj hc).symm
  | cons d lead =>
    cases hc
    exact .inl (hblank _ List.mem_cons_self)

theorem recognizes_or : Recognizes afterOrMark? OrMark where
  eq_some_iff _ _ := afterOrMark?_eq_some_iff
  ne_nil _ := OrMark.ne_nil
  ends _ := OrMark.ends

theorem recognizes_slashOr : Recognizes afterSlashOrMark? fun m => SlashMark m ∨ OrMark m where
  eq_some_iff _ _ := afterSlashOrMark?_eq_some_iff
  ne_nil m hm := by
    rcases hm with ⟨-, -⟩ | hm
    · simp
    · exact hm.ne_nil
  ends _ hm := hm.elim SlashMark.ends OrMark.ends

section Splitting

variable {after? : List Char → Option (List Char)} {Mark : List Char → Prop} {ts : List String}
  {text : List Char} {fuel : Nat}

theorem splitWith_append {ws : List (List Char)}
    (ht : ∀ s, s <:+ t → s ≠ [] → after? (s ++ rest) = none)
    (hrest : ∀ fuel, rest.length ≤ fuel → splitWith after? fuel rest = w :: ws)
    (hfuel : (t ++ rest).length ≤ fuel) : splitWith after? fuel (t ++ rest) = (t ++ w) :: ws := by
  induction t generalizing fuel with
  | nil => exact hrest fuel hfuel
  | cons c t ih =>
    obtain ⟨fuel, rfl⟩ : ∃ k, fuel = k + 1 :=
      Nat.exists_eq_add_of_le' (Nat.le_trans (Nat.succ_le_succ (Nat.zero_le _)) hfuel)
    have hnone : after? (c :: (t ++ rest)) = none := ht (c :: t) List.suffix_rfl (List.cons_ne_nil c t)
    have htail := ih (fun s hs => ht s (hs.trans (List.suffix_cons c t))) (Nat.le_of_succ_le_succ hfuel)
    rw [List.cons_append, splitWith, hnone, htail]
    rfl

theorem Joined.head? (h : Joined Mark ts text) (hts : ∀ t ∈ ts, IsPhrase t) :
    ∀ c ∈ text.head?, isBlank c = false := by
  cases h with
  | single t => exact (hts t List.mem_cons_self).head?_toList
  | @cons t ts m rest hm hrest =>
    have ht := hts t List.mem_cons_self
    rw [List.append_assoc, List.head?_append_of_ne_nil _ ht.toList_ne_nil]
    exact ht.head?_toList

theorem Joined.getLast? (h : Joined Mark ts text) (hts : ∀ t ∈ ts, IsPhrase t) :
    text ≠ [] ∧ ∀ c ∈ text.getLast?, isBlank c = false := by
  induction h with
  | single t =>
    have ht := hts t List.mem_cons_self
    exact ⟨ht.toList_ne_nil, ht.getLast?_toList⟩
  | cons hm hrest ih =>
    obtain ⟨hne, hlast⟩ := ih fun t ht => hts t (List.mem_cons_of_mem _ ht)
    rw [List.getLast?_append_of_ne_nil _ hne]
    exact ⟨by simp [hne], hlast⟩

theorem Joined.trimChars_eq (h : Joined Mark ts text) (hts : ∀ t ∈ ts, IsPhrase t) :
    trimChars text = text :=
  trimBy_eq_self_iff.2 ⟨h.head? hts, (h.getLast? hts).2⟩

theorem splitWith_joined (hmarks : Recognizes after? Mark) (h : Joined Mark ts text)
    (hts : ∀ t ∈ ts, IsPhrase t ∧ Unmarked after? t.toList) (hfuel : text.length ≤ fuel) :
    splitWith after? fuel text = ts.map String.toList := by
  induction h generalizing fuel with
  | single t =>
    have hnil : ∀ fuel, ([] : List Char).length ≤ fuel → splitWith after? fuel [] = [[]] := by
      intro fuel _
      cases fuel <;> rfl
    have hend : Ends [] := fun c hc => by cases hc
    have hsplit := splitWith_append (fun s hs hne => (hts t List.mem_cons_self).2 s hs hne [] hend) hnil
      (by simpa using hfuel)
    simpa using hsplit
  | @cons t ts m rest hm hrest ih =>
    obtain ⟨c, m', rfl⟩ := List.exists_cons_of_ne_nil (hmarks.ne_nil m hm)
    have hts' : ∀ t ∈ ts, IsPhrase t ∧ Unmarked after? t.toList :=
      fun t ht => hts t (List.mem_cons_of_mem _ ht)
    have hmark : after? (c :: (m' ++ rest)) = some rest :=
      (hmarks.eq_some_iff _ _).2 ⟨_, hm, rfl, hrest.head? fun t ht => (hts' t ht).1⟩
    have hbehind : ∀ fuel, (c :: m' ++ rest).length ≤ fuel →
        splitWith after? fuel (c :: m' ++ rest) = [] :: ts.map String.toList := by
      intro fuel hfuel
      rw [List.cons_append, List.length_cons, List.length_append] at hfuel
      obtain ⟨fuel, rfl⟩ : ∃ k, fuel = k + 1 := Nat.exists_eq_add_of_le' (by omega)
      rw [List.cons_append, splitWith, hmark]
      simp only [ih hts' (show rest.length ≤ fuel by omega)]
    have hend : Ends (c :: m' ++ rest) := fun d hd => hmarks.ends _ hm d hd
    rw [List.append_assoc] at hfuel ⊢
    have hsplit := splitWith_append
      (fun s hs hne => (hts t List.mem_cons_self).2 s hs hne _ hend) hbehind hfuel
    simpa using hsplit

end Splitting

theorem splitOr_joined {ts : List String} {text : List Char} (h : Joined OrMark ts text)
    (hts : ∀ t ∈ ts, IsPhrase t) : splitOr text = ts.map String.toList :=
  splitWith_joined recognizes_or h (fun t ht => ⟨hts t ht, (hts t ht).unmarked_or⟩) (Nat.le_refl _)

theorem splitSlashOr_joined {ts : List String} {text : List Char}
    (h : Joined (fun m => SlashMark m ∨ OrMark m) ts text)
    (hts : ∀ t ∈ ts, IsPhrase t ∧ '/' ∉ t.toList) : splitSlashOr text = ts.map String.toList :=
  splitWith_joined recognizes_slashOr h
    (fun t ht => ⟨(hts t ht).1, (hts t ht).1.unmarked_slashOr (hts t ht).2⟩) (Nat.le_refl _)

theorem cleanTerms_toList {ts : List String} (hts : ∀ t ∈ ts, trimChars t.toList = t.toList ∧ t ≠ "") :
    cleanTerms (ts.map String.toList) = ts.map upper := by
  rw [cleanTerms, List.filterMap_map, ← List.filterMap_eq_map]
  refine List.filterMap_congr ?_
  intro t ht
  obtain ⟨htrim, hne⟩ := hts t ht
  have hupper : upperChars t.toList ≠ [] := mt upperChars_eq_nil.1 (mt String.toList_eq_nil_iff.1 hne)
  rw [Function.comp_apply, htrim]
  split
  case h_1 hnil => exact absurd hnil hupper
  case h_2 => rfl

theorem cleanTerms_of_isPhrase {ts : List String} (hts : ∀ t ∈ ts, IsPhrase t) :
    cleanTerms (ts.map String.toList) = ts.map upper :=
  cleanTerms_toList fun t ht => ⟨(hts t ht).trimChars_toList, (hts t ht).ne_empty⟩

end Kitting.Formula
