import Kitting.Text.Case
import Kitting.Text.Search
import Mathlib.Data.List.Infix

namespace Kitting.Text

variable {α : Type} {c : α} {l as bs : List α}

theorem contains_iff_infix {s pat : String} : contains s pat ↔ pat.toList <:+: s.toList :=
  occursIn_iff_infix

theorem infix_append_cons_iff (hc : c ∉ l) : l <:+: as ++ c :: bs ↔ l <:+: as ∨ l <:+: bs := by
  constructor
  · intro h
    rcases List.infix_append_iff.1 h with h | h | ⟨l₁, l₂, rfl, h₁, h₂⟩
    · exact .inl h
    · rcases List.infix_cons_iff.1 h with h | h
      · cases l with
        | nil => exact .inl List.nil_infix
        | cons a l =>
          rw [List.cons_prefix_cons] at h
          exact absurd (h.1 ▸ List.mem_cons_self) hc
      · exact .inr h
    · cases l₂ with
      | nil => exact .inl (by simpa using h₁.isInfix)
      | cons a l₂ =>
        rw [List.cons_prefix_cons] at h₂
        exact absurd (by simp [h₂.1]) hc
  · rintro (h | h)
    · exact List.infix_append_of_infix_left h
    · exact List.infix_append_of_infix_right (List.infix_cons h)

theorem infix_intercalate_iff (hc : c ∉ l) (hl : l ≠ []) (pieces : List (List α)) :
    l <:+: [c].intercalate pieces ↔ ∃ piece ∈ pieces, l <:+: piece := by
  induction pieces with
  | nil => simpa using hl
  | cons piece rest ih =>
    by_cases hrest : rest = []
    · simp [hrest]
    · rw [List.intercalate_cons_of_ne_nil hrest, List.append_assoc, List.singleton_append,
        infix_append_cons_iff hc, ih]
      simp

section Padded

variable {s : α}

theorem infix_cons_iff_of_head?_ne (hl : l ≠ []) (h : ∀ a ∈ l.head?, a ≠ s) :
    l <:+: s :: as ↔ l <:+: as := by
  rw [List.infix_cons_iff]
  refine or_iff_right ?_
  obtain ⟨a, l, rfl⟩ := List.exists_cons_of_ne_nil hl
  rw [List.cons_prefix_cons]
  exact fun hstart => h a rfl hstart.1

theorem infix_concat_iff_of_getLast?_ne (hl : l ≠ []) (h : ∀ a ∈ l.getLast?, a ≠ s) :
    l <:+: as ++ [s] ↔ l <:+: as := by
  have hlast : ∀ a ∈ l.reverse.head?, a ≠ s := by simpa using h
  rw [← List.reverse_infix, List.reverse_append, List.reverse_singleton, List.singleton_append,
    infix_cons_iff_of_head?_ne (by simpa using hl) hlast, List.reverse_infix]

theorem infix_append_flatMap_iff (hc : c ∉ l) (hl : l ≠ []) (hhead : ∀ a ∈ l.head?, a ≠ s)
    (hlast : ∀ a ∈ l.getLast?, a ≠ s) (pieces : List (List α)) :
    l <:+: as ++ pieces.flatMap ([s, c, s] ++ ·) ↔ l <:+: as ∨ ∃ piece ∈ pieces, l <:+: piece := by
  induction pieces generalizing as with
  | nil => simp
  | cons piece rest ih =>
    have hcut : as ++ (piece :: rest).flatMap ([s, c, s] ++ ·) =
        (as ++ [s]) ++ c :: s :: (piece ++ rest.flatMap ([s, c, s] ++ ·)) := by simp
    rw [hcut, infix_append_cons_iff hc, infix_concat_iff_of_getLast?_ne hl hlast,
      infix_cons_iff_of_head?_ne hl hhead, ih]
    simp

end Padded

theorem upperChars_intercalate (sep : List Char) (pieces : List (List Char)) :
    upperChars (sep.intercalate pieces) = (upperChars sep).intercalate (pieces.map upperChars) := by
  induction pieces with
  | nil => rfl
  | cons piece rest ih =>
    by_cases hrest : rest = []
    · simp [hrest]
    · rw [List.intercalate_cons_of_ne_nil hrest, List.map_cons,
        List.intercalate_cons_of_ne_nil (by simpa using hrest), upperChars_append, upperChars_append, ih]

theorem upper_intercalate {texts : List String} (h : ∀ s ∈ texts, upper s = s) :
    upper (" ".intercalate texts) = " ".intercalate texts := by
  have hchars : (texts.map String.toList).map upperChars = texts.map String.toList := by
    rw [List.map_map]
    exact List.map_congr_left fun s hs => by rw [Function.comp, ← toList_upper, h s hs]
  rw [← String.toList_inj, toList_upper, String.toList_intercalate, upperChars_intercalate, hchars]
  rfl

theorem infix_upper_intercalate_iff {l : List Char} (hs : ' ' ∉ l) (hl : l ≠ []) (texts : List String) :
    l <:+: (upper (" ".intercalate texts)).toList ↔ ∃ s ∈ texts, l <:+: (upper s).toList := by
  have hupper : (upper (" ".intercalate texts)).toList =
      [' '].intercalate (texts.map fun s => upperChars s.toList) := by
    rw [toList_upper, String.toList_intercalate, upperChars_intercalate, List.map_map]
    rfl
  rw [hupper, infix_intercalate_iff hs hl]
  simp

end Kitting.Text
