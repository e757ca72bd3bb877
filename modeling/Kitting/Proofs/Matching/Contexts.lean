import Kitting.Matching
import Kitting.Proofs.Evaluation
import Kitting.Proofs.Text.UpperCase

namespace Kitting

open Text

namespace Context

variable {texts : List String} {text word term entry : String}

theorem entries_append (texts texts' : List String) :
    entries (texts ++ texts') = entries texts ++ entries texts' := by
  simp [entries]

theorem mem_entries : entry ∈ entries texts ↔ ∃ text ∈ texts, entry = upper text ∧ isVacant entry = false := by
  simp only [entries, List.mem_filter, List.mem_map, Bool.not_eq_true']
  constructor
  · rintro ⟨⟨text, htext, rfl⟩, hvacant⟩
    exact ⟨text, htext, rfl, hvacant⟩
  · rintro ⟨text, htext, rfl, hvacant⟩
    exact ⟨⟨text, htext, rfl⟩, hvacant⟩

theorem mem_entries_iff_exists : entry ∈ entries texts ↔ ∃ text ∈ texts, entry ∈ entries [text] := by
  simp [mem_entries]

theorem mem_tokens_ofTexts :
    word ∈ (ofTexts texts).tokens ↔ ∃ text ∈ texts, word ∈ (ofTexts [text]).tokens := by
  simp only [ofTexts, List.mem_eraseDups, List.mem_flatMap]
  constructor
  · rintro ⟨entry, hentry, hword⟩
    obtain ⟨text, htext, hentry⟩ := mem_entries_iff_exists.1 hentry
    exact ⟨text, htext, entry, hentry, hword⟩
  · rintro ⟨text, htext, entry, hentry, hword⟩
    exact ⟨entry, mem_entries_iff_exists.2 ⟨text, htext, hentry⟩, hword⟩

theorem toList_raw_ofTexts (texts : List String) : (ofTexts texts).raw.toList =
    ((entries texts).map String.toList).flatMap ([' ', '|', ' '] ++ ·) := by
  rw [ofTexts, String.toList_join, List.flatMap_map, List.flatMap_map]
  simp only [String.toList_append]
  rfl

theorem upper_raw_ofTexts (texts : List String) : upper (ofTexts texts).raw = (ofTexts texts).raw := by
  rw [← String.toList_inj, toList_upper]
  refine upperChars_eq_self ?_
  simp only [toList_raw_ofTexts, List.mem_flatMap, List.mem_map, List.mem_append]
  rintro c ⟨_, ⟨entry, hentry, rfl⟩, hc | hc⟩
  · simp only [List.mem_cons, List.not_mem_nil, or_false] at hc
    rcases hc with rfl | rfl | rfl <;> rfl
  · obtain ⟨text, -, rfl, -⟩ := mem_entries.1 hentry
    rw [toList_upper] at hc
    obtain ⟨d, -, hc⟩ := mem_upperChars.1 hc
    exact upperChar_of_mem hc

theorem raw_infix_raw_ofTexts (h : text ∈ texts) :
    (ofTexts [text]).raw.toList <:+: (ofTexts texts).raw.toList := by
  obtain ⟨before, after, rfl⟩ := List.append_of_mem h
  rw [List.append_cons, toList_raw_ofTexts, toList_raw_ofTexts, entries_append, entries_append, List.map_append,
    List.map_append, List.flatMap_append, List.flatMap_append]
  exact List.infix_append _ _ _

theorem findsLoosely_ofTexts (h : text ∈ texts) (hfound : (ofTexts [text]).findsLoosely term) :
    (ofTexts texts).findsLoosely term := by
  refine findsLoosely_mono (fun word hword => mem_tokens_ofTexts.2 ⟨text, h, hword⟩) ?_ hfound
  rw [upper_raw_ofTexts, upper_raw_ofTexts]
  exact raw_infix_raw_ofTexts h

/-- A term that two entries cannot make together. -/
structure Undivided (term : String) : Prop where
  trimmed : trim term = term
  barFree : '|' ∉ term.toList

theorem Undivided.infix_raw_iff (h : Undivided term) (hne : upper term ≠ "") :
    (upper term).toList <:+: (ofTexts texts).raw.toList ↔
      ∃ entry ∈ entries texts, (upper term).toList <:+: entry.toList := by
  have hne : (upper term).toList ≠ [] := mt String.toList_eq_nil_iff.1 hne
  have hbar : '|' ∉ (upper term).toList := by
    rw [toList_upper]
    intro hmem
    obtain ⟨c, hc, hmem⟩ := mem_upperChars.1 hmem
    exact h.barFree (eq_of_mem_upperChar hmem (by decide) (by decide) ▸ hc)
  have htrim := trimChars_upperChars (trim_eq_self_iff.1 h.trimmed)
  obtain ⟨hhead, hlast⟩ := trimBy_eq_self_iff.1 htrim
  have hspace {c : Char} (hc : isBlank c = false) : c ≠ ' ' := by
    rintro rfl
    cases hc
  rw [← toList_upper] at hhead hlast
  rw [toList_raw_ofTexts, ← List.nil_append (List.flatMap _ _),
    infix_append_flatMap_iff hbar hne (fun c hc => hspace (hhead c hc)) fun c hc => hspace (hlast c hc),
    List.infix_nil, or_iff_right hne]
  simp only [List.mem_map, exists_exists_and_eq_and]

theorem Undivided.gathers (h : Undivided term) (texts : List String) :
    (ofTexts texts).Gathers (· ∈ texts) (fun text => ofTexts [text]) term where
  tokens _ := mem_tokens_ofTexts
  raw hne := by
    simp only [upper_raw_ofTexts, h.infix_raw_iff hne]
    constructor
    · rintro ⟨entry, hentry, hinside⟩
      obtain ⟨text, htext, hentry⟩ := mem_entries_iff_exists.1 hentry
      exact ⟨text, htext, entry, hentry, hinside⟩
    · rintro ⟨text, htext, entry, hentry, hinside⟩
      exact ⟨entry, mem_entries_iff_exists.2 ⟨text, htext, hentry⟩, hinside⟩

end Context

end Kitting
