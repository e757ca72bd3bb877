import Kitting.Matching
import Kitting.Proofs.FirstOccurrence
import Kitting.Proofs.Text.Occurrence
import Kitting.Proofs.Text.Words

namespace Kitting

open Text

variable {source word : String} {entry : String × String} {g g' : Glossary} {p : Part}

namespace Token

def keywords (s : String) : List String := (split s).filter fun t => isLong t && !stopWords.contains t

theorem isBreak_space : isBreak ' ' := by decide

theorem split_join (s : String) (texts : List String) :
    split (s ++ String.join (texts.map (" " ++ ·))) = split s ++ texts.flatMap split := by
  have hchars : (s ++ String.join (texts.map (" " ++ ·))).toList =
      s.toList ++ (texts.map String.toList).flatMap (' ' :: ·) := by
    rw [String.toList_append, String.toList_join, List.flatMap_map, List.flatMap_map]
    simp only [String.toList_append]
    rfl
  rw [split, hchars, pieces_append_flatMap isBreak_space, List.map_append, List.flatMap_map, List.map_flatMap]
  rfl

theorem keywords_join (s : String) (texts : List String) :
    keywords (s ++ String.join (texts.map (" " ++ ·))) = keywords s ++ texts.flatMap keywords := by
  rw [keywords, split_join, List.filter_append, List.filter_flatMap]
  rfl

end Token

namespace Glossary

def Applies (source : String) (entry : String × String) : Prop :=
  upper (trim entry.1) ≠ "" ∧ (upper (trim entry.1)).toList <:+: source.toList

instance (source : String) : DecidablePred (Applies source) := fun _ => inferInstanceAs (Decidable (_ ∧ _))

theorem mem_expansions :
    word ∈ g.expansions source ↔ ∃ entry ∈ g, Applies source entry ∧ upper (trim entry.2) = word := by
  rw [expansions, List.mem_filterMap]
  refine exists_congr fun entry => and_congr_right fun _ => ?_
  simp only [Option.ite_none_right_eq_some, Bool.and_eq_true, Bool.not_eq_true', String.isEmpty_eq_false_iff,
    contains_iff_infix, Option.some.injEq, Applies]

end Glossary

namespace Part

theorem tokens_indexed (g : Glossary) (p : Part) : (p.indexed g).tokens = p.tokens g := by rw [indexed]

theorem tokens_eq (g : Glossary) (p : Part) : p.tokens g =
    (Token.keywords p.describing ++ (g.expansions p.describing).flatMap Token.keywords).eraseDups := by
  rw [← Token.keywords_join]
  rfl

theorem mem_tokens : word ∈ p.tokens g ↔ word ∈ Token.keywords p.describing ∨
    ∃ entry ∈ g, Glossary.Applies p.describing entry ∧ word ∈ Token.keywords (upper (trim entry.2)) := by
  simp only [tokens_eq, List.mem_eraseDups, List.mem_append, List.mem_flatMap, Glossary.mem_expansions]
  refine or_congr_right ?_
  constructor
  · rintro ⟨_, ⟨entry, hentry, happlies, rfl⟩, hword⟩
    exact ⟨entry, hentry, happlies, hword⟩
  · rintro ⟨entry, hentry, happlies, hword⟩
    exact ⟨_, ⟨entry, hentry, happlies, rfl⟩, hword⟩

theorem nodup_tokens (g : Glossary) (p : Part) : (p.tokens g).Nodup := by
  rw [tokens_eq]
  exact nodup_eraseDups _

theorem tokens_mono (h : g ⊆ g') : p.tokens g ⊆ p.tokens g' := by
  intro word hword
  rw [mem_tokens] at hword ⊢
  refine hword.imp_right ?_
  rintro ⟨entry, hentry, hrest⟩
  exact ⟨entry, h hentry, hrest⟩

theorem tokens_perm (h : g.Perm g') : (p.tokens g).Perm (p.tokens g') := by
  refine (List.perm_ext_iff_of_nodup (nodup_tokens g p) (nodup_tokens g' p)).2 ?_
  exact fun word => ⟨fun hword => tokens_mono h.subset hword, fun hword => tokens_mono h.symm.subset hword⟩

end Part

theorem Matching.hits_mono (words : List String) {ip ip' : IndexedPart} (h : ip.tokens ⊆ ip'.tokens) :
    hits words ip ≤ hits words ip' := by
  refine List.countP_mono_left ?_
  intro word _ hword
  rw [List.contains_iff_mem] at hword ⊢
  exact h hword

/-- The words of a part, by its text and the glossary; the entries may stand in any order, and more of them never make
a part share less with a line. -/
theorem Part.tokens_glossary (g : Glossary) (p : Part) :
    (∀ word, word ∈ p.tokens g ↔ word ∈ Token.keywords p.describing ∨
      ∃ entry ∈ g, Glossary.Applies p.describing entry ∧ word ∈ Token.keywords (upper (trim entry.2))) ∧
    (∀ g', g.Perm g' → (p.tokens g).Perm (p.tokens g')) ∧
    ∀ g', g ⊆ g' → p.tokens g ⊆ p.tokens g' ∧
      ∀ line : OrderLine, Matching.hits (Token.significant line.query) (p.indexed g) ≤
        Matching.hits (Token.significant line.query) (p.indexed g') := by
  refine ⟨fun _ => mem_tokens, fun _ => tokens_perm, ?_⟩
  intro g' h
  refine ⟨tokens_mono h, fun line => Matching.hits_mono _ ?_⟩
  rw [tokens_indexed, tokens_indexed]
  exact tokens_mono h

def ropsCab : Part := { id := "cab", name := "Cab", remarks := "with ROPS" }

def cabGlossary : Glossary := [(" rops", "roll-over protective structure "), ("PROT", "guard frame"), ("", "option")]

theorem Part.tokens_glossary_ropsCab :
    cabGlossary.Perm cabGlossary.reverse ∧ cabGlossary ⊆ cabGlossary ++ [("cab", "operator station")] ∧
      "STRUCTURE" ∈ ropsCab.tokens cabGlossary ∧ "FRAME" ∉ ropsCab.tokens cabGlossary ∧
      "STRUCTURE" ∈ ropsCab.tokens cabGlossary.reverse ∧
      "STRUCTURE" ∈ ropsCab.tokens (cabGlossary ++ [("cab", "operator station")]) := by
  obtain ⟨hmem, hperm, hmono⟩ := tokens_glossary cabGlossary ropsCab
  have hreverse : cabGlossary.Perm cabGlossary.reverse := (List.reverse_perm cabGlossary).symm
  have hmore : cabGlossary ⊆ cabGlossary ++ [("cab", "operator station")] := List.subset_append_left _ _
  have hword : "STRUCTURE" ∈ ropsCab.tokens cabGlossary := (hmem "STRUCTURE").2 (by decide +kernel)
  have hnot : "FRAME" ∉ ropsCab.tokens cabGlossary := mt (hmem "FRAME").1 (by decide +kernel)
  exact ⟨hreverse, hmore, hword, hnot, (hperm _ hreverse).subset hword, (hmono _ hmore).1 hword⟩

end Kitting
