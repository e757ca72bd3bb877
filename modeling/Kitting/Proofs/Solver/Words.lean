import Kitting.Proofs.Catalog
import Kitting.Proofs.Evaluation
import Kitting.Solver

namespace Kitting

open Text

def Part.context (p : Part) : Context := ⟨p.contextTokens, p.contextText⟩

-- Not by `rfl`, which would unfold the words of the part.
@[simp] theorem Part.tokens_context (p : Part) : p.context.tokens = p.contextTokens := by
  rw [Part.context]

@[simp] theorem Part.raw_context (p : Part) : p.context.raw = p.contextText := by
  rw [Part.context]

def Condition.SpaceFree (c : Condition) : Prop := ∀ term ∈ c.allTerms, ' ' ∉ (upper term).toList

instance (c : Condition) : Decidable c.SpaceFree := inferInstanceAs (Decidable (∀ _ ∈ _, _))

namespace Task

variable {t t' : Task} {done done' : List String} {p : Part} {c : Condition} {term : String}

def present (t : Task) (done : List String) : List Part := t.seeds ++ done.filterMap (partOf? t.parts)

theorem mem_present (hd : DistinctIds t.parts) : p ∈ t.present done ↔
    p ∈ t.parts ∧ (p.isMandatory ∨ p.id ∈ t.chosen ∨ p.id ∈ done) := by
  simp only [present, seeds, List.mem_append, List.mem_filter, List.mem_filterMap,
    partOf?_eq_some_iff hd, Bool.or_eq_true, List.contains_eq_mem, decide_eq_true_eq]
  constructor
  · rintro (⟨hp, h | h⟩ | ⟨id, hid, hp, rfl⟩)
    · exact ⟨hp, .inl h⟩
    · exact ⟨hp, .inr (.inl h)⟩
    · exact ⟨hp, .inr (.inr hid)⟩
  · rintro ⟨hp, h | h | h⟩
    · exact .inl ⟨hp, .inl h⟩
    · exact .inl ⟨hp, .inr h⟩
    · exact .inr ⟨p.id, h, hp, rfl⟩

theorem mem_tokens_context {word : String} :
    word ∈ (t.context done).tokens ↔ ∃ p ∈ t.present done, word ∈ p.contextTokens := by
  rw [context, List.mem_eraseDups, List.mem_flatMap]
  rfl

theorem infix_raw_context_iff {l : List Char} (hs : ' ' ∉ l) (hl : l ≠ []) :
    l <:+: (upper (t.context done).raw).toList ↔
      ∃ p ∈ t.present done, l <:+: (upper p.contextText).toList := by
  rw [context, infix_upper_intercalate_iff hs hl]
  simp only [List.mem_cons, joined, infix_upper_intercalate_iff hs hl, present,
    List.mem_append, or_and_right, exists_or, exists_eq_left, List.mem_map, exists_exists_and_eq_and]

theorem gathers_context (hs : ' ' ∉ (upper term).toList) :
    (t.context done).Gathers (· ∈ t.present done) Part.context term where
  tokens word := by simp only [mem_tokens_context, Part.tokens_context]
  raw hne := by
    simp only [infix_raw_context_iff hs (mt String.toList_eq_nil_iff.1 hne), Part.raw_context]

theorem finds_context_iff (hs : ' ' ∉ (upper term).toList) :
    (t.context done).finds term ↔ ∃ p ∈ t.present done, p.context.finds term :=
  (gathers_context hs).finds_iff

theorem findsLoosely_context_iff (hs : ' ' ∉ (upper term).toList) :
    (t.context done).findsLoosely term ↔ ∃ p ∈ t.present done, p.context.findsLoosely term :=
  (gathers_context hs).findsLoosely_iff

theorem holds_context_congr (hs : c.SpaceFree)
    (h : ∀ p, p ∈ t.present done ↔ p ∈ t'.present done') :
    c.holds (t.context done) ↔ c.holds (t'.context done') := by
  refine Condition.holds_congr ?_ ?_
  · intro term hterm
    simp only [findsLoosely_context_iff (hs term hterm), h]
  · intro term hterm
    have hmem : term ∈ c.allTerms := by simp [Condition.allTerms, hterm]
    simp only [finds_context_iff (hs term hmem), h]

theorem holds_context_mono (hs : c.SpaceFree) (hx : c.excludes = [])
    (h : ∀ p ∈ t.present done, p ∈ t'.present done') (hc : c.holds (t.context done)) :
    c.holds (t'.context done') := by
  refine Condition.holds_mono hx ?_ hc
  intro term hterm hfound
  obtain ⟨p, hp, hfound⟩ := (findsLoosely_context_iff (hs term hterm)).1 hfound
  exact (findsLoosely_context_iff (hs term hterm)).2 ⟨p, h p hp, hfound⟩

end Task

end Kitting
