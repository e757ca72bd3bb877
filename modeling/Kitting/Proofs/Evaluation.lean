import Kitting.Context
import Kitting.Proofs.Text.Occurrence

namespace Kitting

open Text

namespace Context

variable {ctx : Context} {term : String}

theorem finds_iff : ctx.finds term ↔
    upper term ≠ "" ∧ (upper term ∈ ctx.tokens ∨ (upper term).toList <:+: (upper ctx.raw).toList) := by
  rw [finds, Bool.and_eq_true, Bool.or_eq_true, contains_iff_infix]
  simp

theorem findsLoosely_iff : ctx.findsLoosely term ↔
    ctx.finds term ∨ upper term ≠ "" ∧ ∃ word ∈ ctx.tokens, word ≠ "" ∧
      (word.toList <:+: (upper term).toList ∨ (upper term).toList <:+: word.toList) := by
  rw [findsLoosely, Bool.and_eq_true, Bool.or_eq_true, List.any_eq_true]
  simp only [Bool.and_eq_true, Bool.or_eq_true, contains_iff_infix, Bool.not_eq_true',
    String.isEmpty_eq_false_iff]
  constructor
  · rintro ⟨hne, h | h⟩
    · exact .inl h
    · exact .inr ⟨hne, h⟩
  · rintro (h | ⟨hne, h⟩)
    · exact ⟨(finds_iff.1 h).1, .inl h⟩
    · exact ⟨hne, .inr h⟩

theorem finds_mono {ctx' : Context} (htokens : ctx.tokens ⊆ ctx'.tokens)
    (hraw : (upper ctx.raw).toList <:+: (upper ctx'.raw).toList) (h : ctx.finds term) :
    ctx'.finds term := by
  obtain ⟨hne, hword | hinside⟩ := finds_iff.1 h
  · exact finds_iff.2 ⟨hne, .inl (htokens hword)⟩
  · exact finds_iff.2 ⟨hne, .inr (hinside.trans hraw)⟩

theorem findsLoosely_mono {ctx' : Context} (htokens : ctx.tokens ⊆ ctx'.tokens)
    (hraw : (upper ctx.raw).toList <:+: (upper ctx'.raw).toList) (h : ctx.findsLoosely term) :
    ctx'.findsLoosely term := by
  rcases findsLoosely_iff.1 h with hfound | ⟨hne, word, hword, hshared⟩
  · exact findsLoosely_iff.2 (.inl (finds_mono htokens hraw hfound))
  · exact findsLoosely_iff.2 (.inr ⟨hne, word, htokens hword, hshared⟩)

/-- The context holds what those present hold, no more and no less as far as the term goes. -/
structure Gathers {ι : Type} (ctx : Context) (present : ι → Prop) (own : ι → Context) (term : String) :
    Prop where
  tokens : ∀ word, word ∈ ctx.tokens ↔ ∃ i, present i ∧ word ∈ (own i).tokens
  raw : upper term ≠ "" → ((upper term).toList <:+: (upper ctx.raw).toList ↔
    ∃ i, present i ∧ (upper term).toList <:+: (upper (own i).raw).toList)

section Gathers

variable {ι : Type} {present : ι → Prop} {own : ι → Context}

theorem Gathers.finds_iff (h : ctx.Gathers present own term) :
    ctx.finds term ↔ ∃ i, present i ∧ (own i).finds term := by
  by_cases hne : upper term = ""
  · simp [Context.finds_iff, hne]
  · rw [Context.finds_iff, h.tokens, h.raw hne, ← exists_or]
    simp only [Context.finds_iff, ne_eq, hne, not_false_eq_true, true_and, ← and_or_left]

theorem Gathers.findsLoosely_iff (h : ctx.Gathers present own term) :
    ctx.findsLoosely term ↔ ∃ i, present i ∧ (own i).findsLoosely term := by
  rw [Context.findsLoosely_iff, h.finds_iff]
  simp only [Context.findsLoosely_iff, h.tokens]
  constructor
  · rintro (⟨i, hi, hfound⟩ | ⟨hne, word, ⟨i, hi, hword⟩, hshared⟩)
    · exact ⟨i, hi, .inl hfound⟩
    · exact ⟨i, hi, .inr ⟨hne, word, hword, hshared⟩⟩
  · rintro ⟨i, hi, hfound | ⟨hne, word, hword, hshared⟩⟩
    · exact .inl ⟨i, hi, hfound⟩
    · exact .inr ⟨hne, word, ⟨i, hi, hword⟩, hshared⟩

end Gathers

end Context

namespace Condition

variable {c : Condition} {ctx ctx' : Context}

def allTerms (c : Condition) : List String := c.includes ++ c.excludes ++ c.groups.flatten

theorem holds_iff : c.holds ctx ↔ c.isEmpty = false ∧ (∀ term ∈ c.includes, ctx.findsLoosely term) ∧
    (∀ term ∈ c.excludes, ¬ ctx.finds term) ∧
    ∀ group ∈ c.groups, ∃ term ∈ group, ctx.findsLoosely term := by
  simp [holds, and_assoc]

theorem holds_of_finds (hloose : ∀ term ∈ c.allTerms, ctx.findsLoosely term → ctx'.findsLoosely term)
    (hexcluded : ∀ term ∈ c.excludes, ctx'.finds term → ctx.finds term) (h : c.holds ctx) :
    c.holds ctx' := by
  obtain ⟨hne, hin, hex, hgr⟩ := holds_iff.1 h
  refine holds_iff.2 ⟨hne, ?_, ?_, ?_⟩
  · intro term hterm
    exact hloose term (by simp [allTerms, hterm]) (hin term hterm)
  · intro term hterm hfound
    exact hex term hterm (hexcluded term hterm hfound)
  · intro group hgroup
    obtain ⟨term, hterm, hfound⟩ := hgr group hgroup
    have hmem : term ∈ c.groups.flatten := List.mem_flatten_of_mem hgroup hterm
    exact ⟨term, hterm, hloose term (by simp only [allTerms, List.mem_append, hmem, or_true]) hfound⟩

theorem holds_congr (hloose : ∀ term ∈ c.allTerms, (ctx.findsLoosely term ↔ ctx'.findsLoosely term))
    (hexcluded : ∀ term ∈ c.excludes, (ctx.finds term ↔ ctx'.finds term)) :
    c.holds ctx ↔ c.holds ctx' := by
  constructor
  · exact holds_of_finds (fun term h => (hloose term h).1) fun term h => (hexcluded term h).2
  · exact holds_of_finds (fun term h => (hloose term h).2) fun term h => (hexcluded term h).1

theorem holds_mono (hx : c.excludes = [])
    (hloose : ∀ term ∈ c.allTerms, ctx.findsLoosely term → ctx'.findsLoosely term) (h : c.holds ctx) :
    c.holds ctx' := by
  refine holds_of_finds hloose ?_ h
  rw [hx]
  simp

end Condition

end Kitting
