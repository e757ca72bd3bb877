import Kitting.Proofs.Formula.Terms
import Kitting.Proofs.Matching.Contexts
import Kitting.Proofs.Solver.Words
import Kitting.Proofs.Text.Words

namespace Kitting

open Text

namespace Context

variable {ctx : Context} {term word : String}

/-- The contexts in which conditions are evaluated: those of lines and orders, and those of the passes of a task. -/
inductive Built : Context → Prop
  | texts (texts : List String) : Built (ofTexts texts)
  | pass (t : Task) (done : List String) : Built (t.context done)

def Holds (ctx : Context) (term : String) : Prop := term.toList <:+: ctx.raw.toList

def Touches (ctx : Context) (term : String) : Prop :=
  ctx.Holds term ∨ ∃ word ∈ ctx.tokens, word ≠ "" ∧ word.toList <:+: term.toList

/-- The text is in upper case, and each word stands in it. -/
structure Contained (ctx : Context) : Prop where
  upper : upper ctx.raw = ctx.raw
  words : ∀ word ∈ ctx.tokens, ctx.Holds word

theorem contained_ofTexts (texts : List String) : (ofTexts texts).Contained where
  upper := upper_raw_ofTexts texts
  words word hword := by
    rw [ofTexts, List.mem_eraseDups, List.mem_flatMap] at hword
    obtain ⟨entry, hentry, hword⟩ := hword
    have hinside : word.toList <:+: entry.toList := by
      rcases List.mem_cons.1 hword with rfl | hword
      · exact List.infix_rfl
      · obtain ⟨piece, hpiece, rfl⟩ := List.mem_map.1 (List.mem_of_mem_filter hword)
        rw [String.toList_ofList]
        exact infix_of_mem_pieces hpiece
    rw [Holds, toList_raw_ofTexts, List.flatMap_def]
    refine (hinside.trans (List.suffix_append [' ', '|', ' '] _).isInfix).trans (List.infix_of_mem_flatten ?_)
    exact List.mem_map_of_mem (List.mem_map_of_mem hentry)

end Context

theorem Part.mem_contextTokens {p : Part} {word : String} (h : word ∈ p.contextTokens) :
    word.toList ∈ pieces isContextBreak p.contextText.toList := by
  rw [contextTokens, List.mem_eraseDups, List.mem_map] at h
  obtain ⟨piece, hpiece, rfl⟩ := h
  rw [String.toList_ofList]
  exact List.mem_of_mem_filter hpiece

namespace Task

variable {t : Task} {done : List String}

theorem upper_raw_context (t : Task) (done : List String) : upper (t.context done).raw = (t.context done).raw := by
  have hpart (p : Part) : upper p.contextText = p.contextText := upper_upper _
  rw [context, upper_intercalate]
  refine List.forall_mem_cons.2 ⟨?_, List.forall_mem_map.2 fun p _ => hpart p⟩
  exact upper_intercalate (List.forall_mem_map.2 fun p _ => hpart p)

theorem contained_context (t : Task) (done : List String) : (t.context done).Contained where
  upper := upper_raw_context t done
  words word hword := by
    obtain ⟨p, hp, hword⟩ := mem_tokens_context.1 hword
    have hpiece := Part.mem_contextTokens hword
    obtain ⟨hne, hunbroken⟩ := of_mem_pieces hpiece
    have hspace : ' ' ∉ word.toList := fun hmem => absurd (hunbroken ' ' hmem) (by decide)
    have hfound := (infix_raw_context_iff hspace hne).2 ⟨p, hp, by
      rw [Part.contextText, upper_upper]
      exact infix_of_mem_pieces hpiece⟩
    rwa [upper_raw_context] at hfound

end Task

namespace Context

variable {ctx : Context} {term : String}

theorem Built.contained (h : ctx.Built) : ctx.Contained := by
  cases h with
  | texts texts => exact contained_ofTexts texts
  | pass t done => exact t.contained_context done

namespace Contained

theorem finds_iff (h : ctx.Contained) (hterm : Condition.IsTerm term) : ctx.finds term ↔ ctx.Holds term := by
  rw [Context.finds_iff, h.upper, hterm.upper]
  constructor
  · rintro ⟨-, hword | hinside⟩
    · exact h.words term hword
    · exact hinside
  · exact fun hinside => ⟨hterm.ne_empty, .inr hinside⟩

theorem findsLoosely_iff (h : ctx.Contained) (hterm : Condition.IsTerm term) :
    ctx.findsLoosely term ↔ ctx.Touches term := by
  rw [Context.findsLoosely_iff, h.finds_iff hterm, hterm.upper]
  constructor
  · rintro (hinside | ⟨-, word, hword, hne, hshared | hshared⟩)
    · exact .inl hinside
    · exact .inr ⟨word, hword, hne, hshared⟩
    · exact .inl (hshared.trans (h.words word hword))
  · rintro (hinside | ⟨word, hword, hne, hshared⟩)
    · exact .inl hinside
    · exact .inr ⟨hterm.ne_empty, word, hword, hne, .inl hshared⟩

end Contained

end Context

/-- In every context that is built, the words stand in the text and the text is in upper case. So an exclusion is found
exactly if it stands in the text, and any other term if it stands there or a word stands in it. This goes for every
condition that is read from a formula or a record. -/
theorem Condition.holds_built {ctx : Context} (h : ctx.Built) :
    ((∀ word ∈ ctx.tokens, ctx.Holds word) ∧ upper ctx.raw = ctx.raw) ∧
      (∀ c : Condition, c.Proper →
        (∀ term ∈ c.excludes, ctx.finds term ↔ ctx.Holds (upper term)) ∧
          (∀ term ∈ c.includes ++ c.groups.flatten, ctx.findsLoosely term ↔ ctx.Touches term) ∧
          (c.holds ctx ↔ c.isEmpty = false ∧ (∀ term ∈ c.includes, ctx.Touches term) ∧
            (∀ term ∈ c.excludes, ¬ctx.Holds (upper term)) ∧
            ∀ group ∈ c.groups, ∃ term ∈ group, ctx.Touches term)) ∧
      (∀ dialect formula, (Formula.parse dialect formula).Proper) ∧
      ∀ v c, reading.run v = .ok c → c.Proper := by
  have hcontained := h.contained
  refine ⟨⟨hcontained.words, hcontained.upper⟩, fun c hproper => ?_, Formula.proper_parse,
    fun v c hread => proper_of_reading hread⟩
  obtain ⟨hincludes, hexcludes, hgroups⟩ := proper_iff.1 hproper
  have hexcluded : ∀ term ∈ c.excludes, ctx.finds term ↔ ctx.Holds (upper term) := by
    intro term hterm
    rw [(hexcludes term hterm).upper]
    exact hcontained.finds_iff (hexcludes term hterm)
  have hgrouped (group) (hgroup : group ∈ c.groups) (term) (hterm : term ∈ group) :
      ctx.findsLoosely term ↔ ctx.Touches term :=
    hcontained.findsLoosely_iff (hgroups group hgroup term hterm)
  refine ⟨hexcluded, fun term hterm => ?_, ?_⟩
  · rcases List.mem_append.1 hterm with hterm | hterm
    · exact hcontained.findsLoosely_iff (hincludes term hterm)
    · obtain ⟨group, hgroup, hterm⟩ := List.mem_flatten.1 hterm
      exact hgrouped group hgroup term hterm
  · rw [holds_iff]
    refine and_congr_right fun _ => and_congr ?_ (and_congr ?_ ?_)
    · exact forall₂_congr fun term hterm => hcontained.findsLoosely_iff (hincludes term hterm)
    · exact forall₂_congr fun term hterm => not_congr (hexcluded term hterm)
    · exact forall₂_congr fun group hgroup => exists_congr fun term => and_congr_right (hgrouped group hgroup term)

def streetContext : Context := .ofTexts ["Straßencab heated", " ", "winch"]

def streetFormula : Condition := Formula.parse .catalog "(Straßencab, heated/Winches) [seat] winch"

theorem Condition.holds_built_streetContext :
    streetContext.Built ∧ streetFormula.Proper ∧
      streetContext.Touches "WINCHES" ∧ ¬streetContext.Holds (upper "SEAT") ∧ streetFormula.holds streetContext := by
  have hbuilt : streetContext.Built := .texts _
  obtain ⟨-, hevaluate, hparse, -⟩ := holds_built hbuilt
  have hproper : streetFormula.Proper := hparse .catalog _
  obtain ⟨hexcluded, htouched, -⟩ := hevaluate streetFormula hproper
  refine ⟨hbuilt, hproper, ?_, ?_, by decide +kernel⟩
  · exact (htouched "WINCHES" (by decide +kernel)).1 (by decide +kernel)
  · exact (hexcluded "SEAT" (by decide +kernel)).not.1 (by decide +kernel)

end Kitting
