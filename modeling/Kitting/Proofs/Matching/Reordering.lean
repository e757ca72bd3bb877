import Kitting.Proofs.Formula.Terms
import Kitting.Proofs.Matching.Contexts
import Kitting.Proofs.Matching.Order

namespace Kitting

open Text

variable {c : Condition} {lines lines' : List OrderLine}

namespace Condition

def BarFree (c : Condition) : Prop := ∀ term ∈ c.allTerms, '|' ∉ term.toList

instance (c : Condition) : Decidable c.BarFree := inferInstanceAs (Decidable (∀ _ ∈ _, _))

end Condition

theorem Order.holds_context_perm (ht : c.Trimmed) (hb : c.BarFree) (hp : lines.Perm lines') :
    c.holds (Order.context lines) ↔ c.holds (Order.context lines') := by
  have hqueries (text : String) : text ∈ lines.map OrderLine.query ↔ text ∈ lines'.map OrderLine.query :=
    (hp.map _).mem_iff
  have hundivided {term : String} (hterm : term ∈ c.allTerms) : Context.Undivided term :=
    ⟨ht term hterm, hb term hterm⟩
  refine Condition.holds_congr ?_ ?_
  · intro term hterm
    have hgathers := (hundivided hterm).gathers
    rw [Order.context, Order.context, (hgathers _).findsLoosely_iff, (hgathers _).findsLoosely_iff]
    simp only [hqueries]
  · intro term hterm
    have hmem : term ∈ c.allTerms := by simp [Condition.allTerms, hterm]
    have hgathers := (hundivided hmem).gathers
    rw [Order.context, Order.context, (hgathers _).finds_iff, (hgathers _).finds_iff]
    simp only [hqueries]

namespace Matching

variable {index : Index} {rules : List Rule}

theorem confirmed_perm (ht : ∀ r ∈ rules, r.condition.Trimmed) (hb : ∀ r ∈ rules, r.condition.BarFree)
    (hp : lines.Perm lines') :
    confirmed index rules (Order.context lines') = confirmed index rules (Order.context lines) := by
  refine List.filterMap_congr ?_
  intro ip _
  cases hrule : ruleFor? rules ip.part.id with
  | none => rfl
  | some rule =>
    have hmem := (ruleFor?_eq_some_iff.1 hrule).mem
    have hholds := Order.holds_context_perm (ht rule hmem) (hb rule hmem) hp
    rw [Option.filter, Option.filter, Bool.eq_iff_iff.2 hholds]

def added? (swept : List (IndexedPart × Rule)) (own : OrderLine → Outcome) (line : OrderLine) :
    Option Outcome :=
  if ∀ e ∈ swept, (own line).partId ≠ some e.1.part.id then some (own line) else none

theorem filterMap_added (swept : List (IndexedPart × Rule)) (own : OrderLine → Outcome)
    (lines : List OrderLine) : lines.filterMap (added? swept own) =
      (lines.filter fun line => ∀ e ∈ swept, (own line).partId ≠ some e.1.part.id).map own := by
  rw [← List.filterMap_eq_map, List.filterMap_filter]
  simp only [added?, decide_eq_true_eq, Function.comp_apply]
  rfl

theorem ofOrder_eq_filterMap (index : Index) (rules : List Rule) (knowledge : Knowledge) (model : String)
    (lines : List OrderLine) : ofOrder index rules knowledge model lines =
      sweep index rules (Order.context lines) ++ lines.filterMap
        (added? (confirmed index rules (Order.context lines))
          (scoreLine index rules (knowledge.history model))) := by
  rw [ofOrder_eq, merged, sweep_eq, filterMap_added]

theorem mem_selected_perm {outcomes outcomes' : List Outcome} (h : outcomes.Perm outcomes') {id : String} :
    id ∈ selected outcomes ↔ id ∈ selected outcomes' := by
  simp only [mem_selected_iff, h.mem_iff]

/-- The lines of an order may stand in any order, whatever the rules exclude and however many words a term
has: the same parts stand in front, and behind them every line has the same outcome or none. -/
theorem ofOrder_reorders (index : Index) (rules : List Rule) (knowledge : Knowledge) (model : String)
    {lines lines' : List OrderLine} (hp : lines.Perm lines') (ht : ∀ r ∈ rules, r.condition.Trimmed)
    (hb : ∀ r ∈ rules, r.condition.BarFree) :
    let swept := sweep index rules (Order.context lines)
    sweep index rules (Order.context lines') = swept ∧
    (∃ own : OrderLine → Option Outcome,
      ofOrder index rules knowledge model lines = swept ++ lines.filterMap own ∧
      ofOrder index rules knowledge model lines' = swept ++ lines'.filterMap own ∧
      (lines.filterMap own).Perm (lines'.filterMap own)) ∧
    ∀ id, id ∈ selected (ofOrder index rules knowledge model lines) ↔
      id ∈ selected (ofOrder index rules knowledge model lines') := by
  intro swept
  have hconfirmed : confirmed index rules (Order.context lines') = confirmed index rules (Order.context lines) :=
    confirmed_perm ht hb hp
  have hswept : sweep index rules (Order.context lines') = swept := by
    rw [sweep_eq, hconfirmed, ← sweep_eq]
  have hlines := ofOrder_eq_filterMap index rules knowledge model lines
  have hlines' := ofOrder_eq_filterMap index rules knowledge model lines'
  rw [hconfirmed, hswept] at hlines'
  refine ⟨hswept, ⟨_, hlines, hlines', hp.filterMap _⟩, fun id => mem_selected_perm ?_⟩
  rw [hlines, hlines']
  exact (hp.filterMap _).append_left swept

def wideRule : Rule :=
  { id := "3", target := "cab"
    condition := { includes := ["CAB ENCLOSED", "MT22"], excludes := ["RACK MODEL"] } }

theorem ofOrder_reorders_cabLines :
    cabLines.Perm cabLines.reverse ∧ (∀ r ∈ [wideRule], r.condition.Trimmed) ∧
      (∀ r ∈ [wideRule], r.condition.BarFree) ∧
      sweep [cab, rack] [wideRule] (Order.context cabLines.reverse) = [verified cab wideRule] ∧
      "rack" ∈ selected (ofOrder [cab, rack] [wideRule] [] "" cabLines.reverse) := by
  have hp : cabLines.Perm cabLines.reverse := (List.reverse_perm cabLines).symm
  have ht : ∀ r ∈ [wideRule], r.condition.Trimmed := by decide +kernel
  have hb : ∀ r ∈ [wideRule], r.condition.BarFree := by decide +kernel
  obtain ⟨hswept, -, hselected⟩ := ofOrder_reorders [cab, rack] [wideRule] [] "" hp ht hb
  refine ⟨hp, ht, hb, ?_, (hselected "rack").1 (by decide +kernel)⟩
  rw [hswept]
  decide +kernel

end Matching

end Kitting
