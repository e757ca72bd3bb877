import Kitting.Proofs.Matching.Contexts
import Kitting.Proofs.Matching.Order

namespace Kitting

variable {c : Condition} {line : OrderLine} {lines : List OrderLine}

theorem Order.holds_context (hx : c.excludes = []) (hline : line ∈ lines) (h : c.holds line.context) :
    c.holds (Order.context lines) :=
  Condition.holds_mono hx
    (fun _ _ => Context.findsLoosely_ofTexts (List.mem_map_of_mem (f := OrderLine.query) hline)) h

namespace Matching

variable {index : Index} {rules : List Rule} {history : List Precedent} {ip : IndexedPart} {o : Outcome}

theorem Tiered.verified_of_logic {conditionOf : String → Option Condition}
    (h : Tiered index conditionOf history line o) (hlogic : o.provenance = .logic) :
    ∃ ip ∈ index, Verified conditionOf line ip ∧ o.partId = some ip.part.id := by
  cases h with
  | @verified ip _ hfirst _ => exact ⟨ip, hfirst.mem, hfirst.1, rfl⟩
  | @named ip _ _ =>
    by_cases hl : Learned history line ip <;> simp [answer, hl] at hlogic
  | learned => cases hlogic
  | described => cases hlogic
  | suggested => cases hlogic
  | unresolved => cases hlogic
  | vacant => cases hlogic

theorem confirms_of_verified (hx : ∀ r ∈ rules, r.condition.excludes = []) (hline : line ∈ lines)
    (h : Verified (conditionFor? rules) line ip) :
    ∃ rule, Confirms rules (Order.context lines) ip rule := by
  obtain ⟨_, hc, hholds⟩ := h
  obtain ⟨rule, hrule, rfl⟩ := Option.map_eq_some_iff.1 hc
  have hfirst := ruleFor?_eq_some_iff.1 hrule
  exact ⟨rule, hfirst, Order.holds_context (hx rule hfirst.mem) hline hholds⟩

/-- Whatever rule holds on a line holds on the order, if no rule has exclusions; so the outcomes of the
lines rest on everything but rules. -/
theorem ofOrder_subsumes (index : Index) (rules : List Rule) (knowledge : Knowledge) (model : String)
    (lines : List OrderLine) (hx : ∀ r ∈ rules, r.condition.excludes = []) :
    (∀ r ∈ rules, ∀ line ∈ lines,
      r.condition.holds line.context → r.condition.holds (Order.context lines)) ∧
    ∃ rest, ofOrder index rules knowledge model lines =
        sweep index rules (Order.context lines) ++ rest ∧
      ∀ o ∈ rest, o.provenance ≠ .logic := by
  refine ⟨fun r hr _ hline => Order.holds_context (hx r hr) hline, ?_⟩
  refine ⟨_, by rw [ofOrder_eq, sweep_eq, merged], ?_⟩
  intro o ho hlogic
  obtain ⟨line, hmem, rfl⟩ := List.mem_map.1 ho
  obtain ⟨hline, hleft⟩ := List.mem_filter.1 hmem
  obtain ⟨ip, hip, hverified, hid⟩ := (scoreLine_eq_iff_tiered.1 rfl).verified_of_logic hlogic
  obtain ⟨rule, hconfirms⟩ := confirms_of_verified hx hline hverified
  exact of_decide_eq_true hleft (ip, rule) (mem_confirmed.2 ⟨hip, hconfirms⟩) hid

def enclosedRule : Rule :=
  { id := "2", target := "cab", condition := { includes := ["ENCLOSED"], groups := [["CAB", "CANOPY"]] } }

theorem ofOrder_subsumes_cabLines :
    (∀ r ∈ [enclosedRule], r.condition.excludes = []) ∧
      (scoreLine [cab, rack] [enclosedRule] [] { category := "Cab", selection := "Enclosed" }).provenance =
        .logic ∧
      enclosedRule.condition.holds (Order.context cabLines) ∧
      ∃ rest, ofOrder [cab, rack] [enclosedRule] [] "" cabLines =
          sweep [cab, rack] [enclosedRule] (Order.context cabLines) ++ rest ∧
        ∀ o ∈ rest, o.provenance ≠ .logic := by
  have hx : ∀ r ∈ [enclosedRule], r.condition.excludes = [] := by simp [enclosedRule]
  obtain ⟨hholds, hrest⟩ := ofOrder_subsumes [cab, rack] [enclosedRule] [] "" cabLines hx
  refine ⟨hx, by decide +kernel, ?_, hrest⟩
  exact hholds enclosedRule (by simp) { category := "Cab", selection := "Enclosed" } (by simp [cabLines])
    (by decide +kernel)

end Matching

end Kitting
