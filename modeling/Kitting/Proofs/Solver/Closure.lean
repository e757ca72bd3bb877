import Kitting.Proofs.Solver.Passes
import Kitting.Proofs.Solver.Words

namespace Kitting

def Condition.Monotone (c : Condition) : Prop := c.excludes = [] ∧ c.SpaceFree

instance (c : Condition) : Decidable c.Monotone := inferInstanceAs (Decidable (_ ∧ _))

namespace Task

variable {t t' : Task} {r : Rule} {id : String} {done done' ids : List String} {c : Condition}

/-- The targets of all eligible rules that hold with the parts of `ids` are among `ids`. -/
def Closed (t : Task) (ids : List String) : Prop :=
  ∀ r ∈ t.rules, t.Eligible r → r.condition.holds (t.context ids) → r.target ∈ ids

def Supported (t : Task) (ids : List String) : Prop :=
  ∀ id ∈ ids, ∃ r ∈ t.rules, t.Eligible r ∧ r.target = id ∧ r.condition.holds (t.context ids)

theorem holds_of_subset (hd : DistinctIds t.parts) (hc : c.Monotone) (hsub : done ⊆ ids)
    (h : c.holds (t.context done)) : c.holds (t.context ids) := by
  refine holds_context_mono hc.2 hc.1 ?_ h
  intro p
  rw [mem_present hd, mem_present hd]
  rintro ⟨hp, hm | hf | hi⟩
  · exact ⟨hp, .inl hm⟩
  · exact ⟨hp, .inr (.inl hf)⟩
  · exact ⟨hp, .inr (.inr (hsub hi))⟩

theorem Closed.fire_subset (h : t.Closed ids) (hd : DistinctIds t.parts)
    (hm : ∀ r ∈ t.rules, r.condition.Monotone) (hsub : done ⊆ ids) : t.fire done ⊆ ids := by
  intro id hid
  obtain ⟨r, hr, ⟨he, -, hholds⟩, rfl⟩ := (mem_fire hd).1 hid
  exact h r hr he (holds_of_subset hd (hm r hr) hsub hholds)

theorem Closed.after_subset (h : t.Closed ids) (hd : DistinctIds t.parts)
    (hm : ∀ r ∈ t.rules, r.condition.Monotone) (hsub : done ⊆ ids) (n : Nat) :
    t.after n done ⊆ ids := by
  induction n generalizing done with
  | zero => exact hsub
  | succ n ih => exact ih (List.append_subset.2 ⟨hsub, h.fire_subset hd hm hsub⟩)

theorem Supported.append_fire (h : t.Supported done) (hd : DistinctIds t.parts)
    (hm : ∀ r ∈ t.rules, r.condition.Monotone) : t.Supported (done ++ t.fire done) := by
  have hgrow (r : Rule) (hr : r ∈ t.rules) (hholds : r.condition.holds (t.context done)) :
      r.condition.holds (t.context (done ++ t.fire done)) :=
    holds_of_subset hd (hm r hr) (List.subset_append_left _ _) hholds
  intro id hid
  rcases List.mem_append.1 hid with hid | hid
  · obtain ⟨r, hr, he, hrid, hholds⟩ := h id hid
    exact ⟨r, hr, he, hrid, hgrow r hr hholds⟩
  · obtain ⟨r, hr, ⟨he, -, hholds⟩, hrid⟩ := (mem_fire hd).1 hid
    exact ⟨r, hr, he, hrid, hgrow r hr hholds⟩

theorem Supported.after (h : t.Supported done) (hd : DistinctIds t.parts)
    (hm : ∀ r ∈ t.rules, r.condition.Monotone) (n : Nat) : t.Supported (t.after n done) := by
  induction n generalizing done with
  | zero => exact h
  | succ n ih => exact ih (h.append_fire hd hm)

theorem triggered_eq_after (t : Task) (cap : Int) :
    (t.solve cap).triggered = t.after cap.toNat [] := by
  rw [← (run_waves t cap.toNat []).append_flatten, List.nil_append]
  rfl

theorem supported_triggered (hd : DistinctIds t.parts) (hm : ∀ r ∈ t.rules, r.condition.Monotone)
    (cap : Int) : t.Supported (t.solve cap).triggered := by
  rw [triggered_eq_after]
  exact Supported.after (fun id hid => absurd hid List.not_mem_nil) hd hm _

theorem closed_triggered (hd : DistinctIds t.parts) (cap : Int) (h : (t.solve cap).capped = false) :
    t.Closed (t.solve cap).triggered := by
  intro r hr he hholds
  by_contra hid
  exact (capped_eq_false_iff hd cap).1 h ⟨r, hr, he, hid, hholds⟩

structure Extends (t t' : Task) : Prop where
  parts : t'.parts = t.parts
  rules : t'.rules = t.rules
  chosen : t.chosen ⊆ t'.chosen

def Covers (t' : Task) (done' done : List String) : Prop := ∀ id ∈ done, id ∈ done' ∨ id ∈ t'.chosen

theorem Extends.holds (h : t.Extends t') (hd : DistinctIds t.parts) (hc : c.Monotone)
    (hcover : t'.Covers done' done) (hholds : c.holds (t.context done)) :
    c.holds (t'.context done') := by
  refine holds_context_mono hc.2 hc.1 ?_ hholds
  intro p
  rw [mem_present hd, mem_present (h.parts ▸ hd), h.parts]
  rintro ⟨hp, hm | hf | hi⟩
  · exact ⟨hp, .inl hm⟩
  · exact ⟨hp, .inr (.inl (h.chosen hf))⟩
  · exact ⟨hp, .inr (hcover p.id hi).symm⟩

theorem Extends.covers_append_fire (h : t.Extends t') (hd : DistinctIds t.parts)
    (hm : ∀ r ∈ t.rules, r.condition.Monotone) (hcover : t'.Covers done' done) :
    t'.Covers (done' ++ t'.fire done') (done ++ t.fire done) := by
  intro id hid
  rw [List.mem_append]
  rcases List.mem_append.1 hid with hid | hid
  · rcases hcover id hid with hid | hid
    · exact .inl (.inl hid)
    · exact .inr hid
  · obtain ⟨r, hr, ⟨he, -, hholds⟩, rfl⟩ := (mem_fire hd).1 hid
    by_cases hchosen : r.target ∈ t'.chosen
    · exact .inr hchosen
    by_cases hdone : r.target ∈ done'
    · exact .inl (.inl hdone)
    have he' : t'.Eligible r := ⟨he.1, hchosen, h.parts ▸ he.2.2⟩
    refine .inl (.inr ((mem_fire (h.parts ▸ hd)).2 ⟨r, h.rules ▸ hr, ⟨he', hdone, ?_⟩, rfl⟩))
    exact h.holds hd (hm r hr) hcover hholds

theorem Extends.covers_after (h : t.Extends t') (hd : DistinctIds t.parts)
    (hm : ∀ r ∈ t.rules, r.condition.Monotone) (hcover : t'.Covers done' done) (n : Nat) :
    t'.Covers (t'.after n done') (t.after n done) := by
  induction n generalizing done done' with
  | zero => exact hcover
  | succ n ih => exact ih (h.covers_append_fire hd hm hcover)

/-- Without exclusions the triggered parts of a run that is not capped are the least closed list of parts,
and each of them is supported to the end. With more choices, nothing triggered is lost. -/
theorem solve_least_closed (parts : List Part) (rules : List Rule) (hd : DistinctIds parts)
    (hm : ∀ r ∈ rules, r.condition.excludes = [] ∧ r.condition.SpaceFree) :
    (∀ chosen cap, let t : Task := ⟨parts, rules, chosen⟩
      (t.solve cap).capped = false →
        ((t.solve cap).triggered ⊆ parts.map Part.id ∧ t.Closed (t.solve cap).triggered ∧
          ∀ ids, t.Closed ids → (t.solve cap).triggered ⊆ ids) ∧
        t.Supported (t.solve cap).triggered) ∧
    (∀ chosen chosen' cap, chosen ⊆ chosen' →
      ∀ id ∈ ((Task.mk parts rules chosen).solve cap).triggered,
        id ∈ ((Task.mk parts rules chosen').solve cap).triggered ∨ id ∈ chosen') := by
  constructor
  · intro chosen cap t hcap
    have hsup : t.Supported (t.solve cap).triggered := supported_triggered hd hm cap
    refine ⟨⟨?_, closed_triggered hd cap hcap, ?_⟩, hsup⟩
    · intro id hid
      obtain ⟨r, -, ⟨-, -, p, hp, hpid, -⟩, hrid, -⟩ := hsup id hid
      rw [← hrid, ← hpid]
      exact List.mem_map_of_mem hp
    · intro ids hclosed
      rw [triggered_eq_after]
      exact hclosed.after_subset hd hm (List.nil_subset _) _
  · intro chosen chosen' cap hsub
    rw [triggered_eq_after, triggered_eq_after]
    have h : (Task.mk parts rules chosen).Extends (Task.mk parts rules chosen') := ⟨rfl, rfl, hsub⟩
    exact h.covers_after hd hm (fun id hid => absurd hid List.not_mem_nil) _

def seatRules : List Rule :=
  seatChain.rules.map fun r => { r with condition := { r.condition with excludes := [] } }

theorem solve_least_closed_seatRules :
    DistinctIds seatChain.parts ∧
      (∀ r ∈ seatRules, r.condition.excludes = [] ∧ r.condition.SpaceFree) ∧
      (let t : Task := ⟨seatChain.parts, seatRules, []⟩
      (t.solve 3).capped = false ∧ t.Closed (t.solve 3).triggered) ∧
      (let t : Task := ⟨seatChain.parts, seatRules, ["harness"]⟩
      [] ⊆ t.chosen ∧ ("belt" ∈ (t.solve 2).triggered ∨ "belt" ∈ t.chosen)) := by
  have hd : DistinctIds seatChain.parts := by decide
  have hm : ∀ r ∈ seatRules, r.condition.excludes = [] ∧ r.condition.SpaceFree := by decide +kernel
  obtain ⟨hleast, hmore⟩ := solve_least_closed seatChain.parts seatRules hd hm
  have hcap : ((Task.mk seatChain.parts seatRules []).solve 3).capped = false := by decide +kernel
  have hsub : [] ⊆ ["harness"] := List.nil_subset _
  exact ⟨hd, hm, ⟨hcap, (hleast [] 3 hcap).1.2.1⟩, hsub,
    hmore [] ["harness"] 2 hsub "belt" (by decide +kernel)⟩

end Task

end Kitting
