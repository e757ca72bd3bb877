import Kitting.Proofs.Catalog
import Kitting.Synthesis.Proposal

namespace Kitting

variable {parts : List Part} {p : Proposal} {ps : List Proposal} {rules : List Rule} {target : String}
  {c : Condition} {n : Nat}

/-- The proposal is for the first part with its number, and its condition asks for something. -/
structure Proposal.Proposes (parts : List Part) (p : Proposal) (target : String) (c : Condition) : Prop where
  numbered : Token.canonical p.partNumber ≠ ""
  part : ∃ q, First (fun q => Token.canonical q.number = Token.canonical p.partNumber) parts q ∧ q.id = target
  condition : Formula.parse .laboratory p.expression = c
  asks : c.includes ≠ [] ∨ c.groups ≠ []

def ProposedAt (parts : List Part) (ps : List Proposal) (target : String) (n : Nat) (c : Condition) : Prop :=
  ∃ p, ps[n]? = some p ∧ p.Proposes parts target c

def FirstProposedAt (parts : List Part) (ps : List Proposal) (target : String) (n : Nat) : Prop :=
  (∃ c, ProposedAt parts ps target n c) ∧ ∀ m c, ProposedAt parts ps target m c → n ≤ m

def LastProposed (parts : List Part) (ps : List Proposal) (target : String) (c : Condition) : Prop :=
  ∃ n, ProposedAt parts ps target n c ∧ ∀ m d, ProposedAt parts ps target m d → m ≤ n

inductive Revised (parts : List Part) (ps : List Proposal) (r : Rule) : Rule → Prop
  | untouched : (∀ n c, ¬ProposedAt parts ps r.target n c) → Revised parts ps r r
  | superseded {c : Condition} : LastProposed parts ps r.target c →
      Revised parts ps r { r with condition := c, active := true }

structure Opened (parts : List Part) (ps : List Proposal) (r : Rule) (n : Nat) : Prop where
  first : FirstProposedAt parts ps r.target n
  last : LastProposed parts ps r.target r.condition
  active : r.active
  id : r.id = "rule-synth-" ++ toString n

/-- What deploying makes of some rules: those there were, in their places, and behind them one for each further
target, by the positions at which these were first proposed. -/
structure Deployed (parts : List Part) (ps : List Proposal) (rules kept added : List Rule) : Prop where
  revised : List.Forall₂ (Revised parts ps) rules kept
  opened : ∃ positions : List Nat, positions.Pairwise (· < ·) ∧ List.Forall₂ (Opened parts ps) added positions
  fresh : ∀ r ∈ added, r.target ∉ rules.map Rule.target
  complete : ∀ target n c, ProposedAt parts ps target n c → target ∈ (rules ++ added).map Rule.target
  distinct : ((kept ++ added).map Rule.target).Nodup

namespace Proposal

def effect? (parts : List Part) (p : Proposal) : Option (String × Condition) :=
  ((partNumbered? parts p.partNumber).map fun q => (q.id, Formula.parse .laboratory p.expression)).filter
    (!·.2.isEmpty)

def target? (parts : List Part) (p : Proposal) : Option String := (p.effect? parts).map (·.1)

def conditionFor? (parts : List Part) (target : String) (p : Proposal) : Option Condition :=
  ((p.effect? parts).filter (·.1 == target)).map (·.2)

theorem effect?_eq_some_iff : p.effect? parts = some (target, c) ↔ p.Proposes parts target c := by
  simp only [effect?, Option.filter_eq_some_iff, Option.map_eq_some_iff, partNumbered?_eq_some_iff]
  constructor
  · rintro ⟨⟨q, ⟨hnumber, hfirst⟩, hq⟩, hasks⟩
    cases hq
    exact ⟨hnumber, ⟨q, hfirst, rfl⟩, rfl, by simpa [Condition.isEmpty, imp_iff_not_or] using hasks⟩
  · rintro ⟨hnumber, ⟨q, hfirst, rfl⟩, rfl, hasks⟩
    exact ⟨⟨q, ⟨hnumber, hfirst⟩, rfl⟩, by simpa [Condition.isEmpty, imp_iff_not_or] using hasks⟩

theorem target?_eq_some_iff : p.target? parts = some target ↔ ∃ c, p.Proposes parts target c := by
  simp [target?, ← effect?_eq_some_iff]

theorem conditionFor?_eq_some_iff : p.conditionFor? parts target = some c ↔ p.Proposes parts target c := by
  simp [conditionFor?, ← effect?_eq_some_iff]

end Proposal

theorem Proposal.conditionFor?_eq_none (h : p.target? parts ≠ some target) :
    p.conditionFor? parts target = none := by
  rw [Option.eq_none_iff_forall_ne_some]
  exact fun c hc => h (target?_eq_some_iff.2 ⟨c, conditionFor?_eq_some_iff.1 hc⟩)

theorem proposedAt_iff :
    ProposedAt parts ps target n c ↔ ps[n]?.bind (Proposal.conditionFor? parts target) = some c := by
  simp only [ProposedAt, Option.bind_eq_some_iff, Proposal.conditionFor?_eq_some_iff]

def conditionsFor (parts : List Part) (ps : List Proposal) (target : String) : List Condition :=
  ps.filterMap (Proposal.conditionFor? parts target)

theorem getLast?_conditionsFor :
    (conditionsFor parts ps target).getLast? = some c ↔ LastProposed parts ps target c := by
  simp only [LastProposed, proposedAt_iff]
  exact getLast?_filterMap_eq_some_iff

theorem getLast?_conditionsFor_cons : (conditionsFor parts (p :: ps) target).getLast? =
    (conditionsFor parts ps target).getLast?.or (p.conditionFor? parts target) := by
  rw [conditionsFor, List.filterMap_cons]
  cases p.conditionFor? parts target with
  | none => rw [Option.or_none]; rfl
  | some c =>
    rw [List.getLast?_cons, ← conditionsFor]
    cases (conditionsFor parts ps target).getLast? <;> rfl

def newTarget? (parts : List Part) (known : List String) (p : Proposal) : Option String :=
  (p.target? parts).filter (· ∉ known)

theorem newTarget?_eq_some_iff {known : List String} :
    newTarget? parts known p = some target ↔ p.target? parts = some target ∧ target ∉ known := by
  simp [newTarget?, Option.filter_eq_some_iff]

def newTargets (parts : List Part) (ps : List Proposal) (known : List String) : List String :=
  (ps.filterMap (newTarget? parts known)).eraseDups

theorem mem_newTargets {known : List String} :
    target ∈ newTargets parts ps known ↔ target ∉ known ∧ ∃ p ∈ ps, p.target? parts = some target := by
  simp only [newTargets, List.mem_eraseDups, List.mem_filterMap, newTarget?_eq_some_iff]
  constructor
  · rintro ⟨p, hp, htarget, hknown⟩
    exact ⟨hknown, p, hp, htarget⟩
  · rintro ⟨hknown, p, hp, htarget⟩
    exact ⟨p, hp, htarget, hknown⟩

theorem newTargets_cons_of_none {known : List String} (h : newTarget? parts known p = none) :
    newTargets parts (p :: ps) known = newTargets parts ps known := by
  rw [newTargets, List.filterMap_cons_none h, newTargets]

theorem newTargets_cons_of_some {known : List String} (h : newTarget? parts known p = some target) :
    newTargets parts (p :: ps) known = target :: newTargets parts ps (known ++ [target]) := by
  have hrest : ps.filterMap (exceptValue (newTarget? parts known) target) =
      ps.filterMap (newTarget? parts (known ++ [target])) := by
    refine List.filterMap_congr fun q _ => Option.ext fun t => ?_
    rw [newTarget?_eq_some_iff, List.mem_append, List.mem_singleton, not_or]
    by_cases ht : t = target
    · simp [exceptValue, ht]
    · rw [exceptValue_eq_some_iff ht, newTarget?_eq_some_iff, and_iff_left ht]
  rw [newTargets, List.filterMap_cons_some h, List.eraseDups_cons, ← filterMap_exceptValue, hrest, newTargets]

namespace Rule

def revise (r : Rule) : Option Condition → Rule
  | none => r
  | some c => { r with condition := c, active := true }

def reviseFor (target : String) (c : Condition) (r : Rule) : Rule :=
  if r.target = target then r.revise (some c) else r

@[simp] theorem target_revise (r : Rule) (o : Option Condition) : (r.revise o).target = r.target := by
  cases o <;> rfl

@[simp] theorem target_reviseFor (target : String) (c : Condition) (r : Rule) :
    (r.reviseFor target c).target = r.target := by
  rw [reviseFor]
  split
  · exact target_revise r _
  · rfl

@[simp] theorem revise_revise (r : Rule) (o o' : Option Condition) :
    (r.revise o).revise o' = r.revise (o'.or o) := by
  cases o <;> cases o' <;> rfl

theorem map_target_map {f : Rule → Rule} (hf : ∀ r, (f r).target = r.target) (rules : List Rule) :
    (rules.map f).map Rule.target = rules.map Rule.target := by
  rw [List.map_map]
  exact List.map_congr_left fun r _ => hf r

end Rule

theorem map_reviseFor_of_notMem (h : target ∉ rules.map Rule.target) (c : Condition) :
    rules.map (·.reviseFor target c) = rules := by
  refine (List.map_congr_left fun r hr => if_neg ?_).trans (List.map_id rules)
  rintro rfl
  exact h (List.mem_map_of_mem hr)

theorem replaceFirst_eq_map (h : (rules.map Rule.target).Nodup) :
    supersede.replaceFirst target c rules = rules.map (·.reviseFor target c) := by
  induction rules with
  | nil => rfl
  | cons r rules ih =>
    rw [List.map_cons, List.nodup_cons] at h
    rw [supersede.replaceFirst, List.map_cons, Rule.reviseFor]
    by_cases hr : r.target = target
    · rw [if_pos (beq_iff_eq.2 hr), if_pos hr, map_reviseFor_of_notMem (hr ▸ h.1)]
      rfl
    · rw [if_neg (by simpa using hr), if_neg hr, ih h.2]

theorem supersede_of_mem {id : String} (h : (rules.map Rule.target).Nodup)
    (hmem : target ∈ rules.map Rule.target) :
    supersede rules target id c = rules.map (·.reviseFor target c) := by
  have hany : rules.any (·.target == target) := by simpa using hmem
  have hreverse : (rules.reverse.map Rule.target).Nodup := by simpa using h
  rw [supersede, if_pos hany, replaceFirst_eq_map hreverse, List.map_reverse, List.reverse_reverse]

theorem supersede_of_notMem {id : String} (hmem : target ∉ rules.map Rule.target) :
    supersede rules target id c = rules ++ [{ id := id, target := target, condition := c }] := by
  have hany : ¬rules.any (·.target == target) := by simpa using hmem
  rw [supersede, if_neg hany]

def Rule.updated (parts : List Part) (ps : List Proposal) (r : Rule) : Rule :=
  r.revise (conditionsFor parts ps r.target).getLast?

@[simp] theorem Rule.target_updated (r : Rule) : (r.updated parts ps).target = r.target := target_revise r _

theorem Rule.updated_cons_of_ne (r : Rule) (h : p.target? parts ≠ some r.target) :
    r.updated parts (p :: ps) = r.updated parts ps := by
  rw [updated, getLast?_conditionsFor_cons, Proposal.conditionFor?_eq_none h, Option.or_none, updated]

theorem Rule.updated_cons (h : p.effect? parts = some (target, c)) (r : Rule) :
    r.updated parts (p :: ps) = (r.reviseFor target c).updated parts ps := by
  by_cases hr : r.target = target
  · have hcondition : p.conditionFor? parts r.target = some c := by simp [Proposal.conditionFor?, h, hr]
    rw [updated, getLast?_conditionsFor_cons, hcondition, reviseFor, if_pos hr, updated, revise_revise,
      target_revise]
  · have hne : p.target? parts ≠ some r.target := by simpa [Proposal.target?, h] using Ne.symm hr
    rw [updated_cons_of_ne r hne, reviseFor, if_neg hr]

def firstPosition (parts : List Part) (ps : List Proposal) (target : String) : Nat :=
  ps.findIdx (·.target? parts = some target)

def openedRule (parts : List Part) (ps : List Proposal) (n : Nat) (target : String) : Rule where
  id := "rule-synth-" ++ toString (n + firstPosition parts ps target)
  target := target
  condition := (conditionsFor parts ps target).getLast?.getD {}

theorem openedRule_cons_of_ne (h : p.target? parts ≠ some target) (n : Nat) :
    openedRule parts (p :: ps) n target = openedRule parts ps (n + 1) target := by
  have hidx : firstPosition parts (p :: ps) target = firstPosition parts ps target + 1 := by
    simp [firstPosition, List.findIdx_cons, h]
  rw [openedRule, getLast?_conditionsFor_cons, Proposal.conditionFor?_eq_none h, Option.or_none, hidx, openedRule,
    Nat.add_right_comm, Nat.add_assoc]

theorem openedRule_cons (h : p.effect? parts = some (target, c)) (n : Nat) :
    openedRule parts (p :: ps) n target =
      Rule.updated parts ps { id := "rule-synth-" ++ toString n, target := target, condition := c } := by
  have hidx : firstPosition parts (p :: ps) target = 0 := by
    simp [firstPosition, List.findIdx_cons, Proposal.target?, h]
  have hcondition : p.conditionFor? parts target = some c := by simp [Proposal.conditionFor?, h]
  rw [openedRule, getLast?_conditionsFor_cons, hcondition, hidx, Nat.add_zero, Rule.updated]
  cases (conditionsFor parts ps target).getLast? <;> rfl

theorem map_openedRule_cons {known : List String} (h : ∀ t, p.target? parts = some t → t ∈ known) (n : Nat) :
    (newTargets parts ps known).map (openedRule parts (p :: ps) n) =
      (newTargets parts ps known).map (openedRule parts ps (n + 1)) := by
  refine List.map_congr_left fun t ht => openedRule_cons_of_ne ?_ n
  exact fun htarget => (mem_newTargets.1 ht).1 (h t htarget)

theorem deployOne_eq (parts : List Part) (rules : List Rule) (p : Proposal) (n : Nat) :
    deployOne parts rules (p, n) = match p.effect? parts with
      | none => rules
      | some (target, c) => supersede rules target ("rule-synth-" ++ toString n) c := by
  simp only [deployOne, Proposal.effect?]
  cases partNumbered? parts p.partNumber with
  | none => rfl
  | some q => cases h : (Formula.parse .laboratory p.expression).isEmpty <;> simp [Option.filter, h]

theorem foldl_deployOne (h : (rules.map Rule.target).Nodup) (n : Nat) :
    (ps.zipIdx n).foldl (deployOne parts) rules =
      rules.map (Rule.updated parts ps) ++
        (newTargets parts ps (rules.map Rule.target)).map (openedRule parts ps n) := by
  induction ps generalizing rules n with
  | nil =>
    have hsame : rules.map (Rule.updated parts []) = rules := List.map_id rules
    simp [newTargets, hsame]
  | cons p ps ih =>
    rw [List.zipIdx_cons, List.foldl_cons, deployOne_eq]
    cases heffect : p.effect? parts with
    | none =>
      have htarget : p.target? parts = none := by rw [Proposal.target?, heffect]; rfl
      have hupdated : Rule.updated parts (p :: ps) = Rule.updated parts ps :=
        funext fun r => r.updated_cons_of_ne (by simp [htarget])
      have hnew : newTarget? parts (rules.map Rule.target) p = none := by rw [newTarget?, htarget]; rfl
      have hnone (t : String) (ht : p.target? parts = some t) : t ∈ rules.map Rule.target := by
        rw [htarget] at ht
        cases ht
      simp only [ih h, newTargets_cons_of_none hnew, hupdated, map_openedRule_cons hnone]
    | some effect =>
      obtain ⟨target, c⟩ := effect
      have htarget : p.target? parts = some target := by rw [Proposal.target?, heffect]; rfl
      have hupdated : Rule.updated parts (p :: ps) = Rule.updated parts ps ∘ Rule.reviseFor target c :=
        funext (Rule.updated_cons heffect)
      rw [hupdated, ← List.map_map]
      by_cases hknown : target ∈ rules.map Rule.target
      · have htargets := Rule.map_target_map (Rule.target_reviseFor target c) rules
        have hnew : newTarget? parts (rules.map Rule.target) p = none := by
          rw [newTarget?, htarget]
          simpa using hknown
        simp only [supersede_of_mem h hknown]
        rw [ih (htargets.symm ▸ h), htargets, newTargets_cons_of_none hnew,
          map_openedRule_cons fun t ht => Option.some.inj (htarget.symm.trans ht) ▸ hknown]
      · have hnodup : (rules.map Rule.target ++ [target]).Nodup := by
          rw [← List.concat_eq_append]
          exact List.Nodup.concat hknown h
        have hnew := newTarget?_eq_some_iff.2 ⟨htarget, hknown⟩
        simp only [supersede_of_notMem hknown]
        rw [ih (by simpa using hnodup), map_reviseFor_of_notMem hknown, newTargets_cons_of_some hnew, List.map_cons,
          openedRule_cons heffect, map_openedRule_cons fun t ht => by simp [Option.some.inj (htarget.symm.trans ht)],
          List.map_append, List.map_append, List.append_assoc]
        rfl

theorem firstProposedAt_firstPosition (h : ∃ p ∈ ps, p.target? parts = some target) :
    FirstProposedAt parts ps target (firstPosition parts ps target) := by
  have hlt : firstPosition parts ps target < ps.length := List.findIdx_lt_length.2 (by simpa using h)
  have hhere := List.findIdx_getElem (w := hlt)
  obtain ⟨c, hc⟩ := Proposal.target?_eq_some_iff.1 (of_decide_eq_true hhere)
  constructor
  · exact ⟨c, _, List.getElem?_eq_getElem hlt, hc⟩
  · rintro m d ⟨p, hp, hd⟩
    by_contra hm
    obtain ⟨hm', rfl⟩ := List.getElem?_eq_some_iff.1 hp
    have hnot := List.not_of_lt_findIdx (Nat.lt_of_not_le hm)
    exact of_decide_eq_false hnot (Proposal.target?_eq_some_iff.2 ⟨d, hd⟩)

theorem exists_getLast?_conditionsFor (h : ∃ p ∈ ps, p.target? parts = some target) :
    ∃ c, (conditionsFor parts ps target).getLast? = some c := by
  obtain ⟨p, hp, htarget⟩ := h
  obtain ⟨c, hc⟩ := Proposal.target?_eq_some_iff.1 htarget
  have hmem : c ∈ conditionsFor parts ps target :=
    List.mem_filterMap.2 ⟨p, hp, Proposal.conditionFor?_eq_some_iff.2 hc⟩
  exact ⟨_, List.getLast?_eq_some_getLast (List.ne_nil_of_mem hmem)⟩

theorem revised_updated (r : Rule) : Revised parts ps r (r.updated parts ps) := by
  rw [Rule.updated]
  cases h : (conditionsFor parts ps r.target).getLast? with
  | some c => exact .superseded (getLast?_conditionsFor.1 h)
  | none =>
    refine .untouched fun n c hn => ?_
    obtain ⟨p, hp, hc⟩ := hn
    obtain ⟨d, hd⟩ := exists_getLast?_conditionsFor
      ⟨p, List.mem_of_getElem? hp, Proposal.target?_eq_some_iff.2 ⟨c, hc⟩⟩
    rw [h] at hd
    cases hd

theorem opened_openedRule (h : ∃ p ∈ ps, p.target? parts = some target) :
    Opened parts ps (openedRule parts ps 0 target) (firstPosition parts ps target) where
  first := firstProposedAt_firstPosition h
  last := by
    obtain ⟨c, hc⟩ := exists_getLast?_conditionsFor h
    rw [openedRule, hc]
    exact getLast?_conditionsFor.1 hc
  active := rfl
  id := by rw [openedRule, Nat.zero_add]

theorem pairwise_newTargets (known : List String) : (newTargets parts ps known).Pairwise fun a b =>
    firstPosition parts ps a < firstPosition parts ps b := by
  refine (pairwise_eraseDups_filterMap _ ps).imp_of_mem fun {a b} ha hb hab => ?_
  have hread {t : String} (ht : t ∈ newTargets parts ps known) (p : Proposal) :
      newTarget? parts known p = some t ↔ p.target? parts = some t := by
    rw [newTarget?_eq_some_iff, and_iff_left (mem_newTargets.1 ht).1]
  simpa only [firstPosition, hread ha, hread hb] using hab

theorem deploy_eq (h : (rules.map Rule.target).Nodup) : deploy ps parts rules =
    rules.map (Rule.updated parts ps) ++
      (newTargets parts ps (rules.map Rule.target)).map (openedRule parts ps 0) :=
  foldl_deployOne h 0

theorem map_target_map_openedRule (targets : List String) (n : Nat) :
    (targets.map (openedRule parts ps n)).map Rule.target = targets := by
  rw [List.map_map]
  exact List.map_id targets

theorem deployed (h : (rules.map Rule.target).Nodup) : Deployed parts ps rules
    (rules.map (Rule.updated parts ps))
    ((newTargets parts ps (rules.map Rule.target)).map (openedRule parts ps 0)) where
  revised := by
    rw [List.forall₂_map_right_iff, List.forall₂_same]
    exact fun r _ => revised_updated r
  opened := by
    refine ⟨(newTargets parts ps (rules.map Rule.target)).map (firstPosition parts ps),
      List.pairwise_map.2 (pairwise_newTargets _), ?_⟩
    rw [List.forall₂_map_left_iff, List.forall₂_map_right_iff, List.forall₂_same]
    exact fun t ht => opened_openedRule (mem_newTargets.1 ht).2
  fresh := by
    rintro r hr
    obtain ⟨t, ht, rfl⟩ := List.mem_map.1 hr
    exact (mem_newTargets.1 ht).1
  complete := by
    rintro t n c ⟨p, hp, hc⟩
    rw [List.map_append, map_target_map_openedRule, List.mem_append, or_iff_not_imp_left]
    exact fun hnew => mem_newTargets.2
      ⟨hnew, p, List.mem_of_getElem? hp, Proposal.target?_eq_some_iff.2 ⟨c, hc⟩⟩
  distinct := by
    rw [List.map_append, map_target_map_openedRule, Rule.map_target_map Rule.target_updated]
    refine h.append (nodup_eraseDups _) fun t ht hnew => ?_
    exact (mem_newTargets.1 hnew).1 ht

theorem updated_updated (r : Rule) : (r.updated parts ps).updated parts ps = r.updated parts ps := by
  rw [Rule.updated, Rule.target_updated, Rule.updated, Rule.revise_revise, Option.or_self]

theorem updated_openedRule (h : ∃ p ∈ ps, p.target? parts = some target) (n : Nat) :
    (openedRule parts ps n target).updated parts ps = openedRule parts ps n target := by
  obtain ⟨c, hc⟩ := exists_getLast?_conditionsFor h
  simp only [openedRule, Rule.updated, hc, Rule.revise, Option.getD_some]

theorem deploy_deployed (h : (rules.map Rule.target).Nodup) :
    deploy ps parts (deploy ps parts rules) = deploy ps parts rules := by
  have hdeployed : Deployed parts ps rules _ _ := deployed h
  rw [deploy_eq h, deploy_eq hdeployed.distinct]
  have hnone : newTargets parts ps ((rules.map (Rule.updated parts ps) ++
      (newTargets parts ps (rules.map Rule.target)).map (openedRule parts ps 0)).map Rule.target) = [] := by
    rw [List.eq_nil_iff_forall_not_mem, List.map_append, map_target_map_openedRule,
      Rule.map_target_map Rule.target_updated]
    intro t ht
    obtain ⟨hknown, hproposed⟩ := mem_newTargets.1 ht
    rw [List.mem_append, not_or] at hknown
    exact hknown.2 (mem_newTargets.2 ⟨hknown.1, hproposed⟩)
  rw [hnone, List.map_nil, List.append_nil, List.map_append, List.map_map, List.map_map]
  refine congrArg₂ (· ++ ·) ?_ ?_
  · exact List.map_congr_left fun r _ => updated_updated r
  · exact List.map_congr_left fun t ht => updated_openedRule (mem_newTargets.1 ht).2 0

/-- The rules keep their places and their targets, each takes the last condition for its target, the other
targets follow as they were first proposed, and to deploy again changes nothing. -/
theorem deploy_supersedes (h : (rules.map Rule.target).Nodup) :
    ∃ kept added, deploy ps parts rules = kept ++ added ∧ Deployed parts ps rules kept added ∧
      deploy ps parts (kept ++ added) = kept ++ added := by
  refine ⟨_, _, deploy_eq h, deployed h, ?_⟩
  rw [← deploy_eq h]
  exact deploy_deployed h

def winchParts : List Part :=
  [{ id := "winch", number := "W-100" }, { id := "hook", number := "H 7" }, { id := "spare", number := "w100" }]

def winchRules : List Rule :=
  [{ id := "r1", target := "winch", condition := { includes := ["ROPE"] }, active := false },
    { id := "r2", target := "spare", condition := { includes := ["SPARE"] } }]

def proposal (number expression : String) : Proposal where
  partNumber := number
  partName := Proposal.unknownName
  expression := expression
  evidenceCount := 1
  confidence := Proposal.defaultConfidence
  reasoning := ""
  matchedOrders := []
  indicators := []

def winchProposals : List Proposal :=
  [proposal "W-100" "(WINCH)", proposal "H7" "(HOOK)", proposal "K 9" "(CAB)", proposal "00w100" "(WINCH KIT)",
    proposal "H-7" "[HOOK]"]

theorem deploy_supersedes_winchRules :
    (winchRules.map Rule.target).Nodup ∧
      deploy winchProposals winchParts winchRules =
        [{ id := "r1", target := "winch", condition := { includes := ["WINCH KIT"], raw := "(WINCH KIT)" } },
          { id := "r2", target := "spare", condition := { includes := ["SPARE"] } },
          { id := "rule-synth-1", target := "hook", condition := { includes := ["HOOK"], raw := "(HOOK)" } }] ∧
      ∃ kept added, deploy winchProposals winchParts winchRules = kept ++ added ∧
        Deployed winchParts winchProposals winchRules kept added ∧
        deploy winchProposals winchParts (kept ++ added) = kept ++ added := by
  have h : (winchRules.map Rule.target).Nodup := by decide
  exact ⟨h, by decide +kernel, deploy_supersedes h⟩

end Kitting
