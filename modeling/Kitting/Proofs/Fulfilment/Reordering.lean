import Kitting.Proofs.Fulfilment.Report
import Kitting.Proofs.Selection.Reordering

namespace Kitting

variable {parts : List Part} {chosen chosen' : List String}

namespace Task

variable (rules : List Rule) (h : SameIds chosen chosen')
include h

theorem seeds_congr (parts : List Part) :
    (Task.mk parts rules chosen).seeds = (Task.mk parts rules chosen').seeds := by
  refine List.filter_congr fun p _ => ?_
  rw [List.contains_eq_mem, List.contains_eq_mem, decide_eq_decide.2 (h p.id)]

theorem eligible_congr (parts : List Part) :
    (Task.mk parts rules chosen).eligible = (Task.mk parts rules chosen').eligible := by
  refine List.filter_congr fun r _ => ?_
  rw [List.contains_eq_mem, List.contains_eq_mem, decide_eq_decide.2 (h r.target)]

theorem fire_congr (parts : List Part) (done : List String) :
    (Task.mk parts rules chosen).fire done = (Task.mk parts rules chosen').fire done := by
  have hcontext : (Task.mk parts rules chosen).context done = (Task.mk parts rules chosen').context done := by
    rw [context, context, seeds_congr rules h]
  rw [fire, fire, hcontext, eligible_congr rules h]

theorem waves_congr (parts : List Part) (n : Nat) (done : List String) :
    (Task.mk parts rules chosen).waves n done = (Task.mk parts rules chosen').waves n done := by
  induction n generalizing done with
  | zero => rfl
  | succ n ih => rw [waves, waves, fire_congr rules h, ih]

theorem solve_congr (parts : List Part) (cap : Int) :
    (Task.mk parts rules chosen).solve cap = (Task.mk parts rules chosen').solve cap := by
  rw [solve, solve, waves_congr rules h, fire_congr rules h]

end Task

theorem Manifest.of_congr {picks picks' : Picks} (h : ∀ id, Assoc.get? picks id = Assoc.get? picks' id) :
    Manifest.of parts picks = Manifest.of parts picks' := by
  simp only [Manifest.of, Manifest.unsorted, h]

namespace Fulfilment

theorem solution_settle_congr {user user' matched matched' : List String} (inventory : Inventory)
    (hu : SameIds user user') (hm : SameIds matched matched') (cap : Int) (source : String) (order : Order) :
    (settle inventory user matched cap source order).solution =
      (settle inventory user' matched' cap source order).solution :=
  Task.solve_congr inventory.rules (hu.append hm) inventory.parts cap

/-- The merge does not depend on the order of the triggered ids at all, and on that of the user's and the
order's ids only if one of the two names several exclusive parts of a group. So neither the solution nor the
report of an order depends on how these ids are taken, and without such rivals nor does the manifest. -/
theorem settle_reorders (inventory : Inventory) :
    (∀ user order logic logic', SameIds logic logic' →
      resolve inventory.parts user order logic = resolve inventory.parts user order logic') ∧
    (DistinctIds inventory.parts → ∀ user user' order order' logic logic',
      SameIds user user' → SameIds order order' → SameIds logic logic' →
      OnePerGroup inventory.parts user → OnePerGroup inventory.parts order →
      ∀ id, Assoc.get? (resolve inventory.parts user order logic) id =
        Assoc.get? (resolve inventory.parts user' order' logic') id) ∧
    (DistinctIds inventory.parts → ∀ user user' matched matched',
      SameIds user user' → SameIds matched matched' → ∀ cap source order,
      let f := settle inventory user matched cap source order
      let f' := settle inventory user' matched' cap source order
      f.solution = f'.solution ∧ f.report = f'.report ∧
        (OnePerGroup inventory.parts user → OnePerGroup inventory.parts matched →
          f.manifest = f'.manifest)) := by
  refine ⟨fun user order _ _ => resolve_logic_congr inventory.parts user order,
    fun hd _ _ _ _ _ _ => get?_resolve_congr hd, ?_⟩
  intro hd user user' matched matched' hu hm cap source order f f'
  have hsolution : f.solution = f'.solution := solution_settle_congr inventory hu hm cap source order
  refine ⟨hsolution, ?_, fun huser hmatched => ?_⟩
  · have hreport : f.report = Report.of inventory.parts user matched f.solution.triggered :=
      reportOf_resolve hd _ _ _
    have hreport' : f'.report = Report.of inventory.parts user' matched' f'.solution.triggered :=
      reportOf_resolve hd _ _ _
    rw [hreport, hreport', hsolution]
    refine Report.of_congr fun key => exists_congr fun p => and_congr_right fun _ => ?_
    exact (hu.append hm).append (fun _ => Iff.rfl) p.id
  · apply Manifest.of_congr
    have htriggered : SameIds f.solution.triggered f'.solution.triggered := by
      rw [hsolution]
      exact fun _ => Iff.rfl
    exact get?_resolve_congr hd hu hm htriggered huser hmatched

theorem settle_reorders_topOrder :
    let parts := topInventory.parts
    let user := ["frame", "canopy"]
    let user' := ["canopy", "frame", "canopy"]
    let matched := ["lights", "cab"]
    let matched' := ["cab", "lights", "lights"]
    (DistinctIds parts ∧ SameIds user user' ∧ SameIds matched matched' ∧ SameIds ["cab"] ["cab", "cab"] ∧
      OnePerGroup parts user ∧ OnePerGroup parts matched) ∧
    resolve parts user matched ["cab"] = resolve parts user matched ["cab", "cab"] ∧
    Assoc.get? (resolve parts user' matched' ["cab", "cab"]) "canopy" = some .user ∧
    (settle topInventory user matched 5 "top" topOrder).report =
      (settle topInventory user' matched' 5 "top" topOrder).report ∧
    (settle topInventory user matched 5 "top" topOrder).manifest =
      (settle topInventory user' matched' 5 "top" topOrder).manifest := by
  intro parts user user' matched matched'
  have hd : DistinctIds parts := by decide
  have hu : SameIds user user' := fun id => by simp [user, user', or_comm]
  have hm : SameIds matched matched' := fun id => by simp [matched, matched', or_comm]
  have hl : SameIds ["cab"] ["cab", "cab"] := fun id => by simp
  have huser : OnePerGroup parts user := by
    refine .of_forall_eq (p := canopy) ?_
    simp only [parts, topInventory, Inventory.reindex, List.forall_mem_cons]
    exact ⟨fun h => absurd h (by decide), fun h => absurd h (by decide), fun _ _ => trivial,
      fun _ h => absurd h (by decide), by simp⟩
  have hmatched : OnePerGroup parts matched := by
    refine .of_forall_eq (p := cab) ?_
    simp only [parts, topInventory, Inventory.reindex, List.forall_mem_cons]
    exact ⟨fun h => absurd h (by decide), fun h => absurd h (by decide), fun _ h => absurd h (by decide),
      fun _ _ => trivial, by simp⟩
  obtain ⟨hlogic, hpicks, hsettle⟩ := settle_reorders topInventory
  obtain ⟨-, hreport, hmanifest⟩ := hsettle hd user user' matched matched' hu hm 5 "top" topOrder
  refine ⟨⟨hd, hu, hm, hl, huser, hmatched⟩, hlogic user matched _ _ hl, ?_, hreport, hmanifest huser hmatched⟩
  rw [← hpicks hd user user' matched matched' _ _ hu hm hl huser hmatched]
  decide

end Fulfilment

end Kitting
