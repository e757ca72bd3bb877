import Kitting.Proofs.Solver.Passes
import Kitting.Proofs.Solver.Words
import Mathlib.Data.List.Forall2
import Mathlib.Data.List.Perm.Basic

namespace Kitting

structure Task.Reorders (t t' : Task) : Prop where
  parts : t.parts.Perm t'.parts
  rules : t.rules.Perm t'.rules
  chosen : ∀ id, id ∈ t.chosen ↔ id ∈ t'.chosen

namespace Task

variable {t t' : Task} {done done' : List String} {r : Rule} {n : Nat}

theorem Reorders.mem_present (h : t.Reorders t') (hd : DistinctIds t.parts)
    (hm : ∀ id, id ∈ done ↔ id ∈ done') (p : Part) :
    p ∈ t.present done ↔ p ∈ t'.present done' := by
  rw [Task.mem_present hd, Task.mem_present (hd.perm h.parts), h.parts.mem_iff, h.chosen, hm]

theorem Reorders.eligible_iff (h : t.Reorders t') (r : Rule) : t.Eligible r ↔ t'.Eligible r := by
  simp only [Eligible, h.chosen, h.parts.mem_iff]

theorem Reorders.fires_iff (h : t.Reorders t') (hd : DistinctIds t.parts)
    (hm : ∀ id, id ∈ done ↔ id ∈ done') (hs : r.condition.SpaceFree) :
    t.Fires done r ↔ t'.Fires done' r := by
  rw [Fires, Fires, h.eligible_iff, hm, holds_context_congr hs (h.mem_present hd hm)]

theorem Reorders.fire_perm (h : t.Reorders t') (hd : DistinctIds t.parts)
    (hs : ∀ r ∈ t.rules, r.condition.SpaceFree) (hm : ∀ id, id ∈ done ↔ id ∈ done') :
    (t.fire done).Perm (t'.fire done') := by
  rw [List.perm_ext_iff_of_nodup (nodup_fire t done) (nodup_fire t' done')]
  intro id
  rw [mem_fire hd, mem_fire (hd.perm h.parts)]
  constructor
  · rintro ⟨r, hr, hfires, hid⟩
    exact ⟨r, h.rules.mem_iff.1 hr, (h.fires_iff hd hm (hs r hr)).1 hfires, hid⟩
  · rintro ⟨r, hr, hfires, hid⟩
    have hmem := h.rules.mem_iff.2 hr
    exact ⟨r, hmem, (h.fires_iff hd hm (hs r hmem)).2 hfires, hid⟩

theorem Reorders.waves_perm (h : t.Reorders t') (hd : DistinctIds t.parts)
    (hs : ∀ r ∈ t.rules, r.condition.SpaceFree) {waves waves' : List (List String)}
    (hrun : t.Run n done waves) (hrun' : t'.Run n done' waves') (hm : ∀ id, id ∈ done ↔ id ∈ done') :
    List.Forall₂ List.Perm waves waves' := by
  induction hrun generalizing done' waves' with
  | used =>
    cases hrun'
    exact .nil
  | quiet hf =>
    have hfire := h.fire_perm hd hs hm
    rw [hf, List.nil_perm] at hfire
    cases hrun' with
    | quiet => exact .cons (List.Perm.refl _) .nil
    | pass hf' => exact absurd hfire hf'
  | pass hf _ ih =>
    have hfire := h.fire_perm hd hs hm
    cases hrun' with
    | quiet hf' =>
      rw [hf', List.perm_nil] at hfire
      exact absurd hfire hf
    | pass hf' hrest =>
      refine .cons hfire (ih hrest ?_)
      intro id
      rw [List.mem_append, List.mem_append, hm, hfire.mem_iff]

end Task

namespace Solution

theorem get?_passesFrom_of_perm {waves waves' : List (List String)}
    (h : List.Forall₂ List.Perm waves waves') (k : Nat) (id : String) :
    Assoc.get? (passesFrom k waves) id = Assoc.get? (passesFrom k waves') id := by
  induction h generalizing k with
  | nil => rfl
  | cons hwave _ ih =>
    rw [get?_passesFrom_cons, get?_passesFrom_cons, ih]
    simp only [hwave.mem_iff]

end Solution

namespace Task

/-- A solution does not depend on the order of the catalog, of the rules or of the choices: every pass
triggers the same parts, and the passes end alike. -/
theorem solve_reorders (t t' : Task) (h : t.Reorders t') (hd : DistinctIds t.parts)
    (hs : ∀ r ∈ t.rules, r.condition.SpaceFree) (cap : Int) :
    let s := t.solve cap
    let s' := t'.solve cap
    (∀ id, Assoc.get? s.passOf id = Assoc.get? s'.passOf id) ∧ s.passes = s'.passes ∧
      s.capped = s'.capped ∧ List.Forall₂ List.Perm s.waves s'.waves := by
  have hwaves : List.Forall₂ List.Perm (t.waves cap.toNat []) (t'.waves cap.toNat []) :=
    h.waves_perm hd hs (run_waves t _ _) (run_waves t' _ _) fun _ => Iff.rfl
  refine ⟨Solution.get?_passesFrom_of_perm hwaves 1, hwaves.length_eq, ?_, hwaves⟩
  have hlast := h.fire_perm hd hs fun _ => (List.Perm.flatten_congr hwaves).mem_iff
  rw [solve, solve, hlast.isEmpty_eq]

def cabinTask : Task where
  parts := [{ id := "cabin", name := "HEATED CABIN" },
    { id := "hose", name := "HEATER HOSE", functionCode := 1 },
    { id := "shade", name := "SUNSHADE", functionCode := 1 },
    { id := "clamp", name := "HOSE CLAMP", functionCode := 1 }]
  rules := [{ id := "r1", target := "hose", condition := { includes := ["HEATED"] } },
    { id := "r2", target := "shade", condition := { includes := ["CABIN"], excludes := ["HOSE"] } },
    { id := "r3", target := "clamp", condition := { includes := ["HOSE"] } }]
  chosen := []

theorem solve_reorders_cabinTask :
    let reversed : Task := ⟨cabinTask.parts.reverse, cabinTask.rules.reverse, []⟩
    cabinTask.Reorders reversed ∧ DistinctIds cabinTask.parts ∧
      (∀ r ∈ cabinTask.rules, r.condition.SpaceFree) ∧
      (cabinTask.solve 1).capped = (reversed.solve 1).capped ∧
      Assoc.get? (cabinTask.solve 1).passOf "shade" = Assoc.get? (reversed.solve 1).passOf "shade" := by
  intro reversed
  have h : cabinTask.Reorders reversed :=
    ⟨(List.reverse_perm _).symm, (List.reverse_perm _).symm, fun _ => Iff.rfl⟩
  have hd : DistinctIds cabinTask.parts := by decide
  have hs : ∀ r ∈ cabinTask.rules, r.condition.SpaceFree := by decide +kernel
  obtain ⟨hpass, -, hcapped, -⟩ := solve_reorders cabinTask reversed h hd hs 1
  exact ⟨h, hd, hs, hcapped, hpass "shade"⟩

end Task

end Kitting
