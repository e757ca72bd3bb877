import Kitting.Proofs.Solver.Closure
import Mathlib.Data.List.Infix
import Mathlib.Data.List.Perm.Subperm

namespace Kitting

namespace Task

variable {t : Task} {done : List String} {m n : Nat} {waves : List (List String)} {id : String}

def targets (t : Task) : List String := ((t.rules.filter fun r => t.Eligible r).map (·.target)).eraseDups

theorem mem_targets : id ∈ t.targets ↔ ∃ r ∈ t.rules, t.Eligible r ∧ r.target = id := by
  rw [targets, List.mem_eraseDups, List.mem_map]
  simp only [List.mem_filter, decide_eq_true_eq, and_assoc]

theorem waves_prefix (t : Task) (h : m ≤ n) (done : List String) : t.waves m done <+: t.waves n done := by
  induction m generalizing n done with
  | zero => exact List.nil_prefix
  | succ m ih =>
    obtain ⟨n, rfl⟩ := Nat.exists_eq_add_of_le' (Nat.lt_of_lt_of_le (Nat.succ_pos m) h)
    rw [Task.waves, Task.waves]
    split
    · exact List.prefix_rfl
    · exact (List.prefix_cons_inj _).2 (ih (Nat.le_of_succ_le_succ h) _)

theorem after_add (t : Task) (m n : Nat) (done : List String) :
    t.after (m + n) done = t.after n (t.after m done) := by
  induction m generalizing done with
  | zero => rw [Nat.zero_add, after]
  | succ m ih => rw [Nat.succ_add, after, after, ih]

theorem after_eq_of_le (h : m ≤ n) (hquiet : t.fire (t.after m done) = []) : t.after n done = t.after m done := by
  obtain ⟨k, rfl⟩ := Nat.exists_eq_add_of_le h
  rw [after_add, after_of_fire_eq_nil hquiet]

namespace Run

theorem length_le_succ (h : t.Run n done waves) : waves.length ≤ waves.flatten.length + 1 := by
  induction h with
  | used => exact Nat.zero_le _
  | quiet => exact Nat.le_refl 1
  | pass hfire _ ih =>
    have hpos := List.length_pos_of_ne_nil hfire
    rw [List.flatten_cons, List.length_append, List.length_cons]
    omega

theorem le_length_flatten (h : t.Run n done waves) (hfire : t.fire (done ++ waves.flatten) ≠ []) :
    n ≤ waves.flatten.length := by
  induction h with
  | used => exact Nat.zero_le _
  | quiet hnone => simp [hnone] at hfire
  | pass hsome _ ih =>
    rw [List.flatten_cons, ← List.append_assoc] at hfire
    have hpos := List.length_pos_of_ne_nil hsome
    have hle := ih hfire
    rw [List.flatten_cons, List.length_append]
    omega

end Run

theorem triggered_subset_targets (hd : DistinctIds t.parts) (cap : Int) : (t.solve cap).triggered ⊆ t.targets :=
  fun _ hid => mem_targets.2 (eligible_of_mem_triggered hd hid)

theorem length_triggered_le (hd : DistinctIds t.parts) (cap : Int) :
    (t.solve cap).triggered.length ≤ t.targets.length :=
  (List.Nodup.subperm (nodup_triggered hd cap) (triggered_subset_targets hd cap)).length_le

theorem length_triggered_lt (hd : DistinctIds t.parts) (cap : Int)
    (h : t.fire (t.solve cap).triggered ≠ []) : (t.solve cap).triggered.length < t.targets.length := by
  obtain ⟨id, hid⟩ := List.exists_mem_of_ne_nil _ h
  have hnew := notMem_of_mem_fire hd hid
  obtain ⟨r, hr, hfires, rfl⟩ := (mem_fire hd).1 hid
  have hmore : (r.target :: (t.solve cap).triggered).Nodup := List.nodup_cons.2 ⟨hnew, nodup_triggered hd cap⟩
  refine (List.Nodup.subperm hmore ?_).length_le
  exact List.cons_subset.2 ⟨mem_targets.2 ⟨r, hr, hfires.1, rfl⟩, triggered_subset_targets hd cap⟩

end Task

namespace Solution

theorem passesFrom_append (k : Nat) (waves later : List (List String)) :
    passesFrom k (waves ++ later) = passesFrom k waves ++ passesFrom (k + waves.length) later := by
  induction waves generalizing k with
  | nil => rfl
  | cons wave waves ih =>
    rw [List.cons_append, passesFrom, passesFrom, ih, List.append_assoc, List.length_cons, Nat.add_right_comm,
      Nat.add_assoc]

theorem passesFrom_prefix {waves waves' : List (List String)} (h : waves <+: waves') (k : Nat) :
    passesFrom k waves <+: passesFrom k waves' := by
  obtain ⟨later, rfl⟩ := h
  rw [passesFrom_append]
  exact List.prefix_append _ _

end Solution

namespace Task

variable {t : Task} {m n cap : Int} {id : String}

theorem triggered_prefix (t : Task) (h : m ≤ n) : (t.solve m).triggered <+: (t.solve n).triggered :=
  (t.waves_prefix (Int.toNat_le_toNat h) []).flatten

theorem passOf_prefix (t : Task) (h : m ≤ n) : (t.solve m).passOf <+: (t.solve n).passOf :=
  Solution.passesFrom_prefix (t.waves_prefix (Int.toNat_le_toNat h) []) 1

theorem get?_passOf_of_le (h : m ≤ n) (hid : id ∈ (t.solve m).triggered) :
    Assoc.get? (t.solve n).passOf id = Assoc.get? (t.solve m).passOf id := by
  obtain ⟨later, hlater⟩ := t.passOf_prefix h
  have hkey : id ∈ Assoc.keys (t.solve m).passOf := (Solution.keys_passesFrom 1 _).symm ▸ hid
  obtain ⟨k, hk⟩ := Assoc.mem_keys_iff.1 hkey
  rw [← hlater, Assoc.get?_append, hk, Option.some_or]

theorem capped_eq_false_iff_quiet : (t.solve cap).capped = false ↔ t.fire (t.solve cap).triggered = [] := by
  rw [solve, Solution.triggered, Bool.not_eq_false', List.isEmpty_iff]

theorem triggered_of_not_capped (h : m ≤ n) (hm : (t.solve m).capped = false) :
    (t.solve n).triggered = (t.solve m).triggered := by
  rw [capped_eq_false_iff_quiet, triggered_eq_after] at hm
  rw [triggered_eq_after, triggered_eq_after, after_eq_of_le (Int.toNat_le_toNat h) hm]

theorem passOf_of_not_capped (h : m ≤ n) (hm : (t.solve m).capped = false) :
    (t.solve n).passOf = (t.solve m).passOf := by
  refine ((t.passOf_prefix h).eq_of_length ?_).symm
  have hkeys (cap : Int) : (t.solve cap).passOf.length = (t.solve cap).triggered.length := by
    have hlength := congrArg List.length (Solution.keys_passesFrom 1 (t.solve cap).waves)
    rwa [Assoc.keys, List.length_map] at hlength
  rw [hkeys, hkeys, triggered_of_not_capped h hm]

theorem capped_eq_false_of_le (h : m ≤ n) (hm : (t.solve m).capped = false) : (t.solve n).capped = false := by
  rw [capped_eq_false_iff_quiet, triggered_of_not_capped h hm, ← capped_eq_false_iff_quiet]
  exact hm

theorem capped_eq_false_of_length_le (hd : DistinctIds t.parts) (h : t.targets.length ≤ cap) :
    (t.solve cap).capped = false := by
  rw [capped_eq_false_iff_quiet]
  by_contra hfire
  have hpasses : cap.toNat ≤ (t.solve cap).triggered.length :=
    (run_waves t cap.toNat []).le_length_flatten (by rwa [List.nil_append])
  have hlt := length_triggered_lt hd cap hfire
  omega

theorem passes_le_succ (hd : DistinctIds t.parts) (cap : Int) : (t.solve cap).passes ≤ t.targets.length + 1 :=
  Nat.le_trans (run_waves t cap.toNat []).length_le_succ (Nat.succ_le_succ (length_triggered_le hd cap))

/-- A higher cap only adds to what is triggered, and nothing once a run is not capped; and no run is capped
that may make as many passes as there are targets. -/
theorem solve_caps (t : Task) (hd : DistinctIds t.parts) :
    (∀ m n : Int, m ≤ n → (t.solve m).triggered <+: (t.solve n).triggered ∧
      ∀ id ∈ (t.solve m).triggered, Assoc.get? (t.solve n).passOf id = Assoc.get? (t.solve m).passOf id) ∧
    (∀ m n : Int, m ≤ n → (t.solve m).capped = false →
      (t.solve n).triggered = (t.solve m).triggered ∧ (t.solve n).passOf = (t.solve m).passOf ∧
        (t.solve n).capped = false) ∧
    ∀ cap : Int, t.targets.length ≤ cap →
      (t.solve cap).capped = false ∧ (t.solve cap).passes ≤ t.targets.length + 1 := by
  refine ⟨fun m n h => ⟨t.triggered_prefix h, fun id => get?_passOf_of_le h⟩, fun m n h hm => ?_, fun cap h => ?_⟩
  · exact ⟨triggered_of_not_capped h hm, passOf_of_not_capped h hm, capped_eq_false_of_le h hm⟩
  · exact ⟨capped_eq_false_of_length_le hd h, passes_le_succ hd cap⟩

theorem solve_caps_seatChain :
    DistinctIds seatChain.parts ∧
      ((-1 : Int) ≤ 1 ∧ (seatChain.solve (-1)).triggered <+: (seatChain.solve 1).triggered) ∧
      ((1 : Int) ≤ 2 ∧ "harness" ∈ (seatChain.solve 1).triggered ∧
        Assoc.get? (seatChain.solve 2).passOf "harness" = Assoc.get? (seatChain.solve 1).passOf "harness") ∧
      (seatChain.targets.length ≤ (2 : Int) ∧ (seatChain.solve 2).capped = false) ∧
      ((2 : Int) ≤ 5 ∧ (seatChain.solve 5).passOf = (seatChain.solve 2).passOf ∧
        (seatChain.solve 5).passes ≠ (seatChain.solve 2).passes) := by
  have hd : DistinctIds seatChain.parts := by decide
  obtain ⟨hmore, hsame, henough⟩ := solve_caps seatChain hd
  have hharness : "harness" ∈ (seatChain.solve 1).triggered := by decide +kernel
  have htargets : seatChain.targets.length ≤ (2 : Int) := by decide +kernel
  have hcapped := (henough 2 htargets).1
  exact ⟨hd, ⟨by decide, (hmore (-1) 1 (by decide)).1⟩,
    ⟨by decide, hharness, (hmore 1 2 (by decide)).2 "harness" hharness⟩, ⟨htargets, hcapped⟩,
    ⟨by decide, (hsame 2 5 (by decide) hcapped).2.1, by decide +kernel⟩⟩

end Task

end Kitting
