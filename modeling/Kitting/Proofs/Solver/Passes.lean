import Kitting.Proofs.Catalog
import Kitting.Proofs.FirstOccurrence
import Kitting.Solver

/-!
The passes of the solver.

`Task.Fires` says when a rule triggers its target after some others. Each wave consists of the targets of
the rules that fire after the waves before it, and `solve_passes` reads this off a solution: which pass
triggers a part, in what order, when the passes end, and what it means that they were cut off.
-/

namespace Kitting

namespace Task

variable {t : Task} {r : Rule} {id : String} {done : List String}

/-- A rule that may trigger its target: an active one for a configurable part of the catalog that is not
chosen. -/
def Eligible (t : Task) (r : Rule) : Prop :=
  r.active ∧ r.target ∉ t.chosen ∧ ∃ p ∈ t.parts, p.id = r.target ∧ p.isConfigurable

def Fires (t : Task) (done : List String) (r : Rule) : Prop :=
  t.Eligible r ∧ r.target ∉ done ∧ r.condition.holds (t.context done)

instance (t : Task) (r : Rule) : Decidable (t.Eligible r) :=
  inferInstanceAs (Decidable (_ ∧ _ ∧ _))

instance (t : Task) (done : List String) (r : Rule) : Decidable (t.Fires done r) :=
  inferInstanceAs (Decidable (_ ∧ _ ∧ _))

def firstRule (t : Task) (done : List String) (id : String) : Nat :=
  t.rules.findIdx fun r => t.Fires done r ∧ r.target = id

def fired? (t : Task) (done : List String) (r : Rule) : Option String :=
  if t.Fires done r then some r.target else none

theorem fired?_eq_some_iff : t.fired? done r = some id ↔ t.Fires done r ∧ r.target = id := by
  simp [fired?]

theorem any_isConfigurable_iff (hd : DistinctIds t.parts) :
    (partOf? t.parts id).any Part.isConfigurable ↔ ∃ p ∈ t.parts, p.id = id ∧ p.isConfigurable := by
  rw [Option.any_eq_true]
  simp only [partOf?_eq_some_iff hd, and_assoc]

theorem eligible_eq (hd : DistinctIds t.parts) : t.eligible = t.rules.filter fun r => t.Eligible r := by
  apply List.filter_congr
  intro r _
  rw [Bool.eq_iff_iff, decide_eq_true_iff, Bool.and_eq_true, Bool.and_eq_true,
    any_isConfigurable_iff hd, Eligible, Bool.not_eq_true', List.contains_eq_mem,
    decide_eq_false_iff_not, and_assoc]
  exact and_congr_right fun _ => and_comm

theorem fire_eq (hd : DistinctIds t.parts) (done : List String) :
    t.fire done = (t.rules.filterMap (t.fired? done)).eraseDups := by
  rw [fire, eligible_eq hd, List.filter_filter, ← List.filterMap_eq_filter, List.map_filterMap]
  congr 1
  apply List.filterMap_congr
  intro r _
  have hfires : (!done.contains r.target && r.condition.holds (t.context done) &&
      decide (t.Eligible r)) ↔ t.Fires done r := by
    simp only [Bool.and_eq_true, Bool.not_eq_true', List.contains_eq_mem, decide_eq_false_iff_not,
      decide_eq_true_iff, Fires]
    exact and_comm
  by_cases hf : t.Fires done r
  · rw [Option.guard, fired?, if_pos (hfires.2 hf), if_pos hf]
    rfl
  · rw [Option.guard, fired?, if_neg (mt hfires.1 hf), if_neg hf]
    rfl

theorem mem_fire (hd : DistinctIds t.parts) :
    id ∈ t.fire done ↔ ∃ r ∈ t.rules, t.Fires done r ∧ r.target = id := by
  rw [fire_eq hd, List.mem_eraseDups, List.mem_filterMap]
  simp only [fired?_eq_some_iff]

theorem nodup_fire (t : Task) (done : List String) : (t.fire done).Nodup := nodup_eraseDups _

theorem notMem_of_mem_fire (hd : DistinctIds t.parts) (h : id ∈ t.fire done) : id ∉ done := by
  obtain ⟨r, _, hr, rfl⟩ := (mem_fire hd).1 h
  exact hr.2.1

theorem pairwise_fire (hd : DistinctIds t.parts) (done : List String) :
    (t.fire done).Pairwise fun a b => t.firstRule done a < t.firstRule done b := by
  rw [fire_eq hd]
  have h := pairwise_eraseDups_filterMap (t.fired? done) t.rules
  simp only [fired?_eq_some_iff] at h
  exact h

def after (t : Task) : (n : Nat) → (done : List String) → List String
  | 0, done => done
  | n + 1, done => t.after n (done ++ t.fire done)

theorem after_of_fire_eq_nil (h : t.fire done = []) (n : Nat) : t.after n done = done := by
  induction n with
  | zero => rfl
  | succ n ih => rw [after, h, List.append_nil, ih]

theorem nodup_after (hd : DistinctIds t.parts) (h : done.Nodup) (n : Nat) : (t.after n done).Nodup := by
  induction n generalizing done with
  | zero => exact h
  | succ n ih =>
    apply ih
    refine List.nodup_append.2 ⟨h, nodup_fire t done, ?_⟩
    intro a ha b hb hab
    exact notMem_of_mem_fire hd hb (hab ▸ ha)

/-- The waves of a run: it ends when its passes are used up or one of them stays quiet. -/
inductive Run (t : Task) : (n : Nat) → (done : List String) → List (List String) → Prop
  | used {done : List String} : Run t 0 done []
  | quiet {n : Nat} {done : List String} : t.fire done = [] → Run t (n + 1) done [[]]
  | pass {n : Nat} {done : List String} {waves : List (List String)} : t.fire done ≠ [] →
      Run t n (done ++ t.fire done) waves → Run t (n + 1) done (t.fire done :: waves)

theorem run_waves (t : Task) (n : Nat) (done : List String) : t.Run n done (t.waves n done) := by
  induction n generalizing done with
  | zero => exact .used
  | succ n ih =>
    rw [waves]
    cases h : (t.fire done).isEmpty with
    | true =>
      rw [List.isEmpty_iff] at h
      rw [if_pos rfl, h]
      exact .quiet h
    | false =>
      rw [List.isEmpty_eq_false_iff] at h
      rw [if_neg Bool.false_ne_true]
      exact .pass h (ih _)

namespace Run

variable {n k : Nat} {wave : List String} {waves : List (List String)}

theorem append_flatten (h : t.Run n done waves) : done ++ waves.flatten = t.after n done := by
  induction h with
  | used => simp [after]
  | quiet hf =>
    rw [after_of_fire_eq_nil hf]
    simp
  | pass _ _ ih => rw [List.flatten_cons, ← List.append_assoc, ih, after]

theorem length_le (h : t.Run n done waves) : waves.length ≤ n := by
  induction h with
  | used => exact Nat.le_refl 0
  | quiet => simp
  | pass _ _ ih =>
    rw [List.length_cons]
    exact Nat.succ_le_succ ih

theorem eq_fire (h : t.Run n done waves) (hk : waves[k]? = some wave) :
    wave = t.fire (done ++ (waves.take k).flatten) := by
  induction h generalizing k with
  | used => simp at hk
  | quiet hf =>
    cases k with
    | zero => simpa [hf] using hk.symm
    | succ k => simp at hk
  | pass _ _ ih =>
    cases k with
    | zero => simpa using hk.symm
    | succ k =>
      rw [List.getElem?_cons_succ] at hk
      rw [List.take_succ_cons, List.flatten_cons, ← List.append_assoc]
      exact ih hk

theorem ne_nil (h : t.Run n done waves) (hk : waves[k]? = some wave) (hlt : k + 1 < waves.length) :
    wave ≠ [] := by
  induction h generalizing k with
  | used => simp at hk
  | quiet => simp at hlt
  | pass hf _ ih =>
    cases k with
    | zero =>
      rw [List.getElem?_cons_zero, Option.some.injEq] at hk
      exact hk ▸ hf
    | succ k => exact ih hk (by simpa using hlt)

theorem getLast?_of_length_lt (h : t.Run n done waves) (hlt : waves.length < n) :
    waves.getLast? = some [] := by
  induction h with
  | used => simp at hlt
  | quiet => rfl
  | pass _ _ ih =>
    rw [List.getLast?_cons, ih (by simpa using hlt)]
    rfl

end Run

end Task

namespace Solution

variable {s : Solution} {id : String}

theorem keys_passesFrom (k : Nat) (waves : List (List String)) :
    Assoc.keys (passesFrom k waves) = waves.flatten := by
  induction waves generalizing k with
  | nil => rfl
  | cons wave rest ih =>
    have hrest := ih (k + 1)
    simp only [Assoc.keys] at hrest ⊢
    rw [passesFrom, List.map_append, hrest, List.map_map, List.flatten_cons]
    simp [Function.comp_def]

theorem get?_passesFrom_cons (k : Nat) (wave : List String) (rest : List (List String)) (id : String) :
    Assoc.get? (passesFrom k (wave :: rest)) id =
      if id ∈ wave then some k else Assoc.get? (passesFrom (k + 1) rest) id := by
  rw [passesFrom]
  induction wave with
  | nil => rfl
  | cons a wave ih =>
    rw [List.map_cons, List.cons_append, Assoc.get?, ih]
    by_cases ha : a = id
    · simp [ha]
    · simp [ha, Ne.symm ha]

theorem get?_passesFrom_eq_some_iff {waves : List (List String)} (h : waves.flatten.Nodup) (k j : Nat) :
    Assoc.get? (passesFrom k waves) id = some j ↔
      ∃ i wave, waves[i]? = some wave ∧ id ∈ wave ∧ j = k + i := by
  induction waves generalizing k with
  | nil => simp [passesFrom]
  | cons wave rest ih =>
    rw [List.flatten_cons, List.nodup_append] at h
    obtain ⟨-, hrest, hdisj⟩ := h
    rw [get?_passesFrom_cons]
    by_cases hid : id ∈ wave
    · rw [if_pos hid, Option.some.injEq]
      constructor
      · rintro rfl
        exact ⟨0, wave, rfl, hid, rfl⟩
      · rintro ⟨i, other, hi, hother, rfl⟩
        cases i with
        | zero => rfl
        | succ i =>
          rw [List.getElem?_cons_succ] at hi
          have hflat := List.mem_flatten_of_mem (List.mem_of_getElem? hi) hother
          exact absurd rfl (hdisj id hid id hflat)
    · rw [if_neg hid, ih hrest]
      constructor
      · rintro ⟨i, other, hi, hother, rfl⟩
        exact ⟨i + 1, other, hi, hother, by omega⟩
      · rintro ⟨i, other, hi, hother, rfl⟩
        cases i with
        | zero =>
          rw [List.getElem?_cons_zero, Option.some.injEq] at hi
          exact absurd (hi ▸ hother) hid
        | succ i => exact ⟨i, other, hi, hother, by omega⟩

def before (s : Solution) (k : Nat) : List String :=
  s.triggered.filter fun id => (Assoc.get? s.passOf id).any (· < k)

theorem get?_passOf_eq_some_iff (h : s.triggered.Nodup) {k : Nat} :
    Assoc.get? s.passOf id = some (k + 1) ↔ ∃ wave, s.waves[k]? = some wave ∧ id ∈ wave := by
  rw [passOf, get?_passesFrom_eq_some_iff h]
  constructor
  · rintro ⟨i, wave, hi, hid, hk⟩
    obtain rfl : k = i := by omega
    exact ⟨wave, hi, hid⟩
  · rintro ⟨wave, hi, hid⟩
    exact ⟨k, wave, hi, hid, Nat.add_comm k 1⟩

theorem passOf_bounds (h : s.triggered.Nodup) {k : Nat} (hk : Assoc.get? s.passOf id = some k) :
    1 ≤ k ∧ k ≤ s.passes := by
  rw [passOf, get?_passesFrom_eq_some_iff h] at hk
  obtain ⟨i, wave, hi, -, rfl⟩ := hk
  obtain ⟨hlt, -⟩ := List.getElem?_eq_some_iff.1 hi
  exact ⟨Nat.le_add_right 1 i, by rw [passes]; omega⟩

theorem before_succ (h : s.triggered.Nodup) (k : Nat) :
    s.before (k + 1) = (s.waves.take k).flatten := by
  have hsplit : s.triggered = (s.waves.take k).flatten ++ (s.waves.drop k).flatten := by
    rw [triggered, ← List.flatten_append, List.take_append_drop]
  rw [before, hsplit, List.filter_append, List.filter_eq_self.2, List.filter_eq_nil_iff.2,
    List.append_nil]
  · intro id hid
    obtain ⟨wave, hwave, hid⟩ := List.mem_flatten.1 hid
    obtain ⟨i, hi⟩ := List.mem_iff_getElem?.1 hwave
    rw [List.getElem?_drop] at hi
    rw [(get?_passOf_eq_some_iff h).2 ⟨wave, hi, hid⟩]
    simp
  · intro id hid
    obtain ⟨wave, hwave, hid⟩ := List.mem_flatten.1 hid
    obtain ⟨i, hi⟩ := List.mem_iff_getElem?.1 hwave
    rw [List.getElem?_take] at hi
    split at hi
    case isTrue hik =>
      rw [(get?_passOf_eq_some_iff h).2 ⟨wave, hi, hid⟩]
      simpa using hik
    case isFalse => cases hi

end Solution

namespace Task

variable {t : Task} {id : String}

theorem nodup_triggered (hd : DistinctIds t.parts) (cap : Int) : (t.solve cap).triggered.Nodup := by
  have h := (run_waves t cap.toNat []).append_flatten
  rw [List.nil_append] at h
  change (t.waves cap.toNat []).flatten.Nodup
  rw [h]
  exact nodup_after hd List.nodup_nil _

theorem wave_eq_fire (hd : DistinctIds t.parts) (cap : Int) {k : Nat} {wave : List String}
    (h : (t.solve cap).waves[k]? = some wave) : wave = t.fire ((t.solve cap).before (k + 1)) := by
  rw [Solution.before_succ (nodup_triggered hd cap)]
  exact (run_waves t cap.toNat []).eq_fire h

theorem eligible_of_mem_triggered (hd : DistinctIds t.parts) {cap : Int}
    (h : id ∈ (t.solve cap).triggered) : ∃ r ∈ t.rules, t.Eligible r ∧ r.target = id := by
  obtain ⟨wave, hwave, hid⟩ := List.mem_flatten.1 h
  obtain ⟨k, hk⟩ := List.mem_iff_getElem?.1 hwave
  rw [wave_eq_fire hd cap hk] at hid
  obtain ⟨r, hr, hfires, hid⟩ := (mem_fire hd).1 hid
  exact ⟨r, hr, hfires.1, hid⟩

theorem pairwise_triggered (hd : DistinctIds t.parts) (cap : Int) :
    (t.solve cap).triggered.Pairwise fun a b =>
      ∃ j k, Assoc.get? (t.solve cap).passOf a = some j ∧ Assoc.get? (t.solve cap).passOf b = some k ∧
        (j < k ∨ j = k ∧
          t.firstRule ((t.solve cap).before k) a < t.firstRule ((t.solve cap).before k) b) := by
  have hn := nodup_triggered hd cap
  rw [Solution.triggered, List.pairwise_flatten]
  constructor
  · intro wave hwave
    obtain ⟨k, hk⟩ := List.mem_iff_getElem?.1 hwave
    have hp := pairwise_fire hd ((t.solve cap).before (k + 1))
    rw [← wave_eq_fire hd cap hk] at hp
    refine hp.imp_of_mem fun {a b} ha hb hab => ⟨k + 1, k + 1, ?_, ?_, .inr ⟨rfl, hab⟩⟩
    · exact (Solution.get?_passOf_eq_some_iff hn).2 ⟨wave, hk, ha⟩
    · exact (Solution.get?_passOf_eq_some_iff hn).2 ⟨wave, hk, hb⟩
  · rw [List.pairwise_iff_getElem]
    intro j k hj hk hjk a ha b hb
    refine ⟨j + 1, k + 1, ?_, ?_, .inl (by omega)⟩
    · exact (Solution.get?_passOf_eq_some_iff hn).2 ⟨_, List.getElem?_eq_getElem hj, ha⟩
    · exact (Solution.get?_passOf_eq_some_iff hn).2 ⟨_, List.getElem?_eq_getElem hk, hb⟩

theorem get?_passOf_iff_fires (hd : DistinctIds t.parts) (cap : Int) {k : Nat}
    (hk : k < (t.solve cap).passes) :
    Assoc.get? (t.solve cap).passOf id = some (k + 1) ↔
      ∃ r ∈ t.rules, t.Fires ((t.solve cap).before (k + 1)) r ∧ r.target = id := by
  have hwave := List.getElem?_eq_getElem hk
  rw [Solution.get?_passOf_eq_some_iff (nodup_triggered hd cap), ← mem_fire hd,
    ← wave_eq_fire hd cap hwave]
  constructor
  · rintro ⟨wave, hi, hid⟩
    rw [hwave, Option.some.injEq] at hi
    exact hi ▸ hid
  · intro hid
    exact ⟨_, hwave, hid⟩

theorem passes_le (t : Task) (cap : Int) : ((t.solve cap).passes : Int) ≤ max cap 0 := by
  have h : (t.solve cap).passes ≤ cap.toNat := (run_waves t cap.toNat []).length_le
  omega

theorem exists_get?_passOf (hd : DistinctIds t.parts) (cap : Int) {k : Nat}
    (hk : k + 1 < (t.solve cap).passes) : ∃ id, Assoc.get? (t.solve cap).passOf id = some (k + 1) := by
  have hwave := List.getElem?_eq_getElem (Nat.lt_of_succ_lt hk)
  obtain ⟨id, hid⟩ := List.exists_mem_of_ne_nil _ ((run_waves t cap.toNat []).ne_nil hwave hk)
  exact ⟨id, (Solution.get?_passOf_eq_some_iff (nodup_triggered hd cap)).2 ⟨_, hwave, hid⟩⟩

theorem last_pass_of_passes_lt (hd : DistinctIds t.parts) (cap : Int)
    (h : ((t.solve cap).passes : Int) < max cap 0) :
    1 ≤ (t.solve cap).passes ∧ ∀ id, Assoc.get? (t.solve cap).passOf id ≠ some (t.solve cap).passes := by
  have hlt : (t.solve cap).passes < cap.toNat := by omega
  have hlast : (t.solve cap).waves.getLast? = some [] :=
    (run_waves t cap.toNat []).getLast?_of_length_lt hlt
  obtain ⟨init, hinit⟩ := List.getLast?_eq_some_iff.1 hlast
  have hpasses : (t.solve cap).passes = init.length + 1 := by
    rw [Solution.passes, hinit, List.length_append, List.length_singleton]
  refine ⟨by omega, ?_⟩
  intro id hid
  rw [hpasses, Solution.get?_passOf_eq_some_iff (nodup_triggered hd cap), hinit] at hid
  obtain ⟨wave, hwave, hid⟩ := hid
  rw [List.getElem?_concat_length, Option.some.injEq] at hwave
  exact List.not_mem_nil (hwave ▸ hid)

theorem capped_eq_false_iff (hd : DistinctIds t.parts) (cap : Int) :
    (t.solve cap).capped = false ↔ ¬ ∃ r ∈ t.rules, t.Fires (t.solve cap).triggered r := by
  have hfire : (t.solve cap).capped = false ↔ t.fire (t.solve cap).triggered = [] := by
    simp [solve, Solution.triggered]
  rw [hfire, List.eq_nil_iff_forall_not_mem]
  constructor
  · rintro h ⟨r, hr, hfires⟩
    exact h r.target ((mem_fire hd).2 ⟨r, hr, hfires, rfl⟩)
  · intro h id hid
    obtain ⟨r, hr, hfires, -⟩ := (mem_fire hd).1 hid
    exact h ⟨r, hr, hfires⟩

/-- The solver runs pass after pass. The parts of a pass are the targets of the rules that fire after the
passes before it; the order is that of the passes and, inside one, of the rules; only a pass that triggers
nothing ends the run early; and it counts as capped exactly when some rule would still fire. -/
theorem solve_passes (t : Task) (hd : DistinctIds t.parts) (cap : Int) :
    let s := t.solve cap
    (∀ k, 1 ≤ k → k ≤ s.passes → ∀ id, Assoc.get? s.passOf id = some k ↔
      ∃ r ∈ t.rules, t.Fires (s.before k) r ∧ r.target = id) ∧
    (s.triggered.Nodup ∧ Assoc.keys s.passOf = s.triggered ∧
      (∀ id k, Assoc.get? s.passOf id = some k → 1 ≤ k ∧ k ≤ s.passes) ∧
      s.triggered.Pairwise fun a b => ∃ j k, Assoc.get? s.passOf a = some j ∧
        Assoc.get? s.passOf b = some k ∧
        (j < k ∨ j = k ∧ t.firstRule (s.before k) a < t.firstRule (s.before k) b)) ∧
    (∀ k, 1 ≤ k → k < s.passes → ∃ id, Assoc.get? s.passOf id = some k) ∧
    (s.passes : Int) ≤ max cap 0 ∧
    ((s.passes : Int) < max cap 0 →
      1 ≤ s.passes ∧ ∀ id, Assoc.get? s.passOf id ≠ some s.passes) ∧
    (s.capped = false ↔ ¬ ∃ r ∈ t.rules, t.Fires s.triggered r) := by
  have hn := nodup_triggered hd cap
  refine ⟨?_, ⟨hn, Solution.keys_passesFrom 1 _, fun id k => Solution.passOf_bounds hn,
    pairwise_triggered hd cap⟩, ?_, passes_le t cap, last_pass_of_passes_lt hd cap,
    capped_eq_false_iff hd cap⟩
  · intro k hk hle id
    obtain ⟨j, rfl⟩ := Nat.exists_eq_add_of_le' hk
    exact get?_passOf_iff_fires hd cap hle
  · intro k hk hlt
    obtain ⟨j, rfl⟩ := Nat.exists_eq_add_of_le' hk
    exact exists_get?_passOf hd cap hlt

def seatChain : Task where
  parts := [{ id := "seat", name := "SEAT" },
    { id := "harness", name := "HARNESS", functionCode := 1 },
    { id := "belt", name := "BELT", functionCode := 2 }]
  rules := [{ id := "r1", target := "belt", condition := { includes := ["HARNESS"] } },
    { id := "r2", target := "harness", condition := { includes := ["SEAT"], excludes := ["BELT"] } }]
  chosen := []

theorem solve_passes_seatChain :
    DistinctIds seatChain.parts ∧
      (let s := seatChain.solve 1
      (∃ r ∈ seatChain.rules, seatChain.Fires (s.before 1) r ∧ r.target = "harness") ∧
        ∃ r ∈ seatChain.rules, seatChain.Fires s.triggered r) := by
  have hd : DistinctIds seatChain.parts := by decide
  obtain ⟨hpass, -, -, -, -, hcapped⟩ := solve_passes seatChain hd 1
  refine ⟨hd, (hpass 1 (by decide) (by decide +kernel) "harness").1 (by decide +kernel), ?_⟩
  by_contra hnone
  exact absurd (hcapped.2 hnone) (by decide +kernel)

end Task

end Kitting
