import Kitting.Proofs.FirstOccurrence
import Kitting.Proofs.Selection.Groups
import Kitting.Proofs.Sorting
import Mathlib.Data.Int.Order.Basic
import Mathlib.Data.List.Sort
import Mathlib.Order.Bounds.Basic

namespace Kitting

variable {parts : List Part} {groups groups' : List (String × List Part)} {key : String} {ps : List Part}

def preferences (ps : List Part) : Set Int := {n | ∃ p ∈ ps, p.effectivePreference = n}

def firstPlace (parts : List Part) (key : String) : Nat :=
  ((parts.filter Part.isConfigurable).map Part.groupKey).idxOf key

def Precedes (parts : List Part) (g h : String × List Part) : Prop :=
  ∃ m n, IsLeast (preferences g.2) m ∧ IsLeast (preferences h.2) n ∧
    (m < n ∨ m = n ∧ firstPlace parts g.1 < firstPlace parts h.1)

theorem Precedes.asymm {g h : String × List Part} (hgh : Precedes parts g h) : ¬Precedes parts h g := by
  obtain ⟨m, n, hm, hn, hlt⟩ := hgh
  rintro ⟨n', m', hn', hm', hlt'⟩
  obtain rfl := hm.unique hm'
  obtain rfl := hn.unique hn'
  omega

instance (parts : List Part) : Std.Asymm (Precedes parts) where
  asymm _ _ := Precedes.asymm

structure Grouping (parts : List Part) (groups : List (String × List Part)) : Prop where
  distinct : (groups.map (·.1)).Nodup
  mem_iff : ∀ key ps, (key, ps) ∈ groups ↔ ps = membersOf parts key ∧ ps ≠ []
  ordered : groups.Pairwise (Precedes parts)

theorem Grouping.unique (h : Grouping parts groups) (h' : Grouping parts groups') : groups = groups' :=
  h.ordered.eq_of_mem_iff h'.ordered fun (key, ps) => (h.mem_iff key ps).trans (h'.mem_iff key ps).symm

theorem flatMap_filter_perm {α κ : Type} [DecidableEq κ] (keyOf : α → κ) (xs : List α) {keys : List κ}
    (h : keys.Nodup) :
    (keys.flatMap fun key => xs.filter (keyOf · = key)).Perm (xs.filter (keyOf · ∈ keys)) := by
  induction keys with
  | nil => simp
  | cons key keys ih =>
    rw [List.nodup_cons] at h
    have hkey : (xs.filter (keyOf · ∈ key :: keys)).filter (keyOf · = key) = xs.filter (keyOf · = key) := by
      rw [List.filter_filter]
      refine List.filter_congr fun x _ => ?_
      by_cases hx : keyOf x = key <;> simp [hx]
    have hrest : (xs.filter (keyOf · ∈ key :: keys)).filter (fun x => !decide (keyOf x = key)) =
        xs.filter (keyOf · ∈ keys) := by
      rw [List.filter_filter]
      refine List.filter_congr fun x _ => ?_
      by_cases hx : keyOf x = key <;> simp [hx, h.1]
    have hsplit := List.filter_append_perm (fun x => decide (keyOf x = key)) (xs.filter (keyOf · ∈ key :: keys))
    rw [hkey, hrest] at hsplit
    rw [List.flatMap_cons]
    exact ((ih h.2).append_left _).trans hsplit

theorem Grouping.covers (h : Grouping parts groups) :
    (groups.flatMap (·.2)).Perm (parts.filter Part.isConfigurable) := by
  have hmembers : groups.flatMap (·.2) = (groups.map (·.1)).flatMap (membersOf parts) := by
    rw [List.flatMap_map]
    exact List.flatMap_congr fun (key, ps) hmem => ((h.mem_iff key ps).1 hmem).1
  have hall : (parts.filter Part.isConfigurable).filter (fun p => p.groupKey ∈ groups.map (·.1)) =
      parts.filter Part.isConfigurable := by
    refine List.filter_eq_self.2 fun p hp => ?_
    obtain ⟨hp, hc⟩ := List.mem_filter.1 hp
    have hmem := (h.mem_iff p.groupKey _).2 ⟨rfl, List.ne_nil_of_mem (mem_membersOf.2 ⟨hp, hc, rfl⟩)⟩
    simpa using ⟨_, hmem⟩
  rw [hmembers, ← hall]
  exact flatMap_filter_perm Part.groupKey _ h.distinct

theorem isLeast_best (h : ps ≠ []) : IsLeast (preferences ps) (groupParts.best ps) := by
  cases hmin : (ps.map Part.effectivePreference).min? with
  | none =>
    rw [List.min?_eq_none_iff, List.map_eq_nil_iff] at hmin
    exact absurd hmin h
  | some n =>
    rw [groupParts.best, hmin, Option.getD_some]
    obtain ⟨hmem, hle⟩ := List.min?_eq_some_iff.1 hmin
    constructor
    · simpa [preferences] using hmem
    · rintro _ ⟨p, hp, rfl⟩
      exact hle _ (List.mem_map_of_mem hp)

def unsortedGroups (parts : List Part) : Assoc String (List Part) :=
  (parts.filter Part.isConfigurable).foldl
    (fun groups p => Assoc.alter (fun ps => ps.getD [] ++ [p]) p.groupKey groups) []

theorem keys_unsortedGroups (parts : List Part) :
    Assoc.keys (unsortedGroups parts) = ((parts.filter Part.isConfigurable).map Part.groupKey).eraseDups := by
  refine (Assoc.keys_foldl_alter (fun p ps => ps.getD [] ++ [p]) Part.groupKey _ []).trans ?_
  simp [Assoc.keys]

theorem pairwise_unsortedGroups (parts : List Part) :
    (unsortedGroups parts).Pairwise fun g h => firstPlace parts g.1 < firstPlace parts h.1 := by
  have hfirst := pairwise_eraseDups_filterMap some ((parts.filter Part.isConfigurable).map Part.groupKey)
  rw [List.filterMap_some, ← keys_unsortedGroups, Assoc.keys, List.pairwise_map] at hfirst
  refine hfirst.imp fun {g h} hlt => ?_
  simpa [firstPlace, List.idxOf, beq_eq_decide] using hlt

theorem grouping_groupParts (parts : List Part) : Grouping parts (groupParts parts) := by
  have hperm : (groupParts parts).Perm (unsortedGroups parts) := List.mergeSort_perm _ _
  constructor
  case distinct =>
    rw [(hperm.map _).nodup_iff, ← Assoc.keys, keys_unsortedGroups]
    exact nodup_eraseDups _
  case mem_iff => exact fun key ps => mem_groupParts
  case ordered =>
    refine List.Pairwise.imp_of_mem (fun {g h} hg hh hgh => ?_) (pairwise_mergeSort_stable
      (fun a b c => by simpa using le_trans) (fun a b => by simpa using le_total _ _)
      (pairwise_unsortedGroups parts))
    refine ⟨_, _, isLeast_best (mem_groupParts.1 hg).2, isLeast_best (mem_groupParts.1 hh).2, ?_⟩
    simp only [decide_eq_true_eq] at hgh
    omega

namespace Report

variable {user order logic user' order' logic' : List String}

/-- What a report says of the groups that must be settled, for the ids that are chosen. -/
structure Accounts (parts : List Part) (chosen : List String) (r : Report) : Prop where
  total_eq : r.total = ((parts.filter Part.isExclusive).map Part.groupKey).eraseDups.length
  missing_sublist : r.missing.Sublist ((groupParts parts).map (·.1))
  mem_missing : ∀ key, key ∈ r.missing ↔
    (∃ p ∈ parts, p.isExclusive ∧ p.groupKey = key) ∧ ¬∃ p ∈ membersOf parts key, p.id ∈ chosen
  satisfied_add : r.satisfied + r.missing.length = r.total
  progress_nonneg : 0 ≤ r.progress
  progress_le : r.progress ≤ 100
  progress_eq_iff : r.progress = 100 ↔ r.isValid
  isValid_iff : r.isValid ↔ r.missing = []
  progress_floor : r.missing ≠ [] →
    r.total * r.progress ≤ 100 * r.satisfied ∧ 100 * r.satisfied < r.total * (r.progress + 1)

def percent (n total : Nat) : Nat := if total = 0 then 100 else n * 100 / total

theorem percent_floor {n total : Nat} (h : total ≠ 0) :
    total * percent n total ≤ 100 * n ∧ 100 * n < total * (percent n total + 1) := by
  rw [percent, if_neg h, Nat.mul_comm 100 n]
  exact ⟨Nat.mul_div_le _ _, Nat.lt_mul_div_succ _ (Nat.pos_of_ne_zero h)⟩

theorem percent_le {n total : Nat} (h : n ≤ total) : percent n total ≤ 100 := by
  rw [percent]
  split
  case isTrue => rfl
  case isFalse => exact Nat.div_le_of_le_mul (Nat.mul_le_mul_right 100 h)

theorem percent_eq_iff {n total : Nat} (h : n ≤ total) : percent n total = 100 ↔ n = total := by
  by_cases hzero : total = 0
  · subst hzero
    simp [percent, Nat.le_zero.1 h]
  · obtain ⟨hle, hlt⟩ := percent_floor (n := n) hzero
    constructor
    · intro hp
      rw [hp] at hle
      omega
    · rintro rfl
      rw [percent, if_neg hzero, Nat.mul_div_cancel_left 100 (Nat.pos_of_ne_zero hzero)]

example : percent 299 300 = 99 := by decide

theorem percent_mono {n n' : Nat} (total : Nat) (h : n ≤ n') : percent n total ≤ percent n' total := by
  rw [percent, percent]
  split
  case isTrue => rfl
  case isFalse => exact Nat.div_le_div_right (Nat.mul_le_mul_right 100 h)

theorem progress_of : (Report.of parts user order logic).progress =
    percent ((exclusiveGroups parts).length - (Report.of parts user order logic).missing.length)
      (exclusiveGroups parts).length := by
  simp only [Report.of, percent]
  split <;> rfl

theorem missing_length_le (parts : List Part) (user order logic : List String) :
    (Report.of parts user order logic).missing.length ≤ (exclusiveGroups parts).length := by
  rw [Report.of, List.length_map]
  exact List.length_filter_le _ _

theorem length_exclusiveGroups (parts : List Part) :
    (exclusiveGroups parts).length = ((parts.filter Part.isExclusive).map Part.groupKey).eraseDups.length := by
  have hdistinct : ((exclusiveGroups parts).map (·.1)).Nodup :=
    (grouping_groupParts parts).distinct.sublist (List.filter_sublist.map _)
  rw [← List.length_map (·.1)]
  refine ((List.perm_ext_iff_of_nodup hdistinct (nodup_eraseDups _)).2 fun key => ?_).length_eq
  rw [List.mem_eraseDups, List.mem_map, List.mem_map]
  constructor
  · rintro ⟨⟨key, ps⟩, hg, rfl⟩
    obtain ⟨-, p, hp, he, hkey⟩ := mem_exclusiveGroups.1 hg
    exact ⟨p, List.mem_filter.2 ⟨hp, he⟩, hkey⟩
  · rintro ⟨p, hp, hkey⟩
    obtain ⟨hp, he⟩ := List.mem_filter.1 hp
    exact ⟨(key, membersOf parts key), mem_exclusiveGroups.2 ⟨rfl, p, hp, he, hkey⟩, rfl⟩

theorem of_accounts (parts : List Part) (user order logic : List String) :
    Accounts parts (user ++ order ++ logic) (Report.of parts user order logic) := by
  have hle := missing_length_le parts user order logic
  have hsatisfied : (Report.of parts user order logic).satisfied =
      ((exclusiveGroups parts).length - (Report.of parts user order logic).missing.length : Nat) := rfl
  have htotal : (Report.of parts user order logic).total = (exclusiveGroups parts).length := rfl
  have hvalid : (Report.of parts user order logic).isValid ↔ (Report.of parts user order logic).missing = [] :=
    List.isEmpty_iff
  constructor
  case total_eq => rw [htotal, length_exclusiveGroups]
  case missing_sublist => exact (List.filter_sublist.trans List.filter_sublist).map _
  case mem_missing => exact fun key => mem_missing
  case satisfied_add => omega
  case progress_nonneg => rw [progress_of]; exact Int.natCast_nonneg _
  case progress_le => rw [progress_of]; exact_mod_cast percent_le (Nat.sub_le _ _)
  case progress_eq_iff =>
    rw [hvalid, ← List.length_eq_zero_iff, progress_of]
    have hiff := percent_eq_iff (Nat.sub_le (exclusiveGroups parts).length
      (Report.of parts user order logic).missing.length)
    omega
  case isValid_iff => exact hvalid
  case progress_floor =>
    intro hmissing
    have hsome := List.length_pos_iff.2 hmissing
    rw [htotal, hsatisfied, progress_of]
    exact_mod_cast percent_floor (by omega)

theorem missing_sublist_of_subset (parts : List Part) (hu : user ⊆ user') (ho : order ⊆ order') (hl : logic ⊆ logic') :
    (Report.of parts user' order' logic').missing.Sublist (Report.of parts user order logic).missing := by
  refine (List.monotone_filter_right _ fun g hopen => ?_).map _
  rw [Bool.not_eq_true', List.any_eq_false] at hopen ⊢
  intro p hp hchosen
  refine hopen p hp ?_
  rw [List.contains_eq_mem, decide_eq_true_eq] at hchosen ⊢
  simp only [List.mem_append] at hchosen ⊢
  exact hchosen.imp (Or.imp (@hu _) (@ho _)) (@hl _)

theorem progress_mono (parts : List Part) (hu : user ⊆ user') (ho : order ⊆ order') (hl : logic ⊆ logic') :
    (Report.of parts user order logic).progress ≤ (Report.of parts user' order' logic').progress := by
  have hfewer := (missing_sublist_of_subset parts hu ho hl).length_le
  rw [progress_of, progress_of]
  exact_mod_cast percent_mono _ (Nat.sub_le_sub_left hfewer _)

end Report

end Kitting
