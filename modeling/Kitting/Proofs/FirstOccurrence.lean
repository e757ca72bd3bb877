import Mathlib.Data.List.Induction
import Mathlib.Data.List.Nodup

namespace Kitting

section First

variable {α : Type} {P : α → Prop} {l : List α} {a : α}

def First (P : α → Prop) (l : List α) (a : α) : Prop :=
  P a ∧ ∃ before after, l = before ++ a :: after ∧ ∀ b ∈ before, ¬P b

theorem First.mem (h : First P l a) : a ∈ l := by
  obtain ⟨-, before, after, rfl, -⟩ := h
  simp

theorem find?_eq_some_iff_first {p : α → Bool} : l.find? p = some a ↔ First (p · = true) l a := by
  rw [List.find?_eq_some_iff_append]
  simp [First]

theorem exists_first (h : ∃ a ∈ l, P a) : ∃ a, First P l a := by
  classical
  obtain ⟨a, ha, hP⟩ := h
  have hsome : (l.find? (P ·)).isSome := List.find?_isSome.2 ⟨a, ha, by simpa using hP⟩
  obtain ⟨b, hb⟩ := Option.isSome_iff_exists.1 hsome
  exact ⟨b, by simpa using find?_eq_some_iff_first.1 hb⟩

end First

theorem eq_singleton_of_nodup {α : Type} {l : List α} {a : α} (hn : l.Nodup) (ha : a ∈ l)
    (hone : ∀ b ∈ l, b = a) : l = [a] := by
  rw [← List.perm_singleton, List.perm_ext_iff_of_nodup hn (List.nodup_singleton a)]
  intro b
  rw [List.mem_singleton]
  constructor
  · exact hone b
  · rintro rfl
    exact ha

section Last

variable {α β : Type}

theorem getLast?_filterMap_eq_some_iff {f : α → Option β} {l : List α} {b : β} :
    (l.filterMap f).getLast? = some b ↔
      ∃ n : Nat, l[n]?.bind f = some b ∧ ∀ (m : Nat) b', l[m]?.bind f = some b' → m ≤ n := by
  induction l using List.reverseRecOn generalizing b with
  | nil => simp
  | append_singleton l a ih =>
    cases ha : f a with
    | none =>
      have hget (n : Nat) : (l ++ [a])[n]?.bind f = l[n]?.bind f := by
        rw [List.getElem?_append]
        split
        case isTrue => rfl
        case isFalse h =>
          rw [List.getElem?_eq_none (Nat.le_of_not_lt h)]
          cases hn : [a][n - l.length]? with
          | none => rfl
          | some a' => simp_all [List.getElem?_singleton]
      simp only [List.filterMap_append, List.filterMap_cons_none ha, List.filterMap_nil, List.append_nil, ih, hget]
    | some c =>
      have hlast : (l ++ [a])[l.length]?.bind f = some c := by simp [ha]
      rw [List.filterMap_append, List.filterMap_cons_some ha, List.filterMap_nil, List.getLast?_concat]
      constructor
      · rintro ⟨⟩
        refine ⟨l.length, hlast, fun m b' hm => ?_⟩
        obtain ⟨x, hx, -⟩ := Option.bind_eq_some_iff.1 hm
        obtain ⟨hlt, -⟩ := List.getElem?_eq_some_iff.1 hx
        simpa [Nat.lt_succ_iff] using hlt
      · rintro ⟨n, hn, hmax⟩
        obtain ⟨x, hx, -⟩ := Option.bind_eq_some_iff.1 hn
        obtain ⟨hlt, -⟩ := List.getElem?_eq_some_iff.1 hx
        have hle := hmax _ _ hlast
        have heq : n = l.length := by simp at hlt; omega
        rw [← hlast, ← heq, hn]

end Last

variable {α β : Type} [DecidableEq β]

def exceptValue (f : α → Option β) (c : β) (x : α) : Option β := if f x = some c then none else f x

theorem exceptValue_eq_some_iff {f : α → Option β} {b c : β} (h : b ≠ c) (x : α) :
    exceptValue f c x = some b ↔ f x = some b := by
  simp only [exceptValue]
  split
  case isTrue hx => simp [hx, Ne.symm h]
  case isFalse => rfl

theorem filterMap_exceptValue (f : α → Option β) (c : β) (l : List α) :
    l.filterMap (exceptValue f c) = (l.filterMap f).filter (fun b => !b == c) := by
  rw [List.filter_filterMap]
  apply List.filterMap_congr
  intro x _
  simp only [exceptValue]
  cases f x with
  | none => simp
  | some b => by_cases hb : b = c <;> simp [Option.filter, hb]

theorem pairwise_eraseDups_filterMap (f : α → Option β) (l : List α) :
    (l.filterMap f).eraseDups.Pairwise fun a b =>
      l.findIdx (f · = some a) < l.findIdx (f · = some b) := by
  -- The tail is read off without the value of the head, hence for all `f` at once.
  induction l generalizing f with
  | nil => simp
  | cons x l ih =>
    cases hx : f x with
    | none =>
      rw [List.filterMap_cons_none hx]
      refine (ih f).imp fun {a b} hab => ?_
      simpa [List.findIdx_cons, hx] using hab
    | some c =>
      have hne : ∀ b ∈ (l.filterMap (exceptValue f c)).eraseDups, b ≠ c := by
        intro b hb
        rw [List.mem_eraseDups, filterMap_exceptValue, List.mem_filter] at hb
        simpa using hb.2
      rw [List.filterMap_cons_some hx, List.eraseDups_cons, ← filterMap_exceptValue,
        List.pairwise_cons]
      constructor
      · intro b hb
        simp [List.findIdx_cons, hx, Ne.symm (hne b hb)]
      · refine (ih (exceptValue f c)).imp_of_mem fun {a b} ha hb hab => ?_
        simp only [exceptValue_eq_some_iff (hne a ha), exceptValue_eq_some_iff (hne b hb)] at hab
        simpa [List.findIdx_cons, hx, Ne.symm (hne a ha), Ne.symm (hne b hb)] using hab

theorem nodup_eraseDups (l : List β) : l.eraseDups.Nodup := by
  have h := pairwise_eraseDups_filterMap some l
  rw [List.filterMap_some] at h
  exact h.imp fun hlt heq => by simp [heq] at hlt

end Kitting
