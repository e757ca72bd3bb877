import Mathlib.Data.List.Basic

namespace Kitting

variable {α : Type} {le : α → α → Bool} {R : α → α → Prop}

theorem filter_mergeSort (trans : ∀ a b c, le a b → le b c → le a c)
    (total : ∀ a b, (le a b || le b a) = true) (l : List α) (x : α) :
    (l.mergeSort le).filter (fun a => le a x && le x a) = l.filter fun a => le a x && le x a := by
  have hlevel : (l.filter fun a => le a x && le x a).Pairwise fun a b => le a b := by
    rw [List.pairwise_filter]
    refine List.pairwise_of_forall fun a b => ?_
    simp only [Bool.and_eq_true]
    rintro ⟨hax, -⟩ ⟨-, hxb⟩
    exact trans a x b hax hxb
  have hsub := (List.sublist_mergeSort trans total hlevel List.filter_sublist).filter
    fun a => le a x && le x a
  rw [List.filter_filter] at hsub
  simp only [Bool.and_self] at hsub
  exact (hsub.eq_of_length ((List.mergeSort_perm l le).filter _).length_eq.symm).symm

theorem pairwise_mergeSort_stable (trans : ∀ a b c, le a b → le b c → le a c)
    (total : ∀ a b, (le a b || le b a) = true) {l : List α} (h : l.Pairwise R) :
    (l.mergeSort le).Pairwise fun a b => le a b ∧ (le b a → R a b) := by
  rw [List.pairwise_iff_forall_sublist]
  intro a b hab
  have hle : le a b := (List.pairwise_mergeSort trans total l).forall_sublist hab
  refine ⟨hle, fun hba => ?_⟩
  have hlevel := hab.filter fun x => le x a && le a x
  rw [filter_mergeSort trans total] at hlevel
  have hself : le a a := by simpa using total a a
  simp only [List.filter_cons, hself, hba, hle, Bool.and_self, if_true, List.filter_nil] at hlevel
  exact h.forall_sublist (hlevel.trans List.filter_sublist)

end Kitting
