import Kitting.Synthesis.Run

namespace Kitting.Synthesis

variable {α : Type} {size n : Nat} {l piece rest : List α} {pieces pieces' : List (List α)}

/-- Consecutive pieces of a list, none of them empty; each one is full unless nothing follows. -/
inductive Chunks (size : Nat) : List α → List (List α) → Prop
  | nil : Chunks size [] []
  | cons {piece rest : List α} {pieces : List (List α)} : piece ≠ [] → piece.length ≤ size →
      (rest ≠ [] → piece.length = size) → Chunks size rest pieces →
      Chunks size (piece ++ rest) (piece :: pieces)

namespace Chunks

theorem flatten (h : Chunks size l pieces) : pieces.flatten = l := by
  induction h with
  | nil => rfl
  | cons _ _ _ _ ih => rw [List.flatten_cons, ih]

theorem drop (h : Chunks size l pieces) (n : Nat) :
    Chunks size (pieces.drop n).flatten (pieces.drop n) := by
  induction h generalizing n with
  | nil =>
    rw [List.drop_nil]
    exact .nil
  | cons hne hle hfull hrest ih =>
    cases n with
    | zero =>
      rw [List.drop_zero, List.flatten_cons, hrest.flatten]
      exact .cons hne hle hfull hrest
    | succ n => exact ih n

theorem unique (h : Chunks size l pieces) (h' : Chunks size l pieces') : pieces = pieces' := by
  generalize hl : l = l' at h'
  induction h generalizing l' pieces' with
  | nil =>
    cases h' with
    | nil => rfl
    | cons hne _ _ _ => exact absurd (List.append_eq_nil_iff.1 hl.symm).1 hne
  | @cons piece rest pieces hne hle hfull hrest ih =>
    cases h' with
    | nil => exact absurd (List.append_eq_nil_iff.1 hl).1 hne
    | @cons piece' rest' pieces' hne' hle' hfull' hrest' =>
      have htotal := congrArg List.length hl
      rw [List.length_append, List.length_append] at htotal
      simp only [ne_eq, ← List.length_eq_zero_iff] at hfull hfull'
      have hlength : piece.length = piece'.length := by omega
      obtain ⟨rfl, rfl⟩ := List.append_inj hl hlength
      rw [ih _ rfl hrest']

end Chunks

theorem chunks_chunksFrom (hsize : 0 < size) {fuel : Nat} (hfuel : l.length ≤ fuel) :
    Chunks size l (chunksFrom size fuel l) := by
  induction fuel generalizing l with
  | zero =>
    rw [List.eq_nil_of_length_eq_zero (Nat.le_zero.1 hfuel)]
    exact .nil
  | succ fuel ih =>
    cases l with
    | nil => exact .nil
    | cons x xs =>
      rw [List.length_cons] at hfuel
      have hdrop : ((x :: xs).drop size).length ≤ fuel := by
        rw [List.length_drop, List.length_cons]
        omega
      rw [chunksFrom]
      suffices h : Chunks size ((x :: xs).take size ++ (x :: xs).drop size)
          ((x :: xs).take size :: chunksFrom size fuel ((x :: xs).drop size)) by
        rwa [List.take_append_drop] at h
      refine .cons ?_ (List.length_take_le _ _) ?_ (ih hdrop)
      · obtain ⟨n, rfl⟩ := Nat.exists_eq_add_of_le' hsize
        exact List.cons_ne_nil _ _
      · intro hrest
        rw [List.length_take, List.length_cons]
        rw [ne_eq, List.drop_eq_nil_iff, List.length_cons] at hrest
        omega

theorem chunks_clusters (settings : Settings) (numbers : List String) :
    Chunks (max settings.clusterSize 1).toNat numbers (clusters settings numbers) :=
  chunks_chunksFrom (by omega) (Nat.le_refl _)

end Kitting.Synthesis
