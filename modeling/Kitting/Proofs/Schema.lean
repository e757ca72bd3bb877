import Kitting.Schema

namespace Kitting

variable {α β : Type}

inductive Check.OverflowsIff (P : Prop) : Check α → Prop
  | ok {a : α} : ¬P → OverflowsIff P ⟨.ok a⟩
  | invalid {ps : List Problem} : ¬P → OverflowsIff P ⟨.error (.invalid ps)⟩
  | overflow : P → OverflowsIff P ⟨.error .overflow⟩

def Reading.OverflowsOn (P : Json → Prop) (r : Reading α) : Prop := ∀ place v, (r place v).OverflowsIff (P v)

namespace Check

variable {P Q : Prop} {f : Check (α → β)} {x : Check α}

theorem OverflowsIff.congr (h : x.OverflowsIff P) (hPQ : P ↔ Q) : x.OverflowsIff Q := propext hPQ ▸ h

theorem OverflowsIff.pure (a : α) : (pure a : Check α).OverflowsIff False := .ok id

theorem OverflowsIff.misfit (m : Misfit) (place : List String) :
    (Reading.misfit m place : Check α).OverflowsIff False :=
  .invalid id

theorem OverflowsIff.seq (hf : f.OverflowsIff P) (hx : x.OverflowsIff Q) : (f <*> x).OverflowsIff (P ∨ Q) := by
  cases hf with
  | overflow hP => exact .overflow (.inl hP)
  | ok hP =>
    cases hx with
    | ok hQ => exact .ok (not_or.2 ⟨hP, hQ⟩)
    | invalid hQ => exact .invalid (not_or.2 ⟨hP, hQ⟩)
    | overflow hQ => exact .overflow (.inr hQ)
  | invalid hP =>
    cases hx with
    | ok hQ => exact .invalid (not_or.2 ⟨hP, hQ⟩)
    | invalid hQ => exact .invalid (not_or.2 ⟨hP, hQ⟩)
    | overflow hQ => exact .overflow (.inr hQ)

theorem OverflowsIff.map (g : α → β) (hx : x.OverflowsIff P) : (g <$> x).OverflowsIff P :=
  ((OverflowsIff.pure g).seq hx).congr (by rw [false_or])

end Check

namespace Reading

open Check

variable {P : Json → Prop} {r : Reading α}

theorem OverflowsOn.strict : strict.OverflowsOn fun _ => False := by
  intro place v
  cases v with
  | str s => exact .pure s
  | null | bool | int | float | arr | obj => exact .misfit _ _

theorem OverflowsOn.int : int.OverflowsOn fun _ => False := by
  intro place v
  rw [Reading.int.eq_def]
  repeat' split
  all_goals first | exact .pure _ | exact .misfit _ _

theorem OverflowsOn.listFrom (h : r.OverflowsOn P) (place : List String) (i : Nat) (vs : List Json) :
    (Check.all (listFrom r place i vs)).OverflowsIff (∃ v ∈ vs, P v) := by
  induction vs generalizing i with
  | nil => exact (OverflowsIff.pure []).congr (by simp)
  | cons v vs ih => exact (((h _ v).map List.cons).seq (ih (i + 1))).congr (by simp)

theorem OverflowsOn.list (h : r.OverflowsOn P) : (list r).OverflowsOn fun v => ∃ vs, v = .arr vs ∧ ∃ u ∈ vs, P u := by
  intro place v
  cases v with
  | arr vs => exact (h.listFrom place 0 vs).congr (by simp)
  | null | bool | int | float | str | obj => exact (OverflowsIff.misfit _ _).congr (by simp)

theorem OverflowsOn.optional (h : r.OverflowsOn P) (fs : Fields) (name : String) (default : α) :
    (fs.optional name r default).OverflowsIff (∃ v ∈ Assoc.get? fs.members name, P v) := by
  rw [Fields.optional]
  cases Assoc.get? fs.members name with
  | none => exact (OverflowsIff.pure default).congr (by simp)
  | some v => exact (h _ v).congr (by simp)

theorem OverflowsOn.required (h : r.OverflowsOn P) (fs : Fields) (name : String) :
    (fs.required name r).OverflowsIff (∃ v ∈ Assoc.get? fs.members name, P v) := by
  rw [Fields.required]
  cases Assoc.get? fs.members name with
  | none => exact (OverflowsIff.misfit _ _).congr (by simp)
  | some v => exact (h _ v).congr (by simp)

theorem OverflowsOn.record {f : Fields → Check α} (h : ∀ fs, (f fs).OverflowsIff (P (.obj fs.members)))
    (hrecord : ∀ v, P v → ∃ members, v = .obj members) : (record f).OverflowsOn P := by
  intro place v
  cases v with
  | obj members => exact h ⟨place, members⟩
  | null | bool | int | float | str | arr =>
    refine .invalid fun hP => ?_
    obtain ⟨members, hv⟩ := hrecord _ hP
    cases hv

theorem forall_of_list {Q : α → Prop} (h : ∀ place v a, (r place v).result = .ok a → Q a) {place : List String}
    {v : Json} {as : List α} (hread : (list r place v).result = .ok as) : ∀ a ∈ as, Q a := by
  suffices hall : ∀ i vs as, (Check.all (listFrom r place i vs)).result = .ok as → ∀ a ∈ as, Q a by
    cases v with
    | arr vs => exact hall 0 vs as hread
    | null | bool | int | float | str | obj => cases hread
  intro i vs
  induction vs generalizing i with
  | nil =>
    rintro as ⟨⟩
    exact List.forall_mem_nil _
  | cons v vs ih =>
    intro as hread
    rw [listFrom, Check.all, Check.seq_eq_ok_iff] at hread
    obtain ⟨_, rest, hfirst, hrest, rfl⟩ := hread
    obtain ⟨a, ha, rfl⟩ := Check.map_eq_ok_iff.1 hfirst
    exact List.forall_mem_cons.2 ⟨h _ _ _ ha, ih _ _ hrest⟩

end Reading

end Kitting
