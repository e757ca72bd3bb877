import Kitting.Order
import Kitting.Proofs.Knowledge.Stores
import Mathlib.Logic.Relation

namespace Kitting.Order

open Text

variable {o : Order} {pages pages' xs ys : List Order}

def HasModel (o : Order) : Prop := trim o.model = o.model ∧ o.model ≠ ""

instance (o : Order) : Decidable o.HasModel := inferInstanceAs (Decidable (_ ∧ _))

theorem hasModel_of_modelOf {o : Order} (v : Json) (h : o.model = modelOf v) : o.HasModel := by
  rw [HasModel, h, modelOf]
  split
  case isTrue => decide
  case isFalse hne => exact ⟨v.trim_trimmed, by simpa using hne⟩

theorem hasModel_of_generic {o : Order} (h : o.model = genericModel) : o.HasModel :=
  hasModel_of_modelOf .null h

theorem hasModel_of_reading {place : List String} {v : Json} {o : Order}
    (h : (reading place v).result = .ok o) : o.HasModel := by
  rw [reading, Reading.record_eq_ok_iff] at h
  obtain ⟨members, rfl, h⟩ := h
  simp only [Check.seq_eq_ok_iff, Check.map_eq_ok_iff, Fields.result_optional_pure, Except.ok.injEq] at h
  obtain ⟨_, _, ⟨_, _, ⟨_, rfl, rfl⟩, -, rfl⟩, -, rfl⟩ := h
  cases Assoc.get? members "model" with
  | none => exact hasModel_of_generic rfl
  | some v => exact hasModel_of_modelOf v rfl

theorem hasModel_ofPayload (s : String) : (ofPayload s).HasModel := by
  rw [ofPayload]
  split
  · exact hasModel_of_modelOf _ rfl
  · exact hasModel_of_generic rfl

theorem hasModel_merge (pages : List Order) : (merge pages).HasModel := by
  rw [merge]
  cases pages.find? isSpecific with
  | none => exact hasModel_of_generic rfl
  | some o => exact hasModel_of_modelOf (.str (upper o.model)) (by simp only)

def specific? (o : Order) : Option String := (Option.guard isSpecific o).map (upper ·.model)

def number? (o : Order) : Option String := (Option.guard (!·.number.isEmpty) o).map Order.number

theorem specific?_eq_some_iff {u : String} : o.specific? = some u ↔
    upper o.model = u ∧ o.model ≠ "" ∧ upper o.model ≠ upper genericModel := by
  simp [specific?, isSpecific, and_comm]

theorem number?_eq_some_iff {s : String} : o.number? = some s ↔ o.number = s ∧ s ≠ "" := by
  simp only [number?, Option.map_eq_some_iff, Option.guard_eq_some_iff]
  constructor
  · rintro ⟨_, ⟨rfl, hne⟩, rfl⟩
    exact ⟨rfl, by simpa using hne⟩
  · rintro ⟨rfl, hne⟩
    exact ⟨o, ⟨rfl, by simpa using hne⟩, rfl⟩

theorem upper_model_ne (h : o.HasModel) : upper o.model ≠ "" := by
  rw [← String.toList_inj.ne, toList_upper]
  simpa using h.2

theorem modelOf_str {s : String} (htrim : trim s = s) (hne : s ≠ "") : modelOf (.str s) = s := by
  have htrimmed : (Json.str s).trimmed = s := htrim
  rw [modelOf, htrimmed, if_neg (by simpa using hne)]

theorem merge_eq (h : ∀ o ∈ pages, o.HasModel) : merge pages =
    { model := (pages.findSome? specific?).getD genericModel
      number := (pages.findSome? number?).getD ""
      lines := pages.flatMap (·.lines) } := by
  have hspecific : pages.findSome? specific? = (pages.find? isSpecific).map (upper ·.model) := by
    rw [List.find?_eq_findSome?_guard, List.map_findSome?]
    rfl
  have hnumber : pages.findSome? number? = (pages.find? (!·.number.isEmpty)).map Order.number := by
    rw [List.find?_eq_findSome?_guard, List.map_findSome?]
    rfl
  rw [merge, hspecific, hnumber]
  congr 1
  · cases hfind : pages.find? isSpecific with
    | none => rfl
    | some o =>
      have ho := h o (List.mem_of_find?_eq_some hfind)
      exact modelOf_str (trim_upper ho.1) (upper_model_ne ho)
  · cases pages.find? (!·.number.isEmpty) <;> rfl

theorem specific?_merge (h : ∀ o ∈ pages, o.HasModel) : (merge pages).specific? = pages.findSome? specific? := by
  -- A merged order names the model that its pages name first: that one is in upper case already.
  have hmodel : (merge pages).model = (pages.findSome? specific?).getD genericModel := by rw [merge_eq h]
  cases hfirst : pages.findSome? specific? with
  | none =>
    rw [hfirst, Option.getD_none] at hmodel
    rw [Option.eq_none_iff_forall_ne_some]
    intro u hu
    exact (specific?_eq_some_iff.1 hu).2.2 (by rw [hmodel])
  | some u =>
    obtain ⟨o, ho, hu⟩ := List.exists_of_findSome?_eq_some hfirst
    obtain ⟨rfl, -, hgeneric⟩ := specific?_eq_some_iff.1 hu
    rw [hfirst, Option.getD_some] at hmodel
    rw [specific?_eq_some_iff, hmodel, upper_upper]
    exact ⟨rfl, upper_model_ne (h o ho), hgeneric⟩

theorem number?_merge (h : ∀ o ∈ pages, o.HasModel) : (merge pages).number? = pages.findSome? number? := by
  have hnumber : (merge pages).number = (pages.findSome? number?).getD "" := by rw [merge_eq h]
  cases hfirst : pages.findSome? number? with
  | none =>
    rw [hfirst, Option.getD_none] at hnumber
    rw [Option.eq_none_iff_forall_ne_some]
    intro s hs
    obtain ⟨rfl, hne⟩ := number?_eq_some_iff.1 hs
    exact hne hnumber
  | some s =>
    obtain ⟨o, -, hs⟩ := List.exists_of_findSome?_eq_some hfirst
    rw [hfirst, Option.getD_some] at hnumber
    exact number?_eq_some_iff.2 ⟨hnumber, (number?_eq_some_iff.1 hs).2⟩

theorem lines_merge (pages : List Order) : (merge pages).lines = pages.flatMap (·.lines) := rfl

/-- Some neighbouring pages, perhaps none, give way to the order that they merge to. -/
inductive Collates : List Order → List Order → Prop
  | run (before pages after : List Order) :
      Collates (before ++ pages ++ after) (before ++ [merge pages] ++ after)

theorem Collates.hasModel (h : Collates pages pages') (hmodel : ∀ o ∈ pages, o.HasModel) :
    ∀ o ∈ pages', o.HasModel := by
  cases h with
  | run before pages after =>
    simp only [List.forall_mem_append, List.forall_mem_singleton] at hmodel ⊢
    exact ⟨⟨hmodel.1.1, hasModel_merge pages⟩, hmodel.2⟩

theorem Collates.merge_eq (h : Collates pages pages') (hmodel : ∀ o ∈ pages, o.HasModel) :
    merge pages' = merge pages := by
  rw [Order.merge_eq hmodel, Order.merge_eq (h.hasModel hmodel)]
  cases h with
  | run before pages after =>
    have hpages : ∀ o ∈ pages, o.HasModel := by
      simp only [List.forall_mem_append] at hmodel
      exact hmodel.1.2
    simp only [List.findSome?_append, List.findSome?_singleton, List.flatMap_append, List.flatMap_singleton,
      specific?_merge hpages, number?_merge hpages, lines_merge]

theorem merge_of_collates (h : Relation.ReflTransGen Collates pages pages')
    (hmodel : ∀ o ∈ pages, o.HasModel) : merge pages' = merge pages := by
  suffices hboth : (∀ o ∈ pages', o.HasModel) ∧ merge pages' = merge pages from hboth.2
  induction h with
  | refl => exact ⟨hmodel, rfl⟩
  | tail _ hstep ih => exact ⟨hstep.hasModel ih.1, (hstep.merge_eq ih.1).trans ih.2⟩

/-- Pages merge to one order whichever of them are merged before the others. No pages merge to an order that says
nothing. -/
theorem merge_collated (hxs : ∀ o ∈ xs, o.HasModel) (hys : ∀ o ∈ ys, o.HasModel) :
    merge (xs ++ ys) = merge [merge xs, merge ys] ∧ merge [] = {} ∧
      ∀ pages, Relation.ReflTransGen Collates (xs ++ ys) pages → merge pages = merge (xs ++ ys) := by
  have hmodel : ∀ o ∈ xs ++ ys, o.HasModel := List.forall_mem_append.2 ⟨hxs, hys⟩
  have hleft : Collates (xs ++ ys) ([merge xs] ++ ys) := .run [] xs ys
  have hright : Collates ([merge xs] ++ ys) [merge xs, merge ys] := by
    have hrun := Collates.run [merge xs] ys []
    rwa [List.append_nil, List.append_nil] at hrun
  refine ⟨?_, rfl, ?_⟩
  · symm
    exact merge_of_collates (.tail (.single hleft) hright) hmodel
  · intro pages h
    exact merge_of_collates h hmodel

def cranePages : List Order :=
  [{ model := "gENERIC", lines := [{ category := "CAB", selection := "CANOPY" }] },
    { model := "Straßenkran", number := "MO-7" }]

def winchPages : List Order :=
  [{ model := "MT22", number := "MO-8", lines := [{ category := "WINCH", selection := "REAR" }] }]

theorem merge_collated_cranePages :
    (∀ o ∈ cranePages, o.HasModel) ∧ (∀ o ∈ winchPages, o.HasModel) ∧
      merge (cranePages ++ winchPages) = merge [merge cranePages, merge winchPages] ∧
      merge (cranePages ++ [merge winchPages]) = merge (cranePages ++ winchPages) ∧
      merge (cranePages ++ winchPages) =
        { model := "STRASSENKRAN", number := "MO-7", lines := cranePages[0].lines ++ winchPages[0].lines } := by
  have hcrane : ∀ o ∈ cranePages, o.HasModel := by decide +kernel
  have hwinch : ∀ o ∈ winchPages, o.HasModel := by decide +kernel
  obtain ⟨hpair, -, hcollated⟩ := merge_collated hcrane hwinch
  have hrun : Collates (cranePages ++ winchPages) (cranePages ++ [merge winchPages]) := .run cranePages winchPages []
  exact ⟨hcrane, hwinch, hpair, hcollated _ (.single hrun), by decide +kernel⟩

end Kitting.Order
