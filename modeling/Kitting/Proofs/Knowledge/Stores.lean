import Kitting.Knowledge
import Kitting.Part
import Kitting.Proofs.Text.UpperCase

namespace Kitting

open Text

theorem Json.trim_trimmed (v : Json) : trim v.trimmed = v.trimmed := by
  cases v with
  | null => rfl
  | bool | int | float | str | arr | obj => exact trim_trim _

theorem Fields.trim_of_optional {fs : Fields} {name s : String}
    (h : (fs.optional name .trimmed "").result = .ok s) : trim s = s := by
  rw [show Reading.trimmed = fun _ v => pure v.trimmed from rfl, result_optional_pure] at h
  cases Except.ok.inj h
  cases Assoc.get? fs.members name with
  | none => rfl
  | some v => exact v.trim_trimmed

namespace Precedent

variable {p : Precedent}

def trim (p : Precedent) : Precedent :=
  ⟨Text.trim p.category, Text.trim p.selection, Text.trim p.partNumber⟩

def Trimmed (p : Precedent) : Prop := p.trim = p

instance : Decidable p.Trimmed := inferInstanceAs (Decidable (_ = _))

theorem trimmed_trim (p : Precedent) : p.trim.Trimmed := by
  simp only [Trimmed, trim, trim_trim]

theorem trimmed_of_reading {place : List String} {v : Json} (h : (reading place v).result = .ok p) :
    p.Trimmed := by
  rw [reading, Reading.record_eq_ok_iff] at h
  obtain ⟨members, rfl, h⟩ := h
  simp only [Check.seq_eq_ok_iff, Check.map_eq_ok_iff] at h
  obtain ⟨_, _, ⟨_, _, ⟨_, hcategory, rfl⟩, hselection, rfl⟩, hnumber, rfl⟩ := h
  rw [Trimmed, trim, Fields.trim_of_optional hcategory, Fields.trim_of_optional hselection,
    Fields.trim_of_optional hnumber]

theorem trimmed_of_ofJson? {v : Json} (h : ofJson? v = some p) : p.Trimmed := by
  rw [ofJson?] at h
  cases hread : reading.run v with
  | ok q =>
    rw [hread] at h
    cases h
    exact trimmed_of_reading hread
  | error e =>
    rw [hread] at h
    cases h

end Precedent

namespace Part

variable {p : Part}

def precedent (p : Part) : Precedent := ⟨p.groupKey, p.name, p.number⟩

structure Trimmed (p : Part) : Prop where
  number : trim p.number = p.number
  name : trim p.name = p.name
  designator : trim p.designator = p.designator

instance : Decidable p.Trimmed :=
  decidable_of_iff (trim p.number = p.number ∧ trim p.name = p.name ∧ trim p.designator = p.designator)
    ⟨fun h => ⟨h.1, h.2.1, h.2.2⟩, fun h => ⟨h.number, h.name, h.designator⟩⟩

theorem trimmed_of_reading {place : List String} {v : Json} (h : (reading place v).result = .ok p) :
    p.Trimmed := by
  rw [reading, Reading.record_eq_ok_iff] at h
  obtain ⟨members, rfl, h⟩ := h
  simp only [Check.seq_eq_ok_iff, Check.map_eq_ok_iff] at h
  obtain ⟨_, _, ⟨_, _, ⟨_, _, ⟨_, _, ⟨_, _, ⟨_, _, ⟨_, _, ⟨_, _, ⟨_, -, rfl⟩, hnumber, rfl⟩, hname, rfl⟩, -,
    rfl⟩, -, rfl⟩, hdesignator, rfl⟩, -, rfl⟩, -, rfl⟩, -, rfl⟩ := h
  exact ⟨Fields.trim_of_optional hnumber, Fields.trim_of_optional hname, Fields.trim_of_optional hdesignator⟩

theorem Trimmed.precedent (h : p.Trimmed) : p.precedent.Trimmed := by
  have hgroup : trim p.groupKey = p.groupKey := by
    rw [groupKey]
    split
    · decide
    · exact h.designator
  rw [Precedent.Trimmed, Precedent.trim, Part.precedent, hgroup, h.name, h.number]

end Part

namespace Knowledge

variable {k k' k'' : Knowledge} {key model : String} {more : List Precedent}

def IsNormal (key : String) : Prop := trim key = key ∧ upper key = key

instance : Decidable (IsNormal key) := inferInstanceAs (Decidable (_ ∧ _))

theorem isNormal_upper_trim (s : String) : IsNormal (upper (trim s)) :=
  ⟨trim_upper (trim_trim s), upper_upper _⟩

theorem IsNormal.upper_trim (h : IsNormal key) : upper (trim key) = key := by rw [h.1, h.2]

theorem isNormal_modelKey (model : String) : IsNormal (modelKey model) := by
  rw [modelKey]
  generalize hkey : upper (trim (if model.isEmpty then "Generic" else model)) = key
  have hnormal : IsNormal key := hkey ▸ isNormal_upper_trim _
  split
  · exact show IsNormal "GENERIC" by decide +kernel
  · exact hnormal

theorem modelKey_of_trimmed (h : trim model = model) (hne : model ≠ "") : modelKey model = upper model := by
  have hupper : upper model ≠ "" := by
    rw [← String.toList_inj.ne, toList_upper]
    simpa using hne
  simp [modelKey, h, hne, hupper]

def under (k : Knowledge) (key : String) : List Precedent := (Assoc.get? k key).getD []

theorem history_of_trimmed (h : trim model = model) (hne : model ≠ "") :
    k.history model = k.under (modelKey model) := by
  rw [history, under, modelKey_of_trimmed h hne]

structure Tidy (k : Knowledge) : Prop where
  nodup : (Assoc.keys k).Nodup
  normal : ∀ key ∈ Assoc.keys k, IsNormal key
  trimmed : ∀ key, ∀ p ∈ k.under key, p.Trimmed

theorem under_put (k : Knowledge) (key other : String) (ps : List Precedent) :
    under (Assoc.put k key ps) other = if key = other then ps else k.under other := by
  rw [under, Assoc.get?_put]
  split <;> rfl

theorem under_append (k : Knowledge) (model : String) (more : List Precedent) (key : String) :
    (k.append model more).under key = k.under key ++ if modelKey model = key then more else [] := by
  rw [under, append, Assoc.get?_alter]
  split
  case isTrue h =>
    rw [h]
    rfl
  case isFalse => rw [List.append_nil, under]

theorem keys_append (k : Knowledge) (model : String) (more : List Precedent) :
    Assoc.keys (k.append model more) =
      if modelKey model ∈ Assoc.keys k then Assoc.keys k else Assoc.keys k ++ [modelKey model] :=
  Assoc.keys_alter _ _ _

theorem Tidy.append (h : k.Tidy) (model : String) (hmore : ∀ p ∈ more, p.Trimmed) :
    (k.append model more).Tidy where
  nodup := Assoc.nodup_keys_alter h.nodup _ _
  normal := by
    intro key hkey
    rw [keys_append] at hkey
    split at hkey
    · exact h.normal key hkey
    · rcases List.mem_append.1 hkey with hkey | hkey
      · exact h.normal key hkey
      · rw [List.mem_singleton.1 hkey]
        exact isNormal_modelKey model
  trimmed := by
    intro key p hp
    rw [under_append, List.mem_append] at hp
    rcases hp with hp | hp
    · exact h.trimmed key p hp
    · split at hp
      · exact hmore p hp
      · exact absurd hp List.not_mem_nil

section Loading

theorem tidy_nil : Tidy [] := ⟨List.nodup_nil, by simp [Assoc.keys], by simp [under]⟩

theorem Tidy.fileMember (h : k.Tidy) (member : String × Json) : (k.fileMember member).Tidy := by
  rw [Knowledge.fileMember]
  split
  case h_2 => exact h
  case h_1 vs _ =>
    refine ⟨Assoc.nodup_keys_put h.nodup _ _, fun key hkey => ?_, fun key p hp => ?_⟩
    · rw [Assoc.keys_put] at hkey
      split at hkey
      · exact h.normal key hkey
      · rcases List.mem_append.1 hkey with hkey | hkey
        · exact h.normal key hkey
        · rw [List.mem_singleton.1 hkey]
          exact isNormal_upper_trim _
    · rw [under_put] at hp
      split at hp
      · obtain ⟨v, -, hv⟩ := List.mem_filterMap.1 hp
        exact Precedent.trimmed_of_ofJson? hv
      · exact h.trimmed key p hp

theorem tidy_ofText (s : String) : (ofText s).Tidy := by
  rw [ofText]
  cases Json.ofText? s with
  | none => exact tidy_nil
  | some v =>
    rw [Option.map_some, Option.getD_some]
    cases v with
    | obj members =>
      rw [ofJson]
      suffices h : ∀ k : Knowledge, k.Tidy → (members.foldl Knowledge.fileMember k).Tidy from h [] tidy_nil
      induction members with
      | nil => exact fun _ hk => hk
      | cons member members ih => exact fun k hk => ih _ (hk.fileMember member)
    | null | bool | int | float | str | arr => exact tidy_nil

end Loading

abbrev Filing := String × List Precedent

def filedUnder (filed : List Filing) (key : String) : List Precedent :=
  (filed.filter (·.1 = key)).flatMap (·.2)

/-- A store that holds what another one holds, and behind it what was filed. -/
structure Extends (k : Knowledge) (filed : List Filing) (k' : Knowledge) : Prop where
  under : ∀ key, k'.under key = k.under key ++ filedUnder filed key
  keys : Assoc.keys k <+: Assoc.keys k'
  mem_keys : ∀ key, key ∈ Assoc.keys k' ↔ key ∈ Assoc.keys k ∨ key ∈ filed.map (·.1)

namespace Extends

variable {filed filed' : List Filing}

theorem refl (k : Knowledge) : k.Extends [] k where
  under key := (List.append_nil _).symm
  keys := List.prefix_rfl
  mem_keys key := by simp

theorem trans (h : k.Extends filed k') (h' : k'.Extends filed' k'') : k.Extends (filed ++ filed') k'' where
  under key := by
    rw [h'.under, h.under, List.append_assoc, filedUnder, filedUnder, filedUnder, List.filter_append,
      List.flatMap_append]
  keys := h.keys.trans h'.keys
  mem_keys key := by rw [h'.mem_keys, h.mem_keys, List.map_append, List.mem_append, or_assoc]

end Extends

theorem extends_append (k : Knowledge) (model : String) (more : List Precedent) :
    k.Extends [(modelKey model, more)] (k.append model more) where
  under key := by
    rw [under_append, filedUnder]
    by_cases h : modelKey model = key <;> simp [h]
  keys := by
    rw [keys_append]
    split
    · exact List.prefix_rfl
    · exact List.prefix_append _ _
  mem_keys key := by
    simp only [keys_append, List.map_cons, List.map_nil, List.mem_singleton]
    split
    case isTrue h =>
      refine ⟨.inl, ?_⟩
      rintro (hkey | hkey)
      · exact hkey
      · rwa [hkey]
    case isFalse => rw [List.mem_append, List.mem_singleton]

end Knowledge

end Kitting
