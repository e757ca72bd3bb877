import Kitting.Proofs.Files
import Kitting.Proofs.Json.RoundTrip
import Kitting.Proofs.Knowledge.Stores

namespace Kitting

open Text

namespace Precedent

theorem ofJson?_toJson (p : Precedent) : ofJson? p.toJson = some p.trim := rfl

theorem faithful_toJson (layout : Json.Layout) (p : Precedent) : Json.Faithful layout p.toJson := by
  refine .obj (by simp [Assoc.keys]) ?_
  simp only [List.forall_mem_cons]
  exact ⟨.str _, .str _, .str _, fun _ h => absurd h List.not_mem_nil⟩

end Precedent

namespace Knowledge

variable {k : Knowledge} {key : String}

def normalized (member : String × List Precedent) : String × List Precedent :=
  (upper (trim member.1), member.2.map Precedent.trim)

/-- A store as its file is loaded: of two keys with one normal form, the first gives the position and the last
the precedents. -/
def reloaded (k : Knowledge) : Knowledge := Assoc.ofPairs (k.map normalized)

theorem ofJson_toJson (k : Knowledge) : ofJson k.toJson = k.reloaded := by
  rw [toJson, ofJson, reloaded, Assoc.ofPairs, List.foldl_map, List.foldl_map]
  congr 1
  funext k member
  rw [fileMember]
  simp only [List.filterMap_map, Function.comp_def, Precedent.ofJson?_toJson, List.filterMap_eq_map', normalized]

theorem faithful_toJson (h : (Assoc.keys k).Nodup) : Json.Faithful .file k.toJson := by
  refine .obj ?_ ?_
  · rwa [Assoc.keys, List.map_map]
  · refine List.forall_mem_map.2 fun e _ => .arr (List.forall_mem_map.2 fun p _ => p.faithful_toJson _)

theorem ofText_toText (h : (Assoc.keys k).Nodup) : ofText k.toText = k.reloaded := by
  rw [ofText, toText, Json.ofText?_render (faithful_toJson h), Option.map_some, Option.getD_some, ofJson_toJson]

theorem Tidy.reloaded_eq (h : k.Tidy) : k.reloaded = k := by
  have hmember {e : String × List Precedent} (he : e ∈ k) : normalized e = e := by
    have hkey : IsNormal e.1 := h.normal e.1 (List.mem_map_of_mem he)
    have hunder : k.under e.1 = e.2 := by rw [under, (Assoc.mem_iff_get? h.nodup).1 he, Option.getD_some]
    have hps : e.2.map Precedent.trim = e.2 := by
      refine (List.map_congr_left ?_).trans (List.map_id e.2)
      exact fun p hp => h.trimmed e.1 p (hunder ▸ hp)
    rw [normalized, hkey.upper_trim, hps]
  rw [reloaded, (List.map_congr_left fun e he => hmember he).trans (List.map_id k),
    Assoc.ofPairs_of_nodup h.nodup]

/-- No key behind this one is loaded as this one. -/
def Unshadowed (k : Knowledge) (key : String) : Prop :=
  ∀ other, [key, other].Sublist (Assoc.keys k) → upper (trim other) ≠ key

theorem Tidy.unshadowed (h : k.Tidy) (key : String) : k.Unshadowed key := by
  intro other hsub heq
  have hmem : other ∈ Assoc.keys k := hsub.subset (by simp)
  rw [(h.normal other hmem).upper_trim] at heq
  subst heq
  simpa using hsub.nodup h.nodup

theorem Unshadowed.append {model : String} (h : k.Unshadowed (modelKey model)) (more : List Precedent) :
    (k.append model more).Unshadowed (modelKey model) := by
  intro other hsub
  rw [keys_append] at hsub
  split at hsub
  case isTrue => exact h other hsub
  case isFalse hnew =>
    -- A new key is the last one.
    obtain ⟨before, rest, heq, hbefore, hrest⟩ := List.sublist_append_iff.1 hsub
    cases before with
    | nil =>
      rw [List.nil_append] at heq
      have hlength := hrest.length_le
      rw [← heq] at hlength
      simp at hlength
    | cons first before =>
      obtain ⟨rfl, -⟩ := List.cons.inj heq
      exact absurd (hbefore.subset List.mem_cons_self) hnew

theorem under_reloaded (hnodup : (Assoc.keys k).Nodup) (hkey : IsNormal key) (hmem : key ∈ Assoc.keys k)
    (h : k.Unshadowed key) : k.reloaded.under key = (k.under key).map Precedent.trim := by
  obtain ⟨ps, hget⟩ := Assoc.mem_keys_iff.1 hmem
  obtain ⟨before, after, rfl⟩ := List.append_of_mem ((Assoc.mem_iff_get? hnodup).2 hget)
  have hafter : ∀ e ∈ after.map normalized, e.1 ≠ key := by
    intro _ he
    obtain ⟨e, hmem, rfl⟩ := List.mem_map.1 he
    refine h e.1 ?_
    rw [Assoc.keys, List.map_append, List.map_cons]
    exact ((List.singleton_sublist.2 (List.mem_map_of_mem hmem)).cons_cons _).trans (List.sublist_append_right _ _)
  rw [under, under, hget, reloaded, List.map_append, List.map_cons, normalized,
    hkey.upper_trim, Assoc.get?_ofPairs _ hafter, Option.getD_some, Option.getD_some]

end Knowledge

namespace Command

theorem loadKnowledge_of_save {p q : Path} {k : Knowledge} {w w' v : World} (hk : (Assoc.keys k).Nodup)
    (hsave : saveKnowledge p k w = .ok () w')
    (hfile : v.files.text (v.place q) = w'.files.text (w'.place p)) :
    loadKnowledge q v = .ok k.reloaded v := by
  have hreturn : '\r' ∉ k.toText.toList := Json.return_notMem_write (Knowledge.faithful_toJson hk)
  refine bind_eq_ok_iff.2 ⟨some k.toText, v, textAt?_of_writeText hreturn hsave hfile, ?_⟩
  rw [Option.map_some, Option.getD_some, Knowledge.ofText_toText hk]
  rfl

theorem tidy_of_loadKnowledge {p : Path} {k : Knowledge} {w w' : World} (h : loadKnowledge p w = .ok k w') :
    k.Tidy := by
  obtain ⟨text, _, -, h⟩ := bind_eq_ok_iff.1 h
  obtain ⟨rfl, -⟩ := pure_eq_ok_iff.1 h
  cases text with
  | none => exact Knowledge.tidy_nil
  | some s => exact Knowledge.tidy_ofText s

end Command

end Kitting
