import Kitting.Proofs.Files
import Kitting.Proofs.Json.RoundTrip
import Kitting.Proofs.Synthesis.Answers

namespace Kitting

namespace Proposal

variable {p : Proposal}

theorem clamp_of_inBounds {x : Double} (h : InBounds x) : clamp x = x := by
  obtain ⟨hlow, hhigh⟩ := h
  simp only [Double.le, Bool.and_eq_true, Bool.not_eq_true'] at hlow hhigh
  rw [clamp, hlow.2, hhigh.2, if_neg Bool.false_ne_true, if_neg Bool.false_ne_true]

theorem confidenceReading_float {x : Double} (h : InBounds x) (place : List String) :
    confidenceReading place (.float x) = pure x := by
  have hconfidence : confidenceOf (.float x) = .ok x := congrArg Except.ok (clamp_of_inBounds h)
  rw [confidenceReading, hconfidence]
  exact Reading.between_float h.1 h.2 place

theorem reading_toJson (h : InBounds p.confidence) (place : List String) :
    reading place p.toJson = pure p := by
  simp [reading, toJson, Reading.record, Fields.required, Fields.optional, Assoc.get?, Reading.list_strict,
    confidenceReading_float h]
  rfl

theorem faithful_toJson {layout : Json.Layout} (h : Json.ReadsBack layout p.confidence) :
    Json.Faithful layout p.toJson := by
  refine .obj (by simp [Assoc.keys]) ?_
  simp only [List.forall_mem_cons]
  exact ⟨.str _, .str _, .str _, .int _, .float h, .str _, Json.faithful_texts _, Json.faithful_texts _,
    fun _ h => absurd h List.not_mem_nil⟩

end Proposal

namespace Checkpoint

variable {c : Checkpoint}

theorem run_toJson (h : ∀ p ∈ c.proposals, Proposal.InBounds p.confidence) :
    reading.run c.toJson = .ok c := by
  have hlist (place : List String) :
      Reading.list Proposal.reading place (.arr (c.proposals.map Proposal.toJson)) = pure c.proposals :=
    Reading.list_map (fun p hp => Proposal.reading_toJson (h p hp)) place
  simp [Reading.run, reading, toJson, Reading.record, Fields.optional, Assoc.get?, hlist]
  rfl

theorem faithful_toJson (h : ∀ p ∈ c.proposals, Json.ReadsBack .checkpoint p.confidence) :
    Json.Faithful .checkpoint c.toJson := by
  refine .obj (by simp [Assoc.keys]) ?_
  simp only [List.forall_mem_cons]
  exact ⟨.arr (List.forall_mem_map.2 fun p hp => Proposal.faithful_toJson (h p hp)), .str _,
    fun _ h => absurd h List.not_mem_nil⟩

theorem ofText_toText (hbounds : ∀ p ∈ c.proposals, Proposal.InBounds p.confidence)
    (hreads : ∀ p ∈ c.proposals, Json.ReadsBack .checkpoint p.confidence) : ofText c.toText = .ok c := by
  rw [ofText, toText, Json.ofText?_render (faithful_toJson hreads)]
  simp only [run_toJson hbounds]

end Checkpoint

namespace Command

theorem load_of_save {path : Path} {c : Checkpoint} {w w' v : World}
    (hbounds : ∀ p ∈ c.proposals, Proposal.InBounds p.confidence)
    (hreads : ∀ p ∈ c.proposals, Json.ReadsBack .checkpoint p.confidence)
    (hsave : saveCheckpoint path c w = .ok () w')
    (hfile : v.files.text (v.place path) = w'.files.text (w'.place path)) :
    loadCheckpoint path v = .ok c v := by
  have hreturn : '\r' ∉ c.toText.toList := Json.return_notMem_write (Checkpoint.faithful_toJson hreads)
  refine bind_eq_ok_iff.2 ⟨some c.toText, v, textAt?_of_writeText hreturn hsave hfile, ?_⟩
  exact Session.lift_eq_ok_iff.2 ⟨Checkpoint.ofText_toText hbounds hreads, rfl⟩

end Command

end Kitting
