import Kitting.Proofs.Knowledge.Loading
import Kitting.Proofs.Schema
import Kitting.Proofs.Synthesis.Overflow

namespace Kitting

open Text

namespace Json

def IsRecord (json : Option Json) : Prop := ∃ members, json = some (.obj members)

theorem exists_obj_of_mem_member? {v u : Json} {name : String} (h : u ∈ v.member? name) :
    ∃ members, v = .obj members := by
  cases v with
  | obj members => exact ⟨members, rfl⟩
  | null | bool | int | float | str | arr => cases h

end Json

namespace Proposal

theorem overflowsOn_confidenceReading : confidenceReading.OverflowsOn Exceeds := by
  intro place c
  rw [confidenceReading]
  cases hc : confidenceOf c with
  | error e =>
    obtain ⟨rfl, hexceeds⟩ := confidenceOf_eq_error_iff.1 hc
    exact .overflow hexceeds
  | ok x =>
    have hfits : ¬Exceeds c := fun hexceeds => by cases hc.symm.trans (confidenceOf_eq_error_iff.2 ⟨rfl, hexceeds⟩)
    change Check.OverflowsIff _ (if _ then _ else if _ then _ else _)
    split
    · exact .invalid hfits
    split
    · exact .invalid hfits
    · exact .ok hfits

theorem overflowsOn_reading : reading.OverflowsOn fun v => ∃ c ∈ v.member? "confidence", Exceeds c := by
  have htext := Reading.OverflowsOn.strict
  have htexts := Reading.OverflowsOn.strict.list
  refine .record (fun fs => ?_) fun v ⟨c, hc, _⟩ => Json.exists_obj_of_mem_member? hc
  have hparts := ((((((((htext.required fs "part_number").map Proposal.mk).seq
    (htext.optional fs "part_name" unknownName)).seq
    (htext.optional fs "proposed_expression" "")).seq
    (Reading.OverflowsOn.int.optional fs "evidence_count" 0)).seq
    (overflowsOn_confidenceReading.optional fs "confidence" defaultConfidence)).seq
    (htext.optional fs "reasoning" "")).seq
    (htexts.optional fs "matched_orders" [])).seq
    (htexts.optional fs "key_indicators" [])
  exact hparts.congr (by simp [Json.member?])

end Proposal

namespace Checkpoint

def Excessive (v : Json) : Prop :=
  ∃ vs, v.member? "proposals" = some (.arr vs) ∧ ∃ u ∈ vs, ∃ c ∈ u.member? "confidence", Proposal.Exceeds c

inductive TakenFor (json : Option Json) : Except Error Checkpoint → Prop
  | read {v : Json} {c : Checkpoint} : v ∈ json → reading.run v = .ok c → TakenFor json (.ok c)
  | nothing : (∀ v ∈ json, ¬Excessive v ∧ ∀ c, reading.run v ≠ .ok c) → TakenFor json (.ok {})
  | overflow {v : Json} : v ∈ json → Excessive v → TakenFor json (.error .overflow)

theorem overflowsOn_reading : reading.OverflowsOn Excessive := by
  refine .record (fun fs => ?_) fun v ⟨vs, hvs, _⟩ => Json.exists_obj_of_mem_member? hvs
  have hparts := ((Proposal.overflowsOn_reading.list.optional fs "proposals" []).map Checkpoint.mk).seq
    (Reading.OverflowsOn.strict.optional fs "timestamp" "")
  exact hparts.congr (by simp [Excessive, Json.member?])

theorem takenFor_ofText (s : String) : TakenFor (Json.ofText? s) (ofText s) := by
  rw [ofText]
  cases Json.ofText? s with
  | none => exact .nothing (by simp)
  | some v =>
    have hoverflows := overflowsOn_reading [] v
    simp only [Reading.run]
    generalize hcheck : reading [] v = check at hoverflows ⊢
    cases hoverflows with
    | ok _ => exact .read rfl (congrArg Check.result hcheck)
    | overflow hexcessive => exact .overflow rfl hexcessive
    | invalid hfits =>
      refine .nothing fun u hu => ?_
      obtain rfl := Option.some.inj hu
      refine ⟨hfits, fun c hc => ?_⟩
      cases hc.symm.trans (congrArg Check.result hcheck)

theorem TakenFor.eq_empty {json : Option Json} {c : Checkpoint} (h : TakenFor json (.ok c))
    (hrecord : ¬Json.IsRecord json) : c = {} := by
  cases h with
  | nothing _ => rfl
  | read hv hrun =>
    obtain ⟨members, rfl, -⟩ := Reading.record_eq_ok_iff.1 hrun
    exact absurd ⟨members, hv⟩ hrecord

end Checkpoint

theorem Knowledge.ofText_eq_nil {s : String} (h : ¬Json.IsRecord (Json.ofText? s)) : ofText s = [] := by
  rw [ofText]
  cases hjson : Json.ofText? s with
  | none => rfl
  | some v =>
    cases v with
    | obj members => exact absurd ⟨members, hjson⟩ h
    | null | bool | int | float | str | arr => rfl

theorem Order.ofPayload_eq_empty {s : String} (h : ¬Json.IsRecord (payload? s)) : ofPayload s = {} := by
  rw [ofPayload]
  split
  case h_1 members hjson => exact absurd ⟨members, hjson⟩ h
  case h_2 => rfl

namespace FileTree

variable {t : FileTree} {place : Path} {bytes : List UInt8}

theorem text_of_bytes (h : t.bytes place = .ok bytes) :
    (∃ cs, bytes = Utf8.encode cs ∧ t.text place = .ok (.ofList (unixBreaks cs))) ∨
      ¬Utf8.IsText bytes ∧ ∃ stop, t.text place = .error (.undecodable stop) := by
  have htext : t.text place = textOfBytes bytes := congrArg (Except.bind · textOfBytes) h
  rw [htext, textOfBytes]
  cases hdecode : Utf8.decode bytes with
  | ok cs => exact .inl ⟨cs, Utf8.decode_eq_ok_iff.1 hdecode, rfl⟩
  | error stop =>
    refine .inr ⟨?_, stop, rfl⟩
    rintro ⟨cs, hcs⟩
    cases hdecode.symm.trans (Utf8.decode_eq_ok_iff.2 hcs)

end FileTree

namespace Command

variable {p : Path} {w : World} {s : String} {bytes : List UInt8} {stop : Utf8.Stop}

structure Loads (p : Path) (w : World) (s : String) : Prop where
  knowledge : ∃ k, loadKnowledge p w = .ok k w ∧ (¬Json.IsRecord (Json.ofText? s) → k = []) ∧
    ∀ members, Json.ofText? s = some (.obj members) → k.LoadedFrom members
  order : ∃ o, Session.readOrder p w = .ok o w ∧ (¬Json.IsRecord (Order.payload? s) → o = {})
  checkpoint : (∃ v ∈ Json.ofText? s, Checkpoint.Excessive v) ∧ loadCheckpoint p w = .error .overflow w ∨
    ∃ c, loadCheckpoint p w = .ok c w ∧ Checkpoint.TakenFor (Json.ofText? s) (.ok c) ∧
      (¬Json.IsRecord (Json.ofText? s) → c = {})

structure Fails (p : Path) (w : World) (stop : Utf8.Stop) : Prop where
  knowledge : loadKnowledge p w = .error (.undecodable stop) w
  order : Session.readOrder p w = .error (.undecodable stop) w
  checkpoint : loadCheckpoint p w = .error (.undecodable stop) w

theorem readOrder_eq (h : w.files.text (w.place p) = .ok s) :
    Session.readOrder p w = .ok (Order.ofPayload s) w := by
  refine bind_eq_ok_iff.2 ⟨w, w, get_eq_ok_iff.2 ⟨rfl, rfl⟩, ?_⟩
  rw [h]
  rfl

theorem loadCheckpoint_eq (h : w.files.text (w.place p) = .ok s) :
    loadCheckpoint p w = Session.lift (Checkpoint.ofText s) w := by
  change EStateM.bind (textAt? p) _ w = _
  rw [EStateM.bind, textAt?_eq h]

theorem loads_of_text (h : w.files.text (w.place p) = .ok s) : Loads p w s := by
  constructor
  case knowledge =>
    exact ⟨_, loadKnowledge_eq h, Knowledge.ofText_eq_nil, fun _ => Knowledge.loadedFrom_ofText⟩
  case order => exact ⟨_, readOrder_eq h, Order.ofPayload_eq_empty⟩
  case checkpoint =>
    have htaken := Checkpoint.takenFor_ofText s
    rw [loadCheckpoint_eq h]
    generalize Checkpoint.ofText s = result at htaken ⊢
    cases result with
    | ok c => exact .inr ⟨c, rfl, htaken, htaken.eq_empty⟩
    | error e =>
      cases htaken with
      | overflow hv hexcessive => exact .inl ⟨⟨_, hv, hexcessive⟩, rfl⟩

theorem fails_of_undecodable (h : w.files.text (w.place p) = .error (.undecodable stop)) : Fails p w stop := by
  have htext : textAt? p w = .error (.undecodable stop) w := by
    refine bind_eq_error_iff.2 (.inr ⟨w, w, get_eq_ok_iff.2 ⟨rfl, rfl⟩, ?_⟩)
    rw [h]
    rfl
  constructor
  case knowledge => exact bind_eq_error_iff.2 (.inl htext)
  case checkpoint => exact bind_eq_error_iff.2 (.inl htext)
  case order =>
    refine bind_eq_error_iff.2 (.inr ⟨w, w, get_eq_ok_iff.2 ⟨rfl, rfl⟩, ?_⟩)
    rw [h]
    rfl

/-- Every file: with a text in it, something is made of it, whatever the text; otherwise nothing can be. (A text keeps to
the limits that `Json.Reader` names.) -/
theorem loads_of_bytes (h : w.files.bytes (w.place p) = .ok bytes) :
    (∃ cs, bytes = Utf8.encode cs ∧ Loads p w (.ofList (FileTree.unixBreaks cs))) ∨
      ¬Utf8.IsText bytes ∧ ∃ stop, Fails p w stop := by
  obtain ⟨cs, hcs, htext⟩ | ⟨hno, stop, htext⟩ := FileTree.text_of_bytes h
  · exact .inl ⟨cs, hcs, loads_of_text htext⟩
  · exact .inr ⟨hno, stop, fails_of_undecodable htext⟩

def brokenText : List Char := "\x7b\"proposals\": [".toList

theorem loads_of_bytes_brokenText :
    let w := holding (Utf8.encode brokenText)
    w.files.bytes (w.place ledger) = .ok (Utf8.encode brokenText) ∧ loadKnowledge ledger w = .ok [] w ∧
      Session.readOrder ledger w = .ok {} w ∧ loadCheckpoint ledger w = .ok {} w := by
  intro w
  have hbytes : w.files.bytes (w.place ledger) = .ok (Utf8.encode brokenText) := rfl
  obtain ⟨cs, hcs, hloads⟩ | ⟨hno, -⟩ := loads_of_bytes hbytes
  · obtain rfl : brokenText = cs := Except.ok.inj ((Utf8.decode_encode _).symm.trans (Utf8.decode_eq_ok_iff.2 hcs))
    have hjson : Json.ofText? (.ofList (FileTree.unixBreaks brokenText)) = none := by decide +kernel
    have hpayload : Order.payload? (.ofList (FileTree.unixBreaks brokenText)) = none := by decide +kernel
    obtain ⟨⟨k, hk, hknowledge, -⟩, ⟨o, ho, horder⟩, hcheckpoint⟩ := hloads
    rw [hjson] at hknowledge hcheckpoint
    rw [hpayload] at horder
    have hnone : ¬Json.IsRecord none := fun ⟨_, h⟩ => by cases h
    obtain ⟨⟨v, hv, -⟩, -⟩ | ⟨c, hc, -, hempty⟩ := hcheckpoint
    · cases hv
    · cases hknowledge hnone
      cases horder hnone
      cases hempty hnone
      exact ⟨hbytes, hk, ho, hc⟩
  · exact absurd ⟨_, rfl⟩ hno

/-- One byte that starts no character is enough. -/
theorem fails_badByte :
    let w := holding [0xff]
    w.files.bytes (w.place ledger) = .ok [0xff] ∧ (∀ k v, loadKnowledge ledger w ≠ .ok k v) ∧
      (∀ o v, Session.readOrder ledger w ≠ .ok o v) ∧ ∀ c v, loadCheckpoint ledger w ≠ .ok c v := by
  intro w
  obtain ⟨hknowledge, horder, hcheckpoint⟩ : Fails ledger w ⟨0, .badStart, 0xff, 1⟩ := fails_of_undecodable rfl
  refine ⟨rfl, fun k v h => ?_, fun o v h => ?_, fun c v h => ?_⟩
  · cases hknowledge.symm.trans h
  · cases horder.symm.trans h
  · cases hcheckpoint.symm.trans h

end Command

end Kitting
