import Kitting.Proofs.FirstOccurrence
import Kitting.Proofs.Synthesis.Overflow

namespace Kitting

open Token (canonical)

namespace EvidenceBook

variable {book : EvidenceBook} {number key other : String} {e e' : Evidence}

/-- A number is the same part as itself, and as one with evidence and the same canonical form, which is not empty. -/
def SamePart (book : EvidenceBook) (number other : String) : Prop :=
  other = number ∨ other ∈ Assoc.keys book ∧ canonical other ≠ "" ∧ canonical other = canonical number

/-- A number without canonical form and without evidence, while another such number has some. -/
def Astray (book : EvidenceBook) (number : String) : Prop :=
  number ∉ Assoc.keys book ∧ canonical number = "" ∧ ∃ key ∈ Assoc.keys book, canonical key = ""

instance (book : EvidenceBook) (number other : String) : Decidable (book.SamePart number other) :=
  inferInstanceAs (Decidable (_ ∨ _))

instance (book : EvidenceBook) (number : String) : Decidable (book.Astray number) :=
  inferInstanceAs (Decidable (_ ∧ _))

inductive Meant (book : EvidenceBook) (number : String) : String → Prop
  | own : number ∈ Assoc.keys book → Meant book number number
  | twin {key : String} : number ∉ Assoc.keys book →
      First (fun key => canonical key = canonical number) (Assoc.keys book).reverse key → Meant book number key
  | new : number ∉ Assoc.keys book → (∀ key ∈ Assoc.keys book, canonical key ≠ canonical number) →
      Meant book number number

theorem Proper.mem_toList_iff (hbook : book.Proper) :
    e ∈ book.toList ↔ Assoc.get? book e.partNumber = some e := by
  rw [toList, List.mem_map]
  constructor
  · rintro ⟨⟨key, e⟩, hmem, rfl⟩
    have hget := (Assoc.mem_iff_get? hbook.nodup).1 hmem
    rwa [hbook.keyed key e hget]
  · intro hget
    exact ⟨(e.partNumber, e), (Assoc.mem_iff_get? hbook.nodup).2 hget, rfl⟩

theorem Proper.eq_of_partNumber (hbook : book.Proper) (he : e ∈ book.toList) (he' : e' ∈ book.toList)
    (h : e.partNumber = e'.partNumber) : e = e' := by
  rw [hbook.mem_toList_iff] at he he'
  exact Option.some.inj ((h ▸ he).symm.trans he')

theorem Proper.partNumber_mem_keys (hbook : book.Proper) (he : e ∈ book.toList) :
    e.partNumber ∈ Assoc.keys book :=
  Assoc.mem_keys_iff.2 ⟨e, hbook.mem_toList_iff.1 he⟩

theorem meant_of_evidenceFor? (hbook : book.Proper) (h : Proposal.evidenceFor? book number = some e) :
    e ∈ book.toList ∧ book.Meant number e.partNumber := by
  rw [Proposal.evidenceFor?] at h
  cases hown : Assoc.get? book number with
  | some e' =>
    rw [hown] at h
    cases h
    obtain rfl := hbook.keyed number e hown
    exact ⟨hbook.mem_toList_iff.2 hown, .own (Assoc.mem_keys_iff.2 ⟨e, hown⟩)⟩
  | none =>
    have hnot : number ∉ Assoc.keys book := fun hmem => by
      obtain ⟨e', he'⟩ := Assoc.mem_keys_iff.1 hmem
      cases hown.symm.trans he'
    rw [hown] at h
    obtain ⟨⟨key, e⟩, hfind, rfl⟩ := Option.map_eq_some_iff.1 h
    obtain ⟨htwin, before, after, hsplit, hbefore⟩ := find?_eq_some_iff_first.1 hfind
    have hmem : (key, e) ∈ book := List.mem_reverse.1 (hsplit ▸ by simp)
    have hget := (Assoc.mem_iff_get? hbook.nodup).1 hmem
    have hkey := hbook.keyed key e hget
    refine ⟨hbook.mem_toList_iff.2 (hkey.symm ▸ hget), .twin hnot ?_⟩
    rw [hkey]
    refine ⟨eq_of_beq htwin, before.map (·.1), after.map (·.1), ?_, ?_⟩
    · rw [Assoc.keys, ← List.map_reverse, hsplit, List.map_append, List.map_cons]
    · refine List.forall_mem_map.2 fun entry hentry heq => hbefore entry hentry ?_
      exact beq_iff_eq.2 heq

theorem meant_of_evidenceFor?_eq_none (h : Proposal.evidenceFor? book number = none) :
    number ∉ Assoc.keys book ∧ book.Meant number number := by
  have hnot : number ∉ Assoc.keys book := fun hmem => by
    obtain ⟨e, -, he⟩ := Proposal.evidenceFor?_of_mem_keys hmem
    cases h.symm.trans he
  refine ⟨hnot, .new hnot fun key hkey heq => ?_⟩
  rw [Proposal.evidenceFor?] at h
  obtain ⟨entry, hentry, rfl⟩ := List.mem_map.1 hkey
  cases hown : Assoc.get? book number with
  | some e =>
    rw [hown] at h
    cases h
  | none =>
    rw [hown] at h
    have hfind := List.find?_eq_none.1 (Option.map_eq_none_iff.1 h) entry (List.mem_reverse.2 hentry)
    exact hfind (beq_iff_eq.2 heq)

theorem Meant.samePart_iff (h : book.Meant number other) : book.SamePart number other ↔ ¬book.Astray number := by
  cases h with
  | own hown => exact iff_of_true (.inl rfl) fun hastray => hastray.1 hown
  | new hnot hnone =>
    refine iff_of_true (.inl rfl) ?_
    rintro ⟨-, hempty, key, hkey, heq⟩
    exact hnone key hkey (heq.trans hempty.symm)
  | twin hnot hfirst =>
    have hmem : other ∈ Assoc.keys book := List.mem_reverse.1 hfirst.mem
    have hsame : canonical other = canonical number := hfirst.1
    constructor
    · rintro (rfl | ⟨-, hne, -⟩) ⟨-, hempty, -⟩
      · exact hnot hmem
      · exact hne (hsame.trans hempty)
    · intro hastray
      exact .inr ⟨hmem, fun hempty => hastray ⟨hnot, hsame ▸ hempty, other, hmem, hempty⟩, hsame⟩

end EvidenceBook

namespace Proposal

variable {book : EvidenceBook} {parts : List Part} {v : Json} {vs : List Json} {p : Proposal} {ps : List Proposal}
  {number : String}

structure Attributed (book : EvidenceBook) (number : String) (p : Proposal) : Prop where
  meant : book.Meant number p.partNumber
  samePart_iff : book.SamePart number p.partNumber ↔ ¬book.Astray number
  counted : ∀ e ∈ book.toList, e.partNumber = p.partNumber →
    p.evidenceCount = e.orders.length ∧ p.matchedOrders = e.orders.eraseDups
  uncounted : (∀ e ∈ book.toList, e.partNumber ≠ p.partNumber) → p.evidenceCount = 0 ∧ p.matchedOrders = []

theorem evidence_of_ofItem (h : ofItem book parts v = .ok (some p)) :
    ∃ number, named? v = some number ∧ p.partNumber = subject book number ∧
      p.evidenceCount = (((evidenceFor? book number).map (·.orders)).getD []).length ∧
      p.matchedOrders = (((evidenceFor? book number).map (·.orders)).getD []).eraseDups := by
  cases hnamed : named? v with
  | none => cases (ofItem_of_named?_eq_none hnamed).symm.trans h
  | some number =>
    obtain ⟨continued, hitem, hnan⟩ := ofItem_of_named? book parts hnamed
    cases hconfidence : statedConfidence v with
    | error e =>
      rw [hitem, hconfidence] at h
      cases h
    | ok x =>
      have hx : x ≠ .nan := by
        rintro rfl
        cases (ofItem_of_nan hconfidence).symm.trans h
      obtain ⟨p', hp', hnumber, -, hcount, horders, -⟩ := exists_ofItem book parts hnamed hconfidence hx
      cases hp'.symm.trans h
      exact ⟨number, rfl, hnumber, hcount, horders⟩

theorem attributed_of_ofItem (hbook : book.Proper) (h : ofItem book parts v = .ok (some p)) :
    ∃ number, named? v = some number ∧ Attributed book number p := by
  obtain ⟨number, hnamed, hnumber, hcount, horders⟩ := evidence_of_ofItem h
  refine ⟨number, hnamed, ?_⟩
  rw [subject] at hnumber
  cases hevidence : evidenceFor? book number with
  | some e =>
    rw [hevidence] at hnumber hcount horders
    obtain ⟨hmem, hmeant⟩ := EvidenceBook.meant_of_evidenceFor? hbook hevidence
    have hmeant' : book.Meant number p.partNumber := hnumber ▸ hmeant
    refine ⟨hmeant', hmeant'.samePart_iff, fun e' he' heq => ?_, fun hnone => ?_⟩
    · obtain rfl := hbook.eq_of_partNumber he' hmem (heq.trans hnumber)
      exact ⟨hcount, horders⟩
    · exact absurd hnumber.symm (hnone e hmem)
  | none =>
    rw [hevidence] at hnumber hcount horders
    obtain ⟨hnot, hmeant⟩ := EvidenceBook.meant_of_evidenceFor?_eq_none hevidence
    have hmeant' : book.Meant number p.partNumber := hnumber ▸ hmeant
    refine ⟨hmeant', hmeant'.samePart_iff, fun e he heq => ?_, fun _ => ⟨hcount, horders⟩⟩
    have hmem := hbook.partNumber_mem_keys he
    rw [heq, hnumber] at hmem
    exact absurd hmem hnot

theorem ofItems_cons_eq_ok (h : ofItems book parts (v :: vs) = .ok ps) :
    ∃ item rest, ofItem book parts v = .ok item ∧ ofItems book parts vs = .ok rest ∧
      ps = item.toList ++ rest := by
  simp only [ofItems, bind, Except.bind] at h
  split at h
  · cases h
  rename_i item hitem
  split at h
  · cases h
  rename_i rest hrest
  exact ⟨item, rest, hitem, hrest, (Except.ok.inj h).symm⟩

theorem forall₂_of_ofItems (h : ofItems book parts vs = .ok ps) :
    List.Forall₂ (fun v p => ofItem book parts v = .ok (some p)) (vs.filter isAccepted) ps := by
  induction vs generalizing ps with
  | nil =>
    cases h
    exact .nil
  | cons v vs ih =>
    obtain ⟨item, rest, hitem, hrest, rfl⟩ := ofItems_cons_eq_ok h
    have hfits : ¬Overflows v := fun hoverflows => by cases (ofItem_of_overflows hoverflows).symm.trans hitem
    obtain ⟨hno, hnone⟩ | ⟨haccepted, p, hp, -⟩ := ofItem_of_not_overflows book parts hfits
    · cases hitem.symm.trans hnone
      rw [List.filter_cons_of_neg (Bool.eq_false_iff.1 hno)]
      exact ih hrest
    · cases hitem.symm.trans hp
      rw [List.filter_cons_of_pos haccepted]
      exact .cons hp (ih hrest)

/-- Every answer with evidence from past orders: it ends the run, or each item of it that is accepted brings one
proposal, which is about the part that the item names and counts the orders that used it. -/
theorem ofItems_attributed (orders : List Order) (items : List UsedPart) (parts : List Part) (vs : List Json) :
    (∃ v ∈ vs, Overflows v) ∧ ofItems (.build orders items) parts vs = .error .overflow ∨
      ∃ ps, ofItems (.build orders items) parts vs = .ok ps ∧
        List.Forall₂ (fun v p => ∃ number, named? v = some number ∧ Attributed (.build orders items) number p)
          (vs.filter isAccepted) ps := by
  by_cases hoverflows : ∃ v ∈ vs, Overflows v
  · exact .inl ⟨hoverflows, ofItems_of_overflows _ parts hoverflows⟩
  · obtain ⟨ps, hps, -⟩ := exists_ofItems_of_not_overflows (.build orders items) parts
      fun v hv h => hoverflows ⟨v, hv, h⟩
    refine .inr ⟨ps, hps, (forall₂_of_ofItems hps).imp fun v p hp => ?_⟩
    exact attributed_of_ofItem (EvidenceBook.proper_build orders items) hp

def unsettledBook : EvidenceBook := .build [{ number := "MO-1" }] [⟨"MO-1", "待定", "LAMP", ""⟩]

/-- A proposal for a part that is not known is put down to that one, with its order. -/
theorem ofItems_unknownPart :
    let v := Json.obj [("partNumber", .str "未知")]
    named? v = some "未知" ∧ ∃ p, ofItems unsettledBook [] [v] = .ok [p] ∧
      ¬unsettledBook.SamePart "未知" p.partNumber ∧ p.evidenceCount = 1 ∧ p.matchedOrders = ["MO-1"] := by
  intro v
  have hnamed : named? v = some "未知" := by decide +kernel
  have hconfidence : statedConfidence v = .ok defaultConfidence := rfl
  obtain ⟨p, hp, hnumber, -, hcount, horders, -⟩ :=
    exists_ofItem unsettledBook [] hnamed hconfidence (by decide +kernel)
  refine ⟨hnamed, p, ?_, ?_, ?_, ?_⟩
  · rw [ofItems, hp]
    rfl
  · rw [hnumber]
    decide +kernel
  · rw [hcount]
    decide +kernel
  · rw [horders]
    decide +kernel

end Proposal

end Kitting
