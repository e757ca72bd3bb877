import Kitting.Synthesis.Evidence

namespace Kitting.EvidenceBook

variable {orders : List Order} {items : List UsedPart} {number : String} {e : Evidence}

structure Proper (book : EvidenceBook) : Prop where
  nodup : (Assoc.keys book).Nodup
  keyed : ∀ number e, Assoc.get? book number = some e → e.partNumber = number

def extended (pair : Order × UsedPart) (old : Option Evidence) : Evidence :=
  let (o, u) := pair
  (old.getD { partNumber := u.partNumber, name := u.name, remarks := u.remarks }).extend o

theorem build_eq_foldl (orders : List Order) (items : List UsedPart) :
    build orders items = (joined orders items).foldl
      (fun book pair => Assoc.alter (extended pair) pair.2.partNumber book) [] := rfl

theorem get?_build (orders : List Order) (items : List UsedPart) (number : String) :
    Assoc.get? (build orders items) number =
      ((joined orders items).filter (·.2.partNumber = number)).foldl
        (fun old pair => some (extended pair old)) none := by
  rw [build_eq_foldl, Assoc.get?_foldl_alter extended (·.2.partNumber), Assoc.get?_nil]

theorem partNumber_of_foldl {pairs : List (Order × UsedPart)} (h : ∀ pair ∈ pairs, pair.2.partNumber = number)
    {old : Option Evidence} (hold : ∀ e ∈ old, e.partNumber = number) :
    ∀ e ∈ pairs.foldl (fun old pair => some (extended pair old)) old, e.partNumber = number := by
  induction pairs generalizing old with
  | nil => exact hold
  | cons pair pairs ih =>
    rw [List.foldl_cons]
    refine ih (fun p hp => h p (List.mem_cons_of_mem _ hp)) ?_
    intro e he
    cases he
    cases old with
    | none => exact h pair List.mem_cons_self
    | some e => exact hold e rfl

theorem partNumber_of_get?_build (h : Assoc.get? (build orders items) number = some e) :
    e.partNumber = number := by
  rw [get?_build] at h
  refine partNumber_of_foldl (fun pair hpair => ?_) (fun e he => absurd he (Option.not_mem_none e)) e h
  exact of_decide_eq_true (List.mem_filter.1 hpair).2

theorem proper_build (orders : List Order) (items : List UsedPart) : (build orders items).Proper where
  nodup := Assoc.nodup_keys_foldl_alter extended (·.2.partNumber) _ List.nodup_nil
  keyed _ _ := partNumber_of_get?_build

end Kitting.EvidenceBook
