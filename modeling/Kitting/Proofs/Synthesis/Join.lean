import Kitting.Proofs.FirstOccurrence
import Kitting.Proofs.Synthesis.Evidence
import Mathlib.Data.List.ProdSigma
import Mathlib.Data.List.Sort

namespace Kitting

open Token (canonical)

/-- Their order numbers agree up to spelling, and say something. -/
structure Uses (o : Order) (u : UsedPart) : Prop where
  named : canonical o.number ≠ ""
  same : canonical u.orderNumber = canonical o.number

theorem uses_iff {o : Order} {u : UsedPart} :
    Uses o u ↔ canonical o.number ≠ "" ∧ canonical u.orderNumber = canonical o.number :=
  ⟨fun h => ⟨h.named, h.same⟩, fun h => ⟨h.1, h.2⟩⟩

instance (o : Order) (u : UsedPart) : Decidable (Uses o u) := decidable_of_iff _ uses_iff.symm

def uses (orders : List Order) (items : List UsedPart) : List (Order × UsedPart) :=
  (orders ×ˢ items).filter fun p => Uses p.1 p.2

def usesOf (orders : List Order) (items : List UsedPart) (number : String) : List (Order × UsedPart) :=
  (uses orders items).filter (·.2.partNumber = number)

def firstUse (orders : List Order) (items : List UsedPart) (number : String) : Nat :=
  (uses orders items).findIdx (·.2.partNumber = number)

theorem mem_uses {orders : List Order} {items : List UsedPart} {o : Order} {u : UsedPart} :
    (o, u) ∈ uses orders items ↔ (o ∈ orders ∧ u ∈ items) ∧ Uses o u := by
  rw [uses, List.mem_filter, decide_eq_true_iff]
  exact and_congr_left' List.pair_mem_product

namespace EvidenceBook

variable {orders : List Order} {items : List UsedPart} {number : String} {e : Evidence}
  {pairs : List (Order × UsedPart)} {book book' : EvidenceBook}

theorem itemsOf_byOrder (items : List UsedPart) (o : Order) :
    itemsOf (byOrder items) o = items.filter (Uses o ·) := by
  simp only [itemsOf, String.isEmpty_iff]
  split
  case isTrue hnone =>
    exact (List.filter_eq_nil_iff.2 fun u _ h => (of_decide_eq_true h).named hnone).symm
  case isFalse hnamed =>
    have htable : (Assoc.get? (byOrder items) (canonical o.number)).getD [] =
        (items.filter fun u => !(canonical u.orderNumber).isEmpty).filter
          (canonical ·.orderNumber = canonical o.number) := by
      rw [byOrder, Assoc.get?_foldl_append]
      split
      case isTrue h => exact h.symm
      case isFalse => rfl
    rw [htable, List.filter_filter]
    refine List.filter_congr fun u _ => ?_
    rw [Bool.eq_iff_iff]
    simp only [uses_iff, ne_eq, Bool.and_eq_true, decide_eq_true_eq, Bool.not_eq_true', String.isEmpty_eq_false_iff]
    exact ⟨fun h => ⟨hnamed, h.1⟩, fun h => ⟨h.2, h.2 ▸ hnamed⟩⟩

theorem joined_eq (orders : List Order) (items : List UsedPart) : joined orders items = uses orders items := by
  change _ = (orders.flatMap fun o => items.map (o, ·)).filter fun p => Uses p.1 p.2
  rw [joined, List.filter_flatMap]
  refine List.flatMap_congr fun o _ => ?_
  rw [itemsOf_byOrder, List.filter_map]
  rfl

structure Collects (pairs : List (Order × UsedPart)) (e : Evidence) : Prop where
  orders : e.orders = pairs.map (·.1.number)
  contexts : e.contexts = pairs.map (·.1.summary)
  first : ∃ p ∈ pairs.head?, e.partNumber = p.2.partNumber ∧ e.name = p.2.name ∧ e.remarks = p.2.remarks

theorem foldl_extended_some (pairs : List (Order × UsedPart)) (e : Evidence) :
    pairs.foldl (fun old p => some (extended p old)) (some e) =
      some { e with
        orders := e.orders ++ pairs.map (·.1.number), contexts := e.contexts ++ pairs.map (·.1.summary) } := by
  induction pairs generalizing e with
  | nil => simp
  | cons p pairs ih =>
    rw [List.foldl_cons, ih]
    simp [extended, Evidence.extend]

theorem foldl_extended_eq_some_iff :
    pairs.foldl (fun old p => some (extended p old)) none = some e ↔ Collects pairs e := by
  cases pairs with
  | nil => simpa using fun h : Collects [] e => by simpa using h.first
  | cons p pairs =>
    rw [List.foldl_cons, foldl_extended_some, Option.some.injEq]
    constructor
    · rintro rfl
      exact ⟨rfl, rfl, p, rfl, rfl, rfl, rfl⟩
    · rintro ⟨horders, hcontexts, q, ⟨⟩, hnumber, hname, hremarks⟩
      obtain ⟨number, name, remarks, orders, contexts⟩ := e
      subst horders hcontexts hnumber hname hremarks
      rfl

theorem get?_build_eq_some_iff :
    Assoc.get? (build orders items) number = some e ↔ Collects (usesOf orders items number) e := by
  rw [get?_build, joined_eq, foldl_extended_eq_some_iff]
  rfl

theorem keys_build (orders : List Order) (items : List UsedPart) :
    Assoc.keys (build orders items) = ((uses orders items).map (·.2.partNumber)).eraseDups := by
  rw [build_eq_foldl, Assoc.keys_foldl_alter extended (·.2.partNumber), joined_eq]
  simp [Assoc.keys]

/-- One entry for each part number that an order used, in the order of the first uses, from all the pairs with it. -/
structure IsJoin (orders : List Order) (items : List UsedPart) (book : EvidenceBook) : Prop where
  mem_keys : ∀ number, number ∈ Assoc.keys book ↔
    ∃ o ∈ orders, ∃ u ∈ items, u.partNumber = number ∧ Uses o u
  ordered : (Assoc.keys book).Pairwise fun a b => firstUse orders items a < firstUse orders items b
  collects : ∀ number e, Assoc.get? book number = some e ↔ Collects (usesOf orders items number) e

theorem isJoin_build (orders : List Order) (items : List UsedPart) : IsJoin orders items (build orders items) where
  mem_keys number := by
    rw [keys_build, List.mem_eraseDups, List.mem_map]
    constructor
    · rintro ⟨⟨o, u⟩, hp, rfl⟩
      obtain ⟨⟨ho, hu⟩, huses⟩ := mem_uses.1 hp
      exact ⟨o, ho, u, hu, rfl, huses⟩
    · rintro ⟨o, ho, u, hu, rfl, huses⟩
      exact ⟨(o, u), mem_uses.2 ⟨⟨ho, hu⟩, huses⟩, rfl⟩
  ordered := by
    have h := pairwise_eraseDups_filterMap (fun p : Order × UsedPart => some p.2.partNumber) (uses orders items)
    rw [List.filterMap_eq_map', ← keys_build] at h
    simp only [Option.some.injEq] at h
    exact h
  collects _ _ := get?_build_eq_some_iff

theorem IsJoin.nodup (h : IsJoin orders items book) : (Assoc.keys book).Nodup :=
  h.ordered.imp fun hlt heq => (heq ▸ hlt).false

theorem IsJoin.pairwise (h : IsJoin orders items book) :
    book.Pairwise fun p q => firstUse orders items p.1 < firstUse orders items q.1 := by
  have hkeys := h.ordered
  rwa [Assoc.keys, List.pairwise_map] at hkeys

theorem IsJoin.unique (h : IsJoin orders items book) (h' : IsJoin orders items book') : book = book' := by
  have : Std.Asymm fun p q : String × Evidence => firstUse orders items p.1 < firstUse orders items q.1 :=
    ⟨fun _ _ => lt_asymm⟩
  refine h.pairwise.eq_of_mem_iff h'.pairwise fun (number, e) => ?_
  rw [Assoc.mem_iff_get? h.nodup, Assoc.mem_iff_get? h'.nodup, h.collects, h'.collects]

end EvidenceBook

end Kitting
