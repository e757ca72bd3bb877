import Kitting.Proofs.Catalog
import Kitting.Selection

/-!
Which part holds an exclusive group, and for which source a part is picked.

`Merge.Sound` ties the picked exclusive parts to the holders of their groups; every step keeps it. What a
run does to one group is a fold of `Source.claim` over the ids that name its exclusive parts, and what it
does to one shared part is `Source.raise`. From the two, `get?_resolve` reads the picks off the three lists.
-/

namespace Kitting

variable {parts : List Part} {p q : Part} {id key : String} {source s : Source} {m : Merge}

def highestSource (user order logic : List String) (id : String) : Option Source :=
  if id ∈ user then some .user
  else if id ∈ order then some .order
  else if id ∈ logic then some .logic
  else none

def contends (parts : List Part) (key id : String) : Bool :=
  parts.any fun p => p.id == id && p.isExclusive && p.groupKey == key

def contenders (parts : List Part) (key : String) (ids : List String) : List String :=
  ids.filter (contends parts key)

/-- Who holds an exclusive group: the user's last choice, else the last one that the order matches, else
the first triggered one of the catalog. -/
def groupHolder (parts : List Part) (user order logic : List String) (key : String) :
    Option (String × Source) :=
  match (contenders parts key user).getLast?, (contenders parts key order).getLast? with
  | some id, _ => some (id, .user)
  | none, some id => some (id, .order)
  | none, none => ((contenders parts key (parts.map Part.id)).find? (· ∈ logic)).map (·, .logic)

theorem contends_iff :
    contends parts key id ↔ ∃ p ∈ parts, p.id = id ∧ p.isExclusive ∧ p.groupKey = key := by
  simp [contends, and_assoc]

namespace Source

def claim (source : Source) (held : Option (String × Source)) (id : String) : Option (String × Source) :=
  match held with
  | none => some (id, source)
  | some (holder, s) =>
    if source.rank < s.rank || source == .logic then some (holder, s) else some (id, source)

def raise (source : Source) : Option Source → Source
  | some s => if s.rank < source.rank then source else s
  | none => source

theorem raise_raise (source : Source) (o : Option Source) :
    source.raise (some (source.raise o)) = source.raise o := by
  cases o with
  | none => simp [raise]
  | some s =>
    simp only [raise]
    split <;> simp_all

theorem foldl_claim_evicting (hs : source ≠ .logic) (held : Option (String × Source))
    (hr : ∀ id s, held = some (id, s) → s.rank ≤ source.rank) (ids : List String) :
    ids.foldl source.claim held = (ids.getLast?.map (·, source)).or held := by
  induction ids generalizing held with
  | nil => simp
  | cons id ids ih =>
    have hc : source.claim held id = some (id, source) := by
      cases held with
      | none => rfl
      | some h => simp [claim, hs, Nat.not_lt.2 (hr h.1 h.2 rfl)]
    rw [List.foldl_cons, hc, ih _ (by simp)]
    cases hl : ids.getLast? with
    | none => simp [List.getLast?_cons, hl]
    | some last => simp [List.getLast?_cons, hl]

theorem foldl_claim_lower {holder : String} (hr : source.rank < s.rank) (ids : List String) :
    ids.foldl source.claim (some (holder, s)) = some (holder, s) := by
  induction ids with
  | nil => rfl
  | cons id ids ih =>
    rw [List.foldl_cons, claim, decide_eq_true hr]
    exact ih

theorem foldl_claim_logic (held : Option (String × Source)) (ids : List String) :
    ids.foldl logic.claim held = held.or (ids.head?.map (·, logic)) := by
  induction ids generalizing held with
  | nil => simp
  | cons id ids ih =>
    rw [List.foldl_cons, ih]
    cases held with
    | none => rfl
    | some h => simp [claim]

end Source

namespace Merge

/-- An exclusive part is picked exactly while it holds its group, and only configurable parts of the
catalog are picked. -/
structure Sound (parts : List Part) (m : Merge) : Prop where
  held : ∀ p ∈ parts, p.isExclusive → ∀ s,
    Assoc.get? m.picks p.id = some s ↔ Assoc.get? m.holders p.groupKey = some (p.id, s)
  holder : ∀ key id s, Assoc.get? m.holders key = some (id, s) →
    ∃ p ∈ parts, p.id = id ∧ p.isExclusive ∧ p.groupKey = key
  known : ∀ id ∈ m.picks.ids, ∃ p ∈ parts, p.id = id ∧ p.isConfigurable
  nodup : m.picks.ids.Nodup

theorem sound_empty (parts : List Part) : Sound parts {} := by
  constructor <;> simp [Picks.ids, Assoc.keys]

theorem add_cases (h : DistinctIds parts) (source : Source) (m : Merge) (id : String) :
    (∃ p ∈ parts, p.id = id ∧ p.isExclusive ∧
      add parts source m id = m.addExclusive p.groupKey p.id source) ∨
    (∃ p ∈ parts, p.id = id ∧ p.isConfigurable ∧ p.isExclusive = false ∧
      add parts source m id = m.addShared p.id source) ∨
    ((∀ p ∈ parts, p.id = id → p.isConfigurable = false) ∧ add parts source m id = m) := by
  cases hp : partOf? parts id with
  | none =>
    refine .inr (.inr ⟨fun p hmem hid => absurd hid (partOf?_eq_none_iff.1 hp p hmem), ?_⟩)
    simp only [add, hp]
  | some p =>
    obtain ⟨hmem, hid⟩ := mem_of_partOf? hp
    subst hid
    cases hc : p.isConfigurable with
    | false =>
      refine .inr (.inr ⟨fun q hq hqp => ?_, by simp [add, hp, hc]⟩)
      rw [h.eq_of_id hq hmem hqp, hc]
    | true =>
      cases he : p.isExclusive with
      | true => exact .inl ⟨p, hmem, rfl, he, by simp [add, hp, hc, he]⟩
      | false => exact .inr (.inl ⟨p, hmem, rfl, hc, he, by simp [add, hp, hc, he]⟩)

theorem holders_addShared (m : Merge) (id : String) (source : Source) :
    (m.addShared id source).holders = m.holders := by
  simp only [addShared]
  split
  · split <;> rfl
  · rfl

theorem picks_addShared (m : Merge) (id other : String) (source : Source) :
    Assoc.get? (m.addShared id source).picks other =
      if id = other then some (source.raise (Assoc.get? m.picks id)) else Assoc.get? m.picks other := by
  simp only [addShared]
  cases ho : Assoc.get? m.picks id with
  | none => simp only [Assoc.get?_put]; rfl
  | some s =>
    simp only [Source.raise]
    split
    · rw [Assoc.get?_put]
    · split
      case isTrue hid => rw [← hid, ho]
      case isFalse => rfl

theorem holders_addExclusive (m : Merge) (key id other : String) (source : Source) :
    Assoc.get? (m.addExclusive key id source).holders other =
      if key = other then source.claim (Assoc.get? m.holders key) id
      else Assoc.get? m.holders other := by
  simp only [addExclusive]
  cases hk : Assoc.get? m.holders key with
  | none => simp only [occupy, Assoc.get?_put, Source.claim]
  | some h =>
    obtain ⟨holder, s⟩ := h
    simp only [Source.claim]
    split
    · split
      case isTrue hid => rw [← hid, hk]
      case isFalse => rfl
    · simp only [occupy, Assoc.get?_put]

theorem Sound.occupy (hd : DistinctIds parts) (h : Sound parts m) (hp : p ∈ parts) (he : p.isExclusive)
    (picks : Picks)
    (hfree : ∀ q ∈ parts, q.isExclusive → q.groupKey = p.groupKey → q ≠ p →
      Assoc.get? picks q.id = none)
    (hkeep : ∀ q ∈ parts, q.isExclusive → q.groupKey ≠ p.groupKey →
      Assoc.get? picks q.id = Assoc.get? m.picks q.id)
    (hsub : picks.ids.Sublist m.picks.ids) (source : Source) :
    Sound parts (({ m with picks := picks } : Merge).occupy p.groupKey p.id source) where
  held q hq hqe s := by
    simp only [Merge.occupy, Assoc.get?_put]
    by_cases hqp : q = p
    · subst hqp
      simp
    · have hid : p.id ≠ q.id := fun hid => hqp (hd.eq_of_id hq hp hid.symm)
      by_cases hkey : p.groupKey = q.groupKey
      · simp [hid, hkey, hfree q hq hqe hkey.symm hqp]
      · simp only [hid, hkey, if_false]
        rw [hkeep q hq hqe (Ne.symm hkey)]
        exact h.held q hq hqe s
  holder key id s := by
    simp only [Merge.occupy, Assoc.get?_put]
    split
    case isTrue hkey =>
      rintro ⟨⟩
      exact ⟨p, hp, rfl, he, hkey⟩
    case isFalse => exact h.holder key id s
  known id := by
    simp only [Merge.occupy, Picks.ids, Assoc.mem_keys_iff, Assoc.get?_put]
    split
    case isTrue hid => exact fun _ => ⟨p, hp, hid, Part.isConfigurable_of_isExclusive he⟩
    case isFalse =>
      intro hmem
      exact h.known id (hsub.subset (Assoc.mem_keys_iff.2 hmem))
  nodup := Assoc.nodup_keys_put (hsub.nodup h.nodup) _ _

theorem Sound.addExclusive (hd : DistinctIds parts) (h : Sound parts m) (hp : p ∈ parts)
    (he : p.isExclusive) (source : Source) : Sound parts (m.addExclusive p.groupKey p.id source) := by
  simp only [Merge.addExclusive]
  cases hk : Assoc.get? m.holders p.groupKey with
  | none =>
    refine h.occupy hd hp he m.picks ?_ (fun _ _ _ _ => rfl) (List.Sublist.refl _) source
    intro q hq hqe hkey _
    rw [Option.eq_none_iff_forall_ne_some]
    intro s hs
    rw [h.held q hq hqe, hkey, hk] at hs
    cases hs
  | some holding =>
    obtain ⟨holder, s⟩ := holding
    simp only
    split
    · exact h
    obtain ⟨r, hr, hrid, hre, hrkey⟩ := h.holder _ _ _ hk
    refine h.occupy hd hp he (Assoc.erase m.picks holder) ?_ ?_ ?_ source
    · intro q hq hqe hkey _
      rw [Assoc.get?_erase]
      split
      case isTrue => rfl
      case isFalse hne =>
        rw [Option.eq_none_iff_forall_ne_some]
        intro s' hs'
        rw [h.held q hq hqe, hkey, hk] at hs'
        cases hs'
        exact hne rfl
    · intro q hq hqe hkey
      rw [Assoc.get?_erase, if_neg]
      intro hid
      rw [hd.eq_of_id hr hq (hrid.trans hid)] at hrkey
      exact hkey hrkey
    · rw [Picks.ids, Picks.ids, Assoc.keys_erase]
      exact List.filter_sublist

theorem Sound.addShared (hd : DistinctIds parts) (h : Sound parts m) (hp : p ∈ parts)
    (hc : p.isConfigurable) (he : p.isExclusive = false) (source : Source) :
    Sound parts (m.addShared p.id source) where
  held q hq hqe s := by
    have hid : p.id ≠ q.id := by
      intro hid
      rw [hd.eq_of_id hp hq hid, hqe] at he
      cases he
    rw [picks_addShared, if_neg hid, holders_addShared]
    exact h.held q hq hqe s
  holder key id s := by
    rw [holders_addShared]
    exact h.holder key id s
  known id := by
    simp only [Picks.ids, Assoc.mem_keys_iff, picks_addShared]
    split
    case isTrue hid => exact fun _ => ⟨p, hp, hid, hc⟩
    case isFalse => exact fun hmem => h.known id (Assoc.mem_keys_iff.2 hmem)
  nodup := by
    simp only [Merge.addShared]
    split
    · split
      · exact Assoc.nodup_keys_put h.nodup _ _
      · exact h.nodup
    · exact Assoc.nodup_keys_put h.nodup _ _

theorem Sound.add (hd : DistinctIds parts) (h : Sound parts m) (source : Source) (id : String) :
    Sound parts (add parts source m id) := by
  rcases add_cases hd source m id with ⟨p, hp, _, he, hadd⟩ | ⟨p, hp, _, hc, he, hadd⟩ | ⟨_, hadd⟩
  · rw [hadd]
    exact h.addExclusive hd hp he source
  · rw [hadd]
    exact h.addShared hd hp hc he source
  · rw [hadd]
    exact h

theorem Sound.addAll (hd : DistinctIds parts) (h : Sound parts m) (source : Source) (ids : List String) :
    Sound parts (addAll parts source m ids) := by
  induction ids generalizing m with
  | nil => exact h
  | cons id ids ih => exact ih (h.add hd source id)

theorem holders_add (hd : DistinctIds parts) (source : Source) (m : Merge) (id key : String) :
    Assoc.get? (add parts source m id).holders key =
      if contends parts key id then source.claim (Assoc.get? m.holders key) id
      else Assoc.get? m.holders key := by
  rcases add_cases hd source m id with
    ⟨p, hp, hid, he, hadd⟩ | ⟨p, hp, hid, _, he, hadd⟩ | ⟨hnone, hadd⟩
  · rw [hadd, holders_addExclusive]
    by_cases hkey : p.groupKey = key
    · subst hkey
      rw [if_pos rfl, if_pos (contends_iff.2 ⟨p, hp, hid, he, rfl⟩), hid]
    · rw [if_neg hkey, if_neg]
      rw [contends_iff]
      rintro ⟨q, hq, hqid, _, hqkey⟩
      rw [hd.eq_of_id hq hp (hqid.trans hid.symm)] at hqkey
      exact hkey hqkey
  · rw [hadd, holders_addShared, if_neg]
    rw [contends_iff]
    rintro ⟨q, hq, hqid, hqe, _⟩
    rw [hd.eq_of_id hq hp (hqid.trans hid.symm), he] at hqe
    cases hqe
  · rw [hadd, if_neg]
    rw [contends_iff]
    rintro ⟨q, hq, hqid, hqe, _⟩
    have hc := Part.isConfigurable_of_isExclusive hqe
    rw [hnone q hq hqid] at hc
    cases hc

theorem holders_addAll (hd : DistinctIds parts) (source : Source) (m : Merge) (ids : List String)
    (key : String) :
    Assoc.get? (addAll parts source m ids).holders key =
      (contenders parts key ids).foldl source.claim (Assoc.get? m.holders key) := by
  induction ids generalizing m with
  | nil => rfl
  | cons id ids ih =>
    change Assoc.get? (addAll parts source (add parts source m id) ids).holders key = _
    rw [ih, holders_add hd, contenders, contenders, List.filter_cons]
    split <;> rfl

theorem Sound.picks_addExclusive (hd : DistinctIds parts) (h : Sound parts m) (hp : p ∈ parts)
    (he : p.isExclusive = false) (hq : q ∈ parts) (hqe : q.isExclusive) (source : Source) :
    Assoc.get? (m.addExclusive q.groupKey q.id source).picks p.id = Assoc.get? m.picks p.id := by
  have hne : ∀ r ∈ parts, r.isExclusive → r.id ≠ p.id := by
    intro r hr hre hid
    rw [hd.eq_of_id hr hp hid, he] at hre
    cases hre
  simp only [Merge.addExclusive]
  cases hk : Assoc.get? m.holders q.groupKey with
  | none => rw [Merge.occupy, Assoc.get?_put, if_neg (hne q hq hqe)]
  | some holding =>
    obtain ⟨holder, s⟩ := holding
    simp only
    split
    · rfl
    obtain ⟨r, hr, hrid, hre, _⟩ := h.holder _ _ _ hk
    rw [Merge.occupy, Assoc.get?_put, if_neg (hne q hq hqe), Assoc.get?_erase, if_neg (hrid ▸ hne r hr hre)]

theorem Sound.picks_add (hd : DistinctIds parts) (h : Sound parts m) (hp : p ∈ parts)
    (hc : p.isConfigurable) (he : p.isExclusive = false) (source : Source) (id : String) :
    Assoc.get? (Merge.add parts source m id).picks p.id =
      if id = p.id then some (source.raise (Assoc.get? m.picks p.id))
      else Assoc.get? m.picks p.id := by
  rcases add_cases hd source m id with
    ⟨q, hq, hid, hqe, hadd⟩ | ⟨q, hq, hid, _, _, hadd⟩ | ⟨hnone, hadd⟩
  · rw [hadd, h.picks_addExclusive hd hp he hq hqe, if_neg]
    intro hidp
    rw [hd.eq_of_id hq hp (hid.trans hidp), he] at hqe
    cases hqe
  · subst hid
    rw [hadd, picks_addShared]
    split
    case isTrue hidp => rw [hidp]
    case isFalse => rfl
  · rw [hadd, if_neg]
    intro hidp
    rw [hnone p hp hidp.symm] at hc
    cases hc

theorem Sound.picks_addAll (hd : DistinctIds parts) (h : Sound parts m) (hp : p ∈ parts)
    (hc : p.isConfigurable) (he : p.isExclusive = false) (source : Source) (ids : List String) :
    Assoc.get? (Merge.addAll parts source m ids).picks p.id =
      if p.id ∈ ids then some (source.raise (Assoc.get? m.picks p.id))
      else Assoc.get? m.picks p.id := by
  induction ids generalizing m with
  | nil => rfl
  | cons id ids ih =>
    change Assoc.get? (Merge.addAll parts source (Merge.add parts source m id) ids).picks p.id = _
    rw [ih (h.add hd source id), h.picks_add hd hp hc he]
    by_cases hid : id = p.id
    · simp [hid, Source.raise_raise]
    · simp [hid, Ne.symm hid]

end Merge

theorem head?_contenders_inCatalogOrder (parts : List Part) (logic : List String) (key : String) :
    (contenders parts key (inCatalogOrder parts logic)).head? =
      (contenders parts key (parts.map Part.id)).find? (· ∈ logic) := by
  rw [contenders, inCatalogOrder, List.filter_comm, List.head?_filter, contenders]
  simp only [List.contains_eq_mem]

theorem mem_inCatalogOrder (hp : p ∈ parts) (logic : List String) :
    p.id ∈ inCatalogOrder parts logic ↔ p.id ∈ logic := by
  have hid : p.id ∈ parts.map Part.id := List.mem_map_of_mem hp
  simp only [inCatalogOrder, List.mem_filter, hid, true_and, List.contains_eq_mem, decide_eq_true_eq]

def merged (parts : List Part) (user order logic : List String) : Merge :=
  ((({} : Merge).addAll parts .user user).addAll parts .order order).addAll parts .logic
    (inCatalogOrder parts logic)

theorem sound_merged (hd : DistinctIds parts) (user order logic : List String) :
    (merged parts user order logic).Sound parts :=
  (((Merge.sound_empty parts).addAll hd _ _).addAll hd _ _).addAll hd _ _

theorem holders_merged (hd : DistinctIds parts) (user order logic : List String) (key : String) :
    Assoc.get? (merged parts user order logic).holders key =
      groupHolder parts user order logic key := by
  have huser : Assoc.get? (({} : Merge).addAll parts .user user).holders key =
      (contenders parts key user).getLast?.map (·, .user) := by
    rw [Merge.holders_addAll hd, Source.foldl_claim_evicting (by decide) _ (by simp)]
    simp
  rw [merged, Merge.holders_addAll hd, Merge.holders_addAll hd, huser, Source.foldl_claim_logic,
    head?_contenders_inCatalogOrder, groupHolder]
  cases (contenders parts key user).getLast? with
  | some id =>
    rw [Option.map_some, Source.foldl_claim_lower (by decide)]
    rfl
  | none =>
    rw [Option.map_none, Source.foldl_claim_evicting (by decide) _ (by simp)]
    cases (contenders parts key order).getLast? <;> simp

theorem picks_merged (hd : DistinctIds parts) (user order logic : List String) (hp : p ∈ parts)
    (hc : p.isConfigurable) (he : p.isExclusive = false) :
    Assoc.get? (merged parts user order logic).picks p.id = highestSource user order logic p.id := by
  have h0 := Merge.sound_empty parts
  have h1 := h0.addAll hd .user user
  have h2 := h1.addAll hd .order order
  rw [merged, h2.picks_addAll hd hp hc he, h1.picks_addAll hd hp hc he, h0.picks_addAll hd hp hc he,
    highestSource]
  simp only [mem_inCatalogOrder hp]
  by_cases hu : p.id ∈ user <;> by_cases ho : p.id ∈ order <;> by_cases hl : p.id ∈ logic <;>
    simp [hu, ho, hl, Source.raise, Source.rank]

/-- The picks are the priority merge of the three lists: a shared part comes from the highest source that
names it, an exclusive group goes to the one part that `groupHolder` says, and nothing else is picked. -/
theorem resolve_by_priority (hd : DistinctIds parts) (user order logic : List String) :
    (∀ p ∈ parts, p.isConfigurable → p.isExclusive = false →
      Assoc.get? (resolve parts user order logic) p.id = highestSource user order logic p.id) ∧
    (∀ key id source,
      (Assoc.get? (resolve parts user order logic) id = some source ∧
        ∃ p ∈ parts, p.id = id ∧ p.isExclusive ∧ p.groupKey = key) ↔
      groupHolder parts user order logic key = some (id, source)) ∧
    (∀ id ∈ (resolve parts user order logic).ids, ∃ p ∈ parts, p.id = id ∧ p.isConfigurable) ∧
    (resolve parts user order logic).ids.Nodup := by
  have hs := sound_merged hd user order logic
  refine ⟨fun p hp hc he => picks_merged hd user order logic hp hc he, ?_, hs.known, hs.nodup⟩
  intro key id source
  rw [← holders_merged hd]
  constructor
  · rintro ⟨hpick, p, hp, rfl, he, rfl⟩
    exact (hs.held p hp he source).1 hpick
  · intro hheld
    obtain ⟨p, hp, rfl, he, rfl⟩ := hs.holder key id source hheld
    exact ⟨(hs.held p hp he source).2 hheld, p, hp, rfl, he, rfl⟩

def cabCatalog : List Part :=
  [{ id := "frame" },
   { id := "canopy", designator := "CAB", functionCode := 2 },
   { id := "cab", designator := "CAB", functionCode := 2 },
   { id := "heater", designator := "CAB", functionCode := 1 },
   { id := "bench", designator := "SEAT", functionCode := 2 },
   { id := "sprung", designator := "SEAT", functionCode := 2 },
   { id := "lights", functionCode := 9 }]

theorem resolve_by_priority_cabCatalog :
    DistinctIds cabCatalog ∧
      (let picks := resolve cabCatalog ["canopy", "cab", "canopy"] ["cab", "heater"]
        ["sprung", "bench", "heater"]
      Assoc.get? picks "heater" = some .order ∧ Assoc.get? picks "canopy" = some .user ∧
        Assoc.get? picks "bench" = some .logic) := by
  have hd : DistinctIds cabCatalog := by decide
  obtain ⟨hshared, hexclusive, -, -⟩ := resolve_by_priority hd ["canopy", "cab", "canopy"]
    ["cab", "heater"] ["sprung", "bench", "heater"]
  refine ⟨hd, ?_, ?_, ?_⟩
  · exact hshared { id := "heater", designator := "CAB", functionCode := 1 } (by simp [cabCatalog])
      rfl rfl
  · exact ((hexclusive "CAB" "canopy" .user).2 (by decide)).1
  · exact ((hexclusive "SEAT" "bench" .logic).2 (by decide)).1

end Kitting
