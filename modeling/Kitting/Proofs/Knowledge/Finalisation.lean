import Kitting.Proofs.Fulfilment.Manifest
import Kitting.Proofs.Knowledge.Storage
import Kitting.Proofs.Selection.Groups

namespace Kitting

variable {parts : List Part} {picks : Picks} {f : Fulfilment} {fs : List Fulfilment} {k k' k'' : Knowledge}

structure Manifest.Lists (m : Manifest) (parts listed : List Part) : Prop where
  sublist : listed.Sublist parts
  perm : listed.Perm ((m.filter (·.source ≠ .mandatory)).map (·.part))

theorem Manifest.filter_unsorted (h : ∀ id, Assoc.get? picks id ≠ some .mandatory) :
    (unsorted parts picks).filter (·.source ≠ .mandatory) =
      (parts.filter Part.isConfigurable).filterMap fun p =>
        (Assoc.get? picks p.id).map fun source => ⟨p, source⟩ := by
  rw [unsorted, List.filter_append, List.filter_eq_nil_iff.2, List.nil_append, List.filter_eq_self.2]
  · intro line hline
    obtain ⟨p, -, hline⟩ := List.mem_filterMap.1 hline
    obtain ⟨source, hsource, rfl⟩ := Option.map_eq_some_iff.1 hline
    exact decide_eq_true fun heq => h p.id (heq ▸ hsource)
  · intro line hline
    obtain ⟨p, -, rfl⟩ := List.mem_map.1 hline
    simp

theorem Manifest.lists_of (h : ∀ id, Assoc.get? picks id ≠ some .mandatory) :
    (Manifest.of parts picks).Lists parts
      (parts.filter fun p => p.isConfigurable && Assoc.has picks p.id) where
  sublist := List.filter_sublist
  perm := by
    refine List.Perm.trans (.of_eq ?_) (((List.mergeSort_perm _ _).filter _).map _).symm
    rw [filter_unsorted h, map_part_picked, List.filter_filter]
    simp only [Assoc.has, Bool.and_comm]

namespace Fulfilment

def listed (parts : List Part) (f : Fulfilment) : List Part :=
  parts.filter fun p => p.isConfigurable && Assoc.has f.picks p.id

def filing (parts : List Part) (f : Fulfilment) : Knowledge.Filing :=
  (Knowledge.modelKey f.order.model, (f.listed parts).map Part.precedent)

theorem finalize_eq_append (parts : List Part) (f : Fulfilment) (k : Knowledge) :
    f.finalize parts k = k.append f.order.model (f.filing parts).2 := rfl

/-- Orders over a catalog with distinct ids, whose texts have no white space at their ends. -/
structure Settled (parts : List Part) (fs : List Fulfilment) : Prop where
  distinct : DistinctIds parts
  trimmed : ∀ p ∈ parts, p.Trimmed
  settled : ∀ f ∈ fs, ∃ inventory user matched cap source order, inventory.parts = parts ∧
    f = settle inventory user matched cap source order

theorem Settled.lists (h : Settled parts fs) (hf : f ∈ fs) : f.manifest.Lists parts (f.listed parts) := by
  obtain ⟨inventory, user, matched, cap, source, order, rfl, rfl⟩ := h.settled f hf
  refine Manifest.lists_of fun id hpick => ?_
  exact absurd (mem_among_of_pick h.distinct hpick).1 List.not_mem_nil

theorem Settled.filing_trimmed (h : Settled parts fs) (f : Fulfilment) :
    ∀ p ∈ (f.filing parts).2, p.Trimmed :=
  List.forall_mem_map.2 fun p hp => (h.trimmed p (List.mem_of_mem_filter hp)).precedent

end Fulfilment

namespace Knowledge

def filings (parts : List Part) (fs : List Fulfilment) : List Filing :=
  (fs.filter (·.report.isValid)).map (·.filing parts)

def finalized (parts : List Part) (k : Knowledge) (fs : List Fulfilment) : Knowledge :=
  (fs.filter (·.report.isValid)).foldl (fun k f => f.finalize parts k) k

theorem extends_finalized (parts : List Part) (k : Knowledge) (fs : List Fulfilment) :
    k.Extends (filings parts fs) (k.finalized parts fs) := by
  rw [filings, finalized]
  induction fs.filter (·.report.isValid) generalizing k with
  | nil => exact .refl k
  | cons f fs ih => exact .trans (k.extends_append f.order.model (f.filing parts).2) (ih (f.finalize parts k))

theorem Tidy.finalized (hk : k.Tidy) (hfs : Fulfilment.Settled parts fs) : (k.finalized parts fs).Tidy := by
  rw [Knowledge.finalized]
  induction fs.filter (·.report.isValid) generalizing k with
  | nil => exact hk
  | cons f fs ih => exact ih (hk.append f.order.model (hfs.filing_trimmed f))

structure Recorded (k : Knowledge) (log : List (List Part × List Fulfilment)) (k' : Knowledge) : Prop where
  tidy : k'.Tidy
  grown : k.Extends (log.flatMap fun session => filings session.1 session.2) k'
  lists : ∀ session ∈ log, ∀ f ∈ session.2, f.manifest.Lists session.1 (f.listed session.1)

theorem Recorded.trans {log log' : List (List Part × List Fulfilment)} (h : k.Recorded log k')
    (h' : k'.Recorded log' k'') : k.Recorded (log ++ log') k'' where
  tidy := h'.tidy
  grown := by
    rw [List.flatMap_append]
    exact h.grown.trans h'.grown
  lists := List.forall_mem_append.2 ⟨h.lists, h'.lists⟩

theorem recorded_finalized (hk : k.Tidy) (hfs : Fulfilment.Settled parts fs) :
    k.Recorded [(parts, fs)] (k.finalized parts fs) where
  tidy := hk.finalized hfs
  grown := by
    rw [List.flatMap_singleton]
    exact k.extends_finalized parts fs
  lists := by
    rw [List.forall_mem_singleton]
    exact fun f => hfs.lists

end Knowledge

namespace Command

open Session

variable {inventory i : Inventory} {places : Places} {w w' : World}

theorem finalizeOne_eq (parts : List Part) (k : Knowledge) (f : Fulfilment) (w : World) :
    ∃ o, finalizeOne parts k f w =
      .ok (if f.report.isValid then f.finalize parts k else k) { w with output := o } := by
  rw [finalizeOne]
  split
  · exact ⟨w.output, rfl⟩
  · exact ⟨_, rfl⟩

theorem foldlM_finalizeOne (parts : List Part) (k : Knowledge) (fs : List Fulfilment) (w : World) :
    ∃ o, fs.foldlM (finalizeOne parts) k w = .ok (k.finalized parts fs) { w with output := o } := by
  induction fs generalizing k w with
  | nil => exact ⟨w.output, rfl⟩
  | cons f fs ih =>
    obtain ⟨o, hone⟩ := finalizeOne_eq parts k f w
    obtain ⟨o', hrest⟩ := ih (if f.report.isValid then f.finalize parts k else k) { w with output := o }
    refine ⟨o', ?_⟩
    rw [List.foldlM_cons]
    refine bind_eq_ok_iff.2 ⟨_, _, hone, ?_⟩
    rw [hrest, Knowledge.finalized, Knowledge.finalized]
    cases hvalid : f.report.isValid <;> simp [hvalid]

theorem exists_finalizeAll (fs : List Fulfilment) (inventory : Inventory) (hw : w.accepts places.knowledge) :
    ∃ w', finalizeAll fs inventory places w =
      .ok { inventory with knowledge := inventory.knowledge.finalized inventory.parts fs } w' := by
  obtain ⟨o, hfold⟩ := foldlM_finalizeOne inventory.parts inventory.knowledge fs w
  have haccepts : ({ w with output := o } : World).accepts places.knowledge := hw
  obtain ⟨u, hsave⟩ := exists_writeText haccepts (inventory.knowledge.finalized inventory.parts fs).toText
  exact ⟨_, bind_eq_ok_iff.2 ⟨_, _, hfold, bind_eq_ok_iff.2 ⟨_, u, hsave, rfl⟩⟩⟩

theorem save_of_finalizeAll (h : finalizeAll fs inventory places w = .ok i w') :
    i = { inventory with knowledge := inventory.knowledge.finalized inventory.parts fs } ∧
      ∃ u u', saveKnowledge places.knowledge i.knowledge u = .ok () u' ∧
        u'.files.text (u'.place places.knowledge) = w'.files.text (w'.place places.knowledge) := by
  -- What the last line of a finalisation says does not touch the file.
  obtain ⟨o, hfold⟩ := foldlM_finalizeOne inventory.parts inventory.knowledge fs w
  obtain ⟨k, u, hk, h⟩ := bind_eq_ok_iff.1 h
  cases hfold.symm.trans hk
  obtain ⟨_, u', hsave, h⟩ := bind_eq_ok_iff.1 h
  obtain ⟨_, v, hprint, h⟩ := bind_eq_ok_iff.1 h
  obtain ⟨rfl, rfl⟩ := pure_eq_ok_iff.1 h
  obtain rfl := modify_eq_ok_iff.1 hprint
  exact ⟨rfl, _, u', hsave, rfl⟩

theorem loadKnowledge_of_finalizeAll {q : Path} {v : World} (hk : inventory.knowledge.Tidy)
    (hfs : Fulfilment.Settled inventory.parts fs) (h : finalizeAll fs inventory places w = .ok i w')
    (hfile : v.files.text (v.place q) = w'.files.text (w'.place places.knowledge)) :
    loadKnowledge q v = .ok i.knowledge v := by
  obtain ⟨rfl, u, u', hsave, htext⟩ := save_of_finalizeAll h
  have htidy := hk.finalized hfs
  rw [loadKnowledge_of_save htidy.nodup hsave (hfile.trans htext.symm), htidy.reloaded_eq]

/-- How a store comes to the next finalisation: in the session that saved it, or loaded by one that finds the
file as it was left. -/
inductive Kept (p : Path) (w : World) (k : Knowledge) : Knowledge → Prop
  | handed : Kept p w k k
  | loaded {q : Path} {v v' : World} {k' : Knowledge} :
      v.files.text (v.place q) = w.files.text (w.place p) → loadKnowledge q v = .ok k' v' → Kept p w k k'

/-- Finalisations one after the other, in one session or in several, each with its own catalog. -/
inductive Chronicle : Knowledge → List (List Part × List Fulfilment) → Knowledge → Prop
  | ended (k : Knowledge) : Chronicle k [] k
  | finalized {inventory i : Inventory} {fs : List Fulfilment} {places : Places} {w w' : World}
      {k k' : Knowledge} {log : List (List Part × List Fulfilment)} :
      Fulfilment.Settled inventory.parts fs → finalizeAll fs inventory places w = .ok i w' →
      Kept places.knowledge w' i.knowledge k → Chronicle k log k' →
      Chronicle inventory.knowledge ((inventory.parts, fs) :: log) k'

theorem Chronicle.recorded {log : List (List Part × List Fulfilment)} (h : Chronicle k log k')
    (hk : k.Tidy) : k.Recorded log k' := by
  induction h with
  | ended k => exact ⟨hk, .refl k, fun _ h => absurd h List.not_mem_nil⟩
  | @finalized inventory i fs places w w' k k' log hfs hrun hkept _ ih =>
    obtain ⟨hi, -⟩ := save_of_finalizeAll hrun
    have hrecorded := Knowledge.recorded_finalized hk hfs
    obtain rfl : k = i.knowledge := by
      cases hkept with
      | handed => rfl
      | loaded hfile hload =>
        have hloaded := loadKnowledge_of_finalizeAll hk hfs hrun hfile
        cases hload.symm.trans hloaded
        rfl
    rw [hi] at ih
    exact hrecorded.trans (ih hrecorded.tidy)

/-- Finalising orders on a tidy store returns and saves a store in which the precedents under every key stand as
they did, and behind them, in the order of the orders, those of the valid ones for that model: one for each
line of the manifest that is not mandatory, in the order of the catalog. It is tidy again, the saved file is
loaded as the very same store, and the law holds for all further sessions. -/
theorem finalizeAll_appends (hk : inventory.knowledge.Tidy) (hfs : Fulfilment.Settled inventory.parts fs)
    (hw : w.accepts places.knowledge) :
    ∃ k w', finalizeAll fs inventory places w = .ok { inventory with knowledge := k } w' ∧
      inventory.knowledge.Recorded [(inventory.parts, fs)] k ∧
      (∀ q v, v.files.text (v.place q) = w'.files.text (w'.place places.knowledge) →
        loadKnowledge q v = .ok k v) ∧
      ∀ log k', Chronicle k log k' → inventory.knowledge.Recorded ((inventory.parts, fs) :: log) k' := by
  obtain ⟨w', hrun⟩ := exists_finalizeAll fs inventory hw
  have hrecorded := Knowledge.recorded_finalized hk hfs
  exact ⟨_, w', hrun, hrecorded, fun q v => loadKnowledge_of_finalizeAll hk hfs hrun,
    fun log k' hlog => hrecorded.trans (hlog.recorded hrecorded.tidy)⟩

def mountain : Inventory := { Fulfilment.topInventory with knowledge := [("MT22", [⟨"TOP", "CAB", "C7"⟩])] }

def choose (source : String) (user : List String) : Fulfilment :=
  .settle mountain user [] 5 source { model := "mt22" }

def twoOrders : List Fulfilment := [choose "first" ["lights"], choose "second" ["canopy"]]

def dataPlaces : Places := ⟨⟨"/", ["data"]⟩, ⟨"/", ["output"]⟩, ⟨"/", ["logs"]⟩, {}⟩

def quietWorld : World where
  cwd := ⟨"/", []⟩
  stamp := ""
  day := ""
  instant := ""

theorem finalizeAll_appends_twoOrders :
    mountain.knowledge.Tidy ∧ Fulfilment.Settled mountain.parts twoOrders ∧
      quietWorld.accepts dataPlaces.knowledge ∧
      ∃ k w', finalizeAll twoOrders mountain dataPlaces quietWorld = .ok { mountain with knowledge := k } w' ∧
        k.under "MT22" =
          [⟨"TOP", "CAB", "C7"⟩, ⟨"General", "CANOPY LIGHTS", ""⟩, ⟨"TOP", "CANOPY", "C8"⟩] ∧
        loadKnowledge dataPlaces.knowledge w' = .ok k w' := by
  have htidy : mountain.knowledge.Tidy := by
    refine ⟨by decide, by decide +kernel, fun key p hp => ?_⟩
    rw [Knowledge.under, mountain, Assoc.get?] at hp
    split at hp
    · obtain rfl := List.mem_singleton.1 hp
      decide
    · cases hp
  have hsettled : Fulfilment.Settled mountain.parts twoOrders := by
    refine ⟨by decide, by decide +kernel, ?_⟩
    simp only [twoOrders, List.forall_mem_cons]
    exact ⟨⟨_, _, _, _, _, _, rfl, rfl⟩, ⟨_, _, _, _, _, _, rfl, rfl⟩, fun _ h => absurd h List.not_mem_nil⟩
  have haccepts : quietWorld.accepts dataPlaces.knowledge := by decide
  obtain ⟨k, w', hrun, hrecorded, hload, -⟩ := finalizeAll_appends htidy hsettled haccepts
  refine ⟨htidy, hsettled, haccepts, k, w', hrun, ?_, hload _ w' rfl⟩
  have hfirst : (choose "first" ["lights"]).report.isValid = false :=
    Bool.eq_false_iff.2 (Report.isValid_iff.not.2 (by decide +kernel))
  have hsecond : (choose "second" ["canopy"]).report.isValid := Report.isValid_iff.2 (by decide +kernel)
  have hvalid : twoOrders.filter (·.report.isValid) = [choose "second" ["canopy"]] := by
    simp [twoOrders, hfirst, hsecond]
  rw [hrecorded.grown.under, List.flatMap_singleton, Knowledge.filings, hvalid]
  decide +kernel

end Command

end Kitting
