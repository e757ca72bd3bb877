import Kitting.Proofs.Knowledge.Finalisation

namespace Kitting

open Text

namespace Precedent

def textOf (members : List (String × Json)) (name : String) : String :=
  ((Assoc.get? members name).map Json.trimmed).getD ""

def entry? : Json → Option Precedent
  | .obj members =>
    some ⟨textOf members "category", textOf members "selection", textOf members "part_number"⟩
  | _ => none

theorem ofJson?_eq_entry? (v : Json) : ofJson? v = entry? v := by
  cases v with
  | obj members =>
    have hread (name : String) :
        (Fields.mk [] members).optional name .trimmed "" = pure (textOf members name) := by
      rw [Fields.optional, textOf]
      cases Assoc.get? members name <;> rfl
    rw [ofJson?, Reading.run, reading, Reading.record, hread, hread, hread]
    rfl
  | null | bool | int | float | str | arr => rfl

end Precedent

namespace Knowledge

variable {k : Knowledge} {members : List (String × Json)} {filed : List Filing} {key : String}

def listing? (member : String × Json) : Option Filing :=
  match member.2 with
  | .arr vs => some (upper (trim member.1), vs.filterMap Precedent.entry?)
  | _ => none

def listings (members : List (String × Json)) : List Filing := members.filterMap listing?

def lastUnder (filed : List Filing) (key : String) : List Precedent :=
  ((filed.filter (·.1 = key)).getLast?.map (·.2)).getD []

theorem fileMember_eq (k : Knowledge) (member : String × Json) :
    k.fileMember member = (listing? member).elim k fun filing => Assoc.put k filing.1 filing.2 := by
  obtain ⟨key, v⟩ := member
  cases v with
  | arr vs =>
    exact congrArg (Assoc.put k (upper (trim key))) (List.filterMap_congr fun v _ => Precedent.ofJson?_eq_entry? v)
  | null | bool | int | float | str | obj => rfl

theorem ofJson_obj (members : List (String × Json)) : ofJson (.obj members) = Assoc.ofPairs (listings members) := by
  rw [ofJson, Assoc.ofPairs, listings]
  generalize ([] : Knowledge) = k
  induction members generalizing k with
  | nil => rfl
  | cons member members ih =>
    rw [List.foldl_cons, ih, fileMember_eq]
    cases hlisting : listing? member with
    | none =>
      rw [List.filterMap_cons_none hlisting]
      rfl
    | some filing =>
      rw [List.filterMap_cons_some hlisting]
      rfl

theorem lastUnder_eq_iff : lastUnder filed key = filedUnder filed key ↔
    ∀ filing ∈ (filed.filter (·.1 = key)).dropLast, filing.2 = [] := by
  rw [lastUnder, filedUnder]
  generalize filed.filter (·.1 = key) = under
  cases List.eq_nil_or_concat under with
  | inl h => simp [h]
  | inr h =>
    obtain ⟨before, filing, rfl⟩ := h
    rw [List.concat_eq_append, List.getLast?_concat, List.dropLast_concat, List.flatMap_append,
      List.flatMap_singleton, Option.map_some, Option.getD_some, List.self_eq_append_left, List.flatMap_eq_nil_iff]

/-- A store as it is loaded from the members of its file. -/
structure LoadedFrom (k : Knowledge) (members : List (String × Json)) : Prop where
  tidy : k.Tidy
  keys : Assoc.keys k = ((listings members).map (·.1)).eraseDups
  under : ∀ key, k.under key = lastUnder (listings members) key
  complete_iff : ∀ key, k.under key = filedUnder (listings members) key ↔
    ∀ filing ∈ ((listings members).filter (·.1 = key)).dropLast, filing.2 = []
  whole : ((listings members).map (·.1)).Nodup → k = listings members

theorem loadedFrom_ofText {s : String} (h : Json.ofText? s = some (.obj members)) :
    (ofText s).LoadedFrom members := by
  have heq : ofText s = Assoc.ofPairs (listings members) := by
    rw [ofText, h, Option.map_some, Option.getD_some, ofJson_obj]
  have hunder (key : String) : (ofText s).under key = lastUnder (listings members) key := by
    rw [Knowledge.under, heq, Assoc.get?_ofPairs_eq, lastUnder]
  constructor
  case tidy => exact tidy_ofText s
  case keys => rw [heq, Assoc.keys_ofPairs]
  case under => exact hunder
  case complete_iff =>
    intro key
    rw [hunder, lastUnder_eq_iff]
  case whole =>
    intro hnodup
    rw [heq, Assoc.ofPairs_of_nodup hnodup]

end Knowledge

namespace Command

variable {p : Path} {w : World} {s : String} {members : List (String × Json)}

theorem loadKnowledge_eq (h : w.files.text (w.place p) = .ok s) :
    loadKnowledge p w = .ok (Knowledge.ofText s) w :=
  bind_eq_ok_iff.2 ⟨some s, w, textAt?_eq h, rfl⟩

/-- A file with a JSON object in it is loaded as its members say, and a session that finalises orders on what it
loaded saves a store that has all of it, which every later session loads. -/
theorem loadKnowledge_lists (htext : w.files.text (w.place p) = .ok s)
    (hjson : Json.ofText? s = some (.obj members)) :
    ∃ k, loadKnowledge p w = .ok k w ∧ k.LoadedFrom members ∧
      ∀ (inventory : Inventory) (places : Places) (fs : List Fulfilment) (v : World),
        inventory.knowledge = k → Fulfilment.Settled inventory.parts fs → v.accepts places.knowledge →
        ∃ k' v', finalizeAll fs inventory places v = .ok { inventory with knowledge := k' } v' ∧
          k.Extends (Knowledge.filings inventory.parts fs) k' ∧
          ∀ q u, u.files.text (u.place q) = v'.files.text (v'.place places.knowledge) →
            loadKnowledge q u = .ok k' u := by
  have hloaded := Knowledge.loadedFrom_ofText hjson
  refine ⟨_, loadKnowledge_eq htext, hloaded, ?_⟩
  rintro inventory places fs v hk hfs haccepts
  have htidy : inventory.knowledge.Tidy := hk ▸ hloaded.tidy
  obtain ⟨v', hrun⟩ := exists_finalizeAll fs inventory haccepts
  refine ⟨_, v', hrun, ?_, fun q u => loadKnowledge_of_finalizeAll htidy hfs hrun⟩
  rw [← hk]
  exact inventory.knowledge.extends_finalized inventory.parts fs

def ledger : Path := ⟨"/", ["knowledge.json"]⟩

def holding (bytes : List UInt8) : World := { quietWorld with files := [(ledger, .file bytes)] }

def shelf (members : List (String × Json)) : World :=
  holding (FileTree.bytesOfText (Json.render .file (.obj members)))

theorem text_shelf (h : Json.Faithful .file (.obj members)) :
    (shelf members).files.text ((shelf members).place ledger) = .ok (Json.render .file (.obj members)) :=
  FileTree.textOfBytes_bytesOfText (Json.return_notMem_write h)

def chosen (selection number : String) : Json :=
  .obj [("category", .str " CAB"), ("selection", .str selection), ("part_number", .str number)]

theorem faithful_chosen (selection number : String) : Json.Faithful .file (chosen selection number) := by
  refine .obj (by simp [Assoc.keys]) ?_
  simp only [List.forall_mem_cons]
  exact ⟨.str _, .str _, .str _, fun _ h => absurd h List.not_mem_nil⟩

def twoModels : List (String × Json) :=
  [("mt30 ", .arr [chosen "CANOPY" "C-1", .int 5]), ("bad", .str "x"), ("MT22", .arr [chosen "FRAME" "C-2"])]

def oneModelTwice : List (String × Json) :=
  [("MT22", .arr [chosen "CANOPY" "C-1"]), ("mt22", .arr [chosen "FRAME" "C-2"])]

theorem loadKnowledge_lists_twoModels :
    ∃ s, (shelf twoModels).files.text ((shelf twoModels).place ledger) = .ok s ∧
      Json.ofText? s = some (.obj twoModels) ∧
      loadKnowledge ledger (shelf twoModels) =
        .ok [("MT30", [⟨"CAB", "CANOPY", "C-1"⟩]), ("MT22", [⟨"CAB", "FRAME", "C-2"⟩])] (shelf twoModels) := by
  have hfaithful : Json.Faithful .file (.obj twoModels) := by
    refine .obj (by decide) ?_
    simp only [twoModels, List.forall_mem_cons]
    refine ⟨.arr ?_, .str _, .arr ?_, fun _ h => absurd h List.not_mem_nil⟩
    · simp only [List.forall_mem_cons]
      exact ⟨faithful_chosen _ _, .int _, fun _ h => absurd h List.not_mem_nil⟩
    · exact List.forall_mem_singleton.2 (faithful_chosen _ _)
  have htext := text_shelf hfaithful
  have hjson := Json.ofText?_render hfaithful
  obtain ⟨k, hload, hloaded, -⟩ := loadKnowledge_lists htext hjson
  refine ⟨_, htext, hjson, ?_⟩
  have hlistings : Knowledge.listings twoModels =
      [("MT30", [⟨"CAB", "CANOPY", "C-1"⟩]), ("MT22", [⟨"CAB", "FRAME", "C-2"⟩])] := by
    decide +kernel
  rw [hload, hloaded.whole (by rw [hlistings]; decide), hlistings]

/-- The first entry is in the file and not in the store. -/
theorem loadKnowledge_replaces :
    (Assoc.keys oneModelTwice).Nodup ∧
      (⟨"CAB", "CANOPY", "C-1"⟩ : Precedent) ∈ Knowledge.filedUnder (Knowledge.listings oneModelTwice) "MT22" ∧
      ∃ s k, (shelf oneModelTwice).files.text ((shelf oneModelTwice).place ledger) = .ok s ∧
        Json.ofText? s = some (.obj oneModelTwice) ∧
        loadKnowledge ledger (shelf oneModelTwice) = .ok k (shelf oneModelTwice) ∧
        k.under "MT22" = [⟨"CAB", "FRAME", "C-2"⟩] := by
  have hfaithful : Json.Faithful .file (.obj oneModelTwice) := by
    refine .obj (by decide) ?_
    simp only [oneModelTwice, List.forall_mem_cons]
    exact ⟨.arr (List.forall_mem_singleton.2 (faithful_chosen _ _)),
      .arr (List.forall_mem_singleton.2 (faithful_chosen _ _)), fun _ h => absurd h List.not_mem_nil⟩
  have htext := text_shelf hfaithful
  have hjson := Json.ofText?_render hfaithful
  refine ⟨by decide, by decide +kernel, _, _, htext, hjson, loadKnowledge_eq htext, ?_⟩
  rw [(Knowledge.loadedFrom_ofText hjson).under]
  decide +kernel

end Command

end Kitting
