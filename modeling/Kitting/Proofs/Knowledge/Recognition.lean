import Kitting.Proofs.Identifiers
import Kitting.Proofs.Knowledge.Finalisation
import Kitting.Proofs.Matching.Tiers
import Kitting.Proofs.Order.Merging

namespace Kitting

open Text

namespace Matching

variable {index : Index} {rules : List Rule} {history : List Precedent} {line : OrderLine}

/-- Answered without review; and by a precedent, unless a rule holds on the line or a number stands in it. -/
structure Recognised (index : Index) (rules : List Rule) (history : List Precedent) (line : OrderLine)
    (o : Outcome) : Prop where
  level : o.level = .autoVerified
  score : Score.learned ≤ o.score
  answered : o.partId.isSome
  learned : (∀ q ∈ index, ¬Verified (conditionFor? rules) line q) → (∀ q ∈ index, ¬Named line q) →
    o.provenance = .learned ∧
      ∃ q ∈ index, o.partId = some q.part.id ∧ o.partNumber = q.part.number ∧ Learned history line q

theorem recognised_of_learned (rules : List Rule) {ip : IndexedPart} (hip : ip ∈ index)
    (h : Learned history line ip) :
    Recognised index rules history line (scoreLine index rules history line) := by
  have htiered := scoreLine_eq_iff_tiered.1 (rfl : scoreLine index rules history line = _)
  generalize scoreLine index rules history line = o at htiered
  cases htiered with
  | @verified q c hfirst =>
    exact ⟨rfl, by norm_num [answer, Score.learned], rfl, fun hv => absurd hfirst.1 (hv q hfirst.mem)⟩
  | @named q hv hfirst =>
    exact ⟨rfl, by norm_num [answer, Score.learned], rfl, fun _ hn => absurd hfirst.1 (hn q hfirst.mem)⟩
  | @learned q hv hn hfirst =>
    exact ⟨rfl, le_rfl, rfl, fun _ _ => ⟨rfl, q, hfirst.mem, rfl, rfl, hfirst.1⟩⟩
  | described hu | suggested hu | unresolved hu => exact absurd h (hu.learned ip hip)
  | vacant hempty => exact absurd hip (hempty ▸ List.not_mem_nil)

end Matching

def Part.line (p : Part) (quantity : String) : OrderLine := ⟨p.groupKey, p.name, quantity⟩

def Knowledge.Recognises (k : Knowledge) (parts : List Part) (g : Glossary) (rules : List Rule) (model : String)
    (p : Part) : Prop :=
  ∀ quantity, Matching.Recognised (Index.build g parts) rules (k.history model) (p.line quantity)
    (Matching.scoreLine (Index.build g parts) rules (k.history model) (p.line quantity))

section Finalised

variable {parts : List Part} {f : Fulfilment} {k : Knowledge} {p : Part} {model : String}

theorem Knowledge.recognises_of_precedent (g : Glossary) (rules : List Rule) (hp : p ∈ parts)
    (hnumber : Token.canonical p.number ≠ "") {precedent : Precedent} (hmem : precedent ∈ k.history model)
    (hsame : precedent.trim = p.precedent.trim) : k.Recognises parts g rules model p := by
  have hfields : trim precedent.category = trim p.groupKey ∧ trim precedent.selection = trim p.name ∧
      trim precedent.partNumber = trim p.number := by
    simpa only [Precedent.trim, Part.precedent, Precedent.mk.injEq] using hsame
  have hcanonical {s t : String} (h : trim s = trim t) : Token.canonical s = Token.canonical t := by
    rw [← Token.canonical_trim s, h, Token.canonical_trim]
  intro quantity
  refine Matching.recognised_of_learned rules (List.mem_map_of_mem hp) ⟨hnumber, precedent, hmem, ?_, ?_, ?_⟩
  · exact hcanonical hfields.1
  · exact hcanonical hfields.2.1
  · exact hcanonical hfields.2.2

theorem Fulfilment.precedent_mem_finalize (k : Knowledge) (hp : p ∈ parts) (hc : p.isConfigurable)
    (hpick : Assoc.has f.picks p.id) :
    p.precedent ∈ (f.finalize parts k).under (Knowledge.modelKey f.order.model) := by
  have hlisted : p ∈ f.listed parts := List.mem_filter.2 ⟨hp, by rw [hc, hpick]; rfl⟩
  rw [finalize_eq_append, Knowledge.under_append, if_pos rfl]
  exact List.mem_append_right _ (List.mem_map_of_mem hlisted)

/-- A part that an order picked is recognised in the next order for the model: with the store that finalising
returns, and with the one loaded from its file unless a later key of the store is loaded as that of the
model. -/
theorem finalize_recognised (hkeys : (Assoc.keys k).Nodup) (hmodel : f.order.HasModel) (hp : p ∈ parts)
    (hc : p.isConfigurable) (hpick : Assoc.has f.picks p.id) (hnumber : Token.canonical p.number ≠ "")
    (g : Glossary) (rules : List Rule) :
    (f.finalize parts k).Recognises parts g rules f.order.model p ∧
      (k.Unshadowed (Knowledge.modelKey f.order.model) →
        ∀ path q w w' v, Command.saveKnowledge path (f.finalize parts k) w = .ok () w' →
          v.files.text (v.place q) = w'.files.text (w'.place path) →
          ∃ loaded, Command.loadKnowledge q v = .ok loaded v ∧
            loaded.Recognises parts g rules f.order.model p) := by
  have hmem := Fulfilment.precedent_mem_finalize k hp hc hpick
  refine ⟨?_, ?_⟩
  · rw [← Knowledge.history_of_trimmed hmodel.1 hmodel.2] at hmem
    exact Knowledge.recognises_of_precedent g rules hp hnumber hmem rfl
  · intro hshadow path q w w' v hsave hfile
    have hnodup : (Assoc.keys (f.finalize parts k)).Nodup := Assoc.nodup_keys_alter hkeys _ _
    have hkey : Knowledge.modelKey f.order.model ∈ Assoc.keys (f.finalize parts k) := by
      rw [f.finalize_eq_append, Knowledge.keys_append]
      split
      · assumption
      · exact List.mem_append_right _ List.mem_cons_self
    have hloaded := Knowledge.under_reloaded hnodup (Knowledge.isNormal_modelKey _) hkey (hshadow.append _)
    have hmem' : p.precedent.trim ∈ (f.finalize parts k).reloaded.history f.order.model := by
      rw [Knowledge.history_of_trimmed hmodel.1 hmodel.2, hloaded]
      exact List.mem_map_of_mem hmem
    exact ⟨_, Command.loadKnowledge_of_save hnodup hsave hfile,
      Knowledge.recognises_of_precedent g rules hp hnumber hmem' (Precedent.trimmed_trim _)⟩

end Finalised

def lamp : Part := { id := "lamp", number := "L5", name := "LAMP", functionCode := 1 }

def lampOrder : Fulfilment :=
  .settle (Inventory.reindex { parts := [lamp] }) ["lamp"] [] 5 "lamp" { model := "MT22" }

def archive : Path := ⟨"/", ["knowledge.json"]⟩

/-- Behind the key of the model the store has another one that is loaded as it, and its file gives the lamp up. -/
theorem finalize_forgotten :
    let k : Knowledge := [("MT22", []), ("mt22", [])]
    (Assoc.keys k).Nodup ∧ lampOrder.order.HasModel ∧ lamp.isConfigurable ∧ Assoc.has lampOrder.picks lamp.id ∧
      Token.canonical lamp.number ≠ "" ∧
      ∃ w loaded, Command.saveKnowledge archive (lampOrder.finalize [lamp] k) Command.quietWorld = .ok () w ∧
        Command.loadKnowledge archive w = .ok loaded w ∧
        (Matching.scoreLine (Index.build [] [lamp]) [] (loaded.history "MT22") (lamp.line "1")).level ≠
          .autoVerified := by
  intro k
  have hnodup : (Assoc.keys (lampOrder.finalize [lamp] k)).Nodup := by decide +kernel
  have hsave : Command.saveKnowledge archive (lampOrder.finalize [lamp] k) Command.quietWorld = .ok () _ := rfl
  refine ⟨by decide, by decide +kernel, rfl, by decide +kernel, by decide +kernel, _, _, hsave,
    Command.loadKnowledge_of_save hnodup hsave rfl, by decide +kernel⟩

theorem finalize_recognised_lamp :
    (Assoc.keys ([] : Knowledge)).Nodup ∧ lampOrder.order.HasModel ∧ lamp.isConfigurable ∧
      Assoc.has lampOrder.picks lamp.id ∧ Token.canonical lamp.number ≠ "" ∧
      Knowledge.Unshadowed [] (Knowledge.modelKey "MT22") ∧
      ∃ w loaded, Command.saveKnowledge archive (lampOrder.finalize [lamp] []) Command.quietWorld = .ok () w ∧
        Command.loadKnowledge archive w = .ok loaded w ∧ loaded.Recognises [lamp] [] [] "MT22" lamp := by
  have hnodup : (Assoc.keys ([] : Knowledge)).Nodup := List.nodup_nil
  have hmodel : lampOrder.order.HasModel := by decide +kernel
  have hpick : Assoc.has lampOrder.picks lamp.id := by decide +kernel
  have hnumber : Token.canonical lamp.number ≠ "" := by decide +kernel
  have hshadow : Knowledge.Unshadowed [] (Knowledge.modelKey "MT22") := fun _ h => by simp [Assoc.keys] at h
  obtain ⟨-, hload⟩ := finalize_recognised hnodup hmodel (List.mem_singleton_self lamp) rfl hpick hnumber [] []
  obtain ⟨loaded, hloaded, hrecognised⟩ := hload hshadow archive archive Command.quietWorld _ _ rfl rfl
  exact ⟨hnodup, hmodel, rfl, hpick, hnumber, hshadow, _, loaded, rfl, hloaded, hrecognised⟩

end Kitting
