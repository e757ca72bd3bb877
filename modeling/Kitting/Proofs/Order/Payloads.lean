import Kitting.Proofs.Json.RoundTrip
import Kitting.Proofs.Order.Fences
import Kitting.Proofs.Order.Merging
import Kitting.Proofs.Schema

/-!
Payloads that hold an order.

An order is read back from each text that writes it: under the current names or the former ones, as it is or between
fences, and with whatever stands among its lines and is none. The fences go before the text is read, also where they
stand inside of a string. So no string of the order has one, and no name of a record: `ofPayload_writes`.
-/

namespace Kitting

open Text

namespace Json

/-- What stands under the current name or, if that is missing, under the former one. -/
def stated? (v : Json) (current former : String) : Option Json :=
  (v.member? current).orElse fun _ => v.member? former

def Named (v : Json) : Prop := ∃ ms, v = .obj ms ∧ ∀ m ∈ ms, Order.FenceFree m.1.toList

def Blank (o : Option Json) : Prop := ∀ v ∈ o, v = .null ∨ ∃ s, v = .str s ∧ trim s = ""

end Json

namespace OrderLine

structure Proper (l : OrderLine) : Prop where
  category : trim l.category = l.category
  selection : trim l.selection = l.selection
  quantity : trim l.quantity = l.quantity ∧ l.quantity ≠ ""

def texts (l : OrderLine) : List String := [l.category, l.selection, l.quantity]

def record (category selection : String) (l : OrderLine) : Json :=
  .obj [(category, .str l.category), (selection, .str l.selection), ("quantity", .str l.quantity)]

structure Writes (l : OrderLine) (v : Json) : Prop where
  named : v.Named
  category : v.stated? "category" "name" = some (.str l.category)
  selection : v.stated? "selection" "option" = some (.str l.selection)
  quantity : v.member? "quantity" = some (.str l.quantity)

/-- What stands among lines and is none: no record, or one without category and selection. -/
inductive Ignored (v : Json) : Prop
  | other : (∀ ms, v ≠ .obj ms) → Ignored v
  | blank : v.Named → Json.Blank (v.stated? "category" "name") → Json.Blank (v.stated? "selection" "option") →
      Ignored v

inductive Listed : List OrderLine → List Json → Prop
  | nil : Listed [] []
  | line {l : OrderLine} {ls : List OrderLine} {v : Json} {vs : List Json} :
      l.Writes v → Listed ls vs → Listed (l :: ls) (v :: vs)
  | ignored {ls : List OrderLine} {v : Json} {vs : List Json} : Ignored v → Listed ls vs → Listed ls (v :: vs)

end OrderLine

namespace Order

structure Proper (o : Order) : Prop where
  model : o.HasModel
  number : trim o.number = o.number
  lines : ∀ l ∈ o.lines, l.Proper

def texts (o : Order) : List String := o.model :: o.number :: o.lines.flatMap OrderLine.texts

def record (number category selection : String) (o : Order) : Json :=
  .obj [("model", .str o.model), (number, .str o.number),
    ("options", .arr (o.lines.map (OrderLine.record category selection)))]

example (o : Order) : o.toJson = o.record "order_number" "category" "selection" := rfl

structure Encodable (o : Order) : Prop extends o.Proper where
  chosen : ∀ l ∈ o.lines, l.category ≠ "" ∨ l.selection ≠ ""
  fenceFree : ∀ s ∈ o.texts, FenceFree s.toList

structure Writes (o : Order) (v : Json) : Prop where
  named : v.Named
  model : v.member? "model" = some (.str o.model)
  number : v.stated? "order_number" "moNumber" = some (.str o.number)
  lines : ∃ vs, v.member? "options" = some (.arr vs) ∧ OrderLine.Listed o.lines vs

def Braced (cs : List Char) : Prop := ∃ inner, cs = '\x7b' :: inner ++ ['\x7d']

structure Encodes (body : String) (v : Json) : Prop where
  loads : Json.ofText? body = some v
  braces : Braced body.toList

inductive Wraps (body : List Char) : List Char → Prop
  | bare {before behind : List Char} : (∀ c ∈ before ++ behind, isBlank c) → Wraps body (before ++ body ++ behind)
  | fenced {before word front back behind : List Char} : word = [] ∨ word = "json".toList →
      (∀ c ∈ before ++ front ++ back ++ behind, isBlank c) →
      Wraps body (before ++ "\x60\x60\x60".toList ++ word ++ front ++ body ++ back ++ "\x60\x60\x60".toList ++ behind)

section Wrapping

variable {body rest cs : List Char}

theorem not_isBlank_of_isFenceLetter {c : Char} (h : isFenceLetter 'j' c = true) : isBlank c = false := by
  rw [Bool.eq_false_iff]
  intro hblank
  have hsame : c.toLower = c := by
    refine dif_neg fun hupper => ?_
    have hlow : 65 ≤ c.toNat := UInt32.le_iff_toNat_le.1 hupper.1
    have hhigh : c.toNat ≤ 90 := UInt32.le_iff_toNat_le.1 hupper.2
    simp only [isBlank, isSpace, Bool.or_eq_true, Bool.and_eq_true, beq_iff_eq, decide_eq_true_eq] at hblank
    omega
  rw [isFenceLetter, hsame, Bool.or_eq_true] at h
  rcases h with h | h
  · rw [beq_iff_eq.1 h] at hblank
    cases hblank
  · cases h

theorem backtick_notMem_of_isBlank (h : ∀ c ∈ cs, isBlank c) : '\x60' ∉ cs := by
  intro hmem
  exact absurd (h _ hmem) (by decide)

theorem withoutFences_of_isBlank (h : ∀ c ∈ cs, isBlank c) : withoutFences cs = cs := by
  have hplain : withoutFences (cs ++ []) = cs ++ withoutFences [] :=
    withoutFences_append_of_notMem (backtick_notMem_of_isBlank h)
  rwa [List.append_nil, withoutFences_nil, List.append_nil] at hplain

theorem withoutFences_braces (inner rest : List Char) : withoutFences ('\x7b' :: inner ++ '\x7d' :: rest) =
    '\x7b' :: withoutFences inner ++ '\x7d' :: withoutFences rest := by
  rw [withoutFences_append_cons (by decide) (by decide), withoutFences_cons_of_ne (by decide)]

theorem Braced.withoutFences (h : Braced body) : Braced (withoutFences body) := by
  obtain ⟨inner, rfl⟩ := h
  exact ⟨_, withoutFences_braces inner []⟩

theorem Braced.withoutFences_append (h : Braced body) (rest : List Char) :
    Order.withoutFences (body ++ rest) = Order.withoutFences body ++ Order.withoutFences rest := by
  obtain ⟨inner, rfl⟩ := h
  rw [withoutFences_braces, List.append_assoc, List.singleton_append, withoutFences_braces, withoutFences_nil,
    List.append_assoc, List.singleton_append]

theorem Braced.trimChars (h : Braced body) {u w : List Char} (hu : ∀ c ∈ u, isBlank c) (hw : ∀ c ∈ w, isBlank c) :
    Text.trimChars (u ++ body ++ w) = body := by
  refine trimBy_margins hu hw (trimBy_eq_self_iff.2 ?_)
  obtain ⟨inner, rfl⟩ := h
  constructor
  · rintro c ⟨⟩
    decide
  · intro c hc
    rw [List.getLast?_concat] at hc
    cases hc
    decide

theorem withoutFences_fence_append (h : ∀ c ∈ cs.head?, isFenceLetter 'j' c = false) :
    withoutFences ("\x60\x60\x60".toList ++ cs) = withoutFences cs := by
  have hword : dropFenceWord cs = cs := by
    refine dropFenceWord_eq_self ?_
    rintro a _ _ _ _ rfl hj
    exact absurd (hj.symm.trans (h a rfl)) (by decide)
  exact withoutFences_fence (afterFence?_eq_some_iff.2 ⟨cs, rfl, hword.symm⟩)

theorem withoutFences_fenceWord_append {word : List Char} (hword : word = [] ∨ word = "json".toList)
    (h : ∀ c ∈ cs.head?, isFenceLetter 'j' c = false) :
    withoutFences ("\x60\x60\x60".toList ++ (word ++ cs)) = withoutFences cs := by
  obtain rfl | rfl := hword
  · exact withoutFences_fence_append h
  · exact withoutFences_fence (afterFence?_eq_some_iff.2 ⟨_, rfl, rfl⟩)

theorem head?_of_isBlank_append (h : ∀ c ∈ cs, isBlank c) (hrest : ∀ c ∈ rest.head?, isFenceLetter 'j' c = false) :
    ∀ c ∈ (cs ++ rest).head?, isFenceLetter 'j' c = false := by
  cases cs with
  | nil => exact hrest
  | cons d cs =>
    rintro c ⟨⟩
    rw [Bool.eq_false_iff]
    intro hj
    exact Bool.false_ne_true ((not_isBlank_of_isFenceLetter hj).symm.trans (h d List.mem_cons_self))

theorem trimChars_of_wraps {text : List Char} (hbody : Braced body) (h : Wraps body text) :
    trimChars (withoutFences text) = withoutFences body := by
  have hhead (rest : List Char) : ∀ c ∈ (body ++ rest).head?, isFenceLetter 'j' c = false := by
    obtain ⟨inner, rfl⟩ := hbody
    rintro c ⟨⟩
    decide
  cases h with
  | bare hblank =>
    obtain ⟨hbefore, hbehind⟩ := List.forall_mem_append.1 hblank
    rw [List.append_assoc, withoutFences_append_of_notMem (backtick_notMem_of_isBlank hbefore),
      hbody.withoutFences_append, withoutFences_of_isBlank hbehind, ← List.append_assoc]
    exact hbody.withoutFences.trimChars hbefore hbehind
  | @fenced before word front back behind hword hblank =>
    simp only [List.forall_mem_append] at hblank
    obtain ⟨⟨⟨hbefore, hfront⟩, hback⟩, hbehind⟩ := hblank
    -- White space or nothing follows on the closing fence, so no word goes with it.
    have hend : ∀ c ∈ (behind ++ []).head?, isFenceLetter 'j' c = false := head?_of_isBlank_append hbehind (by simp)
    rw [List.append_nil] at hend
    have hclosing : withoutFences (back ++ ("\x60\x60\x60".toList ++ behind)) = back ++ behind := by
      rw [withoutFences_append_of_notMem (backtick_notMem_of_isBlank hback), withoutFences_fence_append hend,
        withoutFences_of_isBlank hbehind]
    have htext : withoutFences (before ++ ("\x60\x60\x60".toList ++ (word ++ (front ++ (body ++
        (back ++ ("\x60\x60\x60".toList ++ behind))))))) =
          before ++ (front ++ (withoutFences body ++ (back ++ behind))) := by
      rw [withoutFences_append_of_notMem (backtick_notMem_of_isBlank hbefore),
        withoutFences_fenceWord_append hword (head?_of_isBlank_append hfront (hhead _)),
        withoutFences_append_of_notMem (backtick_notMem_of_isBlank hfront), hbody.withoutFences_append, hclosing]
    have htrim := hbody.withoutFences.trimChars (List.forall_mem_append.2 ⟨hbefore, hfront⟩)
      (List.forall_mem_append.2 ⟨hback, hbehind⟩)
    simp only [List.append_assoc] at htrim ⊢
    rw [htext, htrim]

end Wrapping

end Order

section Stripping

open Kitting.Order

variable {v v' : Json} {vs vs' : List Json} {l : OrderLine} {ls : List OrderLine} {o : Order} {s : String}
  {w w' : Option Json}

theorem Json.Named.stripped (hv : v.Named) (h : Stripped v v') :
    v'.Named ∧ ∀ name, Option.Rel Stripped (v.member? name) (v'.member? name) := by
  obtain ⟨ms, rfl, hnames⟩ := hv
  obtain ⟨ms', rfl, hrel⟩ := h.exists_obj hnames
  refine ⟨⟨ms', rfl, fun m hm => ?_⟩, hrel⟩
  have hkey : m.1 ∈ Assoc.keys ms' := List.mem_map_of_mem hm
  obtain ⟨value', hvalue'⟩ := Assoc.mem_keys_iff.1 hkey
  have hmember := hrel m.1
  rw [hvalue'] at hmember
  generalize hget : Assoc.get? ms m.1 = w at hmember
  cases hmember with
  | some =>
    obtain ⟨m', hm', heq⟩ := List.mem_map.1 (Assoc.mem_keys_iff.2 ⟨_, hget⟩)
    exact heq ▸ hnames m' hm'

theorem Json.Named.rel_stated? (hv : v.Named) (h : Stripped v v') (current former : String) :
    Option.Rel Stripped (v.stated? current former) (v'.stated? current former) := by
  obtain ⟨-, hrel⟩ := hv.stripped h
  have hcurrent := hrel current
  rw [Json.stated?, Json.stated?]
  generalize v.member? current = w, v'.member? current = w' at hcurrent ⊢
  cases hcurrent with
  | none => exact hrel former
  | some h => exact .some h

theorem Order.eq_some_str_of_rel (h : Option.Rel Stripped (some (.str s)) w') (hfree : FenceFree s.toList) :
    w' = some (.str s) := by
  cases h with
  | some h => rw [h.eq_str hfree]

theorem Order.fenceFree_of_isBlank {cs : List Char} (h : ∀ c ∈ cs, isBlank c) : FenceFree cs := by
  intro hfence
  exact backtick_notMem_of_isBlank h (hfence.subset List.mem_cons_self)

theorem Json.Blank.stripped (hw : Json.Blank w) (h : Option.Rel Stripped w w') : Json.Blank w' := by
  cases h with
  | none => exact hw
  | some h =>
    obtain rfl | ⟨s, rfl, hs⟩ := hw _ rfl
    · rw [h.eq_null]
      exact hw
    · rw [h.eq_str (fenceFree_of_isBlank (trim_eq_empty_iff.1 hs))]
      exact hw

namespace OrderLine

theorem Writes.stripped (hv : l.Writes v) (h : Stripped v v') (hfree : ∀ s ∈ l.texts, FenceFree s.toList) :
    l.Writes v' := by
  simp only [texts, List.forall_mem_cons] at hfree
  obtain ⟨hcategory, hselection, hquantity, -⟩ := hfree
  obtain ⟨hnamed, hrel⟩ := hv.named.stripped h
  have hstated := hv.named.rel_stated? h
  exact ⟨hnamed, eq_some_str_of_rel (hv.category ▸ hstated _ _) hcategory,
    eq_some_str_of_rel (hv.selection ▸ hstated _ _) hselection, eq_some_str_of_rel (hv.quantity ▸ hrel _) hquantity⟩

theorem Ignored.stripped (hv : Ignored v) (h : Stripped v v') : Ignored v' := by
  cases hv with
  | other hv => exact .other (h.ne_obj hv)
  | blank hv hcategory hselection =>
    exact .blank (hv.stripped h).1 (hcategory.stripped (hv.rel_stated? h _ _))
      (hselection.stripped (hv.rel_stated? h _ _))

theorem Listed.stripped (hvs : Listed ls vs) (h : List.Forall₂ Stripped vs vs')
    (hfree : ∀ l ∈ ls, ∀ s ∈ l.texts, FenceFree s.toList) : Listed ls vs' := by
  induction hvs generalizing vs' with
  | nil =>
    cases h
    exact .nil
  | line hv _ ih =>
    rw [List.forall_mem_cons] at hfree
    cases h with
    | cons h hrest => exact .line (hv.stripped h hfree.1) (ih hrest hfree.2)
  | ignored hv _ ih =>
    cases h with
    | cons h hrest => exact .ignored (hv.stripped h) (ih hrest hfree)

end OrderLine

theorem Order.Writes.stripped (hv : o.Writes v) (h : Stripped v v') (hfree : ∀ s ∈ o.texts, FenceFree s.toList) :
    o.Writes v' := by
  simp only [texts, List.forall_mem_cons, List.forall_mem_flatMap] at hfree
  obtain ⟨hmodel, hnumber, hlines⟩ := hfree
  obtain ⟨hnamed, hrel⟩ := hv.named.stripped h
  obtain ⟨vs, hvs, hlisted⟩ := hv.lines
  refine ⟨hnamed, eq_some_str_of_rel (hv.model ▸ hrel _) hmodel,
    eq_some_str_of_rel (hv.number ▸ hv.named.rel_stated? h _ _) hnumber, ?_⟩
  have hoptions := hrel "options"
  rw [hvs] at hoptions
  generalize v'.member? "options" = w' at hoptions ⊢
  cases hoptions with
  | some hitems =>
    obtain ⟨vs', rfl, hrest⟩ := hitems.exists_arr
    exact ⟨vs', rfl, hlisted.stripped hrest hlines⟩

end Stripping

section Reading

variable {v : Json} {vs : List Json} {l : OrderLine} {ls : List OrderLine} {o : Order} {s : String} {w : Option Json}

theorem Json.Blank.trimmed (h : Json.Blank w) : (w.getD .null).trimmed = "" := by
  cases w with
  | none => rfl
  | some v =>
    obtain rfl | ⟨s, rfl, hs⟩ := h v rfl
    · rfl
    · exact hs

namespace OrderLine

theorem ofPayload?_obj {ms : List (String × Json)} (hv : v = .obj ms) : ofPayload? v =
    (Option.guard (fun l => !(l.category.isEmpty && l.selection.isEmpty))
      { category := ((v.stated? "category" "name").getD .null).trimmed
        selection := ((v.stated? "selection" "option").getD .null).trimmed
        quantity := quantityOf ((v.member? "quantity").getD .null) }) := by
  subst hv
  simp only [ofPayload?, Json.stated?, Option.guard]
  split <;> simp_all

theorem quantityOf_str (htrim : trim s = s) (hne : s ≠ "") : quantityOf (.str s) = s := by
  have htrimmed : (Json.str s).trimmed = s := htrim
  rw [quantityOf, htrimmed, if_neg (by simpa using hne)]

theorem ofPayload?_of_writes (hl : l.Proper) (hchosen : l.category ≠ "" ∨ l.selection ≠ "") (hv : l.Writes v) :
    ofPayload? v = some l := by
  obtain ⟨ms, heq, -⟩ := hv.named
  have hcategory : (Json.str l.category).trimmed = l.category := hl.category
  have hselection : (Json.str l.selection).trimmed = l.selection := hl.selection
  rw [ofPayload?_obj heq, hv.category, hv.selection, hv.quantity, Option.getD_some, Option.getD_some,
    Option.getD_some, hcategory, hselection, quantityOf_str hl.quantity.1 hl.quantity.2, Option.guard_eq_some_iff]
  exact ⟨rfl, by simpa [or_iff_not_imp_left] using hchosen⟩

theorem ofPayload?_of_ignored (hv : Ignored v) : ofPayload? v = none := by
  cases hv with
  | other hv =>
    cases v with
    | obj ms => exact absurd rfl (hv ms)
    | null | bool | int | float | str | arr => rfl
  | blank hv hcategory hselection =>
    obtain ⟨ms, heq, -⟩ := hv
    rw [ofPayload?_obj heq, hcategory.trimmed, hselection.trimmed]
    rfl

theorem filterMap_of_listed (hvs : Listed ls vs) (hproper : ∀ l ∈ ls, l.Proper)
    (hchosen : ∀ l ∈ ls, l.category ≠ "" ∨ l.selection ≠ "") : vs.filterMap ofPayload? = ls := by
  induction hvs with
  | nil => rfl
  | line hv _ ih =>
    rw [List.forall_mem_cons] at hproper hchosen
    rw [List.filterMap_cons_some (ofPayload?_of_writes hproper.1 hchosen.1 hv), ih hproper.2 hchosen.2]
  | ignored hv _ ih => rw [List.filterMap_cons_none (ofPayload?_of_ignored hv), ih hproper hchosen]

end OrderLine

namespace Order

theorem ofPayload_of_payload? (ho : o.Encodable) (hv : o.Writes v) (hread : payload? s = some v) : ofPayload s = o := by
  obtain ⟨ms, rfl, -⟩ := hv.named
  obtain ⟨vs, hvs, hlisted⟩ := hv.lines
  have hmodel := hv.model
  have hnumber := hv.number
  have htrimmed : (Json.str o.number).trimmed = o.number := ho.number
  simp only [Json.stated?, Json.member?] at hmodel hnumber hvs
  simp only [ofPayload, hread, hmodel, hnumber, hvs, Option.getD_some, modelOf_str ho.model.1 ho.model.2, htrimmed,
    linesOf, OrderLine.filterMap_of_listed hlisted ho.lines ho.chosen]

theorem payload?_of_wraps {v : Json} {body text : String} (hbody : Encodes body v)
    (htext : Wraps body.toList text.toList) : ∃ v', payload? text = some v' ∧ Stripped v v' := by
  obtain ⟨v', hread, hstripped⟩ := ofChars?_withoutFences hbody.loads
  refine ⟨v', ?_, hstripped⟩
  have hunfenced : unfenced text = .ofList (withoutFences body.toList) := by
    rw [unfenced, ← String.length_toList]
    exact congrArg String.ofList (trimChars_of_wraps hbody.braces htext)
  rw [payload?, hunfenced, Json.ofText?, String.toList_ofList]
  exact hread

end Order

end Reading

section Proper

variable {place : List String} {v : Json} {l : OrderLine} {o : Order}

theorem OrderLine.trim_quantityOf (v : Json) : trim (quantityOf v) = quantityOf v ∧ quantityOf v ≠ "" := by
  rw [quantityOf]
  split
  case isTrue => decide
  case isFalse hne => exact ⟨v.trim_trimmed, by simpa using hne⟩

theorem OrderLine.proper_of_reading (h : (reading place v).result = .ok l) : l.Proper := by
  rw [reading, Reading.record_eq_ok_iff] at h
  obtain ⟨members, rfl, h⟩ := h
  simp only [Check.seq_eq_ok_iff, Check.map_eq_ok_iff, Fields.result_optional_pure, Except.ok.injEq] at h
  obtain ⟨_, _, ⟨_, _, ⟨_, hcategory, rfl⟩, hselection, rfl⟩, rfl, rfl⟩ := h
  refine ⟨Fields.trim_of_optional hcategory, Fields.trim_of_optional hselection, ?_⟩
  cases Assoc.get? members "quantity" with
  | none => exact trim_quantityOf .null
  | some v => exact trim_quantityOf v

theorem Order.proper_of_reading (h : (reading place v).result = .ok o) : o.Proper := by
  have hmodel := hasModel_of_reading h
  rw [reading, Reading.record_eq_ok_iff] at h
  obtain ⟨members, rfl, h⟩ := h
  simp only [Check.seq_eq_ok_iff, Check.map_eq_ok_iff] at h
  obtain ⟨_, _, ⟨_, _, ⟨_, -, rfl⟩, hnumber, rfl⟩, hlines, rfl⟩ := h
  refine ⟨hmodel, Fields.trim_of_optional hnumber, ?_⟩
  rw [Fields.optional] at hlines
  cases hget : Assoc.get? members "options" with
  | none =>
    rw [hget] at hlines
    cases hlines
    exact List.forall_mem_nil _
  | some v =>
    rw [hget] at hlines
    exact Reading.forall_of_list (fun _ _ _ => OrderLine.proper_of_reading) hlines

end Proper

section Records

variable {number category selection : String} {layout : Json.Layout}

theorem Order.fenceFree_name : ∀ name ∈ ["model", "order_number", "moNumber", "options", "category", "name",
    "selection", "option", "quantity"], FenceFree name.toList := by decide +kernel

namespace OrderLine

theorem writes_record (hcategory : category ∈ ["category", "name"]) (hselection : selection ∈ ["selection", "option"])
    (l : OrderLine) : l.Writes (l.record category selection) := by
  have hnamed : (l.record category selection).Named := by
    refine ⟨_, rfl, ?_⟩
    simp only [List.forall_mem_cons]
    exact ⟨Order.fenceFree_name _ (by grind), Order.fenceFree_name _ (by grind), Order.fenceFree_name _ (by simp),
      List.forall_mem_nil _⟩
  rw [List.mem_pair] at hcategory hselection
  rcases hcategory with rfl | rfl <;> rcases hselection with rfl | rfl <;>
    exact ⟨hnamed, by simp [record, Json.stated?, Json.member?, Assoc.get?],
      by simp [record, Json.stated?, Json.member?, Assoc.get?], by simp [record, Json.member?, Assoc.get?]⟩

theorem faithful_record (hcategory : category ∈ ["category", "name"])
    (hselection : selection ∈ ["selection", "option"]) (l : OrderLine) :
    Json.Faithful layout (l.record category selection) := by
  refine .obj ?_ ?_
  · rw [List.mem_pair] at hcategory hselection
    rcases hcategory with rfl | rfl <;> rcases hselection with rfl | rfl <;> simp [Assoc.keys]
  · simp only [List.forall_mem_cons]
    exact ⟨.str _, .str _, .str _, List.forall_mem_nil _⟩

theorem listed_map {write : OrderLine → Json} (h : ∀ l, Writes l (write l)) (ls : List OrderLine) :
    Listed ls (ls.map write) := by
  induction ls with
  | nil => exact .nil
  | cons l ls ih => exact .line (h l) ih

end OrderLine

namespace Order

theorem writes_record (hnumber : number ∈ ["order_number", "moNumber"]) (hcategory : category ∈ ["category", "name"])
    (hselection : selection ∈ ["selection", "option"]) (o : Order) :
    o.Writes (o.record number category selection) := by
  have hnamed : (o.record number category selection).Named := by
    refine ⟨_, rfl, ?_⟩
    simp only [List.forall_mem_cons]
    exact ⟨fenceFree_name _ (by simp), fenceFree_name _ (by grind), fenceFree_name _ (by simp),
      List.forall_mem_nil _⟩
  have hlisted := OrderLine.listed_map (OrderLine.writes_record hcategory hselection) o.lines
  rw [List.mem_pair] at hnumber
  rcases hnumber with rfl | rfl <;>
    exact ⟨hnamed, by simp [record, Json.member?, Assoc.get?],
      by simp [record, Json.stated?, Json.member?, Assoc.get?], _, by simp [record, Json.member?, Assoc.get?], hlisted⟩

theorem faithful_record (hnumber : number ∈ ["order_number", "moNumber"])
    (hcategory : category ∈ ["category", "name"]) (hselection : selection ∈ ["selection", "option"]) (o : Order) :
    Json.Faithful layout (o.record number category selection) := by
  refine .obj ?_ ?_
  · rw [List.mem_pair] at hnumber
    rcases hnumber with rfl | rfl <;> simp [Assoc.keys]
  · simp only [List.forall_mem_cons]
    exact ⟨.str _, .str _, .arr (List.forall_mem_map.2 fun l _ => l.faithful_record hcategory hselection),
      List.forall_mem_nil _⟩

theorem encodes_render {ms : List (String × Json)} (h : Json.Faithful layout (.obj ms)) :
    Encodes (Json.render layout (.obj ms)) (.obj ms) := by
  refine ⟨Json.ofText?_render h, ?_⟩
  obtain ⟨before, gap, after, -, -, -, htext⟩ :=
    Json.toList_enclose layout 0 "\x7b" "\x7d" (Json.writeMembers layout 1 ms)
  refine ⟨before ++ (List.intercalate (',' :: gap) ((Json.writeMembers layout 1 ms).map String.toList) ++ after), ?_⟩
  rw [Json.render, Json.write, htext]
  simp

/-- An order is read back from each text that writes it. So is every order that was read, if its lines say what was
chosen and none of its texts has a fence, under the current names and under the former ones. -/
theorem ofPayload_writes {o : Order} (ho : o.Encodable) :
    (∀ v body text, o.Writes v → Encodes body v → Wraps body.toList text.toList → ofPayload text = o) ∧
      (∀ number ∈ ["order_number", "moNumber"], ∀ category ∈ ["category", "name"],
        ∀ selection ∈ ["selection", "option"], ∀ layout, o.Writes (o.record number category selection) ∧
          Encodes (Json.render layout (o.record number category selection)) (o.record number category selection)) ∧
      ∀ place v o', (reading place v).result = .ok o' → o'.Proper := by
  refine ⟨fun v body text hv hbody htext => ?_, fun number hn category hc selection hs layout => ?_,
    fun place v o' => proper_of_reading⟩
  · obtain ⟨v', hread, hstripped⟩ := payload?_of_wraps hbody htext
    exact ofPayload_of_payload? ho (hv.stripped hstripped ho.fenceFree) hread
  · exact ⟨writes_record hn hc hs o, encodes_render (faithful_record hn hc hs o)⟩

def truck : Order :=
  { model := "MT22", number := "MO-9",
    lines := [{ category := "CAB", selection := "CANOPY", quantity := "2" }, { category := "WINCH" }] }

def hiddenCab : Json := .obj [("category", .null), ("name", .str "CAB"), ("selection", .str " ")]

def truckItems : List Json :=
  [.str "\x60\x60\x60json", .obj [("option", .str "CANOPY"), ("name", .str "CAB"), ("quantity", .str "2")], .int 7,
    hiddenCab, .obj [("category", .str "WINCH"), ("option", .str ""), ("quantity", .str "1")]]

def truckMembers : List (String × Json) :=
  [("moNumber", .str "MO-9"), ("options", .arr truckItems), ("model", .str "MT22")]

def fencedTruck : String :=
  "\n" ++ "\x60\x60\x60" ++ "json" ++ "\n" ++ Json.render .file (.obj truckMembers) ++ "\n" ++ "\x60\x60\x60" ++ " "

theorem ofPayload_writes_truck :
    truck.Encodable ∧ truck.Writes (.obj truckMembers) ∧
      Encodes (Json.render .file (.obj truckMembers)) (.obj truckMembers) ∧
      Wraps (Json.render .file (.obj truckMembers)).toList fencedTruck.toList ∧ ofPayload fencedTruck = truck := by
  have hproper : truck.Proper := by
    refine ⟨by decide +kernel, by decide +kernel, ?_⟩
    simp only [truck, List.forall_mem_cons]
    exact ⟨⟨by decide +kernel, by decide +kernel, by decide +kernel⟩,
      ⟨by decide +kernel, by decide +kernel, by decide +kernel⟩, List.forall_mem_nil _⟩
  have hencodable : truck.Encodable := ⟨hproper, by decide +kernel, by decide +kernel⟩
  have hcab : OrderLine.Ignored hiddenCab := by
    refine .blank ⟨_, rfl, by decide +kernel⟩ ?_ ?_
    · rintro v hv
      exact .inl (Option.some.inj hv).symm
    · rintro v hv
      exact .inr ⟨" ", (Option.some.inj hv).symm, by decide +kernel⟩
  have hlisted : OrderLine.Listed truck.lines truckItems := by
    refine .ignored (.other (by simp)) (.line ⟨⟨_, rfl, by decide +kernel⟩, ?_, ?_, ?_⟩ (.ignored (.other (by simp))
      (.ignored hcab (.line ⟨⟨_, rfl, by decide +kernel⟩, ?_, ?_, ?_⟩ .nil))))
    all_goals simp [Json.stated?, Json.member?, Assoc.get?]
  have hwrites : truck.Writes (.obj truckMembers) := by
    refine ⟨⟨_, rfl, by decide +kernel⟩, ?_, ?_, truckItems, ?_, hlisted⟩
    all_goals simp [truck, truckMembers, Json.stated?, Json.member?, Assoc.get?]
  have hencodes : Encodes (Json.render .file (.obj truckMembers)) (.obj truckMembers) := by
    have htexts {name name' name'' s s' : String} {v : Json} (hnames : [name, name', name''].Nodup)
        (hv : Json.Faithful .file v) : Json.Faithful .file (.obj [(name, v), (name', .str s), (name'', .str s')]) := by
      refine .obj hnames ?_
      simp only [List.forall_mem_cons]
      exact ⟨hv, .str _, .str _, List.forall_mem_nil _⟩
    refine encodes_render (.obj (by simp [Assoc.keys, truckMembers]) ?_)
    simp only [truckMembers, truckItems, hiddenCab, List.forall_mem_cons]
    refine ⟨.str _, .arr ?_, .str _, List.forall_mem_nil _⟩
    simp only [List.forall_mem_cons]
    exact ⟨.str _, htexts (by simp) (.str _), .int _, htexts (by simp) .null, htexts (by simp) (.str _),
      List.forall_mem_nil _⟩
  have hwraps : Wraps (Json.render .file (.obj truckMembers)).toList fencedTruck.toList := by
    simp only [fencedTruck, String.toList_append]
    exact .fenced (.inr rfl) (List.all_eq_true.1 (by decide +kernel))
  exact ⟨hencodable, hwrites, hencodes, hwraps, (ofPayload_writes hencodable).1 _ _ _ hwrites hencodes hwraps⟩

def fencedName : Json := .obj [("category", .str ""), ("selection", .str ""), ("cat\x60\x60\x60egory", .str "CAB")]

def plainTruck : Order := { model := "MT22", number := "MO-1" }

def plainTruckWith (vs : List Json) : Json :=
  .obj [("model", .str "MT22"), ("order_number", .str "MO-1"), ("options", .arr vs)]

/-- The fences go from the names of a record, too: a record that was none becomes a line. -/
theorem ofPayload_fencedName :
    plainTruck.Encodable ∧ plainTruckWith [] = plainTruck.toJson ∧ Json.Blank (fencedName.stated? "category" "name") ∧
      Json.Blank (fencedName.stated? "selection" "option") ∧
      (∀ vs ∈ [[], [fencedName]], Encodes (Json.render .line (plainTruckWith vs)) (plainTruckWith vs)) ∧
      ofPayload (Json.render .line (plainTruckWith [])) = plainTruck ∧
      ofPayload (Json.render .line (plainTruckWith [fencedName])) =
        { plainTruck with lines := [{ category := "CAB" }] } ∧
      ofPayload (Json.render .line (plainTruckWith [fencedName])) ≠ plainTruck := by
  have hproper : plainTruck.Proper := ⟨by decide +kernel, by decide +kernel, List.forall_mem_nil _⟩
  have hblank : Json.Blank (some (.str "")) := by
    rintro v hv
    exact .inr ⟨"", (Option.some.inj hv).symm, by decide +kernel⟩
  have hline : ofPayload (Json.render .line (plainTruckWith [fencedName])) =
      { plainTruck with lines := [{ category := "CAB" }] } := by decide +kernel
  refine ⟨⟨hproper, List.forall_mem_nil _, by decide +kernel⟩, rfl, ?_, ?_, ?_, by decide +kernel, hline, ?_⟩
  · simpa [fencedName, Json.stated?, Json.member?, Assoc.get?] using hblank
  · simpa [fencedName, Json.stated?, Json.member?, Assoc.get?] using hblank
  · have hrecord {vs : List Json} (hvs : ∀ v ∈ vs, Json.Faithful .line v) :
        Encodes (Json.render .line (plainTruckWith vs)) (plainTruckWith vs) := by
      refine encodes_render (.obj (by simp [Assoc.keys]) ?_)
      simp only [List.forall_mem_cons]
      exact ⟨.str _, .str _, .arr hvs, List.forall_mem_nil _⟩
    refine List.forall_mem_cons.2 ⟨hrecord (List.forall_mem_nil _), List.forall_mem_singleton.2 (hrecord ?_)⟩
    refine List.forall_mem_singleton.2 (.obj (by simp [Assoc.keys]) ?_)
    simp only [List.forall_mem_cons]
    exact ⟨.str _, .str _, .str _, List.forall_mem_nil _⟩
  · rw [hline]
    decide

end Order

end Records

end Kitting
