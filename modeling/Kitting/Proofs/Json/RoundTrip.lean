import Kitting.Proofs.Json.Number
import Mathlib.Data.List.Forall2

namespace Kitting.Json

def ReadsBack (layout : Layout) (x : Double) : Prop := ofText? (render layout (.float x)) = some (.float x)

section Strings

variable {fuel n : Nat} {cs rest : List Char}

theorem hexDigit?_digitChar : ∀ d < 16, hexDigit? (Nat.digitChar d) = some d := by decide

theorem readHex4?_hexDigits (hn : n < 0x10000) : readHex4? (Text.hexDigits 4 n ++ rest) = some (n, rest) := by
  have hdigit (m : Nat) := hexDigit?_digitChar (m % 16) (Nat.mod_lt m (by omega))
  simp only [Text.hexDigits, List.nil_append, List.cons_append, readHex4?, hdigit]
  have hsum : ((n / 16 / 16 / 16 % 16 * 16 + n / 16 / 16 % 16) * 16 + n / 16 % 16) * 16 + n % 16 = n := by
    omega
  exact congrArg (fun m => some (m, rest)) hsum

theorem escaped?_of_escapeOf? {c e : Char} (h : escapeOf? c = some e) : e ≠ 'u' ∧ escaped? e = some c := by
  unfold escapeOf? at h
  split at h <;> cases h <;> decide

theorem ne_of_escapeOf?_eq_none {c : Char} (h : escapeOf? c = none) : c ≠ '"' ∧ c ≠ '\\' := by
  constructor <;> rintro rfl <;> cases h

theorem readString?_escapeChar (c : Char) (cs : List Char) :
    readString? (fuel + 1) (escapeChar c ++ cs) =
      (readString? fuel cs).bind fun p => some (c :: p.1, p.2) := by
  -- Whether a character is escaped or not, it costs one step of fuel.
  rw [escapeChar]
  split
  · rename_i e he
    have hescaped := escaped?_of_escapeOf? he
    simp [readString?, hescaped]
  · rename_i hnone
    obtain ⟨hquote, hslash⟩ := ne_of_escapeOf?_eq_none hnone
    split
    · rename_i hc
      have hunit : readUnit c.toNat cs = (c, cs) := by
        rw [readUnit.eq_def, if_neg (by omega), if_neg (by omega), Char.ofNat_toNat]
      simp [readString?, readHex4?_hexDigits (show c.toNat < 0x10000 by omega), hunit]
    · rename_i hc
      simp [readString?, hquote, hslash, hc]

theorem readString?_flatMap {s : List Char} (hfuel : s.length < fuel) :
    readString? fuel (s.flatMap escapeChar ++ '"' :: rest) = some (s, rest) := by
  induction s generalizing fuel with
  | nil =>
    obtain ⟨fuel, rfl⟩ := Nat.exists_eq_add_of_lt hfuel
    simp [readString?]
  | cons c s ih =>
    obtain ⟨fuel, rfl⟩ := Nat.exists_eq_add_of_lt hfuel
    rw [List.flatMap_cons, List.append_assoc, readString?_escapeChar, ih (by simp; omega)]
    rfl

theorem escapeChar_ne_nil (c : Char) : escapeChar c ≠ [] := by
  rw [escapeChar]
  split
  · exact List.cons_ne_nil _ _
  · split <;> exact List.cons_ne_nil _ _

theorem length_le_flatMap_escapeChar (s : List Char) : s.length ≤ (s.flatMap escapeChar).length := by
  induction s with
  | nil => exact Nat.le_refl 0
  | cons c s ih =>
    have hc := List.length_pos_iff.2 (escapeChar_ne_nil c)
    rw [List.flatMap_cons, List.length_append, List.length_cons]
    omega

theorem readString?_quoted (s rest : List Char) :
    readString? ((s.flatMap escapeChar ++ '"' :: rest).length + 1) (s.flatMap escapeChar ++ '"' :: rest) =
      some (s, rest) := by
  have hlength := length_le_flatMap_escapeChar s
  refine readString?_flatMap ?_
  rw [List.length_append, List.length_cons]
  omega

end Strings

section Spaces

variable {cs before rest : List Char} {c : Char}

def Spaces (cs : List Char) : Prop := ∀ c ∈ cs, c = ' ' ∨ c = '\n'

theorem Spaces.isSpace (h : Spaces cs) : ∀ c ∈ cs, isSpace c = true := by
  intro c hc
  rcases h c hc with rfl | rfl <;> rfl

theorem skip_cons (hc : Json.isSpace c = false) : skip (c :: rest) = c :: rest :=
  List.dropWhile_cons_of_neg (by rw [hc]; exact Bool.false_ne_true)

theorem skip_append (h : Spaces before) (hc : Json.isSpace c = false) :
    skip (before ++ c :: rest) = c :: rest := by
  rw [skip, List.dropWhile_append_of_pos h.isSpace]
  exact skip_cons hc

theorem stops_cons (h : Json.isSpace c = true ∨ c = ',' ∨ c = ']' ∨ c = '}') : Stops (c :: rest) := by
  intro d hd
  cases hd
  simp only [Json.isSpace, Bool.or_eq_true, beq_iff_eq] at h
  rcases h with ((((rfl | rfl) | rfl) | rfl) | rfl | rfl | rfl) <;> decide

theorem stops_append (h : Spaces before) (hrest : Stops rest) : Stops (before ++ rest) := by
  cases before with
  | nil => exact hrest
  | cons c before => exact stops_cons (.inl (h.isSpace c List.mem_cons_self))

theorem toList_enclose (layout : Layout) (depth : Nat) (left right : String) (items : List String) :
    ∃ before gap after, Spaces before ∧ Spaces gap ∧ Spaces after ∧
      (enclose layout depth left right items).toList = left.toList ++ (before ++
        (List.intercalate (',' :: gap) (items.map String.toList) ++ (after ++ right.toList))) := by
  have hmargin (n k : Nat) : Spaces ("\n" ++ String.ofList (List.replicate (n * k) ' ')).toList := by
    rw [String.toList_append]
    refine List.forall_mem_append.2 ⟨List.forall_mem_singleton.2 (.inr rfl), fun c hc => ?_⟩
    rw [String.toList_ofList] at hc
    exact .inl (List.eq_of_mem_replicate hc)
  have hnone : Spaces [] := fun _ h => absurd h List.not_mem_nil
  rw [enclose]
  split
  · rename_i hempty
    rw [List.isEmpty_iff.1 hempty]
    exact ⟨[], [], [], hnone, hnone, hnone, by simp⟩
  split
  · refine ⟨[], [' '], [], hnone, List.forall_mem_singleton.2 (.inl rfl), hnone, ?_⟩
    simp [String.toList_intercalate]
  · rename_i n _
    refine ⟨_, _, _, hmargin n (depth + 1), hmargin n (depth + 1), hmargin n depth, ?_⟩
    simp [String.toList_intercalate]

end Spaces

/-- A text that is read as a value, whatever stands behind it. -/
structure Reads (cs : List Char) (v : Json) : Prop where
  head : ∃ c cs', cs = c :: cs' ∧ isSpace c = false ∧ c ≠ ']'
  value : ∀ fuel rest, cs.length ≤ fuel → Stops rest → readValue? fuel (cs ++ rest) = some (v, rest)

section Values

variable {fuel : Nat} {cs gap after rest : List Char} {css : List (List Char)} {v : Json} {vs : List Json}

theorem readValue?_of_readScalar? {r : List Char} (h : readScalar? cs = some (v, r)) :
    readValue? (fuel + 1) cs = some (v, r) := by
  rw [readValue?.eq_def]
  split
  · rename_i heq
    cases heq
  · rename_i heq
    cases heq
    split <;> first | cases h | exact h

theorem isSpace_of_digit {c : Char} {d : Nat} (h : asciiDigit? c = some d) : isSpace c = false ∧ c ≠ ']' := by
  constructor
  · by_contra hspace
    simp only [isSpace, Bool.not_eq_false, Bool.or_eq_true, beq_iff_eq] at hspace
    rcases hspace with ((rfl | rfl) | rfl) | rfl <;> cases h
  · rintro rfl
    cases h

theorem Reads.of_readScalar? (h : readScalar? cs = some (v, [])) : Reads cs v where
  head := by
    obtain ⟨word, hmem, rfl⟩ | ⟨c, cs, d, hd, ⟨rfl, -⟩ | ⟨rfl, -⟩⟩ := readScalar?_cases h
    · rw [List.append_nil]
      simp only [constants, List.mem_cons, List.not_mem_nil, or_false, Prod.mk.injEq] at hmem
      rcases hmem with ⟨rfl, -⟩ | ⟨rfl, -⟩ | ⟨rfl, -⟩ | ⟨rfl, -⟩ | ⟨rfl, -⟩ | ⟨rfl, -⟩ <;>
        exact ⟨_, _, rfl, by decide⟩
    · exact ⟨c, cs, rfl, isSpace_of_digit hd⟩
    · exact ⟨'-', c :: cs, rfl, by decide⟩
  value fuel rest hfuel hrest := by
    cases fuel with
    | zero =>
      rw [List.eq_nil_of_length_eq_zero (Nat.le_zero.1 hfuel)] at h
      cases h
    | succ fuel => exact readValue?_of_readScalar? (readScalar?_append hrest h)

theorem readItems?_append (h : Reads cs v) (hfuel : cs.length ≤ fuel) (hrest : Stops rest) :
    readItems? (fuel + 1) (cs ++ rest) = match skip rest with
      | ']' :: r => some ([v], r)
      | ',' :: r => (readItems? fuel (skip r)).bind fun p => some (v :: p.1, p.2)
      | _ => none := by
  rw [readItems?, h.value fuel rest hfuel hrest]
  rfl

def ReadsMember (cs : List Char) (m : String × Json) : Prop :=
  ∃ text, cs = '"' :: (m.1.toList.flatMap escapeChar ++ '"' :: ':' :: ' ' :: text) ∧ Reads text m.2

theorem readMembers?_append {m : String × Json} (h : ReadsMember cs m) (hfuel : cs.length ≤ fuel)
    (hrest : Stops rest) :
    readMembers? (fuel + 1) (cs ++ rest) = match skip rest with
      | '}' :: r => some ([m], r)
      | ',' :: r => (readMembers? fuel (skip r)).bind fun p => some (m :: p.1, p.2)
      | _ => none := by
  obtain ⟨k, v⟩ := m
  obtain ⟨text, rfl, htext⟩ := h
  obtain ⟨c, tail, rfl, hspace, -⟩ := htext.head
  simp only [List.length_cons, List.length_append] at hfuel
  have hname := readString?_quoted k.toList (':' :: ' ' :: c :: (tail ++ rest))
  have hcolon : skip (':' :: ' ' :: (c :: tail ++ rest)) = ':' :: ' ' :: (c :: tail ++ rest) :=
    skip_cons rfl
  have hvalue : skip (' ' :: (c :: tail ++ rest)) = c :: tail ++ rest :=
    skip_cons hspace
  have hread := htext.value fuel rest (by simp only [List.length_cons]; omega) hrest
  simp only [List.append_assoc, List.cons_append] at hcolon hvalue hread ⊢
  rw [readMembers?, hname, Option.bind_eq_bind, Option.bind_some]
  simp only [hcolon]
  rewrite [hvalue, hread, Option.bind_eq_bind, Option.bind_some, String.ofList_toList]
  rfl

end Values

section Sequences

theorem exists_intercalate_cons (separator cs : List Char) (css : List (List Char)) (c : Char) :
    ∃ cs', List.intercalate separator ((c :: cs) :: css) = c :: cs' := by
  cases css with
  | nil => exact ⟨cs, List.intercalate_singleton⟩
  | cons d css =>
    rw [List.intercalate_cons_cons]
    exact ⟨_, rfl⟩

structure Sequence {β : Type} (close : Char) (Item : List Char → β → Prop)
    (read : Nat → List Char → Option (List β × List Char)) : Prop where
  isBracket : close = ']' ∨ close = '}'
  head : ∀ {cs b}, Item cs b → ∃ c cs', cs = c :: cs' ∧ isSpace c = false
  last : ∀ {cs b fuel rest r}, Item cs b → cs.length ≤ fuel → Stops rest → skip rest = close :: r →
    read (fuel + 1) (cs ++ rest) = some ([b], r)
  next : ∀ {cs b fuel rest r}, Item cs b → cs.length ≤ fuel → Stops rest → skip rest = ',' :: r →
    read (fuel + 1) (cs ++ rest) = (read fuel (skip r)).bind fun p => some (b :: p.1, p.2)

variable {β : Type} {close : Char} {Item : List Char → β → Prop}
  {read : Nat → List Char → Option (List β × List Char)} {fuel : Nat} {gap after : List Char}
  {css : List (List Char)} {bs : List β}

theorem Sequence.read_intercalate (hread : Sequence close Item read) (hgap : Spaces gap)
    (hafter : Spaces after) (rest : List Char) (h : List.Forall₂ Item css bs) (hne : css ≠ [])
    (hfuel : (List.intercalate (',' :: gap) css).length < fuel) :
    read fuel (List.intercalate (',' :: gap) css ++ (after ++ close :: rest)) = some (bs, rest) := by
  induction h generalizing fuel with
  | nil => exact absurd rfl hne
  | @cons cs b css bs hcs hcss ih =>
    obtain ⟨fuel, rfl⟩ := Nat.exists_eq_add_one_of_ne_zero (Nat.ne_zero_of_lt hfuel)
    cases hcss with
    | nil =>
      rw [List.intercalate_singleton] at hfuel ⊢
      have hclose : isSpace close = false := by rcases hread.isBracket with rfl | rfl <;> rfl
      exact hread.last hcs (Nat.le_of_lt_succ hfuel)
        (stops_append hafter (stops_cons (.inr (.inr hread.isBracket)))) (skip_append hafter hclose)
    | @cons cs' b' css bs hcs' hcss =>
      have ih := @ih fuel (List.cons_ne_nil _ _)
      obtain ⟨c, tail, rfl, hspace⟩ := hread.head hcs'
      rw [List.intercalate_cons_cons] at hfuel ⊢
      obtain ⟨text, htext⟩ := exists_intercalate_cons (',' :: gap) tail css c
      rw [htext] at ih hfuel ⊢
      simp only [List.length_append, List.length_cons] at hfuel ih
      have hcomma : skip (',' :: (gap ++ (c :: text ++ (after ++ close :: rest)))) =
          ',' :: (gap ++ (c :: text ++ (after ++ close :: rest))) :=
        skip_cons rfl
      simp only [List.append_assoc, List.cons_append] at hcomma ih ⊢
      rw [hread.next hcs (by omega) (stops_cons (.inr (.inl rfl))) hcomma, skip_append hgap hspace,
        ih (by omega)]
      rfl

theorem sequence_items : Sequence ']' Reads readItems? where
  isBracket := .inl rfl
  head h := by
    obtain ⟨c, cs', rfl, hspace, -⟩ := h.head
    exact ⟨c, cs', rfl, hspace⟩
  last h hfuel hrest hskip := by simp only [readItems?_append h hfuel hrest, hskip]
  next h hfuel hrest hskip := by simp only [readItems?_append h hfuel hrest, hskip]

theorem sequence_members : Sequence '}' ReadsMember readMembers? where
  isBracket := .inr rfl
  head h := by
    obtain ⟨text, rfl, -⟩ := h
    exact ⟨_, _, rfl, rfl⟩
  last h hfuel hrest hskip := by simp only [readMembers?_append h hfuel hrest, hskip]
  next h hfuel hrest hskip := by simp only [readMembers?_append h hfuel hrest, hskip]

end Sequences

section Values

variable {fuel : Nat} {cs rest : List Char} {layout : Layout} {vs : List Json}
  {ms : List (String × Json)}

theorem readValue?_arr {c : Char} (h : skip cs = c :: rest) (hc : c ≠ ']') :
    readValue? (fuel + 1) ('[' :: cs) = (readItems? fuel (c :: rest)).map fun p => (.arr p.1, p.2) := by
  rw [readValue?, h]
  split
  · rename_i heq
    exact absurd (List.cons.inj heq).1 hc
  · rfl

theorem readValue?_obj {c : Char} (h : skip cs = c :: rest) (hc : c ≠ '}') :
    readValue? (fuel + 1) ('{' :: cs) =
      (readMembers? fuel (c :: rest)).map fun p => (.obj (Assoc.ofPairs p.1), p.2) := by
  rw [readValue?, h]
  split
  · rename_i heq
    exact absurd (List.cons.inj heq).1 hc
  · rfl

/-- Every binary number in it is read back as itself, and every record names each member once. -/
inductive Faithful (layout : Layout) : Json → Prop
  | null : Faithful layout null
  | bool (b : Bool) : Faithful layout (bool b)
  | int (n : Int) : Faithful layout (int n)
  | float {x : Double} : ReadsBack layout x → Faithful layout (float x)
  | str (s : String) : Faithful layout (str s)
  | arr {vs : List Json} : (∀ v ∈ vs, Faithful layout v) → Faithful layout (arr vs)
  | obj {ms : List (String × Json)} : (Assoc.keys ms).Nodup → (∀ m ∈ ms, Faithful layout m.2) →
      Faithful layout (obj ms)

theorem faithful_texts (ss : List String) : Faithful layout (.arr (ss.map .str)) :=
  .arr (List.forall_mem_map.2 fun s _ => .str s)

theorem toList_quote (s : String) : (quote s).toList = '"' :: (s.toList.flatMap escapeChar ++ ['"']) := by
  rw [quote, String.toList_ofList, List.cons_append]

theorem reads_str (s : String) : Reads (quote s).toList (.str s) where
  head := ⟨'"', _, toList_quote s, by decide⟩
  value fuel rest hfuel _ := by
    obtain ⟨fuel, rfl⟩ := Nat.exists_eq_add_one_of_ne_zero (n := fuel) (by
      rw [toList_quote, List.length_cons] at hfuel
      omega)
    rw [toList_quote, List.cons_append, List.append_assoc, List.singleton_append, readValue?,
      readString?_quoted, Option.map_some]
    simp only [String.ofList_toList]

theorem reads_arr {before gap after : List Char} {css : List (List Char)} (hbefore : Spaces before)
    (hgap : Spaces gap) (hafter : Spaces after) (h : List.Forall₂ Reads css vs) :
    Reads ('[' :: (before ++ (List.intercalate (',' :: gap) css ++ (after ++ [']'])))) (.arr vs) where
  head := ⟨'[', _, rfl, by decide⟩
  value fuel rest hfuel _ := by
    obtain ⟨fuel, rfl⟩ := Nat.exists_eq_add_one_of_ne_zero (n := fuel) (by
      rw [List.length_cons] at hfuel
      omega)
    simp only [List.length_cons, List.length_append] at hfuel
    simp only [List.cons_append, List.append_assoc, List.nil_append]
    cases h with
    | nil =>
      have hskip : skip (before ++ (after ++ ']' :: rest)) = ']' :: rest := by
        rw [← List.append_assoc]
        exact skip_append (List.forall_mem_append.2 ⟨hbefore, hafter⟩) rfl
      simp only [List.intercalate_nil, List.nil_append, readValue?, hskip]
    | @cons cs v css vs hcs hcss =>
      have hread := sequence_items.read_intercalate hgap hafter rest (.cons hcs hcss) (List.cons_ne_nil _ _)
        (show _ < fuel by omega)
      obtain ⟨c, tail, rfl, hspace, hc⟩ := hcs.head
      obtain ⟨text, htext⟩ := exists_intercalate_cons (',' :: gap) tail css c
      rw [htext, List.cons_append] at hread ⊢
      rw [readValue?_arr (skip_append hbefore hspace) hc, hread]
      rfl

theorem ReadsMember.head {m : String × Json} (h : ReadsMember cs m) : ∃ tail, cs = '"' :: tail := by
  obtain ⟨text, rfl, -⟩ := h
  exact ⟨_, rfl⟩

theorem reads_obj {before gap after : List Char} {css : List (List Char)} (hbefore : Spaces before)
    (hgap : Spaces gap) (hafter : Spaces after) (hnames : (Assoc.keys ms).Nodup)
    (h : List.Forall₂ ReadsMember css ms) :
    Reads ('{' :: (before ++ (List.intercalate (',' :: gap) css ++ (after ++ ['}'])))) (.obj ms) where
  head := ⟨'{', _, rfl, by decide⟩
  value fuel rest hfuel _ := by
    obtain ⟨fuel, rfl⟩ := Nat.exists_eq_add_one_of_ne_zero (n := fuel) (by
      rw [List.length_cons] at hfuel
      omega)
    simp only [List.length_cons, List.length_append] at hfuel
    simp only [List.cons_append, List.append_assoc, List.nil_append]
    cases h with
    | nil =>
      have hskip : skip (before ++ (after ++ '}' :: rest)) = '}' :: rest := by
        rw [← List.append_assoc]
        exact skip_append (List.forall_mem_append.2 ⟨hbefore, hafter⟩) rfl
      simp only [List.intercalate_nil, List.nil_append, readValue?, hskip]
    | @cons cs m css ms hcs hcss =>
      have hread := sequence_members.read_intercalate hgap hafter rest (.cons hcs hcss) (List.cons_ne_nil _ _)
        (show _ < fuel by omega)
      obtain ⟨tail, rfl⟩ := hcs.head
      obtain ⟨text, htext⟩ := exists_intercalate_cons (',' :: gap) tail css '"'
      rw [htext, List.cons_append] at hread ⊢
      rw [readValue?_obj (skip_append hbefore rfl) (by decide), hread, Option.map_some,
        Assoc.ofPairs_of_nodup hnames]

theorem writeItems_eq_map (depth : Nat) : writeItems layout depth vs = vs.map (write layout depth) := by
  induction vs with
  | nil => rfl
  | cons v vs ih => rw [writeItems, ih, List.map_cons]

theorem writeMembers_eq_map (depth : Nat) :
    writeMembers layout depth ms = ms.map fun m => quote m.1 ++ ": " ++ write layout depth m.2 := by
  induction ms with
  | nil => rfl
  | cons m ms ih => rw [writeMembers, ih, List.map_cons]

theorem readScalar?_of_readValue? {x : Double} {r : List Char}
    (h : readValue? fuel cs = some (.float x, r)) : readScalar? cs = some (.float x, r) := by
  cases fuel with
  | zero => cases h
  | succ fuel =>
    rw [readValue?.eq_def] at h
    split at h
    · rename_i heq
      cases heq
    · rename_i heq
      cases heq
      split at h
      · obtain ⟨p, -, hp⟩ := Option.map_eq_some_iff.1 h
        cases hp
      · split at h
        · cases h
        · obtain ⟨p, -, hp⟩ := Option.map_eq_some_iff.1 h
          cases hp
      · split at h
        · cases h
        · obtain ⟨p, -, hp⟩ := Option.map_eq_some_iff.1 h
          cases hp
      · exact h

theorem skip_of_visible {ds : List Char} (h : Visible ds) : skip ds = ds := by
  cases ds with
  | nil => rfl
  | cons c ds =>
    refine List.dropWhile_cons_of_neg fun hspace => ?_
    have hc := (h c List.mem_cons_self).1
    simp only [isSpace, Bool.or_eq_true, beq_iff_eq] at hspace
    rcases hspace with ((rfl | rfl) | rfl) | rfl <;> exact absurd hc (by decide)

theorem reads_float {x : Double} (h : ReadsBack layout x) :
    Reads (floatText layout.floats x).toList (.float x) := by
  have hvisible := visible_floatText layout.floats x
  change ofChars? (floatText layout.floats x).toList = _ at h
  rw [ofChars?, skip_of_visible hvisible] at h
  simp only [bind, Option.bind_eq_some_iff] at h
  obtain ⟨⟨v, r⟩, hread, h⟩ := h
  split at h
  · rename_i hskip
    cases h
    have hscalar := readScalar?_of_readValue? hread
    have hrest : Visible r := fun c hc => hvisible c ((readScalar?_suffix hscalar).mem hc)
    rw [skip_of_visible hrest, List.isEmpty_iff] at hskip
    exact .of_readScalar? (hskip ▸ hscalar)
  · cases h

/-- The text of a value is read as that value, at every depth of every layout. -/
theorem reads_write {v : Json} (h : Faithful layout v) (depth : Nat) :
    Reads (write layout depth v).toList v := by
  induction h generalizing depth with
  | null => exact .of_readScalar? (show readScalar? "null".toList = _ from rfl)
  | bool b =>
    cases b with
    | false => exact .of_readScalar? (show readScalar? "false".toList = _ from rfl)
    | true => exact .of_readScalar? (show readScalar? "true".toList = _ from rfl)
  | int n => exact .of_readScalar? (readScalar?_int n)
  | float h => exact reads_float h
  | str s => exact reads_str s
  | @arr vs _ ih =>
    obtain ⟨before, gap, after, hbefore, hgap, hafter, htext⟩ :=
      toList_enclose layout depth "[" "]" (writeItems layout (depth + 1) vs)
    rw [write, htext]
    refine reads_arr hbefore hgap hafter ?_
    rw [writeItems_eq_map, List.map_map, List.forall₂_map_left_iff, List.forall₂_same]
    exact fun v hv => ih v hv (depth + 1)
  | @obj ms hnames _ ih =>
    obtain ⟨before, gap, after, hbefore, hgap, hafter, htext⟩ :=
      toList_enclose layout depth "\x7b" "\x7d" (writeMembers layout (depth + 1) ms)
    rw [write, htext]
    refine reads_obj hbefore hgap hafter hnames ?_
    rw [writeMembers_eq_map, List.map_map, List.forall₂_map_left_iff, List.forall₂_same]
    intro m hm
    refine ⟨_, ?_, ih m hm (depth + 1)⟩
    simp [toList_quote]

end Values

section Texts

variable {layout : Layout} {v : Json} {depth : Nat}

theorem ofText?_render (h : Faithful layout v) : ofText? (render layout v) = some v := by
  have hreads := reads_write h 0
  have hvalue := hreads.value ((write layout 0 v).toList.length + 1) [] (Nat.le_succ _) stops_nil
  obtain ⟨c, cs, hcs, hspace, -⟩ := hreads.head
  have hskip : skip (write layout 0 v).toList = (write layout 0 v).toList := by
    rw [hcs]
    exact skip_cons hspace
  rw [List.append_nil] at hvalue
  simp only [ofText?, render, ofChars?, hskip, hvalue, bind, Option.bind_some]
  rfl

theorem mem_intercalate {separator : List Char} {css : List (List Char)} {c : Char}
    (h : c ∈ List.intercalate separator css) : c ∈ separator ∨ ∃ cs ∈ css, c ∈ cs := by
  induction css with
  | nil =>
    rw [List.intercalate_nil] at h
    cases h
  | cons cs css ih =>
    cases css with
    | nil =>
      rw [List.intercalate_singleton] at h
      exact .inr ⟨cs, List.mem_cons_self, h⟩
    | cons cs' css =>
      rw [List.intercalate_cons_cons, List.mem_append, List.mem_append] at h
      rcases h with (h | h) | h
      · exact .inr ⟨cs, List.mem_cons_self, h⟩
      · exact .inl h
      · exact (ih h).imp_right fun ⟨cs, hcs, hc⟩ => ⟨cs, List.mem_cons_of_mem _ hcs, hc⟩

theorem return_notMem_hexDigits (width n : Nat) : '\r' ∉ Text.hexDigits width n := by
  induction width generalizing n with
  | zero => exact List.not_mem_nil
  | succ width ih =>
    rw [Text.hexDigits, List.mem_append, List.mem_singleton, not_or]
    exact ⟨ih _, (Nat.digitChar_ne '\r' rfl).symm⟩

theorem return_notMem_escapeChar (c : Char) : '\r' ∉ escapeChar c := by
  rw [escapeChar]
  split
  · rename_i e he
    have hescaped := escaped?_of_escapeOf? he
    simp only [List.mem_cons, List.not_mem_nil, or_false, not_or]
    refine ⟨by decide, ?_⟩
    rintro rfl
    cases hescaped.2
  · rename_i hnone
    split
    · simp only [List.mem_cons, not_or]
      exact ⟨by decide, by decide, return_notMem_hexDigits 4 _⟩
    · rw [List.mem_singleton]
      rintro rfl
      cases hnone

theorem return_notMem_quote (s : String) : '\r' ∉ (quote s).toList := by
  simp only [toList_quote, List.mem_cons, List.mem_append, List.mem_flatMap, not_or]
  exact ⟨by decide, fun ⟨c, _, hc⟩ => return_notMem_escapeChar c hc, by decide, List.not_mem_nil⟩

theorem return_notMem_enclose {left right : String} {items : List String} (hleft : '\r' ∉ left.toList)
    (hright : '\r' ∉ right.toList) (hitems : ∀ s ∈ items, '\r' ∉ s.toList) :
    '\r' ∉ (enclose layout depth left right items).toList := by
  have hspaces {cs : List Char} (h : Spaces cs) : '\r' ∉ cs := fun hmem => by
    rcases h _ hmem with h | h <;> cases h
  obtain ⟨before, gap, after, hbefore, hgap, hafter, htext⟩ := toList_enclose layout depth left right items
  rw [htext]
  simp only [List.mem_append, not_or]
  refine ⟨hleft, hspaces hbefore, fun hmem => ?_, hspaces hafter, hright⟩
  obtain hmem | ⟨cs, hcs, hmem⟩ := mem_intercalate hmem
  · rcases List.mem_cons.1 hmem with h | h
    · cases h
    · exact hspaces hgap h
  · obtain ⟨s, hs, rfl⟩ := List.mem_map.1 hcs
    exact hitems s hs hmem

theorem return_notMem_write (h : Faithful layout v) : '\r' ∉ (write layout depth v).toList := by
  have hvisible {cs : List Char} (h : Visible cs) : '\r' ∉ cs := fun hmem => absurd (h _ hmem) (by decide)
  induction h generalizing depth with
  | null => exact show '\r' ∉ "null".toList by decide
  | bool b =>
    cases b with
    | false => exact show '\r' ∉ "false".toList by decide
    | true => exact show '\r' ∉ "true".toList by decide
  | int n => exact hvisible (visible_int n)
  | float _ => exact hvisible (visible_floatText _ _)
  | str s => exact return_notMem_quote s
  | @arr vs _ ih =>
    rw [write, writeItems_eq_map]
    refine return_notMem_enclose (by decide) (by decide) (List.forall_mem_map.2 fun v hv => ih v hv)
  | @obj ms _ _ ih =>
    rw [write, writeMembers_eq_map]
    refine return_notMem_enclose (by decide) (by decide) (List.forall_mem_map.2 fun m hm => ?_)
    simp only [String.toList_append, List.mem_append, not_or]
    exact ⟨⟨return_notMem_quote m.1, by decide⟩, ih m hm⟩

end Texts

end Kitting.Json
