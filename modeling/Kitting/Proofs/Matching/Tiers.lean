import Kitting.Matching
import Kitting.Proofs.FirstOccurrence
import Kitting.Proofs.Text.Occurrence
import Mathlib.Data.Rat.Cast.Order
import Mathlib.Data.Set.Finite.Lemmas
import Mathlib.Tactic.Linarith
import Mathlib.Tactic.NormNum

/-!
How a line chooses its part.

The best of four signals makes a choice by tiers: a rule that holds on the line, the part's number in the
line, a precedent, and only then the words that the line shares with a part. Within a tier the first part
of the index wins, among shared words the first of those with the most.
-/

namespace Kitting.Matching

open Text

section Best

variable {entry b : IndexedPart × Rat × Bool} {entries : List (IndexedPart × Rat × Bool)}

theorem mem_of_best? (h : best? entries = some b) : b ∈ entries := by
  induction entries with
  | nil => cases h
  | cons e es ih =>
    rw [best?] at h
    split at h
    case h_1 =>
      split at h
      case isTrue =>
        cases h
        exact List.mem_cons_self
      case isFalse => cases h
    case h_2 d hd =>
      split at h
      case isTrue =>
        cases h
        exact List.mem_cons_of_mem e (ih hd)
      case isFalse =>
        cases h
        exact List.mem_cons_self

theorem best?_eq_none (h : ∀ e ∈ entries, e.2.1 ≤ 0) : best? entries = none := by
  induction entries with
  | nil => rfl
  | cons e es ih =>
    rw [best?, ih fun d hd => h d (List.mem_cons_of_mem e hd)]
    simp [not_lt.2 (h e List.mem_cons_self)]

theorem best?_cons_of_le (hpos : 0 < entry.2.1) (h : ∀ e ∈ entries, e.2.1 ≤ entry.2.1) :
    best? (entry :: entries) = some entry := by
  rw [best?]
  cases hb : best? entries with
  | none => simp [hpos]
  | some d => simp [not_lt.2 (h d (mem_of_best? hb))]

theorem best?_append_of_lt {before : List (IndexedPart × Rat × Bool)} (h : best? entries = some b)
    (hbefore : ∀ e ∈ before, e.2.1 < b.2.1) : best? (before ++ entries) = some b := by
  induction before with
  | nil => exact h
  | cons e es ih =>
    rw [List.cons_append, best?, ih fun d hd => hbefore d (List.mem_cons_of_mem e hd)]
    simp [hbefore e List.mem_cons_self]

theorem best?_of_first {index : Index} {P : IndexedPart → Prop} {ip : IndexedPart}
    {f : IndexedPart → Rat × Bool} {s : Rat} {learned : Bool} (h : First P index ip)
    (hip : f ip = (s, learned)) (hpos : 0 < s) (hle : ∀ q ∈ index, (f q).1 ≤ s)
    (hlt : ∀ q ∈ index, ¬P q → (f q).1 < s) :
    best? (index.map fun q => (q, f q)) = some (ip, s, learned) := by
  obtain ⟨-, before, after, rfl, hbefore⟩ := h
  rw [List.map_append, List.map_cons, hip]
  refine best?_append_of_lt (best?_cons_of_le hpos ?_) ?_
  · intro e he
    obtain ⟨q, hq, rfl⟩ := List.mem_map.1 he
    exact hle q (by simp [hq])
  · intro e he
    obtain ⟨q, hq, rfl⟩ := List.mem_map.1 he
    exact hlt q (by simp [hq]) (hbefore q hq)

end Best

section Signals

variable {rules : List Rule} {history : List Precedent} {line : OrderLine} {ip : IndexedPart}

def conditionFor? (rules : List Rule) (id : String) : Option Condition :=
  (ruleFor? rules id).map (·.condition)

def Verified (conditionOf : String → Option Condition) (line : OrderLine) (ip : IndexedPart) : Prop :=
  ∃ c, conditionOf ip.part.id = some c ∧ c.holds line.context

def Named (line : OrderLine) (ip : IndexedPart) : Prop :=
  ip.number ≠ "" ∧ ip.number.toList <:+: line.query.toList

def Learned (history : List Precedent) (line : OrderLine) (ip : IndexedPart) : Prop :=
  ip.number ≠ "" ∧ ∃ h ∈ history, Token.canonical h.category = Token.canonical line.category ∧
    Token.canonical h.selection = Token.canonical line.selection ∧
    Token.canonical h.partNumber = ip.number

abbrev words (line : OrderLine) : List String := Token.significant line.query

theorem isVerified_iff :
    isVerified rules line.context ip ↔ Verified (conditionFor? rules) line ip := by
  rw [isVerified, Verified, conditionFor?]
  cases ruleFor? rules ip.part.id <;> simp

theorem isNamed_iff : isNamed line ip ↔ Named line ip := by
  simp [isNamed, Named, contains_iff_infix]

theorem isLearned_iff : isLearned history line ip.number ↔ Learned history line ip := by
  simp [isLearned, Learned, OrderLine.key, and_assoc]

instance : DecidablePred (Learned history line) := fun _ => decidable_of_iff _ isLearned_iff

section Overlap

variable {ws : List String} {q : IndexedPart} {a b : Nat}

theorem overlap_eq (ws : List String) (ip : IndexedPart) :
    overlap ws ip = (hits ws ip : Rat) / ws.length := by
  rw [overlap]
  split
  case isTrue h => simp [List.isEmpty_iff.1 h]
  case isFalse => rw [Rat.mkRat_eq_div, Int.cast_natCast]

theorem hits_le (ws : List String) (ip : IndexedPart) : hits ws ip ≤ ws.length :=
  List.countP_le_length

theorem overlap_nonneg (ws : List String) (ip : IndexedPart) : 0 ≤ overlap ws ip := by
  rw [overlap_eq]
  exact div_nonneg (Nat.cast_nonneg _) (Nat.cast_nonneg _)

theorem overlap_le_one (ws : List String) (ip : IndexedPart) : overlap ws ip ≤ 1 := by
  rw [overlap_eq]
  exact div_le_one_of_le₀ (Nat.cast_le.2 (hits_le ws ip)) (Nat.cast_nonneg _)

theorem overlap_eq_zero (h : hits ws ip = 0) : overlap ws ip = 0 := by
  rw [overlap_eq, h, Nat.cast_zero, zero_div]

theorem overlap_le (h : hits ws q ≤ hits ws ip) : overlap ws q ≤ overlap ws ip := by
  rw [overlap_eq, overlap_eq]
  exact div_le_div_of_nonneg_right (Nat.cast_le.2 h) (Nat.cast_nonneg _)

theorem overlap_lt (h : hits ws q < hits ws ip) : overlap ws q < overlap ws ip := by
  have hwords : 0 < ws.length := (Nat.zero_le _).trans_lt (h.trans_le (hits_le ws ip))
  rw [overlap_eq, overlap_eq]
  exact div_lt_div_of_pos_right (Nat.cast_lt.2 h) (Nat.cast_pos.2 hwords)

theorem div_le_overlap_iff (hb : 0 < b) (hws : 0 < ws.length) :
    (a / b : Rat) ≤ overlap ws ip ↔ a * ws.length ≤ b * hits ws ip := by
  rw [overlap_eq, div_le_div_iff₀ (Nat.cast_pos.2 hb) (Nat.cast_pos.2 hws), mul_comm (b : ℕ)]
  exact_mod_cast Iff.rfl

theorem auto_le_overlap_iff (hws : 0 < ws.length) :
    9 / 10 ≤ overlap ws ip ↔ 9 * ws.length ≤ 10 * hits ws ip := by
  exact_mod_cast div_le_overlap_iff (a := 9) (b := 10) (by decide) hws

theorem review_le_overlap_iff (hws : 0 < ws.length) :
    1 / 2 ≤ overlap ws ip ↔ ws.length ≤ 2 * hits ws ip := by
  rw [← Nat.one_mul ws.length]
  exact_mod_cast div_le_overlap_iff (a := 1) (b := 2) (by decide) hws

end Overlap

theorem score_of_verified (hv : Verified (conditionFor? rules) line ip) :
    score rules history line ip = (9 / 5, false) := by
  rw [score, if_pos (isVerified_iff.2 hv)]
  rfl

theorem score_of_named (hv : ¬Verified (conditionFor? rules) line ip) (hn : Named line ip) :
    score rules history line ip = (6 / 5, decide (Learned history line ip)) := by
  have hknown : ¬(6 / 5 : Rat) ≤ 11 / 10 := by norm_num
  have hshared := overlap_le_one (words line) ip
  have hlt : ¬(6 / 5 : Rat) ≤ overlap (words line) ip := by linarith
  have hlearned : isLearned history line ip.number = decide (Learned history line ip) := by
    rw [Bool.eq_iff_iff, isLearned_iff, decide_eq_true_iff]
  rw [score, if_neg (mt isVerified_iff.1 hv)]
  simp [isNamed_iff.2 hn, Score.identifier, Score.learned, hknown, hlt, hlearned]

theorem score_of_learned (hv : ¬Verified (conditionFor? rules) line ip) (hn : ¬Named line ip)
    (hl : Learned history line ip) : score rules history line ip = (11 / 10, true) := by
  have hknown : (0 : Rat) ≤ 11 / 10 := by norm_num
  have hshared := overlap_le_one (words line) ip
  have hlt : ¬(11 / 10 : Rat) ≤ overlap (words line) ip := by linarith
  rw [score, if_neg (mt isVerified_iff.1 hv)]
  simp [mt isNamed_iff.1 hn, isLearned_iff.2 hl, Score.learned, hknown, hlt]

theorem score_of_described (hv : ¬Verified (conditionFor? rules) line ip) (hn : ¬Named line ip)
    (hl : ¬Learned history line ip) :
    score rules history line ip = (overlap (words line) ip, false) := by
  rw [score, if_neg (mt isVerified_iff.1 hv)]
  simp [mt isNamed_iff.1 hn, mt isLearned_iff.1 hl, overlap_nonneg]

-- No signal makes up for one of an earlier tier: each bound is less than the score of the tier before.
theorem score_le_of_not_learned (hv : ¬Verified (conditionFor? rules) line ip) (hn : ¬Named line ip)
    (hl : ¬Learned history line ip) : (score rules history line ip).1 ≤ 1 := by
  simp only [score_of_described hv hn hl]
  exact overlap_le_one (words line) ip

theorem score_le_of_not_named (history : List Precedent)
    (hv : ¬Verified (conditionFor? rules) line ip) (hn : ¬Named line ip) :
    (score rules history line ip).1 ≤ 11 / 10 := by
  by_cases hl : Learned history line ip
  · rw [score_of_learned hv hn hl]
  · linarith [score_le_of_not_learned hv hn hl]

theorem score_le_of_not_verified (history : List Precedent)
    (hv : ¬Verified (conditionFor? rules) line ip) :
    (score rules history line ip).1 ≤ 6 / 5 := by
  by_cases hn : Named line ip
  · rw [score_of_named hv hn]
  · linarith [score_le_of_not_named history hv hn]

theorem score_le (rules : List Rule) (history : List Precedent) (line : OrderLine) (ip : IndexedPart) :
    (score rules history line ip).1 ≤ 9 / 5 := by
  by_cases hv : Verified (conditionFor? rules) line ip
  · rw [score_of_verified hv]
  · linarith [score_le_of_not_verified history hv]

end Signals

section Outcomes

variable {index : Index} {rules : List Rule} {history : List Precedent} {line : OrderLine}
  {ip : IndexedPart}

def answer (line : OrderLine) (ip : IndexedPart) (score : Rat) (level : Level) (provenance : Provenance)
    (formula : String) : Outcome where
  category := line.category
  selection := line.selection
  quantity := line.quantity
  partId := some ip.part.id
  partNumber := ip.part.number
  partName := ip.part.name
  score := score
  level := level
  provenance := provenance
  formula := formula

theorem classify_logic {s : Rat} (h : 3 / 2 ≤ s) (learned : Bool) :
    Score.classify s learned = (.autoVerified, .logic) := by
  simp [Score.classify, Score.classifyBy, Score.logicThreshold, h]

theorem classify_auto {s : Rat} (h : 9 / 10 ≤ s) (hs : s < 3 / 2) (learned : Bool) :
    Score.classify s learned = (.autoVerified, if learned then .learned else .ai) := by
  simp [Score.classify, Score.classifyBy, Score.logicThreshold, Score.autoThreshold, h, not_le.2 hs]

theorem classify_review {s : Rat} (h : 1 / 2 ≤ s) (hs : s < 9 / 10) (learned : Bool) :
    Score.classify s learned = (.reviewNeeded, .hybrid) := by
  have hlogic : ¬(3 / 2 : Rat) ≤ s := by linarith
  have hreview : (2 : Rat)⁻¹ ≤ s := by linarith
  simp [Score.classify, Score.classifyBy, Score.logicThreshold, Score.autoThreshold,
    Score.reviewThreshold, hreview, not_le.2 hs, hlogic]

theorem classify_uncertain {s : Rat} (hs : s < 1 / 2) (learned : Bool) :
    Score.classify s learned = (.uncertain, .nothing) := by
  have hlogic : ¬(3 / 2 : Rat) ≤ s := by linarith
  have hauto : ¬(9 / 10 : Rat) ≤ s := by linarith
  have hreview : ¬(2 : Rat)⁻¹ ≤ s := by linarith
  simp [Score.classify, Score.classifyBy, Score.logicThreshold, Score.autoThreshold,
    Score.reviewThreshold, hreview, hauto, hlogic]

theorem scoreLine_of_none (h : best? (index.map fun q => (q, score rules history line q)) = none) :
    scoreLine index rules history line = unresolved line 0 := by
  rw [scoreLine, h]

theorem scoreLine_of_uncertain {s : Rat} {learned : Bool} {p : Provenance}
    (h : best? (index.map fun q => (q, score rules history line q)) = some (ip, s, learned))
    (hlevel : Score.classify s learned = (.uncertain, p)) :
    scoreLine index rules history line = unresolved line s := by
  rw [scoreLine, h]
  simp only [hlevel]

theorem scoreLine_of_answer {s : Rat} {learned : Bool} {level : Level} {p : Provenance}
    (h : best? (index.map fun q => (q, score rules history line q)) = some (ip, s, learned))
    (hlevel : Score.classify s learned = (level, p)) (hne : level ≠ .uncertain) :
    scoreLine index rules history line = answer line ip s level p
      (if p = .logic then ((conditionFor? rules ip.part.id).map (·.raw)).getD "" else "") := by
  rw [scoreLine, h]
  simp only [hlevel]
  cases level with
  | uncertain => exact absurd rfl hne
  | autoVerified => simp [answer, conditionFor?, Function.comp_def]
  | reviewNeeded => simp [answer, conditionFor?, Function.comp_def]

end Outcomes

def Closest (index : Index) (ws : List String) (ip : IndexedPart) : Prop :=
  ∀ q ∈ index, hits ws q ≤ hits ws ip

structure Unmatched (index : Index) (conditionOf : String → Option Condition)
    (history : List Precedent) (line : OrderLine) : Prop where
  verified : ∀ q ∈ index, ¬Verified conditionOf line q
  named : ∀ q ∈ index, ¬Named line q
  learned : ∀ q ∈ index, ¬Learned history line q

/-- The tiers, from the first on. The words of the line count only where no other signal does. -/
inductive Tiered (index : Index) (conditionOf : String → Option Condition) (history : List Precedent)
    (line : OrderLine) : Outcome → Prop
  | verified {ip : IndexedPart} {c : Condition} : First (Verified conditionOf line) index ip →
      conditionOf ip.part.id = some c →
      Tiered index conditionOf history line (answer line ip (9 / 5) .autoVerified .logic c.raw)
  | named {ip : IndexedPart} : (∀ q ∈ index, ¬Verified conditionOf line q) →
      First (Named line) index ip →
      Tiered index conditionOf history line
        (answer line ip (6 / 5) .autoVerified (if Learned history line ip then .learned else .ai) "")
  | learned {ip : IndexedPart} : (∀ q ∈ index, ¬Verified conditionOf line q) →
      (∀ q ∈ index, ¬Named line q) → First (Learned history line) index ip →
      Tiered index conditionOf history line (answer line ip (11 / 10) .autoVerified .learned "")
  | described {ip : IndexedPart} : Unmatched index conditionOf history line →
      First (Closest index (words line)) index ip → 0 < (words line).length →
      9 * (words line).length ≤ 10 * hits (words line) ip →
      Tiered index conditionOf history line
        (answer line ip (hits (words line) ip / (words line).length) .autoVerified .ai "")
  | suggested {ip : IndexedPart} : Unmatched index conditionOf history line →
      First (Closest index (words line)) index ip → 0 < (words line).length →
      10 * hits (words line) ip < 9 * (words line).length →
      (words line).length ≤ 2 * hits (words line) ip →
      Tiered index conditionOf history line
        (answer line ip (hits (words line) ip / (words line).length) .reviewNeeded .hybrid "")
  | unresolved {ip : IndexedPart} : Unmatched index conditionOf history line →
      First (Closest index (words line)) index ip →
      (words line).length = 0 ∨ 2 * hits (words line) ip < (words line).length →
      Tiered index conditionOf history line
        (unresolved line (hits (words line) ip / (words line).length))
  | vacant : index = [] → Tiered index conditionOf history line (unresolved line 0)

section Tiers

variable {index : Index} {rules : List Rule} {history : List Precedent} {line : OrderLine}
  {ip : IndexedPart} {o : Outcome}

theorem best?_verified (h : First (Verified (conditionFor? rules) line) index ip) :
    best? (index.map fun q => (q, score rules history line q)) = some (ip, 9 / 5, false) := by
  refine best?_of_first h (score_of_verified h.1) (by norm_num) (fun q _ => score_le rules history line q) ?_
  intro q _ hv
  linarith [score_le_of_not_verified history hv]

theorem best?_named (hv : ∀ q ∈ index, ¬Verified (conditionFor? rules) line q)
    (h : First (Named line) index ip) :
    best? (index.map fun q => (q, score rules history line q)) =
      some (ip, 6 / 5, decide (Learned history line ip)) := by
  refine best?_of_first h (score_of_named (hv ip h.mem) h.1) (by norm_num)
    (fun q hq => score_le_of_not_verified history (hv q hq)) ?_
  intro q hq hn
  linarith [score_le_of_not_named history (hv q hq) hn]

theorem best?_learned (hv : ∀ q ∈ index, ¬Verified (conditionFor? rules) line q)
    (hn : ∀ q ∈ index, ¬Named line q) (h : First (Learned history line) index ip) :
    best? (index.map fun q => (q, score rules history line q)) = some (ip, 11 / 10, true) := by
  refine best?_of_first h (score_of_learned (hv ip h.mem) (hn ip h.mem) h.1) (by norm_num)
    (fun q hq => score_le_of_not_named history (hv q hq) (hn q hq)) ?_
  intro q hq hl
  linarith [score_le_of_not_learned (hv q hq) (hn q hq) hl]

theorem Unmatched.score_eq (h : Unmatched index (conditionFor? rules) history line) (hip : ip ∈ index) :
    score rules history line ip = (overlap (words line) ip, false) :=
  score_of_described (h.verified ip hip) (h.named ip hip) (h.learned ip hip)

theorem best?_closest (hu : Unmatched index (conditionFor? rules) history line)
    (h : First (Closest index (words line)) index ip) (hpos : 0 < hits (words line) ip) :
    best? (index.map fun q => (q, score rules history line q)) =
      some (ip, overlap (words line) ip, false) := by
  have hzero : overlap (words line) ip ≠ 0 := by
    have hwords := hpos.trans_le (hits_le (words line) ip)
    rw [overlap_eq, div_ne_zero_iff, Nat.cast_ne_zero, Nat.cast_ne_zero]
    exact ⟨hpos.ne', hwords.ne'⟩
  refine best?_of_first h (hu.score_eq h.mem) (lt_of_le_of_ne (overlap_nonneg _ _) hzero.symm) ?_ ?_
  · intro q hq
    simp only [hu.score_eq hq]
    exact overlap_le (h.1 q hq)
  · intro q hq hfar
    simp only [Closest, not_forall, not_le] at hfar
    obtain ⟨r, hr, hlt⟩ := hfar
    simp only [hu.score_eq hq]
    exact overlap_lt (hlt.trans_le (h.1 r hr))

theorem best?_unmatched (hu : Unmatched index (conditionFor? rules) history line)
    (h : Closest index (words line) ip) (hzero : hits (words line) ip = 0) :
    best? (index.map fun q => (q, score rules history line q)) = none := by
  refine best?_eq_none ?_
  intro e he
  obtain ⟨q, hq, rfl⟩ := List.mem_map.1 he
  have hnone : hits (words line) q = 0 := Nat.le_zero.1 (hzero ▸ h q hq)
  simp only [hu.score_eq hq, overlap_eq_zero hnone, le_refl]

theorem scoreLine_eq_of_tiered (h : Tiered index (conditionFor? rules) history line o) :
    scoreLine index rules history line = o := by
  cases h with
  | verified hfirst hc =>
    rw [scoreLine_of_answer (best?_verified hfirst) (classify_logic (by norm_num) _) (by decide), hc]
    rfl
  | @named ip hv hfirst =>
    rw [scoreLine_of_answer (best?_named hv hfirst) (classify_auto (by norm_num) (by norm_num) _)
      (by decide)]
    by_cases hl : Learned history line ip <;> simp [hl]
  | learned hv hn hfirst =>
    exact scoreLine_of_answer (best?_learned hv hn hfirst)
      (classify_auto (by norm_num) (by norm_num) _) (by decide)
  | @described ip hu hfirst hwords hmost =>
    have hpos : 0 < hits (words line) ip := by omega
    have hauto := (auto_le_overlap_iff hwords).2 hmost
    have hone := overlap_le_one (words line) ip
    rw [← overlap_eq]
    exact scoreLine_of_answer (best?_closest hu hfirst hpos)
      (classify_auto hauto (by linarith) _) (by decide)
  | @suggested ip hu hfirst hwords hfew hhalf =>
    have hpos : 0 < hits (words line) ip := by omega
    have hauto := not_le.1 (mt (auto_le_overlap_iff hwords).1 (not_le.2 hfew))
    have hreview := (review_le_overlap_iff hwords).2 hhalf
    rw [← overlap_eq]
    exact scoreLine_of_answer (best?_closest hu hfirst hpos) (classify_review hreview hauto _) (by decide)
  | @unresolved ip hu hfirst hfew =>
    rw [← overlap_eq]
    rcases Nat.eq_zero_or_pos (hits (words line) ip) with hzero | hpos
    · rw [overlap_eq_zero hzero]
      exact scoreLine_of_none (best?_unmatched hu hfirst.1 hzero)
    · have hwords := hpos.trans_le (hits_le (words line) ip)
      have hreview : overlap (words line) ip < 1 / 2 :=
        not_le.1 (mt (review_le_overlap_iff hwords).1 (by omega))
      exact scoreLine_of_uncertain (best?_closest hu hfirst hpos) (classify_uncertain hreview _)
  | vacant hempty =>
    subst hempty
    rfl

theorem exists_first_closest (hne : index ≠ []) (ws : List String) :
    ∃ ip, First (Closest index ws) index ip := by
  obtain ⟨ip, hip, hmax⟩ := Set.exists_max_image {q | q ∈ index} (hits ws) index.finite_toSet
    (List.exists_mem_of_ne_nil index hne)
  exact exists_first ⟨ip, hip, hmax⟩

theorem exists_tiered (index : Index) (conditionOf : String → Option Condition)
    (history : List Precedent) (line : OrderLine) : ∃ o, Tiered index conditionOf history line o := by
  by_cases hv : ∃ q ∈ index, Verified conditionOf line q
  · obtain ⟨ip, hfirst⟩ := exists_first hv
    obtain ⟨c, hc, -⟩ := hfirst.1
    exact ⟨_, .verified hfirst hc⟩
  by_cases hn : ∃ q ∈ index, Named line q
  · obtain ⟨ip, hfirst⟩ := exists_first hn
    exact ⟨_, .named (by simpa using hv) hfirst⟩
  by_cases hl : ∃ q ∈ index, Learned history line q
  · obtain ⟨ip, hfirst⟩ := exists_first hl
    exact ⟨_, .learned (by simpa using hv) (by simpa using hn) hfirst⟩
  by_cases hne : index = []
  · exact ⟨_, .vacant hne⟩
  obtain ⟨ip, hfirst⟩ := exists_first_closest hne (words line)
  have hu : Unmatched index conditionOf history line :=
    ⟨by simpa using hv, by simpa using hn, by simpa using hl⟩
  by_cases hwords : (words line).length = 0
  · exact ⟨_, .unresolved hu hfirst (.inl hwords)⟩
  by_cases hauto : 9 * (words line).length ≤ 10 * hits (words line) ip
  · exact ⟨_, .described hu hfirst (Nat.pos_of_ne_zero hwords) hauto⟩
  by_cases hreview : (words line).length ≤ 2 * hits (words line) ip
  · exact ⟨_, .suggested hu hfirst (Nat.pos_of_ne_zero hwords) (not_le.1 hauto) hreview⟩
  · exact ⟨_, .unresolved hu hfirst (.inr (not_le.1 hreview))⟩

theorem scoreLine_eq_iff_tiered :
    scoreLine index rules history line = o ↔ Tiered index (conditionFor? rules) history line o := by
  constructor
  · intro h
    obtain ⟨o', ho'⟩ := exists_tiered index (conditionFor? rules) history line
    rwa [← h, scoreLine_eq_of_tiered ho']
  · exact scoreLine_eq_of_tiered

end Tiers

section Rules

def rulesOf (conditionOf : String → Option Condition) (ids : List String) : List Rule :=
  ids.filterMap fun id => (conditionOf id).map fun c => { id := id, target := id, condition := c }

theorem conditionFor?_rulesOf (conditionOf : String → Option Condition) (ids : List String) (id : String) :
    conditionFor? (rulesOf conditionOf ids) id = if id ∈ ids then conditionOf id else none := by
  induction ids with
  | nil => rfl
  | cons i ids ih =>
    cases hi : conditionOf i with
    | none =>
      have hrules : rulesOf conditionOf (i :: ids) = rulesOf conditionOf ids := by simp [rulesOf, hi]
      rw [hrules, ih]
      by_cases hid : id = i <;> simp [hid, hi]
    | some c =>
      have hrules : rulesOf conditionOf (i :: ids) =
          { id := i, target := i, condition := c } :: rulesOf conditionOf ids := by simp [rulesOf, hi]
      rw [hrules, conditionFor?, ruleFor?]
      by_cases hid : i = id
      · rw [List.find?_cons_of_pos (by simpa using hid)]
        simp [← hid, hi]
      · rw [List.find?_cons_of_neg (by simpa using hid), ← ruleFor?, ← conditionFor?, ih]
        simp [Ne.symm hid]

end Rules

end Kitting.Matching
