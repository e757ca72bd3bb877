import Kitting.Proofs.Number.Overflow
import Kitting.Proofs.Synthesis.Answers
import Kitting.Proofs.Synthesis.Rounds

/-!
What an answer can do to a run.

An item of an answer is left out or read with defaults, whatever it holds, but for one case: it names a part
number, and its confidence is an integer that no number stands for. Such an item ends the run with an
overflow, and nothing else does. `Ends` says so of a piece of a run and of the same piece with a record;
pieces that follow one another compose.
-/

namespace Kitting

namespace Proposal

variable {book : EvidenceBook} {parts : List Part} {v c : Json} {vs : List Json} {number : String} {e : Error}

def Exceeds : Json → Prop
  | .int n => Double.overflowBound ≤ n.natAbs
  | _ => False

instance : DecidablePred Exceeds
  | .int n => inferInstanceAs (Decidable (Double.overflowBound ≤ n.natAbs))
  | .null | .bool _ | .float _ | .str _ | .arr _ | .obj _ => inferInstanceAs (Decidable False)

def Overflows (v : Json) : Prop := (named? v).isSome ∧ ∃ c ∈ v.member? "confidence", Exceeds c

instance : DecidablePred Overflows := fun v =>
  inferInstanceAs (Decidable ((named? v).isSome ∧ ∃ c ∈ v.member? "confidence", Exceeds c))

/-- What a confidence can be that says nothing. -/
def Silent : Json → Prop
  | .null | .arr _ | .obj _ => True
  | .str s => Double.ofText? s = none
  | _ => False

instance : DecidablePred Silent
  | .null | .arr _ | .obj _ => inferInstanceAs (Decidable True)
  | .str s => inferInstanceAs (Decidable (Double.ofText? s = none))
  | .bool _ | .int _ | .float _ => inferInstanceAs (Decidable False)

def isAccepted (v : Json) : Bool :=
  (named? v).isSome && match statedConfidence v with
    | .ok x => x ≠ .nan
    | .error _ => false

/-- What a proposal has from its item, and what it has where the item says nothing of use. -/
structure ReadFrom (book : EvidenceBook) (v : Json) (p : Proposal) : Prop where
  partNumber : (named? v).map (subject book) = some p.partNumber
  confidence : statedConfidence v = .ok p.confidence
  inBounds : InBounds p.confidence
  silent : (∀ c ∈ v.member? "confidence", Silent c) → p.confidence = defaultConfidence
  expression : ((v.member? "expression").getD .null).isVacant → p.expression = ""
  indicators : (∀ vs, said v "indicators" "keyIndicators" ≠ .arr vs) → p.indicators = []

theorem confidenceOf_eq_error_iff : confidenceOf c = .error e ↔ e = .overflow ∧ Exceeds c := by
  cases c with
  | int n =>
    rw [confidenceOf, Exceeds, ← Double.ofInt?_eq_none_iff]
    cases Double.ofInt? n with
    | none => simp [eq_comm]
    | some x => simp
  | _ => simp [confidenceOf, Exceeds]

theorem confidenceOf_of_silent (h : Silent c) : confidenceOf c = .ok defaultConfidence := by
  cases c with
  | str s =>
    rw [confidenceOf, show Double.ofText? s = none from h]
    rfl
  | null | arr _ | obj _ => rfl
  | bool _ | int _ | float _ => cases h

theorem statedConfidence_eq_error_iff :
    statedConfidence v = .error e ↔ e = .overflow ∧ ∃ c ∈ v.member? "confidence", Exceeds c := by
  rw [statedConfidence]
  cases v.member? "confidence" with
  | none => simp
  | some c => simp [confidenceOf_eq_error_iff]

theorem statedConfidence_of_silent (h : ∀ c ∈ v.member? "confidence", Silent c) :
    statedConfidence v = .ok defaultConfidence := by
  rw [statedConfidence]
  cases hc : v.member? "confidence" with
  | none => rfl
  | some c => exact confidenceOf_of_silent (h c hc)

theorem exists_readFrom (book : EvidenceBook) (parts : List Part) {x : Double} (h : named? v = some number)
    (hconfidence : statedConfidence v = .ok x) (hx : x ≠ .nan) :
    ∃ p, ofItem book parts v = .ok (some p) ∧ ReadFrom book v p := by
  obtain ⟨p, hp, hnumber, rfl, -, -, hexpression, hindicators⟩ := exists_ofItem book parts h hconfidence hx
  refine ⟨p, hp, ?_⟩
  constructor
  case partNumber => rw [h, hnumber, Option.map_some]
  case confidence => exact hconfidence
  case inBounds => exact inBounds_of_statedConfidence hconfidence hx
  case silent =>
    intro hsilent
    exact Except.ok.inj (hconfidence.symm.trans (statedConfidence_of_silent hsilent))
  case expression =>
    intro hvacant
    rw [hexpression, saidText, if_pos hvacant]
    rfl
  case indicators =>
    intro hnone
    rw [hindicators]
    split
    case h_1 vs hvs => exact absurd hvs (hnone vs)
    case h_2 => rfl

theorem ofItem_of_named? (book : EvidenceBook) (parts : List Part) (h : named? v = some number) :
    ∃ continued : Double → Except Error (Option Proposal),
      ofItem book parts v = (statedConfidence v).bind continued ∧ continued .nan = .ok none := by
  cases v with
  | obj ms =>
    rw [named?] at h
    split at h
    · cases h
    · rename_i hempty
      rw [ofItem, if_neg hempty, statedConfidence]
      cases (Json.obj ms).member? "confidence" with
      | some c => exact ⟨_, rfl, if_pos rfl⟩
      | none => exact ⟨_, rfl, if_pos rfl⟩
  | _ => cases h

theorem ofItem_of_nan (h : statedConfidence v = .ok .nan) : ofItem book parts v = .ok none := by
  cases hnamed : named? v with
  | none => exact ofItem_of_named?_eq_none hnamed
  | some number =>
    obtain ⟨continued, hitem, hnan⟩ := ofItem_of_named? book parts hnamed
    rw [hitem, h]
    exact hnan

theorem ofItem_of_overflows (h : Overflows v) : ofItem book parts v = .error .overflow := by
  obtain ⟨number, hnamed⟩ := Option.isSome_iff_exists.1 h.1
  obtain ⟨continued, hitem, -⟩ := ofItem_of_named? book parts hnamed
  rw [hitem, statedConfidence_eq_error_iff.2 ⟨rfl, h.2⟩]
  rfl

theorem ofItem_of_not_overflows (book : EvidenceBook) (parts : List Part) (h : ¬Overflows v) :
    (isAccepted v = false ∧ ofItem book parts v = .ok none) ∨
      isAccepted v = true ∧ ∃ p, ofItem book parts v = .ok (some p) ∧ ReadFrom book v p := by
  rw [isAccepted]
  cases hnamed : named? v with
  | none => exact .inl ⟨rfl, ofItem_of_named?_eq_none hnamed⟩
  | some number =>
    cases hconfidence : statedConfidence v with
    | error e =>
      obtain ⟨-, hhuge⟩ := statedConfidence_eq_error_iff.1 hconfidence
      exact absurd ⟨Option.isSome_of_eq_some hnamed, hhuge⟩ h
    | ok x =>
      by_cases hx : x = .nan
      · subst hx
        exact .inl ⟨rfl, ofItem_of_nan hconfidence⟩
      · exact .inr ⟨decide_eq_true hx, exists_readFrom book parts hnamed hconfidence hx⟩

theorem exists_ofItems_of_not_overflows (book : EvidenceBook) (parts : List Part)
    (h : ∀ v ∈ vs, ¬Overflows v) :
    ∃ ps, ofItems book parts vs = .ok ps ∧ List.Forall₂ (ReadFrom book) (vs.filter isAccepted) ps := by
  induction vs with
  | nil => exact ⟨[], rfl, .nil⟩
  | cons v vs ih =>
    obtain ⟨hv, hvs⟩ := List.forall_mem_cons.1 h
    obtain ⟨ps, hps, hread⟩ := ih hvs
    obtain ⟨hno, hnone⟩ | ⟨haccepted, p, hp, hpread⟩ := ofItem_of_not_overflows book parts hv
    · refine ⟨ps, ?_, by rwa [List.filter_cons_of_neg (by simp [hno])]⟩
      rw [ofItems, hnone, hps]
      rfl
    · refine ⟨p :: ps, ?_, by rw [List.filter_cons_of_pos haccepted]; exact .cons hpread hread⟩
      rw [ofItems, hp, hps]
      rfl

theorem ofItems_of_overflows (book : EvidenceBook) (parts : List Part) (h : ∃ v ∈ vs, Overflows v) :
    ofItems book parts vs = .error .overflow := by
  induction vs with
  | nil => simp at h
  | cons v vs ih =>
    rw [ofItems]
    by_cases hv : Overflows v
    · rw [ofItem_of_overflows hv]
      rfl
    · have hrest : ∃ w ∈ vs, Overflows w := by simpa [hv] using h
      rw [ih hrest]
      obtain ⟨-, hv⟩ | ⟨-, p, hv, -⟩ := ofItem_of_not_overflows book parts hv
      · rw [hv]
        rfl
      · rw [hv]
        rfl

end Proposal

namespace Synthesis

variable {σ α β : Type} {service : Service σ} {settings : Settings} {book : EvidenceBook} {parts : List Part}
  {glossary : Glossary} {now : String} {c : Checkpoint} {s : σ} {answer : Option String}

def itemsOf (answer : Option String) : List Json :=
  match answer.bind Order.payload? with
  | some (.arr vs) => vs
  | _ => []

def AnswerOverflows (answer : Option String) : Prop := ∃ v ∈ itemsOf answer, Proposal.Overflows v

instance : DecidablePred AnswerOverflows := fun answer =>
  inferInstanceAs (Decidable (∃ v ∈ itemsOf answer, Proposal.Overflows v))

namespace Event

def Overflows : Event → Prop
  | asked _ _ answer => AnswerOverflows answer
  | saved _ => False

def GivenBy (service : Service σ) : Event → Prop
  | asked batch hint answer => service.Gives batch hint answer
  | saved _ => True

end Event

structure Service.Total (service : Service σ) : Prop where
  answers : ∀ batch hint s, ∃ answer s', service.ask batch hint s = .ok answer s'
  stores : ∀ c s, ∃ s', service.save c s = .ok () s'

theorem payload?_of_toList {s : String} {cs : List Char} (h : s.toList = cs) :
    Order.payload? s = Json.ofChars? (Text.trimChars (Order.dropFences cs.length cs)) := by
  rw [Order.payload?, Order.unfenced, Json.ofText?, String.toList_ofList, ← String.length_toList, h]

theorem ofAnswer_of_usable (h : isUsable answer) :
    Proposal.ofAnswer book parts answer = some <$> Proposal.ofItems book parts (itemsOf answer) := by
  obtain ⟨vs, hvs⟩ := isUsable_iff.1 h
  rw [ofAnswer_of_payload? hvs, itemsOf, hvs]

theorem isUsable_of_mem_itemsOf {v : Json} (h : v ∈ itemsOf answer) : isUsable answer := by
  rw [itemsOf] at h
  split at h
  case h_1 vs hvs => exact isUsable_iff.2 ⟨vs, hvs⟩
  case h_2 => cases h

theorem AnswerOverflows.isUsable (h : AnswerOverflows answer) : isUsable answer := by
  obtain ⟨v, hv, -⟩ := h
  exact isUsable_of_mem_itemsOf hv

theorem ofAnswer_of_overflows (book : EvidenceBook) (parts : List Part) (h : AnswerOverflows answer) :
    Proposal.ofAnswer book parts answer = .error .overflow := by
  rw [ofAnswer_of_usable h.isUsable, Proposal.ofItems_of_overflows book parts h]
  rfl

theorem exists_ofAnswer_of_usable (book : EvidenceBook) (parts : List Part) (husable : isUsable answer)
    (h : ¬AnswerOverflows answer) :
    ∃ ps, Proposal.ofAnswer book parts answer = .ok (some ps) ∧
      List.Forall₂ (Proposal.ReadFrom book) ((itemsOf answer).filter Proposal.isAccepted) ps := by
  obtain ⟨ps, hps, hread⟩ :=
    Proposal.exists_ofItems_of_not_overflows book parts fun v hv hoverflows => h ⟨v, hv, hoverflows⟩
  refine ⟨ps, ?_, hread⟩
  rw [ofAnswer_of_usable husable, hps]
  rfl

theorem exists_ofAnswer_of_not_overflows (book : EvidenceBook) (parts : List Part) (h : ¬AnswerOverflows answer) :
    ∃ out, Proposal.ofAnswer book parts answer = .ok out := by
  cases husable : isUsable answer with
  | false => exact ⟨none, ofAnswer_of_unusable husable⟩
  | true =>
    obtain ⟨ps, hps, -⟩ := exists_ofAnswer_of_usable book parts husable h
    exact ⟨some ps, hps⟩

def Sound (service : Service σ) (events : List Event) : Prop := ∀ e ∈ events, e.GivenBy service ∧ ¬e.Overflows

/-- How a piece of a run ends, after `log`, without a record and with one: well, with sound events; or else in an
overflow, at the first answer that has one. -/
inductive Ends (service : Service σ) (log : List Event) :
    EStateM.Result Error σ α → EStateM.Result Error (σ × List Event) α → Prop
  | well {a : α} {s : σ} {events : List Event} : Sound service events →
      Ends service log (.ok a s) (.ok a (s, log ++ events))
  | overflow {s : σ} {events : List Event} {e : Event} : Sound service events → e.GivenBy service → e.Overflows →
      Ends service log (.error .overflow s) (.error .overflow (s, log ++ (events ++ [e])))

theorem Sound.nil : Sound service [] := fun _ h => absurd h List.not_mem_nil

theorem Sound.singleton {e : Event} (hgiven : e.GivenBy service) (h : ¬e.Overflows) : Sound service [e] :=
  List.forall_mem_singleton.2 ⟨hgiven, h⟩

theorem Sound.append {events events' : List Event} (h : Sound service events) (h' : Sound service events') :
    Sound service (events ++ events') :=
  List.forall_mem_append.2 ⟨h, h'⟩

theorem Ends.prepend {log events : List Event} {r : EStateM.Result Error σ α}
    {r' : EStateM.Result Error (σ × List Event) α} (hevents : Sound service events)
    (h : Ends service (log ++ events) r r') : Ends service log r r' := by
  cases h with
  | well hmore =>
    rw [List.append_assoc]
    exact .well (hevents.append hmore)
  | overflow hmore hgiven hoverflows =>
    rw [List.append_assoc, ← List.append_assoc events]
    exact .overflow (hevents.append hmore) hgiven hoverflows

theorem Ends.exists_eq_ok {log : List Event} {r : EStateM.Result Error σ α}
    {r' : EStateM.Result Error (σ × List Event) α} (h : Ends service log r r')
    (hfits : ∀ batch hint answer, service.Gives batch hint answer → ¬AnswerOverflows answer) :
    ∃ a s, r = .ok a s := by
  cases h with
  | well _ => exact ⟨_, _, rfl⟩
  | @overflow s events e _ hgiven hoverflows =>
    cases e with
    | asked batch hint answer => exact absurd hoverflows (hfits batch hint answer hgiven)
    | saved c => exact hoverflows.elim

def Follows (service : Service σ) (x : EStateM Error σ α) (y : EStateM Error (σ × List Event) α) : Prop :=
  ∀ s log, Ends service log (x s) (y (s, log))

namespace Follows

theorem pure (service : Service σ) (a : α) : Follows service (pure a) (pure a) := by
  intro s log
  have hwell : Ends service log (.ok a s) (.ok a (s, log ++ [])) := .well .nil
  rwa [List.append_nil] at hwell

theorem bind {x : EStateM Error σ α} {y : EStateM Error (σ × List Event) α} {f : α → EStateM Error σ β}
    {g : α → EStateM Error (σ × List Event) β} (h : Follows service x y)
    (hfg : ∀ a, Follows service (f a) (g a)) : Follows service (x >>= f) (y >>= g) := by
  intro s log
  have hstep := h s log
  change Ends service log (EStateM.bind x f s) (EStateM.bind y g (s, log))
  rw [EStateM.bind, EStateM.bind]
  generalize x s = r at hstep ⊢
  generalize y (s, log) = r' at hstep ⊢
  cases hstep with
  | well hevents => exact (hfg _ _ _).prepend hevents
  | overflow hevents hgiven hoverflows => exact .overflow hevents hgiven hoverflows

theorem save (hservice : service.Total) (c : Checkpoint) :
    Follows service (service.save c) (service.recorded.save c) := by
  intro s log
  obtain ⟨s', hsave⟩ := hservice.stores c s
  rw [hsave, recorded_save log hsave]
  exact .well (.singleton trivial id)

theorem submit (hservice : service.Total) (book : EvidenceBook) (parts : List Part) (batch : List Evidence)
    (hint : String) :
    Follows service (service.ask batch hint >>= fun answer => liftResult (Proposal.ofAnswer book parts answer))
      (service.recorded.ask batch hint >>= fun answer => liftResult (Proposal.ofAnswer book parts answer)) := by
  intro s log
  obtain ⟨answer, s', hask⟩ := hservice.answers batch hint s
  have hgiven : (Event.asked batch hint answer).GivenBy service := ⟨s, s', hask⟩
  change Ends service log (EStateM.bind _ _ s) (EStateM.bind _ _ (s, log))
  rw [EStateM.bind, EStateM.bind, hask, recorded_ask log hask]
  by_cases hoverflows : AnswerOverflows answer
  · simp only [ofAnswer_of_overflows book parts hoverflows]
    exact .overflow .nil hgiven hoverflows
  · obtain ⟨out, hout⟩ := exists_ofAnswer_of_not_overflows book parts hoverflows
    simp only [hout]
    exact .well (.singleton hgiven hoverflows)

theorem attempt (hservice : service.Total) (book : EvidenceBook) (parts : List Part) (batch : List Evidence)
    (hint : String) (n : Nat) :
    Follows service (attempt service book parts batch hint n)
      (attempt service.recorded book parts batch hint n) := by
  induction n with
  | zero => exact .pure service none
  | succ n ih =>
    rw [Synthesis.attempt, Synthesis.attempt, ← bind_assoc, ← bind_assoc]
    refine (submit hservice book parts batch hint).bind fun out => ?_
    cases out with
    | some ps => exact .pure service (some ps)
    | none => exact ih

theorem runClusters (hservice : service.Total) (settings : Settings) (book : EvidenceBook) (parts : List Part)
    (glossary : Glossary) (now : String) (done : Nat) (c : Checkpoint) (numbers : List (List String)) :
    Follows service (runClusters service settings book parts glossary now done c numbers)
      (runClusters service.recorded settings book parts glossary now done c numbers) := by
  induction numbers generalizing done c with
  | nil => exact .pure service _
  | cons cluster rest ih =>
    refine (attempt hservice book parts _ _ _).bind fun out => ?_
    cases out with
    | none => exact .pure service _
    | some ps => exact (save hservice _).bind fun _ => ih (done + 1) (c.extend now ps)

end Follows

/-- Whatever a service says, a run ends as it should up to the first answer that overflows. An answer that is no
array is a failed attempt, and the items of any other that does not overflow are read one by one. (An answer keeps
to the limits that `Json.Reader` names.) -/
theorem run_ends (service : Service σ) (settings : Settings) (book : EvidenceBook) (parts : List Part)
    (glossary : Glossary) (now : String) (c : Checkpoint) (s : σ) (hservice : service.Total) :
    Ends service [] (run service settings book parts glossary now c s)
        (run service.recorded settings book parts glossary now c (s, [])) ∧
      ((∀ batch hint answer, service.Gives batch hint answer → ¬AnswerOverflows answer) →
        ∃ r s', run service settings book parts glossary now c s = .ok r s') ∧
      ∀ answer, (isUsable answer = false → Proposal.ofAnswer book parts answer = .ok none) ∧
        (AnswerOverflows answer → Proposal.ofAnswer book parts answer = .error .overflow) ∧
        (isUsable answer → ¬AnswerOverflows answer →
          ∃ ps, Proposal.ofAnswer book parts answer = .ok (some ps) ∧
            List.Forall₂ (Proposal.ReadFrom book) ((itemsOf answer).filter Proposal.isAccepted) ps) := by
  have hends := Follows.runClusters hservice settings book parts glossary now 0 c
    (clusters settings (pending book c)) s []
  exact ⟨hends, hends.exists_eq_ok, fun _ =>
    ⟨ofAnswer_of_unusable, ofAnswer_of_overflows book parts, exists_ofAnswer_of_usable book parts⟩⟩

def repeating (answer : Option String) : Service Unit where
  ask _ _ := pure answer
  save _ := pure ()

theorem total_repeating (answer : Option String) : (repeating answer).Total where
  answers _ _ s := ⟨answer, s, rfl⟩
  stores _ s := ⟨s, rfl⟩

def oddAnswer : String :=
  .ofList ("[5, \x7b\"partNumber\": \" \"\x7d, " ++
    "\x7b\"partNumber\": \"A1\", \"confidence\": [], \"expression\": 0\x7d, " ++
    "\x7b\"part_number\": \"B2\", \"confidence\": NaN\x7d]").toList

def hugeAnswer : String :=
  .ofList ("[\x7b\"partNumber\": \"A1\", \"confidence\": 1".toList ++ List.replicate 309 '0' ++ ['\x7d', ']'])

theorem answerOverflows_hugeAnswer : AnswerOverflows (some hugeAnswer) := by
  have hpayload := payload?_of_toList (s := hugeAnswer) String.toList_ofList
  rw [AnswerOverflows, itemsOf, Option.bind_some, hpayload]
  decide +kernel

theorem run_ends_oddAnswer :
    (repeating (some oddAnswer)).Total ∧
      (∀ batch hint answer, (repeating (some oddAnswer)).Gives batch hint answer → ¬AnswerOverflows answer) ∧
      (∃ r s', run (repeating (some oddAnswer)) {} threeNumbers [] [] "noon" {} () = .ok r s') ∧
      (isUsable (some "Sorry") = false ∧ Proposal.ofAnswer threeNumbers [] (some "Sorry") = .ok none) ∧
      (AnswerOverflows (some hugeAnswer) ∧
        Proposal.ofAnswer threeNumbers [] (some hugeAnswer) = .error .overflow) ∧
      (isUsable (some oddAnswer) ∧ ¬AnswerOverflows (some oddAnswer) ∧ ∃ p,
        Proposal.ofAnswer threeNumbers [] (some oddAnswer) = .ok (some [p]) ∧ p.partNumber = "A1" ∧
          p.confidence = Proposal.defaultConfidence ∧ p.expression = "") := by
  have hpayload := payload?_of_toList (s := oddAnswer) String.toList_ofList
  have htotal := total_repeating (some oddAnswer)
  obtain ⟨hodd, hlength, hitems⟩ : ¬AnswerOverflows (some oddAnswer) ∧
      ((itemsOf (some oddAnswer)).filter Proposal.isAccepted).length = 1 ∧
      ∀ v ∈ (itemsOf (some oddAnswer)).filter Proposal.isAccepted, Proposal.named? v = some "A1" ∧
        (∀ c ∈ v.member? "confidence", Proposal.Silent c) ∧ ((v.member? "expression").getD .null).isVacant := by
    rw [AnswerOverflows, itemsOf, Option.bind_some, hpayload]
    decide +kernel
  obtain ⟨v, hv⟩ := List.length_eq_one_iff.1 hlength
  rw [hv, List.forall_mem_singleton] at hitems
  obtain ⟨hnamed, hsilent, hvacant⟩ := hitems
  have husable : isUsable (some oddAnswer) :=
    isUsable_of_mem_itemsOf (List.mem_of_mem_filter (hv ▸ List.mem_singleton_self v))
  have hfits : ∀ batch hint answer,
      (repeating (some oddAnswer)).Gives batch hint answer → ¬AnswerOverflows answer := by
    rintro batch hint _ ⟨s, s', ⟨⟩⟩
    exact hodd
  have hunusable : isUsable (some "Sorry") = false := by decide +kernel
  obtain ⟨-, hreturns, hanswers⟩ := run_ends (repeating (some oddAnswer)) {} threeNumbers [] [] "noon" {} () htotal
  obtain ⟨ps, hps, hread⟩ := (hanswers (some oddAnswer)).2.2 husable hodd
  rw [hv] at hread
  obtain ⟨p, _, hp, ⟨⟩, rfl⟩ := List.forall₂_cons_left_iff.1 hread
  have hnumber := hp.partNumber
  rw [hnamed, Option.map_some] at hnumber
  exact ⟨htotal, hfits, hreturns hfits, ⟨hunusable, (hanswers _).1 hunusable⟩,
    ⟨answerOverflows_hugeAnswer, (hanswers _).2.1 answerOverflows_hugeAnswer⟩, husable, hodd, p, hps,
    (Option.some.inj hnumber).symm.trans (by decide +kernel), hp.silent hsilent, hp.expression hvacant⟩

theorem exists_run_of_overflows (service : Service σ) (settings : Settings) (book : EvidenceBook)
    (parts : List Part) (glossary : Glossary) (now : String) (c : Checkpoint) (s : σ)
    (hretries : 0 ≤ settings.maxRetries) (hpending : pending book c ≠ [])
    (hask : ∀ batch hint, ∃ answer s', service.ask batch hint s = .ok answer s' ∧ AnswerOverflows answer) :
    ∃ s', run service settings book parts glossary now c s = .error .overflow s' := by
  obtain ⟨number, numbers, hcons⟩ := List.exists_cons_of_ne_nil hpending
  obtain ⟨attempts, hattempts⟩ : ∃ n, (settings.maxRetries + 1).toNat = n + 1 :=
    ⟨settings.maxRetries.toNat, by omega⟩
  rw [run, clusters, hcons, List.length_cons, chunksFrom, runClusters, hattempts, attempt]
  obtain ⟨answer, s', hanswer, hoverflows⟩ := hask _ _
  refine ⟨s', bind_eq_error_iff.2 (.inl (bind_eq_error_iff.2 (.inr ⟨answer, s', hanswer, ?_⟩)))⟩
  rw [ofAnswer_of_overflows book parts hoverflows]
  exact bind_eq_error_iff.2 (.inl rfl)

/-- A run can end without an outcome, although the service answers at once and with an array. -/
theorem run_hugeAnswer :
    (repeating (some hugeAnswer)).Total ∧ isUsable (some hugeAnswer) ∧
      ∀ r s', run (repeating (some hugeAnswer)) {} threeNumbers [] [] "noon" {} () ≠ .ok r s' := by
  refine ⟨total_repeating _, answerOverflows_hugeAnswer.isUsable, fun r s' h => ?_⟩
  obtain ⟨t, hrun⟩ := exists_run_of_overflows (repeating (some hugeAnswer)) {} threeNumbers [] [] "noon" {} ()
    (by decide) (by decide +kernel) fun _ _ => ⟨_, _, rfl, answerOverflows_hugeAnswer⟩
  cases h.symm.trans hrun

end Synthesis

end Kitting
