import Kitting.Proofs.Effects
import Kitting.Proofs.Synthesis.Clusters
import Mathlib.Data.List.Forall2

/-!
What a synthesis run asks and stores, whatever the service does.

`Service.recorded` is the service with a record of it. A run goes round by round, one for each cluster it
submits: `Answered` and `Ran` follow the attempts of a round and the rounds of a run, and
`run_rounds` reads off them when a cluster is submitted again, what the checkpoints hold and how a run ends.
-/

namespace Kitting.Synthesis

def isUsable (answer : Option String) : Bool :=
  match answer.bind Order.payload? with
  | some (.arr _) => true
  | _ => false

inductive Event
  | asked (batch : List Evidence) (hint : String) (answer : Option String)
  | saved (c : Checkpoint)

variable {σ : Type}

/-- The service, with a record of what it is asked, what it answers and what it is given to store. -/
def Service.recorded (service : Service σ) : Service (σ × List Event) where
  ask batch hint := fun (s, events) => match service.ask batch hint s with
    | .ok answer s => .ok answer (s, events ++ [.asked batch hint answer])
    | .error e s => .error e (s, events)
  save c := fun (s, events) => match service.save c s with
    | .ok _ s => .ok () (s, events ++ [.saved c])
    | .error e s => .error e (s, events)

def Service.Gives (service : Service σ) (batch : List Evidence) (hint : String) (answer : Option String) :
    Prop :=
  ∃ s s', service.ask batch hint s = .ok answer s'

structure Round where
  cluster : List String
  answers : List (Option String)

namespace Round

def asked (settings : Settings) (book : EvidenceBook) (glossary : Glossary) (round : Round) :
    List Event :=
  let evidence := batch settings book round.cluster
  round.answers.map (.asked evidence (glossary.hint evidence))

def GivenBy (service : Service σ) (settings : Settings) (book : EvidenceBook) (glossary : Glossary)
    (round : Round) : Prop :=
  let evidence := batch settings book round.cluster
  ∀ answer ∈ round.answers, service.Gives evidence (glossary.hint evidence) answer

def Exhausted (settings : Settings) (round : Round) : Prop :=
  round.answers.length = settings.maxRetries + 1 ∧ ∀ answer ∈ round.answers, isUsable answer = false

def Brings (book : EvidenceBook) (parts : List Part) (round : Round) (ps : List Proposal) : Prop :=
  ∃ answer, round.answers.find? isUsable = some answer ∧
    Proposal.ofAnswer book parts answer = .ok (some ps)

/-- A cluster is submitted at least once, again only after an unusable answer, and no more than once after
all the retries; it is given up only then. -/
structure Disciplined (settings : Settings) (round : Round) : Prop where
  submitted : round.answers ≠ []
  bounded : round.answers.length ≤ settings.maxRetries + 1
  unusable : ∀ answer ∈ round.answers.dropLast, isUsable answer = false
  ended : (∃ answer ∈ round.answers, isUsable answer) ∨ round.Exhausted settings

end Round

def eventsOf (settings : Settings) (book : EvidenceBook) (glossary : Glossary) :
    List Round → List Checkpoint → List Event
  | [], _ => []
  | round :: rounds, saved => round.asked settings book glossary ++ saved.head?.toList.map .saved
      ++ eventsOf settings book glossary rounds saved.tail

variable {service : Service σ} {settings : Settings} {book : EvidenceBook} {parts : List Part}
  {glossary : Glossary} {now : String} {c : Checkpoint} {s s' : σ} {answer : Option String}
  {answers : List (Option String)} {out : Option (List Proposal)} {n done : Nat} {r : Run}
  {rounds : List Round} {saved : List Checkpoint} {numbers : List (List String)}

theorem isUsable_iff : isUsable answer ↔ ∃ vs, answer.bind Order.payload? = some (.arr vs) := by
  rw [isUsable]
  generalize answer.bind Order.payload? = payload
  cases payload with
  | none => simp
  | some v => cases v <;> simp

theorem ofAnswer_of_payload? {vs : List Json} (h : answer.bind Order.payload? = some (.arr vs)) :
    Proposal.ofAnswer book parts answer = some <$> Proposal.ofItems book parts vs := by
  rw [Proposal.ofAnswer, h]

theorem ofAnswer_of_unusable (h : isUsable answer = false) :
    Proposal.ofAnswer book parts answer = .ok none := by
  rw [isUsable] at h
  rw [Proposal.ofAnswer]
  generalize answer.bind Order.payload? = payload at h ⊢
  cases payload with
  | none => rfl
  | some v =>
    cases v with
    | arr vs => cases h
    | _ => rfl

theorem ofAnswer_eq_none (h : Proposal.ofAnswer book parts answer = .ok none) :
    isUsable answer = false := by
  rw [Bool.eq_false_iff]
  intro husable
  obtain ⟨vs, hvs⟩ := isUsable_iff.1 husable
  rw [ofAnswer_of_payload? hvs] at h
  cases hitems : Proposal.ofItems book parts vs with
  | ok ps =>
    rw [hitems] at h
    cases h
  | error e =>
    rw [hitems] at h
    cases h

theorem isUsable_of_ofAnswer {ps : List Proposal}
    (h : Proposal.ofAnswer book parts answer = .ok (some ps)) : isUsable answer := by
  cases husable : isUsable answer with
  | true => rfl
  | false =>
    rw [ofAnswer_of_unusable husable] at h
    cases h

inductive Answered (book : EvidenceBook) (parts : List Part) :
    Nat → List (Option String) → Option (List Proposal) → Prop
  | exhausted : Answered book parts 0 [] none
  | usable {n : Nat} {answer : Option String} {ps : List Proposal} :
      Proposal.ofAnswer book parts answer = .ok (some ps) → Answered book parts (n + 1) [answer] (some ps)
  | again {n : Nat} {answer : Option String} {answers : List (Option String)}
      {out : Option (List Proposal)} : isUsable answer = false → Answered book parts n answers out →
      Answered book parts (n + 1) (answer :: answers) out

namespace Answered

theorem length_le (h : Answered book parts n answers out) : answers.length ≤ n := by
  induction h with
  | exhausted => exact Nat.le_refl 0
  | usable _ => simp
  | again _ _ ih => exact Nat.succ_le_succ ih

theorem unusable (h : Answered book parts n answers out) :
    ∀ answer ∈ answers.dropLast, isUsable answer = false := by
  induction h with
  | exhausted => simp
  | usable _ => simp
  | @again n answer answers _ hno hrest ih =>
    intro other hother
    cases answers with
    | nil => simp at hother
    | cons next later =>
      rw [List.dropLast_cons_of_ne_nil (List.cons_ne_nil _ _), List.mem_cons] at hother
      rcases hother with rfl | hother
      · exact hno
      · exact ih other hother

theorem of_none (h : Answered book parts n answers none) :
    answers.length = n ∧ ∀ answer ∈ answers, isUsable answer = false := by
  generalize hout : (none : Option (List Proposal)) = out at h
  induction h with
  | exhausted => simp
  | usable _ => cases hout
  | again hno _ ih =>
    obtain ⟨hlength, hall⟩ := ih hout
    exact ⟨congrArg (· + 1) hlength, List.forall_mem_cons.2 ⟨hno, hall⟩⟩

theorem of_some {ps : List Proposal} (h : Answered book parts n answers (some ps)) :
    ∃ answer, answers.find? isUsable = some answer ∧
      Proposal.ofAnswer book parts answer = .ok (some ps) := by
  generalize hout : some ps = out at h
  induction h with
  | exhausted => cases hout
  | @usable n answer ps' hps =>
    cases hout
    exact ⟨answer, by rw [List.find?_cons, isUsable_of_ofAnswer hps], hps⟩
  | again hno _ ih =>
    obtain ⟨found, hfind, hps⟩ := ih hout
    exact ⟨found, by rw [List.find?_cons, hno]; exact hfind, hps⟩

end Answered

theorem recorded_ask {evidence : List Evidence} {hint : String} (events : List Event)
    (h : service.ask evidence hint s = .ok answer s') :
    service.recorded.ask evidence hint (s, events) =
      .ok answer (s', events ++ [.asked evidence hint answer]) := by
  simp only [Service.recorded, h]

theorem recorded_save (events : List Event) (h : service.save c s = .ok () s') :
    service.recorded.save c (s, events) = .ok () (s', events ++ [.saved c]) := by
  simp only [Service.recorded, h]

theorem liftResult_eq_ok_iff {α : Type} {x : Except Error α} {a : α} :
    (liftResult x : EStateM Error σ α) s = .ok a s' ↔ x = .ok a ∧ s = s' := by
  cases x with
  | ok b =>
    change EStateM.Result.ok b s = .ok a s' ↔ _
    simp
  | error e =>
    change EStateM.Result.error e s = .ok a s' ↔ _
    simp

theorem attempt_succ_iff {evidence : List Evidence} {hint : String} :
    attempt service book parts evidence hint (n + 1) s = .ok out s' ↔
      ∃ answer t, service.ask evidence hint s = .ok answer t ∧
        ((∃ ps, Proposal.ofAnswer book parts answer = .ok (some ps) ∧ out = some ps ∧ t = s') ∨
          Proposal.ofAnswer book parts answer = .ok none ∧
            attempt service book parts evidence hint n t = .ok out s') := by
  simp only [attempt, bind_eq_ok_iff, liftResult_eq_ok_iff]
  constructor
  · rintro ⟨answer, t, hask, result, _, ⟨hresult, rfl⟩, h⟩
    cases result with
    | some ps =>
      obtain ⟨rfl, rfl⟩ := pure_eq_ok_iff.1 h
      exact ⟨answer, t, hask, .inl ⟨ps, hresult, rfl, rfl⟩⟩
    | none => exact ⟨answer, t, hask, .inr ⟨hresult, h⟩⟩
  · rintro ⟨answer, t, hask, ⟨ps, hresult, rfl, rfl⟩ | ⟨hresult, h⟩⟩
    · exact ⟨answer, t, hask, some ps, t, ⟨hresult, rfl⟩, rfl⟩
    · exact ⟨answer, t, hask, none, t, ⟨hresult, rfl⟩, h⟩

theorem attempt_recorded {evidence : List Evidence} {hint : String} (events : List Event)
    (h : attempt service book parts evidence hint n s = .ok out s') :
    ∃ answers, Answered book parts n answers out ∧
      attempt service.recorded book parts evidence hint n (s, events) =
        .ok out (s', events ++ answers.map (.asked evidence hint)) ∧
      ∀ answer ∈ answers, service.Gives evidence hint answer := by
  induction n generalizing s events with
  | zero =>
    obtain ⟨rfl, rfl⟩ := pure_eq_ok_iff.1 h
    exact ⟨[], .exhausted, by rw [List.map_nil, List.append_nil]; rfl, fun _ h => absurd h List.not_mem_nil⟩
  | succ n ih =>
    obtain ⟨answer, t, hask, ⟨ps, hps, rfl, rfl⟩ | ⟨hnone, h⟩⟩ := attempt_succ_iff.1 h
    · exact ⟨[answer], .usable hps,
        attempt_succ_iff.2 ⟨answer, _, recorded_ask events hask, .inl ⟨ps, hps, rfl, rfl⟩⟩,
        List.forall_mem_singleton.2 ⟨s, t, hask⟩⟩
    · obtain ⟨answers, hanswers, hrun, hgiven⟩ := ih (events ++ [.asked evidence hint answer]) h
      refine ⟨answer :: answers, .again (ofAnswer_eq_none hnone) hanswers, ?_,
        List.forall_mem_cons.2 ⟨⟨s, t, hask⟩, hgiven⟩⟩
      rw [attempt_succ_iff, List.map_cons, ← List.singleton_append, ← List.append_assoc]
      exact ⟨answer, _, recorded_ask events hask, .inr ⟨hnone, hrun⟩⟩

/-- A run over clusters from a checkpoint on: its rounds, the checkpoints it stores and its outcome. -/
inductive Ran (settings : Settings) (book : EvidenceBook) (parts : List Part) (now : String) :
    Nat → Checkpoint → List (List String) → List Round → List Checkpoint → Run → Prop
  | finished {done : Nat} {c : Checkpoint} :
      Ran settings book parts now done c [] [] [] { checkpoint := c, clustersDone := done }
  | stopped {done : Nat} {c : Checkpoint} {cluster : List String} {rest : List (List String)}
      {answers : List (Option String)} :
      Answered book parts (settings.maxRetries + 1).toNat answers none →
      Ran settings book parts now done c (cluster :: rest) [⟨cluster, answers⟩] []
        { checkpoint := c, completed := false, clustersDone := done, failed := cluster }
  | answered {done : Nat} {c : Checkpoint} {cluster : List String} {rest : List (List String)}
      {answers : List (Option String)} {ps : List Proposal} {rounds : List Round}
      {saved : List Checkpoint} {r : Run} :
      Answered book parts (settings.maxRetries + 1).toNat answers (some ps) →
      Ran settings book parts now (done + 1) (c.extend now ps) rest rounds saved r →
      Ran settings book parts now done c (cluster :: rest) (⟨cluster, answers⟩ :: rounds)
        (c.extend now ps :: saved) r

theorem runClusters_cons_iff {cluster : List String} {rest : List (List String)} :
    runClusters service settings book parts glossary now done c (cluster :: rest) s = .ok r s' ↔
      ∃ out t, attempt service book parts (batch settings book cluster)
          (glossary.hint (batch settings book cluster)) (settings.maxRetries + 1).toNat s = .ok out t ∧
        (out = none ∧ t = s' ∧
            r = { checkpoint := c, completed := false, clustersDone := done, failed := cluster } ∨
          ∃ ps t', out = some ps ∧ service.save (c.extend now ps) t = .ok () t' ∧
            runClusters service settings book parts glossary now (done + 1) (c.extend now ps) rest t' =
              .ok r s') := by
  simp only [runClusters, bind_eq_ok_iff]
  constructor
  · rintro ⟨out, t, hattempt, h⟩
    refine ⟨out, t, hattempt, ?_⟩
    cases out with
    | none =>
      obtain ⟨rfl, rfl⟩ := pure_eq_ok_iff.1 h
      exact .inl ⟨rfl, rfl, rfl⟩
    | some ps =>
      obtain ⟨_, t', hsave, h⟩ := bind_eq_ok_iff.1 h
      exact .inr ⟨ps, t', rfl, hsave, h⟩
  · rintro ⟨out, t, hattempt, ⟨rfl, rfl, rfl⟩ | ⟨ps, t', rfl, hsave, h⟩⟩
    · exact ⟨none, t, hattempt, rfl⟩
    · exact ⟨some ps, t, hattempt, bind_eq_ok_iff.2 ⟨(), t', hsave, h⟩⟩

theorem runClusters_recorded (events : List Event)
    (h : runClusters service settings book parts glossary now done c numbers s = .ok r s') :
    ∃ rounds saved, Ran settings book parts now done c numbers rounds saved r ∧
      runClusters service.recorded settings book parts glossary now done c numbers (s, events) =
        .ok r (s', events ++ eventsOf settings book glossary rounds saved) ∧
      ∀ round ∈ rounds, round.GivenBy service settings book glossary := by
  induction numbers generalizing s events done c with
  | nil =>
    obtain ⟨rfl, rfl⟩ := pure_eq_ok_iff.1 h
    exact ⟨[], [], .finished, by rw [eventsOf, List.append_nil]; rfl, fun _ h => absurd h List.not_mem_nil⟩
  | cons cluster rest ih =>
    obtain ⟨out, t, hattempt, hcases⟩ := runClusters_cons_iff.1 h
    obtain ⟨answers, hanswers, hrecorded, hgiven⟩ := attempt_recorded events hattempt
    rcases hcases with ⟨rfl, rfl, rfl⟩ | ⟨ps, t', rfl, hsave, h⟩
    · refine ⟨_, _, .stopped hanswers, runClusters_cons_iff.2 ⟨none, _, hrecorded, .inl ⟨rfl, ?_, rfl⟩⟩,
        List.forall_mem_singleton.2 hgiven⟩
      simp [eventsOf, Round.asked]
    · obtain ⟨rounds, saved, hran, hrest, hgivens⟩ := ih _ h
      refine ⟨_, _, .answered hanswers hran,
        runClusters_cons_iff.2 ⟨some ps, _, hrecorded, .inr ⟨ps, _, rfl, recorded_save _ hsave, ?_⟩⟩,
        List.forall_mem_cons.2 ⟨hgiven, hgivens⟩⟩
      rw [hrest]
      simp [eventsOf, Round.asked]

namespace Round

theorem exhausted_of_answered {cluster : List String} (hretries : 0 ≤ settings.maxRetries)
    (h : Answered book parts (settings.maxRetries + 1).toNat answers none) :
    Exhausted settings ⟨cluster, answers⟩ := by
  obtain ⟨hlength, hall⟩ := h.of_none
  refine ⟨?_, hall⟩
  rw [hlength]
  omega

theorem brings_of_answered {cluster : List String} {ps : List Proposal}
    (h : Answered book parts n answers (some ps)) : Brings book parts ⟨cluster, answers⟩ ps :=
  h.of_some

theorem not_exhausted_of_brings {round : Round} {ps : List Proposal} (h : round.Brings book parts ps) :
    ¬ round.Exhausted settings := by
  rintro ⟨-, hall⟩
  obtain ⟨answer, hfind, hps⟩ := h
  have hno := hall answer (List.mem_of_find?_eq_some hfind)
  rw [isUsable_of_ofAnswer hps] at hno
  cases hno

theorem disciplined_of_answered {cluster : List String} (hretries : 0 ≤ settings.maxRetries)
    (h : Answered book parts (settings.maxRetries + 1).toNat answers out) :
    Disciplined settings ⟨cluster, answers⟩ where
  submitted := by
    cases out with
    | none =>
      intro hnil
      have hlength := h.of_none.1
      rw [show answers = [] from hnil, List.length_nil] at hlength
      omega
    | some ps =>
      obtain ⟨answer, hfind, -⟩ := h.of_some
      exact List.ne_nil_of_mem (List.mem_of_find?_eq_some hfind)
  bounded := by
    have hle := h.length_le
    change (answers.length : Int) ≤ _
    omega
  unusable := h.unusable
  ended := by
    cases out with
    | none => exact .inr (exhausted_of_answered hretries h)
    | some ps =>
      obtain ⟨answer, hfind, hps⟩ := h.of_some
      exact .inl ⟨answer, List.mem_of_find?_eq_some hfind, isUsable_of_ofAnswer hps⟩

end Round

namespace Ran

theorem exists_rest (h : Ran settings book parts now done c numbers rounds saved r) :
    ∃ rest, rounds.map Round.cluster ++ rest = numbers ∧ (r.completed → rest = []) := by
  induction h with
  | finished => exact ⟨[], rfl, fun _ => rfl⟩
  | @stopped _ _ cluster rest _ _ => exact ⟨rest, rfl, fun h => absurd h Bool.false_ne_true⟩
  | answered _ _ ih =>
    obtain ⟨rest, heq, hrest⟩ := ih
    exact ⟨rest, by rw [List.map_cons, List.cons_append, heq], hrest⟩

theorem cluster_mem (h : Ran settings book parts now done c numbers rounds saved r) :
    ∀ round ∈ rounds, round.cluster ∈ numbers := by
  obtain ⟨rest, hrest, -⟩ := h.exists_rest
  intro round hround
  rw [← hrest]
  exact List.mem_append_left rest (List.mem_map_of_mem hround)

theorem disciplined (h : Ran settings book parts now done c numbers rounds saved r)
    (hretries : 0 ≤ settings.maxRetries) : ∀ round ∈ rounds, round.Disciplined settings := by
  induction h with
  | finished => exact fun _ h => absurd h List.not_mem_nil
  | stopped hanswers =>
    exact List.forall_mem_singleton.2 (Round.disciplined_of_answered hretries hanswers)
  | answered hanswers _ ih =>
    exact List.forall_mem_cons.2 ⟨Round.disciplined_of_answered hretries hanswers, ih⟩

theorem exists_gains (h : Ran settings book parts now done c numbers rounds saved r) :
    ∃ gains, r.clustersDone = done + gains.length ∧
      List.Forall₂ (Round.Brings book parts) (rounds.take gains.length) gains ∧
      r.checkpoint.proposals = c.proposals ++ gains.flatten ∧
      saved.length = gains.length ∧
      ∀ i < gains.length, (saved[i]?).map Checkpoint.proposals =
        some (c.proposals ++ (gains.take (i + 1)).flatten) := by
  induction h with
  | finished => exact ⟨[], by simp⟩
  | stopped _ => exact ⟨[], by simp⟩
  | @answered done c cluster rest answers ps rounds saved r hanswers hrest ih =>
    obtain ⟨gains, hdone, hgains, hproposals, hlength, hsaved⟩ := ih
    refine ⟨ps :: gains, ?_, ?_, ?_, ?_, ?_⟩
    · rw [hdone, List.length_cons]
      omega
    · exact .cons (Round.brings_of_answered hanswers) hgains
    · rw [hproposals, Checkpoint.extend, List.flatten_cons, List.append_assoc]
    · rw [List.length_cons, List.length_cons, hlength]
    · intro i hi
      cases i with
      | zero => simp [Checkpoint.extend]
      | succ i =>
        rw [List.getElem?_cons_succ, hsaved i (Nat.lt_of_succ_lt_succ hi), Checkpoint.extend,
          List.take_succ_cons, List.flatten_cons, List.append_assoc]

theorem checkpoint_eq (h : Ran settings book parts now done c numbers rounds saved r) :
    r.checkpoint = saved.getLast?.getD c := by
  induction h with
  | finished => rfl
  | stopped _ => rfl
  | @answered _ _ _ _ _ _ _ saved _ _ _ ih =>
    rw [ih, List.getLast?_cons]
    cases saved.getLast? <;> rfl

theorem completed_eq_false_iff (h : Ran settings book parts now done c numbers rounds saved r)
    (hretries : 0 ≤ settings.maxRetries) :
    r.completed = false ↔ ∃ round ∈ rounds, round.Exhausted settings := by
  induction h with
  | finished => simp
  | stopped hanswers =>
    exact iff_of_true rfl ⟨_, List.mem_singleton_self _, Round.exhausted_of_answered hretries hanswers⟩
  | answered hanswers _ ih =>
    rw [ih, List.exists_mem_cons_iff]
    exact (or_iff_right (Round.not_exhausted_of_brings (Round.brings_of_answered hanswers))).symm

theorem failed_of_exhausted (h : Ran settings book parts now done c numbers rounds saved r) :
    ∀ round ∈ rounds, round.Exhausted settings →
      rounds.getLast? = some round ∧ r.failed = round.cluster := by
  induction h with
  | finished => exact fun _ h => absurd h List.not_mem_nil
  | stopped _ => exact List.forall_mem_singleton.2 fun _ => ⟨rfl, rfl⟩
  | answered hanswers _ ih =>
    refine List.forall_mem_cons.2 ⟨fun hno => ?_, fun round hround hexhausted => ?_⟩
    · exact absurd hno (Round.not_exhausted_of_brings (Round.brings_of_answered hanswers))
    · obtain ⟨hlast, hfailed⟩ := ih round hround hexhausted
      exact ⟨by rw [List.getLast?_cons, hlast]; rfl, hfailed⟩

theorem failed_of_completed (h : Ran settings book parts now done c numbers rounds saved r)
    (hcompleted : r.completed) : r.failed = [] ∧ r.clustersDone = done + rounds.length := by
  induction h with
  | finished => exact ⟨rfl, rfl⟩
  | stopped _ => cases hcompleted
  | answered _ _ ih =>
    obtain ⟨hfailed, hdone⟩ := ih hcompleted
    refine ⟨hfailed, ?_⟩
    rw [hdone, List.length_cons]
    omega

end Ran

/-- What a run did, for a service of any kind. It goes round by round through the first clusters of the
pending part numbers. The checkpoint grows by the first usable answer of each round and is stored each time;
the run fails exactly when a round is given up, which is then the last one. -/
theorem run_rounds (service : Service σ) (settings : Settings) (book : EvidenceBook) (parts : List Part)
    (glossary : Glossary) (now : String) (c : Checkpoint) (s s' : σ) (r : Run)
    (hretries : 0 ≤ settings.maxRetries)
    (h : run service settings book parts glossary now c s = .ok r s') :
    ∃ rounds rest saved gains,
      run service.recorded settings book parts glossary now c (s, []) =
        .ok r (s', eventsOf settings book glossary rounds saved) ∧
      Chunks (max settings.clusterSize 1).toNat (pending book c) (rounds.map Round.cluster ++ rest) ∧
      (∀ round ∈ rounds, round.Disciplined settings) ∧
      (gains.length = r.clustersDone ∧
        List.Forall₂ (Round.Brings book parts) (rounds.take r.clustersDone) gains ∧
        r.checkpoint.proposals = c.proposals ++ gains.flatten) ∧
      (saved.length = r.clustersDone ∧
        (∀ i < r.clustersDone, (saved[i]?).map Checkpoint.proposals =
          some (c.proposals ++ (gains.take (i + 1)).flatten)) ∧
        r.checkpoint = saved.getLast?.getD c) ∧
      (r.completed = false ↔ ∃ round ∈ rounds, round.Exhausted settings) ∧
      (∀ round ∈ rounds, round.Exhausted settings →
        rounds.getLast? = some round ∧ r.failed = round.cluster) ∧
      (r.completed → rest = [] ∧ rounds.length = r.clustersDone ∧ r.failed = []) := by
  obtain ⟨rounds, saved, hran, hrecorded, -⟩ := runClusters_recorded [] h
  obtain ⟨rest, hrest, hcomplete⟩ := hran.exists_rest
  obtain ⟨gains, hdone, hgains, hproposals, hlength, hsaved⟩ := hran.exists_gains
  rw [Nat.zero_add] at hdone
  refine ⟨rounds, rest, saved, gains, hrecorded, ?_, hran.disciplined hretries,
    ⟨hdone.symm, hdone ▸ hgains, hproposals⟩, ⟨hlength.trans hdone.symm, ?_, hran.checkpoint_eq⟩,
    hran.completed_eq_false_iff hretries, hran.failed_of_exhausted, ?_⟩
  · rw [hrest]
    exact chunks_clusters settings (pending book c)
  · rw [hdone]
    exact hsaved
  · intro hcompleted
    obtain ⟨hfailed, hcount⟩ := hran.failed_of_completed hcompleted
    exact ⟨hcomplete hcompleted, by omega, hfailed⟩

def scripted : Service (List (Option String)) where
  ask _ _ := fun answers => .ok answers.head?.join answers.tail
  save _ := pure ()

def threeNumbers : EvidenceBook :=
  EvidenceBook.ofList [{ partNumber := "A1" }, { partNumber := "B2" }, { partNumber := "C3" }]

def pairs : Settings := { clusterSize := 2, maxRetries := 1 }

def someAnswers : List (Option String) :=
  [some "Sorry", some "[\x7b\"partNumber\": \"A1\"\x7d]", none, some "\x7b\x7d", some "[]"]

theorem run_rounds_someAnswers :
    0 ≤ pairs.maxRetries ∧
      ∃ r s', run scripted pairs threeNumbers [] [] "noon" {} someAnswers = .ok r s' ∧
        r.clustersDone = 1 ∧
        ∃ (rounds : List Round) (rest : List (List String)),
          Chunks 2 ["A1", "B2", "C3"] (rounds.map Round.cluster ++ rest) ∧
          ∃ round ∈ rounds, round.Exhausted pairs ∧ round.cluster = ["C3"] := by
  have hretries : 0 ≤ pairs.maxRetries := by decide
  have hrun : (match run scripted pairs threeNumbers [] [] "noon" {} someAnswers with
      | .ok r _ => decide (r.clustersDone = 1 ∧ r.completed = false ∧ r.failed = ["C3"])
      | .error _ _ => false) = true := by decide +kernel
  cases h : run scripted pairs threeNumbers [] [] "noon" {} someAnswers with
  | error e s' => simp [h] at hrun
  | ok r s' =>
    rw [h] at hrun
    obtain ⟨hdone, hcompleted, hfailed⟩ := of_decide_eq_true hrun
    obtain ⟨rounds, rest, -, -, -, hchunks, -, -, -, hexhausted, hlast, -⟩ :=
      run_rounds scripted pairs threeNumbers [] [] "noon" {} someAnswers s' r hretries h
    obtain ⟨round, hround, hno⟩ := hexhausted.1 hcompleted
    exact ⟨hretries, r, s', rfl, hdone, rounds, rest, hchunks, round, hround, hno,
      (hlast round hround hno).2.symm.trans hfailed⟩

end Kitting.Synthesis
