import Kitting.Proofs.Synthesis.Pending
import Kitting.Proofs.Synthesis.Rounds

/-!
What one run makes of a checkpoint, for a service that answers a batch always with the same array or not
usably at all: `progress_of_run`.

The invariant is what a checkpoint amounts to: its proposals, and those that the clusters still pending will
bring. A run that is interrupted keeps it, and the pending clusters are cut as they would have been.
-/

namespace Kitting.Synthesis

variable {σ τ : Type}

namespace Event

def numbers : Event → List String
  | asked batch _ _ => batch.map (·.partNumber)
  | saved _ => []

def succeeded : Event → Bool
  | asked _ _ answer => isUsable answer
  | saved _ => false

/-- What succeeded the first time is not submitted a second time. -/
def Fresh (e e' : Event) : Prop := e.succeeded → ∀ number ∈ e.numbers, number ∉ e'.numbers

end Event

/-- Every batch is answered, if at all usably then by the array that the service always has for this batch
and hint; and every checkpoint is stored. -/
structure Service.Consistent (service : Service σ) (reply : List Evidence → String → List Json) : Prop where
  answers : ∀ evidence hint s, ∃ answer s', service.ask evidence hint s = .ok answer s' ∧
    (isUsable answer = false ∨ answer.bind Order.payload? = some (.arr (reply evidence hint)))
  stores : ∀ c s, ∃ s', service.save c s = .ok () s'

def Service.Reliable (service : Service σ) : Prop :=
  ∀ evidence hint answer, service.Gives evidence hint answer → isUsable answer

def Covering (settings : Settings) (book : EvidenceBook) (glossary : Glossary)
    (reply : List Evidence → String → List Json) : Prop :=
  ∀ cluster : List String, cluster.Sublist (Assoc.keys book) →
    Proposal.Covers book
      (reply (batch settings book cluster) (glossary.hint (batch settings book cluster))) cluster

def gain (settings : Settings) (book : EvidenceBook) (parts : List Part) (glossary : Glossary)
    (reply : List Evidence → String → List Json) (cluster : List String) : List Proposal :=
  let evidence := batch settings book cluster
  match Proposal.ofItems book parts (reply evidence (glossary.hint evidence)) with
  | .ok ps => ps
  | .error _ => []

variable {service : Service σ} {settings : Settings} {book : EvidenceBook} {parts : List Part}
  {glossary : Glossary} {reply : List Evidence → String → List Json} {now : String} {c : Checkpoint}
  {s : σ} {cluster : List String} {answer : Option String} {answers : List (Option String)} {n done : Nat}
  {numbers : List (List String)} {rounds : List Round} {saved : List Checkpoint} {r : Run}
  {ps : List Proposal}

structure Gained (settings : Settings) (book : EvidenceBook) (parts : List Part) (glossary : Glossary)
    (reply : List Evidence → String → List Json) (cluster : List String) : Prop where
  ofItems_eq : Proposal.ofItems book parts
      (reply (batch settings book cluster) (glossary.hint (batch settings book cluster))) =
    .ok (gain settings book parts glossary reply cluster)
  settles : Settles book (gain settings book parts glossary reply) cluster
  inBounds : ∀ p ∈ gain settings book parts glossary reply cluster, Proposal.InBounds p.confidence

section Gain

variable (parts) (hbook : book.Proper) (hreply : Covering settings book glossary reply)
  (hcluster : cluster.Sublist (Assoc.keys book))
include hbook hreply hcluster

theorem gained : Gained settings book parts glossary reply cluster := by
  have hcovers := hreply cluster hcluster
  obtain ⟨ps, hps, hnumbers, hbounds⟩ := Proposal.exists_ofItems book parts hcovers.acceptable
  have hgain : gain settings book parts glossary reply cluster = ps := by simp only [gain, hps]
  refine ⟨by rw [hgain, hps], fun number hnumber => ?_, hgain ▸ hbounds⟩
  rw [hgain, hnumbers]
  exact hcovers.mem_subjects_iff hbook (fun n hn => hcluster.mem hn) hnumber

theorem ofAnswer_eq_gain (h : answer.bind Order.payload? = some (.arr
      (reply (batch settings book cluster) (glossary.hint (batch settings book cluster))))) :
    Proposal.ofAnswer book parts answer =
      .ok (some (gain settings book parts glossary reply cluster)) := by
  rw [ofAnswer_of_payload? h]
  simp only [(gained parts hbook hreply hcluster).ofItems_eq]
  rfl

variable (hservice : service.Consistent reply)
include hservice

theorem eq_gain_of_answered (h : Answered book parts n answers (some ps))
    (hgiven : Round.GivenBy service settings book glossary ⟨cluster, answers⟩) :
    ps = gain settings book parts glossary reply cluster := by
  obtain ⟨answer, hfind, hps⟩ := h.of_some
  obtain ⟨s, s', hask⟩ := hgiven answer (List.mem_of_find?_eq_some hfind)
  obtain ⟨answer', t, hask', hanswer⟩ := hservice.answers _ _ s
  obtain ⟨rfl, rfl⟩ := EStateM.Result.ok.inj (hask'.symm.trans hask)
  rcases hanswer with hno | hpayload
  · exact absurd (List.find?_some hfind) (by rw [hno]; exact Bool.false_ne_true)
  · cases hps.symm.trans (ofAnswer_eq_gain parts hbook hreply hcluster hpayload)
    rfl

theorem exists_attempt (n : Nat) (s : σ) :
    ∃ out s', attempt service book parts (batch settings book cluster)
      (glossary.hint (batch settings book cluster)) n s = .ok out s' := by
  induction n generalizing s with
  | zero => exact ⟨none, s, rfl⟩
  | succ n ih =>
    obtain ⟨answer, t, hask, hno | hpayload⟩ := hservice.answers (batch settings book cluster)
      (glossary.hint (batch settings book cluster)) s
    · obtain ⟨out, s', hrest⟩ := ih t
      exact ⟨out, s', attempt_succ_iff.2 ⟨answer, t, hask, .inr ⟨ofAnswer_of_unusable hno, hrest⟩⟩⟩
    · have hps := ofAnswer_eq_gain parts hbook hreply hcluster hpayload
      exact ⟨_, t, attempt_succ_iff.2 ⟨answer, t, hask, .inl ⟨_, hps, rfl, rfl⟩⟩⟩

end Gain

section Runs

variable (parts) (hbook : book.Proper) (hreply : Covering settings book glossary reply)
  (hservice : service.Consistent reply)
include hbook hreply hservice

theorem exists_runClusters (hnumbers : ∀ cluster ∈ numbers, cluster.Sublist (Assoc.keys book)) (done : Nat)
    (c : Checkpoint) (s : σ) :
    ∃ r s', runClusters service settings book parts glossary now done c numbers s = .ok r s' := by
  induction numbers generalizing done c s with
  | nil => exact ⟨_, s, rfl⟩
  | cons cluster rest ih =>
    obtain ⟨hcluster, hrest⟩ := List.forall_mem_cons.1 hnumbers
    obtain ⟨out, t, hattempt⟩ := exists_attempt parts hbook hreply hcluster hservice
      (settings.maxRetries + 1).toNat s
    cases out with
    | none => exact ⟨_, t, runClusters_cons_iff.2 ⟨none, t, hattempt, .inl ⟨rfl, rfl, rfl⟩⟩⟩
    | some ps =>
      obtain ⟨t', hsave⟩ := hservice.stores (c.extend now ps) t
      obtain ⟨r, s', hrun⟩ := ih hrest (done + 1) (c.extend now ps) t'
      exact ⟨r, s', runClusters_cons_iff.2 ⟨some ps, t, hattempt, .inr ⟨ps, t', rfl, hsave, hrun⟩⟩⟩

theorem Ran.exists_take (h : Ran settings book parts now done c numbers rounds saved r)
    (hnumbers : ∀ cluster ∈ numbers, cluster.Sublist (Assoc.keys book))
    (hgiven : ∀ round ∈ rounds, round.GivenBy service settings book glossary) :
    ∃ k, r.checkpoint.proposals =
        c.proposals ++ (numbers.take k).flatMap (gain settings book parts glossary reply) ∧
      (r.completed → numbers.drop k = []) ∧
      ∀ round ∈ rounds, (∃ answer ∈ round.answers, isUsable answer) → round.cluster ∈ numbers.take k := by
  induction h with
  | finished => exact ⟨0, by simp, fun _ => rfl, fun _ h => absurd h List.not_mem_nil⟩
  | stopped hanswers =>
    refine ⟨0, by simp, fun hcompleted => (by cases hcompleted), ?_⟩
    refine List.forall_mem_singleton.2 ?_
    rintro ⟨answer, hanswer, husable⟩
    rw [hanswers.of_none.2 answer hanswer] at husable
    cases husable
  | answered hanswers _ ih =>
    obtain ⟨hcluster, hrest⟩ := List.forall_mem_cons.1 hnumbers
    obtain ⟨hround, hgivens⟩ := List.forall_mem_cons.1 hgiven
    obtain ⟨k, hproposals, hcompleted, hrounds⟩ := ih hrest hgivens
    have hps := eq_gain_of_answered parts hbook hreply hcluster hservice hanswers hround
    refine ⟨k + 1, ?_, hcompleted, List.forall_mem_cons.2 ⟨fun _ => List.mem_cons_self, ?_⟩⟩
    · rw [hproposals, Checkpoint.extend, hps, List.take_succ_cons, List.flatMap_cons, List.append_assoc]
    · intro round hmem hany
      exact List.mem_cons_of_mem _ (hrounds round hmem hany)

end Runs

section Log

variable {e : Event} {number : String} {round : Round}

theorem pairwise_of_dropLast {α : Type} {R : α → α → Prop} {l : List α}
    (h : ∀ a ∈ l.dropLast, ∀ b, R a b) : l.Pairwise R := by
  induction l with
  | nil => exact .nil
  | cons a l ih =>
    cases l with
    | nil => exact List.pairwise_singleton R a
    | cons b l =>
      rw [List.dropLast_cons_of_ne_nil (List.cons_ne_nil b l), List.forall_mem_cons] at h
      exact .cons (fun b _ => h.1 b) (ih h.2)

theorem Round.pairwise_asked (h : ∀ answer ∈ round.answers.dropLast, isUsable answer = false) :
    (round.asked settings book glossary).Pairwise Event.Fresh := by
  refine pairwise_of_dropLast fun e he e' hsucceeded => ?_
  rw [Round.asked, ← List.map_dropLast] at he
  obtain ⟨answer, hanswer, rfl⟩ := List.mem_map.1 he
  rw [Event.succeeded, h answer hanswer] at hsucceeded
  cases hsucceeded

theorem Round.mem_cluster_of_asked (hbook : book.Proper) (hround : round.cluster.Sublist (Assoc.keys book))
    (he : e ∈ round.asked settings book glossary) (hnumber : number ∈ e.numbers) :
    number ∈ round.cluster ∧ (e.succeeded → ∃ answer ∈ round.answers, isUsable answer) := by
  obtain ⟨answer, hanswer, rfl⟩ := List.mem_map.1 he
  rw [Event.numbers, partNumber_batch hbook fun n hn => hround.mem hn] at hnumber
  exact ⟨hnumber, fun h => ⟨answer, hanswer, h⟩⟩

theorem exists_round_of_mem_numbers (hbook : book.Proper)
    (hrounds : ∀ round ∈ rounds, round.cluster.Sublist (Assoc.keys book))
    (he : e ∈ eventsOf settings book glossary rounds saved) (hnumber : number ∈ e.numbers) :
    ∃ round ∈ rounds, number ∈ round.cluster ∧
      (e.succeeded → ∃ answer ∈ round.answers, isUsable answer) := by
  induction rounds generalizing saved with
  | nil => cases he
  | cons round rounds ih =>
    obtain ⟨hround, hrest⟩ := List.forall_mem_cons.1 hrounds
    rw [eventsOf, List.mem_append, List.mem_append] at he
    rcases he with (he | he) | he
    · exact ⟨round, List.mem_cons_self, Round.mem_cluster_of_asked hbook hround he hnumber⟩
    · obtain ⟨c, -, rfl⟩ := List.mem_map.1 he
      cases hnumber
    · obtain ⟨other, hother, h⟩ := ih hrest he
      exact ⟨other, List.mem_cons_of_mem round hother, h⟩

theorem Ran.mem_of_asked (h : Ran settings book parts now done c numbers rounds saved r) (hbook : book.Proper)
    (hnumbers : ∀ cluster ∈ numbers, cluster.Sublist (Assoc.keys book)) :
    ∀ e ∈ eventsOf settings book glossary rounds saved, ∀ number ∈ e.numbers, number ∈ numbers.flatten := by
  intro e he number hnumber
  have hrounds := h.cluster_mem
  obtain ⟨round, hround, hmem, -⟩ :=
    exists_round_of_mem_numbers hbook (fun round h => hnumbers _ (hrounds round h)) he hnumber
  exact List.mem_flatten.2 ⟨_, hrounds round hround, hmem⟩

theorem Ran.pairwise_events (h : Ran settings book parts now done c numbers rounds saved r)
    (hbook : book.Proper) (hnumbers : ∀ cluster ∈ numbers, cluster.Sublist (Assoc.keys book))
    (hnodup : numbers.flatten.Nodup) :
    (eventsOf settings book glossary rounds saved).Pairwise Event.Fresh := by
  induction h with
  | finished => exact .nil
  | stopped hanswers =>
    rw [eventsOf, eventsOf, List.append_nil]
    exact List.pairwise_append.2
      ⟨Round.pairwise_asked hanswers.unusable, .nil, fun _ _ _ h => absurd h List.not_mem_nil⟩
  | @answered done c cluster rest answers ps rounds saved r hanswers hran ih =>
    obtain ⟨hcluster, hrest⟩ := List.forall_mem_cons.1 hnumbers
    rw [List.flatten_cons, List.nodup_append] at hnodup
    obtain ⟨-, hnodup, hdisjoint⟩ := hnodup
    rw [eventsOf]
    refine List.pairwise_append.2 ⟨List.pairwise_append.2
      ⟨Round.pairwise_asked hanswers.unusable, List.pairwise_singleton _ _, ?_⟩, ih hrest hnodup, ?_⟩
    · intro e _ e' he' _ number _ hnumber
      obtain ⟨c, -, rfl⟩ := List.mem_map.1 he'
      cases hnumber
    · intro e he e' he' hsucceeded number hnumber hnumber'
      rcases List.mem_append.1 he with he | he
      · have hmem := (Round.mem_cluster_of_asked hbook hcluster he hnumber).1
        exact hdisjoint number hmem number (hran.mem_of_asked hbook hrest e' he' number hnumber') rfl
      · obtain ⟨c, -, rfl⟩ := List.mem_map.1 he
        cases hnumber

end Log

/-- What a checkpoint amounts to: its proposals, and those that the clusters still pending will bring. -/
def total (settings : Settings) (book : EvidenceBook) (parts : List Part) (glossary : Glossary)
    (reply : List Evidence → String → List Json) (c : Checkpoint) : List Proposal :=
  c.proposals ++ (clusters settings (pending book c)).flatMap (gain settings book parts glossary reply)

structure Progress (settings : Settings) (book : EvidenceBook) (parts : List Part) (glossary : Glossary)
    (reply : List Evidence → String → List Json) (c : Checkpoint) (r : Run) (log : List Event) : Prop where
  total_eq : total settings book parts glossary reply r.checkpoint =
    total settings book parts glossary reply c
  finished : r.completed → pending book r.checkpoint = []
  grows : ∃ more, r.checkpoint.proposals = c.proposals ++ more ∧ ∀ p ∈ more, Proposal.InBounds p.confidence
  idle : settings.maxRetries < 0 → r.checkpoint = c
  asked : ∀ e ∈ log, ∀ number ∈ e.numbers, number ∈ pending book c
  answered : ∀ e ∈ log, e.succeeded → ∀ number ∈ e.numbers, number ∈ r.checkpoint.partNumbers
  fresh : log.Pairwise Event.Fresh

theorem Ran.checkpoint_eq_of_neg (h : Ran settings book parts now done c numbers rounds saved r)
    (hneg : settings.maxRetries < 0) : r.checkpoint = c := by
  have hnone : (settings.maxRetries + 1).toNat = 0 := by omega
  cases h with
  | finished => rfl
  | stopped _ => rfl
  | answered hanswers _ =>
    rw [hnone] at hanswers
    cases hanswers

section Whole

variable (parts) (hbook : book.Proper) (hreply : Covering settings book glossary reply)
  (hservice : service.Consistent reply)
include hbook hreply hservice

theorem exists_run (now : String) (c : Checkpoint) (s : σ) :
    ∃ r s', run service settings book parts glossary now c s = .ok r s' :=
  exists_runClusters parts hbook hreply hservice (fun _ => sublist_keys_of_mem_clusters) 0 c s

theorem progress_of_run {s' : σ} {log : List Event}
    (h : run service.recorded settings book parts glossary now c (s, []) = .ok r (s', log)) :
    Progress settings book parts glossary reply c r log := by
  obtain ⟨r₀, s₀, hrun⟩ := exists_run parts hbook hreply hservice now c s
  obtain ⟨rounds, saved, hran, hrecorded, hgiven⟩ := runClusters_recorded [] hrun
  obtain ⟨rfl, hstate⟩ := EStateM.Result.ok.inj (hrecorded.symm.trans h)
  obtain ⟨rfl, hlog⟩ := Prod.mk.inj hstate
  rw [List.nil_append] at hlog
  subst hlog
  have hsublist : ∀ cluster ∈ clusters settings (pending book c), cluster.Sublist (Assoc.keys book) :=
    fun _ => sublist_keys_of_mem_clusters
  have hsettles : ∀ cluster ∈ clusters settings (pending book c),
      Settles book (gain settings book parts glossary reply) cluster :=
    fun cluster h => (gained parts hbook hreply (hsublist cluster h)).settles
  obtain ⟨k, hproposals, hcompleted, husable⟩ := hran.exists_take parts hbook hreply hservice hsublist hgiven
  refine { total_eq := ?_, finished := ?_, grows := ?_, idle := hran.checkpoint_eq_of_neg, asked := ?_,
           answered := ?_, fresh := hran.pairwise_events hbook hsublist ?_ }
  · rw [total, total, clusters_extended hbook hsettles hproposals, hproposals, List.append_assoc,
      ← List.flatMap_append, List.take_append_drop]
  · intro hdone
    rw [pending_extended hbook hsettles hproposals, hcompleted hdone, List.flatten_nil]
  · refine ⟨_, hproposals, fun p hp => ?_⟩
    obtain ⟨cluster, hcluster, hp⟩ := List.mem_flatMap.1 hp
    exact (gained parts hbook hreply (hsublist cluster (List.mem_of_mem_take hcluster))).inBounds p hp
  · intro e he number hnumber
    rw [← flatten_clusters settings (pending book c)]
    exact hran.mem_of_asked hbook hsublist e he number hnumber
  · intro e he hsucceeded number hnumber
    have hround : ∀ round ∈ rounds, round.cluster.Sublist (Assoc.keys book) :=
      fun round h => hsublist _ (hran.cluster_mem round h)
    obtain ⟨round, hmem, hin, hany⟩ := exists_round_of_mem_numbers hbook hround he hnumber
    have htake := husable round hmem (hany hsucceeded)
    have hkeys := (hround round hmem).mem hin
    rw [Checkpoint.partNumbers, hproposals, List.map_append, List.mem_append]
    refine .inr ((mem_flatMap_gain (fun cluster h => hsettles cluster (List.mem_of_mem_take h)) hkeys).2 ?_)
    exact List.mem_flatten.2 ⟨_, htake, hin⟩
  · rw [flatten_clusters]
    exact nodup_pending hbook c

end Whole

end Kitting.Synthesis
