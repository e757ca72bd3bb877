import Kitting.Proofs.Synthesis.Progress
import Kitting.Proofs.Synthesis.Storage
import Mathlib.Data.List.Sublists

namespace Kitting.Synthesis

/-- How a checkpoint comes to the next run: handed on, or saved to a file and loaded from it, if the texts of
its confidences read back. -/
inductive Kept : Checkpoint → Checkpoint → Prop
  | handed (c : Checkpoint) : Kept c c
  | stored {path : Path} {c c' : Checkpoint} {w w' v v' : World} :
      (∀ p ∈ c.proposals, Json.ReadsBack .checkpoint p.confidence) →
      Command.saveCheckpoint path c w = .ok () w' →
      v.files.text (v.place path) = w'.files.text (w'.place path) →
      Command.loadCheckpoint path v = .ok c' v' → Kept c c'

variable {σ τ : Type} {service : Service σ} {settings : Settings} {book : EvidenceBook}
  {parts : List Part} {glossary : Glossary} {reply : List Evidence → String → List Json}
  {c c' final : Checkpoint} {log : List Event}

theorem Kept.eq (h : Kept c c') (hbounds : ∀ p ∈ c.proposals, Proposal.InBounds p.confidence) : c' = c := by
  cases h with
  | handed => rfl
  | stored hreads hsave hfile hload =>
    have hloaded := Command.load_of_save hbounds hreads hsave hfile
    obtain ⟨rfl, -⟩ := EStateM.Result.ok.inj (hload.symm.trans hloaded)
    rfl

/-- Runs from a checkpoint on, at any times and in any states of the service, each from the checkpoint of the
one before, until one completes: the last checkpoint, and all that was asked and stored. -/
inductive Campaign (service : Service σ) (settings : Settings) (book : EvidenceBook) (parts : List Part)
    (glossary : Glossary) : Checkpoint → Checkpoint → List Event → Prop
  | finish {now : String} {c : Checkpoint} {s s' : σ} {r : Run} {log : List Event} :
      run service.recorded settings book parts glossary now c (s, []) = .ok r (s', log) → r.completed →
      Campaign service settings book parts glossary c r.checkpoint log
  | resume {now : String} {c c' final : Checkpoint} {s s' : σ} {r : Run} {log later : List Event} :
      run service.recorded settings book parts glossary now c (s, []) = .ok r (s', log) →
      r.completed = false → Kept r.checkpoint c' →
      Campaign service settings book parts glossary c' final later →
      Campaign service settings book parts glossary c final (log ++ later)

structure Achieved (settings : Settings) (book : EvidenceBook) (parts : List Part) (glossary : Glossary)
    (reply : List Evidence → String → List Json) (c final : Checkpoint) (log : List Event) : Prop where
  proposals_eq : final.proposals = total settings book parts glossary reply c
  pending_eq : pending book final = []
  idle : settings.maxRetries < 0 → final = c
  asked : ∀ e ∈ log, ∀ number ∈ e.numbers, number ∈ pending book c
  fresh : log.Pairwise Event.Fresh

theorem proposals_eq_total (h : pending book final = []) :
    final.proposals = total settings book parts glossary reply final := by
  rw [total, h]
  exact (List.append_nil _).symm

theorem Campaign.achieved (hbook : book.Proper) (hreply : Covering settings book glossary reply)
    (hservice : service.Consistent reply) (hbounds : ∀ p ∈ c.proposals, Proposal.InBounds p.confidence)
    (h : Campaign service settings book parts glossary c final log) :
    Achieved settings book parts glossary reply c final log := by
  induction h with
  | finish hrun hcompleted =>
    have hprogress := progress_of_run parts hbook hreply hservice hrun
    have hpending := hprogress.finished hcompleted
    exact ⟨(proposals_eq_total hpending).trans hprogress.total_eq, hpending, hprogress.idle, hprogress.asked,
      hprogress.fresh⟩
  | @resume now c c' final s s' r log later hrun _ hkept _ ih =>
    have hprogress := progress_of_run parts hbook hreply hservice hrun
    obtain ⟨more, hmore, hin⟩ := hprogress.grows
    have hrest : ∀ p ∈ r.checkpoint.proposals, Proposal.InBounds p.confidence := by
      rw [hmore]
      exact List.forall_mem_append.2 ⟨hbounds, hin⟩
    obtain rfl := hkept.eq hrest
    have hlater := ih hrest
    refine ⟨hlater.proposals_eq.trans hprogress.total_eq, hlater.pending_eq,
      fun hneg => (hlater.idle hneg).trans (hprogress.idle hneg), ?_, ?_⟩
    · refine List.forall_mem_append.2 ⟨hprogress.asked, fun e he number hnumber => ?_⟩
      obtain ⟨hkeys, hnew⟩ := mem_pending.1 (hlater.asked e he number hnumber)
      refine mem_pending.2 ⟨hkeys, fun hold => hnew ?_⟩
      rw [Checkpoint.partNumbers, hmore, List.map_append]
      exact List.mem_append_left _ hold
    · refine List.pairwise_append.2 ⟨hprogress.fresh, hlater.fresh, ?_⟩
      intro e he e' he' hsucceeded number hnumber hnumber'
      exact (mem_pending.1 (hlater.asked e' he' number hnumber')).2
        (hprogress.answered e he hsucceeded number hnumber)

section Whole

variable {now : String} {whole : Service τ} {t : τ} {done : Nat} {numbers : List (List String)}
  {rounds : List Round} {saved : List Checkpoint} {r : Run}

theorem Ran.completed_of_reliable (h : Ran settings book parts now done c numbers rounds saved r)
    (hgiven : ∀ round ∈ rounds, round.GivenBy whole settings book glossary) (hreliable : whole.Reliable)
    (hattempts : 0 ≤ settings.maxRetries ∨ numbers = []) : r.completed := by
  induction h with
  | finished => rfl
  | @stopped _ _ cluster rest answers hanswers =>
    obtain ⟨hlength, hall⟩ := hanswers.of_none
    cases answers with
    | nil =>
      rw [List.length_nil] at hlength
      rcases hattempts with hattempts | hnil
      · omega
      · cases hnil
    | cons answer answers =>
      have husable := hreliable _ _ answer (hgiven _ List.mem_cons_self answer List.mem_cons_self)
      rw [hall answer List.mem_cons_self] at husable
      cases husable
  | answered _ _ ih =>
    refine ih (fun round h => hgiven round (List.mem_cons_of_mem _ h)) ?_
    exact hattempts.imp_right fun h => absurd h (List.cons_ne_nil _ _)

theorem exists_completed_run (parts : List Part) (now : String) (t : τ) (hbook : book.Proper)
    (hreply : Covering settings book glossary reply) (hwhole : whole.Consistent reply)
    (hreliable : whole.Reliable) (hattempts : 0 ≤ settings.maxRetries ∨ pending book c = []) :
    ∃ r t', run whole settings book parts glossary now c t = .ok r t' ∧ r.completed ∧
      r.checkpoint.proposals = total settings book parts glossary reply c := by
  obtain ⟨r, t', hrun⟩ := exists_run parts hbook hreply hwhole now c t
  obtain ⟨rounds, saved, hran, hrecorded, hgiven⟩ := runClusters_recorded [] hrun
  have hprogress := progress_of_run parts hbook hreply hwhole hrecorded
  have hcompleted : r.completed := by
    refine hran.completed_of_reliable hgiven hreliable (hattempts.imp_right fun h => ?_)
    rw [h]
    rfl
  exact ⟨r, t', hrun, hcompleted,
    (proposals_eq_total (hprogress.finished hcompleted)).trans hprogress.total_eq⟩

end Whole

/-- A campaign on evidence that was built from orders and used parts, with a service that fails as it likes
but answers usably always in the same way. Every run returns; and when one completes, the proposals are
those of a single run on a service without failures, in the same order, nothing is left pending, and
nothing was submitted again after it had been answered. -/
theorem campaign_resumes (orders : List Order) (items : List UsedPart) (settings : Settings)
    (parts : List Part) (glossary : Glossary) (reply : List Evidence → String → List Json)
    (service : Service σ) (whole : Service τ) (c : Checkpoint)
    (hreply : Covering settings (.build orders items) glossary reply)
    (hservice : service.Consistent reply) (hwhole : whole.Consistent reply) (hreliable : whole.Reliable)
    (hbounds : ∀ p ∈ c.proposals, Proposal.InBounds p.confidence) :
    (∀ now d s, ∃ r s', run service settings (.build orders items) parts glossary now d s = .ok r s') ∧
      ∀ final log, Campaign service settings (.build orders items) parts glossary c final log →
        (∀ now t, ∃ r t', run whole settings (.build orders items) parts glossary now c t = .ok r t' ∧
          r.completed ∧ final.proposals = r.checkpoint.proposals) ∧
        log.Pairwise Event.Fresh ∧ pending (.build orders items) final = [] := by
  have hbook := EvidenceBook.proper_build orders items
  refine ⟨exists_run parts hbook hreply hservice, fun final log hcampaign => ?_⟩
  have hachieved := hcampaign.achieved hbook hreply hservice hbounds
  refine ⟨fun now t => ?_, hachieved.fresh, hachieved.pending_eq⟩
  have hattempts : 0 ≤ settings.maxRetries ∨ pending (.build orders items) c = [] := by
    rcases Int.lt_or_le settings.maxRetries 0 with hneg | hle
    · exact .inr (hachieved.idle hneg ▸ hachieved.pending_eq)
    · exact .inl hle
  obtain ⟨r, t', hrun, hcompleted, hproposals⟩ :=
    exists_completed_run parts now t hbook hreply hwhole hreliable hattempts
  exact ⟨r, t', hrun, hcompleted, hachieved.proposals_eq.trans hproposals.symm⟩

def listing (evidence : List Evidence) : String :=
  let items := evidence.map fun e => "\x7b\"partNumber\": \"" ++ e.partNumber ++ "\"\x7d"
  let text := "[" ++ ", ".intercalate items ++ "]"
  if isUsable (some text) then text else "[]"

def listed (evidence : List Evidence) (_ : String) : List Json :=
  match Order.payload? (listing evidence) with
  | some (.arr vs) => vs
  | _ => []

def flaky : Service (List Bool) where
  ask evidence _ := fun failing =>
    .ok (if failing.headD false then none else some (listing evidence)) failing.tail
  save _ := pure ()

def steady : Service Unit where
  ask evidence _ := fun _ => .ok (some (listing evidence)) ()
  save _ := pure ()

theorem isUsable_listing (evidence : List Evidence) : isUsable (some (listing evidence)) = true := by
  rw [listing]
  split
  · assumption
  · decide +kernel

theorem payload?_listing (evidence : List Evidence) (hint : String) :
    (some (listing evidence)).bind Order.payload? = some (.arr (listed evidence hint)) := by
  obtain ⟨vs, hvs⟩ := isUsable_iff.1 (isUsable_listing evidence)
  unfold listed
  generalize listing evidence = text at hvs ⊢
  rw [Option.bind_some] at hvs ⊢
  rw [hvs]

theorem consistent_flaky : flaky.Consistent listed where
  answers evidence hint failing := by
    refine ⟨_, _, rfl, ?_⟩
    cases failing.headD false with
    | true => exact .inl rfl
    | false => exact .inr (payload?_listing evidence hint)
  stores c failing := ⟨failing, rfl⟩

theorem consistent_steady : steady.Consistent listed where
  answers evidence hint _ := ⟨_, _, rfl, .inr (payload?_listing evidence hint)⟩
  stores _ _ := ⟨(), rfl⟩

theorem reliable_steady : steady.Reliable := by
  rintro evidence hint answer ⟨_, _, hask⟩
  cases hask
  exact isUsable_listing evidence

def oneOrder : List Order := [{ number := "MO-1" }]

def twoParts : List UsedPart :=
  [{ orderNumber := "mo1", partNumber := "A1" }, { orderNumber := "MO 1", partNumber := "B2" }]

def oneByOne : Settings := { clusterSize := 1, maxRetries := 1 }

def namesJust (items : List Json) (cluster : List String) : Bool :=
  items.filterMap Proposal.named? == cluster && items.all fun v => match Proposal.statedConfidence v with
    | .ok x => x != .nan
    | .error _ => false

theorem covers_of_namesJust {items : List Json} {cluster : List String} (h : namesJust items cluster) :
    Proposal.Covers book items cluster := by
  rw [namesJust, Bool.and_eq_true, beq_iff_eq] at h
  obtain ⟨rfl, hall⟩ := h
  refine ⟨fun _ h => h, fun _ h => .inl h, fun v hv _ => ?_⟩
  have hv := List.all_eq_true.1 hall v hv
  split at hv
  · exact ⟨_, ‹_›, bne_iff_ne.1 hv⟩
  · cases hv

theorem covering_listed : Covering oneByOne (.build oneOrder twoParts) [] listed := by
  intro cluster hcluster
  have hkeys : Assoc.keys (EvidenceBook.build oneOrder twoParts) = ["A1", "B2"] := by decide +kernel
  have hcheck : ∀ cluster ∈ ["A1", "B2"].sublists,
      namesJust (listed (batch oneByOne (.build oneOrder twoParts) cluster)
        (Glossary.hint [] (batch oneByOne (.build oneOrder twoParts) cluster))) cluster = true := by
    decide +kernel
  rw [hkeys, ← List.mem_sublists] at hcluster
  exact covers_of_namesJust (hcheck cluster hcluster)

theorem readsBack_defaultConfidence : Json.ReadsBack .checkpoint Proposal.defaultConfidence := rfl

def bareWorld : World where
  cwd := ⟨"/", []⟩
  stamp := ""
  day := ""
  instant := "noon"

theorem kept_of_defaults (h : ∀ p ∈ c.proposals, p.confidence = Proposal.defaultConfidence) : Kept c c := by
  have hbounds : ∀ p ∈ c.proposals, Proposal.InBounds p.confidence :=
    fun p hp => h p hp ▸ Proposal.inBounds_defaultConfidence
  have hreads : ∀ p ∈ c.proposals, Json.ReadsBack .checkpoint p.confidence :=
    fun p hp => h p hp ▸ readsBack_defaultConfidence
  have hsave : Command.saveCheckpoint ⟨"/", ["checkpoint"]⟩ c bareWorld =
      .ok () { bareWorld with
        files := [(⟨"/", ["checkpoint"]⟩, .file (FileTree.bytesOfText c.toText))] } := rfl
  exact .stored hreads hsave rfl (Command.load_of_save hbounds hreads hsave rfl)

theorem exists_two_runs :
    ∃ r t, run flaky.recorded oneByOne (.build oneOrder twoParts) [] [] "noon" {}
        ([false, true, true], []) = .ok r t ∧
      r.completed = false ∧
      (∀ p ∈ r.checkpoint.proposals, p.confidence = Proposal.defaultConfidence) ∧
      ∃ r' t', run flaky.recorded oneByOne (.build oneOrder twoParts) [] [] "later" r.checkpoint
          ([], []) = .ok r' t' ∧
        r'.completed ∧ r'.checkpoint.partNumbers = ["A1", "B2"] := by
  -- After one answer the first run fails at both attempts that it has for the other part number.
  have hruns : (match run flaky.recorded oneByOne (.build oneOrder twoParts) [] [] "noon" {}
        ([false, true, true], []) with
      | .ok r _ =>
        match run flaky.recorded oneByOne (.build oneOrder twoParts) [] [] "later" r.checkpoint
          ([], []) with
        | .ok r' _ => decide (r.completed = false ∧
            (∀ p ∈ r.checkpoint.proposals, p.confidence = Proposal.defaultConfidence) ∧
            r'.completed = true ∧ r'.checkpoint.partNumbers = ["A1", "B2"])
        | .error _ _ => false
      | .error _ _ => false) = true := by decide +kernel
  split at hruns
  · rename_i r t hfirst
    split at hruns
    · rename_i r' t' hsecond
      obtain ⟨hstopped, hdefaults, hcompleted, hnumbers⟩ := of_decide_eq_true hruns
      exact ⟨r, t, hfirst, hstopped, hdefaults, r', t', hsecond, hcompleted, hnumbers⟩
    · cases hruns
  · cases hruns

theorem campaign_resumes_afterFailure :
    ∃ final log, Campaign flaky oneByOne (.build oneOrder twoParts) [] [] {} final log ∧
      log.Pairwise Event.Fresh ∧ pending (.build oneOrder twoParts) final = [] ∧
      final.partNumbers = ["A1", "B2"] ∧
      ∃ r t', run steady oneByOne (.build oneOrder twoParts) [] [] "noon" {} () = .ok r t' ∧
        final.proposals = r.checkpoint.proposals := by
  obtain ⟨r, t, hfirst, hstopped, hdefaults, r', t', hsecond, hcompleted, hnumbers⟩ := exists_two_runs
  have hcampaign := Campaign.resume hfirst hstopped (kept_of_defaults hdefaults)
    (.finish hsecond hcompleted)
  obtain ⟨-, hall⟩ := campaign_resumes oneOrder twoParts oneByOne [] [] listed flaky steady {}
    covering_listed consistent_flaky consistent_steady reliable_steady
    (fun _ h => absurd h List.not_mem_nil)
  obtain ⟨hwhole, hfresh, hpending⟩ := hall _ _ hcampaign
  obtain ⟨r, t', hrun, -, hproposals⟩ := hwhole "noon" ()
  exact ⟨_, _, hcampaign, hfresh, hpending, hnumbers, r, t', hrun, hproposals⟩

end Kitting.Synthesis
