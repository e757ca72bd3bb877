import Kitting.Proofs.Synthesis.Answers
import Kitting.Proofs.Synthesis.Clusters

namespace Kitting.Synthesis

variable {settings : Settings} {book : EvidenceBook} {c c' : Checkpoint} {cluster : List String}
  {gain : List String → List Proposal} {number : String} {k : Nat}

theorem mem_pending : number ∈ pending book c ↔ number ∈ Assoc.keys book ∧ number ∉ c.partNumbers := by
  simp [pending]

theorem nodup_pending (hbook : book.Proper) (c : Checkpoint) : (pending book c).Nodup :=
  hbook.nodup.filter _

theorem flatten_clusters (settings : Settings) (numbers : List String) :
    (clusters settings numbers).flatten = numbers :=
  (chunks_clusters settings numbers).flatten

theorem sublist_keys_of_mem_clusters (h : cluster ∈ clusters settings (pending book c)) :
    cluster.Sublist (Assoc.keys book) := by
  have hcluster := List.sublist_flatten_of_mem h
  rw [flatten_clusters] at hcluster
  exact hcluster.trans List.filter_sublist

theorem partNumber_batch (hbook : book.Proper) (h : ∀ n ∈ cluster, n ∈ Assoc.keys book) :
    (batch settings book cluster).map (·.partNumber) = cluster := by
  induction cluster with
  | nil => rfl
  | cons n cluster ih =>
    obtain ⟨e, he⟩ := Assoc.mem_keys_iff.1 (h n List.mem_cons_self)
    have hrest := ih fun m hm => h m (List.mem_cons_of_mem n hm)
    rw [batch, List.filterMap_cons_some he, List.map_cons, List.map_cons]
    exact List.cons_eq_cons.2 ⟨hbook.keyed n e he, hrest⟩

def Settles (book : EvidenceBook) (gain : List String → List Proposal) (cluster : List String) : Prop :=
  ∀ number ∈ Assoc.keys book, number ∈ (gain cluster).map (·.partNumber) ↔ number ∈ cluster

theorem mem_flatMap_gain {numbers : List (List String)} (h : ∀ cluster ∈ numbers, Settles book gain cluster)
    (hnumber : number ∈ Assoc.keys book) :
    number ∈ (numbers.flatMap gain).map (·.partNumber) ↔ number ∈ numbers.flatten := by
  simp only [List.map_flatMap, List.mem_flatMap, List.mem_flatten]
  exact exists_congr fun cluster => and_congr_right fun hcluster => h cluster hcluster number hnumber

theorem filter_notMem_left {α : Type} [DecidableEq α] {l l' : List α} (h : (l ++ l').Nodup) :
    (l ++ l').filter (fun a => decide (a ∉ l)) = l' := by
  have hdisjoint := (List.nodup_append.1 h).2.2
  have hleft : l.filter (fun a => decide (a ∉ l)) = [] :=
    List.filter_eq_nil_iff.2 fun a ha hnot => of_decide_eq_true hnot ha
  have hright : l'.filter (fun a => decide (a ∉ l)) = l' :=
    List.filter_eq_self.2 fun a ha => decide_eq_true fun hmem => hdisjoint a hmem a ha rfl
  rw [List.filter_append, hleft, hright, List.nil_append]

section Extended

variable (hbook : book.Proper)
  (hgain : ∀ cluster ∈ clusters settings (pending book c), Settles book gain cluster)
  (hc' : c'.proposals = c.proposals ++ ((clusters settings (pending book c)).take k).flatMap gain)
include hbook hgain hc'

theorem pending_extended : pending book c' = ((clusters settings (pending book c)).drop k).flatten := by
  have hflatten := flatten_clusters settings (pending book c)
  have htake : ∀ cluster ∈ (clusters settings (pending book c)).take k, Settles book gain cluster :=
    fun cluster h => hgain cluster (List.mem_of_mem_take h)
  rw [← List.take_append_drop k (clusters settings (pending book c)), List.flatten_append] at hflatten
  generalize (clusters settings (pending book c)).take k = answered at *
  generalize (clusters settings (pending book c)).drop k = left at *
  have hpending : pending book c' = (pending book c).filter (fun n => decide (n ∉ answered.flatten)) := by
    rw [pending, pending, List.filter_filter]
    refine List.filter_congr fun n hn => ?_
    have hiff := mem_flatMap_gain htake hn
    have hnumbers : c'.partNumbers = c.partNumbers ++ (answered.flatMap gain).map (·.partNumber) := by
      rw [Checkpoint.partNumbers, hc', List.map_append]
      rfl
    rw [hnumbers, List.contains_eq_mem, List.contains_eq_mem, Bool.eq_iff_iff]
    simp only [List.mem_append, hiff, decide_not, Bool.and_eq_true, Bool.not_eq_true',
      decide_eq_false_iff_not]
    rw [not_or, and_comm]
  have hnodup := nodup_pending hbook c
  rw [← hflatten] at hnodup hpending
  rw [hpending, filter_notMem_left hnodup]

theorem clusters_extended :
    clusters settings (pending book c') = (clusters settings (pending book c)).drop k := by
  refine (chunks_clusters settings (pending book c')).unique ?_
  rw [pending_extended hbook hgain hc']
  exact (chunks_clusters settings (pending book c)).drop k

end Extended

end Kitting.Synthesis
