import Kitting.Proofs.Command.Tallies

namespace Kitting

namespace World

variable {w : World} {l : Loaded} {calls more : List Call} {p : Path}

def after (w : World) (l : Loaded) (calls : List Call) : World :=
  { w with loaded := some l, calls := w.calls ++ calls }

def asked? (w : World) (l : Loaded) (p : Path) : Option Call :=
  match l.endpoint.key, Document.block p w.files (w.place p) with
  | some key, .ok block =>
    some (.extract p.name ⟨key, l.endpoint.url, .float l.endpoint.timeout, l.endpoint.model⟩ block)
  | _, _ => none

def reply (w : World) (l : Loaded) (p : Path) : Option String :=
  (w.asked? l p).bind fun _ => ((Assoc.get? w.documents p.name).getD .nothing).content

theorem files_after : (w.after l calls).files = w.files := rfl

theorem place_after : (w.after l calls).place p = w.place p := rfl

theorem after_after : (w.after l calls).after l more = w.after l (calls ++ more) := by
  rw [after, after, after, List.append_assoc]

end World

def Order.ofReply (reply : Option String) : Order := reply.elim {} ofPayload

theorem Order.ofPayload_getD (reply : Option String) : ofPayload (reply.getD "") = ofReply reply := by
  cases reply with
  | none => exact show ofPayload "" = {} by decide +kernel
  | some s => rw [Option.getD_some, ofReply, Option.elim_some]

namespace Session

open World

variable {w w' : World} {l : Loaded} {calls : List Call} {p : Path} {docs paths : List Path} {schedule : Schedule}
  {slots : List (Option Order)} {texts replies : List (Option String)} {arrived : List (Nat × Option String)}
  {held orders : List Order}

section Replies

theorem loaded_eq_after {t : World} (h : loaded w = .ok l t) : t = w.after l [] := by
  rw [after, List.append_nil]
  exact (loaded_eq_ok h).1

theorem extract_eq (h : loaded w = .ok l (w.after l [])) :
    extract none p w = .ok (w.reply l p) (w.after l (w.asked? l p).toList) := by
  refine bind_eq_ok_iff.2 ⟨_, _, bind_eq_ok_iff.2 ⟨l, _, h, rfl⟩, ?_⟩
  rw [reply, asked?]
  cases l.endpoint.key with
  | none => rfl
  | some key =>
    rw [Option.map_some]
    simp only [get_bind, files_after, place_after]
    cases Document.block p w.files (w.place p) with
    | error e => rfl
    | ok block =>
      refine bind_eq_ok_iff.2 ⟨(), _, modify_eq_ok_iff.2 rfl, ?_⟩
      simp only [after, List.append_nil]
      rfl

theorem extract_after :
    extract none p (w.after l calls) = .ok (w.reply l p) (w.after l (calls ++ (w.asked? l p).toList)) := by
  rw [← after_after]
  refine extract_eq ?_
  rw [after_after, List.append_nil]
  rfl

theorem mapM_extract_after (jobs : List (Path × Nat)) (calls : List Call) :
    (jobs.mapM fun job => extract none job.1 >>= fun reply => pure (job.2, reply)) (w.after l calls) =
      .ok (jobs.map fun job => (job.2, w.reply l job.1))
        (w.after l (calls ++ jobs.flatMap fun job => (w.asked? l job.1).toList)) := by
  induction jobs generalizing calls with
  | nil => rw [List.mapM_nil, List.map_nil, List.flatMap_nil, List.append_nil]; rfl
  | cons job jobs ih =>
    rw [List.mapM_cons, List.map_cons, List.flatMap_cons, ← List.append_assoc]
    exact bind_eq_ok_iff.2 ⟨_, _, bind_eq_ok_iff.2 ⟨_, _, extract_after, rfl⟩,
      bind_eq_ok_iff.2 ⟨_, _, ih _, rfl⟩⟩

theorem extractAll_eq_ok (hdocs : docs ≠ []) (h : extractAll none docs schedule w = .ok texts w') :
    ∃ l, loaded w = .ok l (w.after l []) ∧
      texts = arranged docs.length ((schedule docs.zipIdx).map fun job => (job.2, w.reply l job.1)) ∧
      w' = w.after l ((schedule docs.zipIdx).flatMap fun job => (w.asked? l job.1).toList) := by
  rw [extractAll, if_neg (by simpa using hdocs)] at h
  obtain ⟨bound, t, hbound, h⟩ := bind_eq_ok_iff.1 h
  obtain ⟨s, hs, -⟩ := map_eq_ok_iff.1 hbound
  obtain ⟨l, _, hl, hs⟩ := bind_eq_ok_iff.1 hs
  obtain ⟨rfl, rfl⟩ := pure_eq_ok_iff.1 hs
  obtain rfl := loaded_eq_after hl
  refine ⟨l, hl, ?_⟩
  dsimp only at h
  split at h
  · obtain ⟨_, _, hthrow, -⟩ := bind_eq_ok_iff.1 h
    exact absurd hthrow throw_ne_ok
  · obtain ⟨arrived, _, harrived, h⟩ := bind_eq_ok_iff.1 h
    obtain ⟨rfl, rfl⟩ := pure_eq_ok_iff.1 h
    cases harrived.symm.trans (mapM_extract_after _ _)
    exact ⟨rfl, rfl⟩

theorem arranged_of_perm (h : arrived.Perm (replies.zipIdx.map Prod.swap)) :
    arranged replies.length arrived = replies := by
  -- The number of a reply tells its place, whichever reply comes first.
  have hkeys : (arrived.map Prod.fst).Nodup := by
    rw [(h.map Prod.fst).nodup_iff, List.map_map]
    change (replies.zipIdx.map Prod.snd).Nodup
    rw [List.zipIdx_map_snd]
    exact List.nodup_range'
  have hlookup (i : Nat) (hi : i < replies.length) : arrived.lookup i = some replies[i] := by
    have hmem : (i, replies[i]) ∈ arrived := by
      rw [h.mem_iff, List.mem_map]
      exact ⟨(replies[i], i), by simp [List.mk_mem_zipIdx_iff_getElem?, hi], rfl⟩
    obtain ⟨before, behind, rfl⟩ := List.append_of_mem hmem
    rw [List.lookup_eq_some_iff]
    refine ⟨before, behind, rfl, fun other hother => ?_⟩
    rw [List.map_append, List.map_cons, List.nodup_middle, List.nodup_cons, List.mem_append, not_or] at hkeys
    exact bne_iff_ne.2 fun heq => hkeys.1.1 (List.mem_map.2 ⟨other, hother, heq.symm⟩)
  rw [arranged]
  refine List.ext_getElem (by simp) fun i _ hi => ?_
  simp [hlookup i hi]

end Replies

section Assembly

def documents (paths : List Path) : List Path := paths.filter (!isPayload ·)

structure Attributed (paths : List Path) (held : List Order) (replies : List (Option String)) (orders : List Order) :
    Prop where
  length : paths.length = orders.length
  payloads : (paths.zip orders).filter (isPayload ·.1) = (paths.filter isPayload).zip held
  documents : (paths.zip orders).filter (!isPayload ·.1) = (documents paths).zip (replies.map Order.ofReply)

theorem attributed_fill (hslots : List.Forall₂ (fun p slot => isPayload p = Option.isSome slot) paths slots)
    (hreplies : replies.length = (documents paths).length) :
    Attributed paths (slots.filterMap id) replies (fill slots replies) := by
  induction hslots generalizing replies with
  | nil => exact ⟨rfl, rfl, rfl⟩
  | @cons p slot paths slots hslot hslots ih =>
    cases slot with
    | some o =>
      rw [documents, List.filter_cons_of_neg (by simpa using hslot)] at hreplies
      obtain ⟨hlength, hpayloads, hdocuments⟩ := ih hreplies
      constructor
      case length => simpa [fill] using hlength
      case payloads => simpa [fill, hslot] using hpayloads
      case documents => simpa [fill, hslot, documents] using hdocuments
    | none =>
      rw [documents, List.filter_cons_of_pos (by simpa using hslot), List.length_cons] at hreplies
      obtain ⟨reply, replies, rfl⟩ := List.exists_cons_of_length_eq_add_one hreplies
      obtain ⟨hlength, hpayloads, hdocuments⟩ := ih (Nat.succ.inj hreplies)
      constructor
      case length => simpa [fill] using hlength
      case payloads => simpa [fill, hslot] using hpayloads
      case documents => simpa [fill, hslot, documents, Order.ofPayload_getD] using hdocuments

end Assembly

inductive Yields (w : World) (p : Path) (o : Order) : Prop
  | payload : isPayload p → readOrder p w = .ok o w → Yields w p o
  | document {reply : Option String} {v : World} :
      isPayload p = false → extract none p w = .ok reply v → o = .ofReply reply → Yields w p o

def Takes (w : World) (p : Path) (calls : List Call) : Prop :=
  ∃ reply v, extract none p w = .ok reply v ∧ v.calls = w.calls ++ calls

theorem yields_of_attributed (h : Attributed paths held replies orders)
    (hheld : List.Forall₂ (fun p o => readOrder p w = .ok o w) (paths.filter isPayload) held)
    (hreplies : List.Forall₂ (fun p reply => ∃ v, extract none p w = .ok reply v) (documents paths) replies) :
    List.Forall₂ (Yields w) paths orders := by
  refine List.forall₂_iff_zip.2 ⟨h.length, fun {p o} hmem => ?_⟩
  cases hp : isPayload p with
  | true =>
    have hmem : (p, o) ∈ (paths.zip orders).filter (isPayload ·.1) := List.mem_filter.2 ⟨hmem, hp⟩
    rw [h.payloads] at hmem
    exact .payload hp ((List.forall₂_iff_zip.1 hheld).2 hmem)
  | false =>
    have hmem : (p, o) ∈ (paths.zip orders).filter (!isPayload ·.1) := List.mem_filter.2 ⟨hmem, by simpa using hp⟩
    rw [h.documents, List.zip_map_right, List.mem_map] at hmem
    obtain ⟨⟨q, reply⟩, hpair, heq⟩ := hmem
    cases heq
    obtain ⟨v, hreply⟩ := (List.forall₂_iff_zip.1 hreplies).2 hpair
    exact .document hp hreply rfl

theorem readOrder_eq_ok {o : Order} (h : readOrder p w = .ok o w') : w' = w := by
  rw [readOrder, get_bind] at h
  cases htext : w.files.text (w.place p) with
  | ok s =>
    rw [htext] at h
    exact (pure_eq_ok_iff.1 h).2.symm
  | error e =>
    rw [htext] at h
    exact absurd h throw_ne_ok

theorem slots_of_mapM
    (h : (paths.mapM fun p => if isPayload p then some <$> readOrder p else pure none) w = .ok slots w') :
    w' = w ∧ List.Forall₂ (fun p slot => isPayload p = Option.isSome slot) paths slots ∧
      List.Forall₂ (fun p o => readOrder p w = .ok o w) (paths.filter isPayload) (slots.filterMap id) := by
  induction paths generalizing slots with
  | nil =>
    obtain ⟨rfl, rfl⟩ := pure_eq_ok_iff.1 h
    exact ⟨rfl, .nil, .nil⟩
  | cons p paths ih =>
    rw [List.mapM_cons] at h
    obtain ⟨slot, t, hslot, h⟩ := bind_eq_ok_iff.1 h
    obtain ⟨rest, u, hrest, h⟩ := bind_eq_ok_iff.1 h
    obtain ⟨rfl, rfl⟩ := pure_eq_ok_iff.1 h
    cases hp : isPayload p with
    | true =>
      rw [if_pos hp] at hslot
      obtain ⟨o, ho, rfl⟩ := map_eq_ok_iff.1 hslot
      obtain rfl := readOrder_eq_ok ho
      obtain ⟨rfl, hslots, hheld⟩ := ih hrest
      rw [List.filter_cons_of_pos hp]
      exact ⟨rfl, .cons hp hslots, .cons ho hheld⟩
    | false =>
      rw [if_neg (by simp [hp])] at hslot
      obtain ⟨rfl, rfl⟩ := pure_eq_ok_iff.1 hslot
      obtain ⟨rfl, hslots, hheld⟩ := ih hrest
      rw [List.filter_cons_of_neg (by simp [hp])]
      exact ⟨rfl, .cons hp hslots, hheld⟩

theorem extractAll_aligned (hschedule : (schedule docs.zipIdx).Perm docs.zipIdx)
    (h : extractAll none docs schedule w = .ok texts w') :
    List.Forall₂ (fun p reply => ∃ v, extract none p w = .ok reply v) docs texts ∧
      ∃ taken calls, List.Forall₂ (Takes w) docs taken ∧ calls.Perm taken.flatten ∧ w'.calls = w.calls ++ calls := by
  by_cases hdocs : docs = []
  · subst hdocs
    obtain ⟨rfl, rfl⟩ := pure_eq_ok_iff.1 h
    exact ⟨.nil, [], [], .nil, .nil, (List.append_nil _).symm⟩
  · obtain ⟨l, hl, rfl, rfl⟩ := extractAll_eq_ok hdocs h
    have hnumbered : docs.zipIdx.map (fun job => (job.2, w.reply l job.1)) =
        (docs.map (w.reply l)).zipIdx.map Prod.swap := by
      rw [List.zipIdx_map, List.map_map]
      rfl
    have hcalls : docs.zipIdx.flatMap (fun job => (w.asked? l job.1).toList) =
        (docs.map fun p => (w.asked? l p).toList).flatten := by
      rw [← List.flatMap_def]
      conv_rhs => rw [← List.zipIdx_map_fst 0 docs, List.flatMap_map]
    have harranged := arranged_of_perm (hnumbered ▸ hschedule.map fun job : Path × Nat => (job.2, w.reply l job.1))
    rw [List.length_map] at harranged
    rw [harranged]
    refine ⟨?_, docs.map fun p => (w.asked? l p).toList, _, ?_, hcalls ▸ hschedule.flatMap_right _, rfl⟩
    · exact List.forall₂_map_right_iff.2 (List.forall₂_same.2 fun p _ => ⟨_, extract_eq hl⟩)
    · exact List.forall₂_map_right_iff.2 (List.forall₂_same.2 fun p _ => ⟨_, _, extract_eq hl, rfl⟩)

/-- Whatever the documents are answered and whichever reply comes first, each order is attributed to its own file. So if
all files are read, every order is the one that its file yields on its own, and the service is asked what it is asked
about each document alone. -/
theorem readOrders_aligned (hschedule : (schedule (documents paths).zipIdx).Perm (documents paths).zipIdx) :
    (∀ slots replies arrived, List.Forall₂ (fun p slot => isPayload p = Option.isSome slot) paths slots →
        replies.length = (documents paths).length → arrived.Perm (replies.zipIdx.map Prod.swap) →
        Attributed paths (slots.filterMap id) replies (fill slots (arranged (documents paths).length arrived))) ∧
      ∀ w orders w', readOrders paths schedule w = .ok orders w' →
        List.Forall₂ (Yields w) paths orders ∧
          ∃ taken calls, List.Forall₂ (Takes w) (documents paths) taken ∧ calls.Perm taken.flatten ∧
            w'.calls = w.calls ++ calls := by
  constructor
  · intro slots replies arrived hslots hreplies harrived
    rw [← hreplies, arranged_of_perm harrived]
    exact attributed_fill hslots hreplies
  · intro w orders w' h
    obtain ⟨slots, _, hmap, h⟩ := bind_eq_ok_iff.1 h
    obtain ⟨texts, _, hextract, h⟩ := bind_eq_ok_iff.1 h
    obtain ⟨rfl, rfl⟩ := pure_eq_ok_iff.1 h
    obtain ⟨rfl, hslots, hheld⟩ := slots_of_mapM hmap
    obtain ⟨hreplies, htaken⟩ := extractAll_aligned hschedule hextract
    have hattributed := attributed_fill hslots hreplies.length_eq.symm
    exact ⟨yields_of_attributed hattributed hheld hreplies, htaken⟩

section Mixed

open Command

def mixedPaths : List Path := [ordersFolder / "b.txt", ordersFolder / "A.Json", ordersFolder / "c.txt"]

def mixedWorld : World where
  cwd := ⟨"/", []⟩
  files := [(⟨"/", ["orders"]⟩, .folder), (⟨"/", ["orders", "b.txt"]⟩, .file []),
    (⟨"/", ["orders", "A.Json"]⟩, .file (FileTree.bytesOfText "\x7b\"model\": \"MT22\"\x7d")),
    (⟨"/", ["orders", "c.txt"]⟩, .file [])]
  environment := [("OPENAI_API_KEY", "key")]
  documents := [("b.txt", .text "\x7b\"model\": \"MT33\"\x7d"), ("c.txt", .failure)]
  stamp := ""
  day := ""
  instant := ""

theorem readOrders_aligned_mixedPaths :
    (List.reverse (documents mixedPaths).zipIdx).Perm (documents mixedPaths).zipIdx ∧
      (∃ orders w', readOrders mixedPaths List.reverse mixedWorld = .ok orders w' ∧
        orders.map (·.model) = ["MT33", "MT22", "Generic"] ∧ List.Forall₂ (Yields mixedWorld) mixedPaths orders) ∧
      let slots : List (Option Order) := [none, some {}, none]
      let replies : List (Option String) := [none, some "[]"]
      Attributed mixedPaths [{}] replies (fill slots (arranged 2 [(1, some "[]"), (0, none)])) := by
  have hschedule : (List.reverse (documents mixedPaths).zipIdx).Perm (documents mixedPaths).zipIdx :=
    List.reverse_perm _
  obtain ⟨hattributed, haligned⟩ := readOrders_aligned hschedule
  have hmodels : (given? (readOrders mixedPaths List.reverse) mixedWorld).map (·.map (·.model)) =
      some ["MT33", "MT22", "Generic"] := by
    decide +kernel
  obtain ⟨orders, w', horders, hmodels⟩ := exists_of_given? hmodels
  have hslots : List.Forall₂ (fun p slot => isPayload p = Option.isSome slot) mixedPaths
      [none, some ({} : Order), none] := by
    decide +kernel
  exact ⟨hschedule, ⟨orders, w', horders, hmodels, (haligned _ _ _ horders).1⟩,
    hattributed _ _ _ hslots (by decide +kernel) (by decide)⟩

end Mixed

end Session

end Kitting
