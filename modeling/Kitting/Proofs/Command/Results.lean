import Kitting.Proofs.Command.Frames
import Kitting.Proofs.Knowledge.Finalisation
import Kitting.Proofs.Paths

namespace Kitting

variable {w w' : World}

theorem Workbook.write_eq_ok {plans : List SheetPlan} {book : Workbook} (h : Workbook.write plans = .ok book) :
    book = plans.map SheetPlan.write := by
  rw [Workbook.write] at h
  split at h
  · cases h
  · exact (Except.ok.inj h).symm

namespace Session

variable {p place : Path} {n : Node} {plans : List SheetPlan}

theorem frame_of_put (h : changeFiles (·.put place n) w = .ok () w') :
    World.Frame [place] w w' ∧ w'.files.node? place = some n := by
  obtain ⟨files, hfiles, rfl⟩ := changeFiles_eq_ok_iff.1 h
  refine ⟨.of_files w fun other m hother hm => ?_, FileTree.node?_of_put hfiles⟩
  rw [List.mem_singleton] at hother
  rw [FileTree.node?_put_of_ne hfiles (Ne.symm hother)]
  exact hm

theorem frame_of_saveWorkbook (h : saveWorkbook p plans w = .ok () w') :
    World.Frame [w.place p] w w' ∧
      w'.files.node? (w.place p) = some (.written (plans.map SheetPlan.write)) := by
  obtain ⟨book, _, hbook, h⟩ := bind_eq_ok_iff.1 h
  obtain ⟨hwrite, rfl⟩ := lift_eq_ok_iff.1 hbook
  obtain rfl := Workbook.write_eq_ok hwrite
  rw [get_bind] at h
  obtain ⟨_, u, hfolder, h⟩ := bind_eq_ok_iff.1 h
  rw [get_bind] at h
  split at h
  · obtain ⟨_, _, hthrow, -⟩ := bind_eq_ok_iff.1 h
    exact absurd hthrow throw_ne_ok
  · obtain ⟨hframe, hnode⟩ := frame_of_put h
    exact ⟨((quiet_makeFolder _).ok hfolder).trans hframe, hnode⟩

theorem failsQuietly_saveWorkbook (p : Path) (plans : List SheetPlan) : FailsQuietly (saveWorkbook p plans) := by
  refine .bind (.lift _) fun book => .bind .get fun w => .bind (quiet_makeFolder _) fun _ => .bind .get fun u => ?_
  split
  · exact .bind (.throw _) fun _ => failsQuietly_changeFiles _
  · exact failsQuietly_changeFiles _

end Session

namespace Command

open Session

variable {ignored stamp source source' : String} {places : Places} {f : Fulfilment} {o : Option Path}
  {folder p q : Path}

theorem isFileName_resultName (hstamp : '/' ∉ stamp.toList) (hsource : '/' ∉ source.toList) (ignored : String) :
    Path.IsFileName (resultName ignored stamp source) := by
  have hlength : ".xlsx".length = 5 := rfl
  rw [resultName]
  split
  all_goals
    refine ⟨by simp [hstamp, hsource], ?_⟩
    simp only [String.length_append]
    omega

theorem resultName_inj (h : source ≠ "") (h' : source' ≠ "") :
    resultName ignored stamp source = resultName ignored stamp source' ↔ source = source' := by
  -- Only one name is ignored, and what stands for it is too short to be any other result.
  constructor
  · intro heq
    have hlength := congrArg String.length heq
    have hmark : "_配置结果_".length = "配置结果_".length + 1 := rfl
    simp only [resultName, String.isEmpty_eq_false_iff.2 h, String.isEmpty_eq_false_iff.2 h', Bool.false_or,
      beq_iff_eq] at heq hlength
    split at heq <;> split at heq <;> rename_i hs hs'
    · exact hs.trans hs'.symm
    · simp only [hs, hs', if_true, if_false, String.length_append] at hlength
      omega
    · simp only [hs, hs', if_true, if_false, String.length_append] at hlength
      omega
    · simpa only [String.append_left_inj] using heq
  · rintro rfl
    rfl

theorem frame_of_saveResult (h : saveResult f folder w = .ok q w') : ∃ l, w'.loaded = some l ∧
    q = folder / resultName l.settings.files.stemIgnored w.stamp f.source ∧ World.Frame [w.place q] w w' ∧
      w'.files.node? (w.place q) = some (.written (f.sheets.map SheetPlan.write)) := by
  obtain ⟨s, u, hsettings, h⟩ := bind_eq_ok_iff.1 h
  have hquiet := quiet_settings.ok hsettings
  obtain ⟨l, _, hloaded, hs⟩ := bind_eq_ok_iff.1 hsettings
  obtain ⟨rfl, rfl⟩ := pure_eq_ok_iff.1 hs
  have hl := congrArg World.loaded (loaded_eq_ok hloaded).1
  rw [get_bind] at h
  obtain ⟨_, v, hfolder, h⟩ := bind_eq_ok_iff.1 h
  have hmade := (quiet_makeFolder _).ok hfolder
  obtain ⟨_, _, hsave, h⟩ := bind_eq_ok_iff.1 h
  obtain ⟨rfl, rfl⟩ := pure_eq_ok_iff.1 h
  obtain hsave | ⟨_, _, -, hthrow⟩ := tryCatch_eq_ok_iff.1 hsave
  · obtain ⟨hframe, hnode⟩ := frame_of_saveWorkbook hsave
    have hsame := hquiet.trans hmade
    rw [hsame.place] at hframe hnode
    rw [hquiet.stamp] at hframe hnode ⊢
    exact ⟨l, hframe.loaded l (hmade.loaded l hl), rfl, hsame.trans hframe, hnode⟩
  · exact absurd hthrow throw_ne_ok

theorem failsQuietly_saveResult (f : Fulfilment) (folder : Path) : FailsQuietly (saveResult f folder) := by
  refine .bind quiet_settings fun s => .bind .get fun w => .bind (quiet_makeFolder _) fun _ =>
    .bind_pure ⟨fun h => ?_⟩ _
  obtain ⟨_, _, hsave, hthrow⟩ := tryCatch_eq_error_iff.1 h
  exact ((failsQuietly_saveWorkbook _ _).error hsave).trans ((Quiet.throw _).error hthrow)

def headline (f : Fulfilment) (unresolved : Nat) : String :=
  "[" ++ f.source ++ "] 机型 " ++ f.order.model ++ "：结果 " ++ toString f.outcomes.length
    ++ " 行，未解析 " ++ toString unresolved ++ " 行（已标红），逻辑推出 "
    ++ toString f.solution.triggered.length ++ " 个，互斥组 " ++ toString f.report.progress ++ "%"

theorem report_says (h : report places f w = .ok o w') : ∃ u, printLine (headline f f.unresolved) w = .ok () u ∧
    ((o = none ∧ World.Frame [] u w') ∨ ∃ q, o = some q ∧ World.Frame [u.place q] u w' ∧
      w'.files.node? (u.place q) = some (.written (f.sheets.map SheetPlan.write)) ∧
      ∃ l, w'.loaded = some l ∧ q = places.output / resultName l.settings.files.stemIgnored u.stamp f.source) := by
  obtain ⟨_, u, hprint, h⟩ := bind_eq_ok_iff.1 h
  refine ⟨u, hprint, ?_⟩
  obtain ⟨saved, v, hsaved, h⟩ := bind_eq_ok_iff.1 h
  obtain htry | ⟨e, t, hfailed, hhandled⟩ := tryCatch_eq_ok_iff.1 hsaved
  · obtain ⟨q, hresult, rfl⟩ := map_eq_ok_iff.1 htry
    obtain ⟨l, hl, hq, hframe, hnode⟩ := frame_of_saveResult hresult
    obtain ⟨_, x, hprinted, hreturn⟩ := bind_eq_ok_iff.1 h
    obtain ⟨rfl, rfl⟩ := pure_eq_ok_iff.1 hreturn
    have hquiet := (quiet_print _).ok hprinted
    exact .inr ⟨q, rfl, hframe.trans hquiet, hquiet.files _ _ List.not_mem_nil hnode, l, hquiet.loaded l hl, hq⟩
  · have hunsaved := (failsQuietly_saveResult f places.output).error (map_eq_error_iff.1 hfailed)
    refine .inl ?_
    split at hhandled
    · obtain ⟨rfl, rfl⟩ := pure_eq_ok_iff.1 hhandled
      obtain ⟨_, x, hprinted, hreturn⟩ := bind_eq_ok_iff.1 h
      obtain ⟨rfl, rfl⟩ := pure_eq_ok_iff.1 hreturn
      exact ⟨rfl, hunsaved.trans ((quiet_print _).ok hprinted)⟩
    · exact absurd hhandled throw_ne_ok

theorem report_saves (h : report places f w = .ok o w') :
    (o = none ∧ World.Frame [] w w') ∨ ∃ q, o = some q ∧ World.Frame [w.place q] w w' ∧
      w'.files.node? (w.place q) = some (.written (f.sheets.map SheetPlan.write)) ∧
      ∃ l, w'.loaded = some l ∧ q = places.output / resultName l.settings.files.stemIgnored w.stamp f.source := by
  obtain ⟨u, hprint, hsaved⟩ := report_says h
  have hquiet := (quiet_print _).ok hprint
  simp only [hquiet.place, hquiet.stamp] at hsaved
  obtain ⟨rfl, hframe⟩ | ⟨q, rfl, hframe, hrest⟩ := hsaved
  · exact .inl ⟨rfl, hquiet.trans hframe⟩
  · exact .inr ⟨q, rfl, hquiet.trans hframe, hrest⟩

def Holds (w : World) (q : Path) (f : Fulfilment) : Prop :=
  w.files.node? (w.place q) = some (.written (f.sheets.map SheetPlan.write))

/-- Orders that are reported one after the other, each with the path of its result, if that was saved. -/
inductive Reported (places : Places) : World → List (Fulfilment × Option Path) → World → Prop
  | nil (w : World) : Reported places w [] w
  | cons {f : Fulfilment} {o : Option Path} {runs : List (Fulfilment × Option Path)} {w v w' : World} :
      report places f w = .ok o v → Reported places v runs w' → Reported places w ((f, o) :: runs) w'

theorem reported_of_mapM {fs : List Fulfilment} {written : List (Option Path)}
    (h : fs.mapM (report places) w = .ok written w') :
    ∃ runs, runs.map Prod.fst = fs ∧ runs.map Prod.snd = written ∧ Reported places w runs w' := by
  induction fs generalizing w written with
  | nil =>
    obtain ⟨rfl, rfl⟩ := pure_eq_ok_iff.1 h
    exact ⟨[], rfl, rfl, .nil w⟩
  | cons f fs ih =>
    rw [List.mapM_cons] at h
    obtain ⟨o, v, hone, h⟩ := bind_eq_ok_iff.1 h
    obtain ⟨rest, v', hrest, h⟩ := bind_eq_ok_iff.1 h
    obtain ⟨rfl, rfl⟩ := pure_eq_ok_iff.1 h
    obtain ⟨runs, hfs, hwritten, hreported⟩ := ih hrest
    exact ⟨(f, o) :: runs, by rw [List.map_cons, hfs], by rw [List.map_cons, hwritten], .cons hone hreported⟩

def outputs (runs : List (Fulfilment × Option Path)) : List Path := runs.filterMap Prod.snd

def saved (runs : List (Fulfilment × Option Path)) : List Fulfilment :=
  runs.filterMap fun run => run.2.map fun _ => run.1

theorem mem_saved {runs : List (Fulfilment × Option Path)} : f ∈ saved runs ↔ ∃ q, (f, some q) ∈ runs := by
  simp only [saved, List.mem_filterMap, Option.map_eq_some_iff]
  constructor
  · rintro ⟨⟨g, o⟩, hmem, q, rfl, rfl⟩
    exact ⟨q, hmem⟩
  · rintro ⟨q, hmem⟩
    exact ⟨_, hmem, q, rfl, rfl⟩

namespace Reported

variable {runs : List (Fulfilment × Option Path)}

theorem frame (h : Reported places w runs w') : World.Frame ((outputs runs).map w.place) w w' := by
  induction h with
  | nil w => exact .refl w
  | @cons f o runs w v w' hreport _ ih =>
    obtain ⟨rfl, hframe⟩ | ⟨q, rfl, hframe, -⟩ := report_saves hreport
    all_goals
      rw [funext hframe.place] at ih
      exact hframe.trans ih

theorem paths (h : Reported places w runs w') :
    ∃ ignored, (∀ l, w.loaded = some l → l.settings.files.stemIgnored = ignored) ∧
      ∀ f q, (f, some q) ∈ runs → q = places.output / resultName ignored w.stamp f.source := by
  -- One name is ignored throughout: the one in the settings that the first report loads.
  induction h with
  | nil w =>
    cases hw : w.loaded with
    | none => exact ⟨"", fun _ hl => (by cases hl), fun _ _ h => absurd h List.not_mem_nil⟩
    | some l => exact ⟨_, fun _ hl => (by cases hl; rfl), fun _ _ h => absurd h List.not_mem_nil⟩
  | @cons f o runs w v w' hreport _ ih =>
    obtain ⟨ignored, hignored, hrest⟩ := ih
    obtain ⟨rfl, hframe⟩ | ⟨q, rfl, hframe, -, l, hl, hq⟩ := report_saves hreport
    · rw [hframe.stamp] at hrest
      refine ⟨ignored, fun l hl => hignored l (hframe.loaded l hl), fun g q hg => ?_⟩
      obtain hg | hg := List.mem_cons.1 hg
      · cases hg
      · exact hrest g q hg
    · rw [hframe.stamp] at hrest
      refine ⟨ignored, fun l hl => hignored l (hframe.loaded l hl), fun g q' hg => ?_⟩
      obtain hg | hg := List.mem_cons.1 hg
      · cases hg
        rw [hq, hignored l hl]
      · exact hrest g q' hg

theorem holds (h : Reported places w runs w') {before after : List (Fulfilment × Option Path)} {q : Path}
    (hruns : runs = before ++ (f, some q) :: after) (hafter : w.place q ∉ (outputs after).map w.place) :
    Holds w' q f := by
  induction h generalizing before with
  | nil w => simp at hruns
  | @cons g o runs w v w' hreport hrest ih =>
    cases before with
    | nil =>
      cases hruns
      obtain ⟨hnone, -⟩ | ⟨q', hq', hframe, hnode, -⟩ := report_saves hreport
      · cases hnone
      · cases hq'
        have hlater := hrest.frame
        rw [Holds, hlater.place, hframe.place]
        rw [funext hframe.place] at hlater
        exact hlater.files _ _ hafter hnode
    | cons b before =>
      have hplace : v.place = w.place := by
        obtain ⟨-, hframe⟩ | ⟨q', -, hframe, -⟩ := report_saves hreport
        all_goals exact funext hframe.place
      rw [List.cons_append, List.cons.injEq] at hruns
      rw [← hplace] at hafter
      exact ih hruns.2 hafter

theorem place_eq_iff (h : Reported places w runs w') (hstamp : '/' ∉ w.stamp.toList)
    (hnames : ∀ run ∈ runs, run.1.source ≠ "" ∧ '/' ∉ run.1.source.toList) {g : Fulfilment} {q q' : Path}
    (hf : (f, some q) ∈ runs) (hg : (g, some q') ∈ runs) :
    (w.place q = w.place q' ↔ f.source = g.source) ∧ (q = q' ↔ f.source = g.source) := by
  obtain ⟨ignored, -, hpaths⟩ := h.paths
  have hq := hpaths f q hf
  have hq' := hpaths g q' hg
  have hsame (heq : f.source = g.source) : q = q' := by rw [hq, hq', heq]
  have hplace (heq : w.place q = w.place q') : f.source = g.source := by
    rw [World.place, World.place, hq, hq'] at heq
    have hname := (isFileName_resultName hstamp (hnames _ hf).2 ignored).eq_of_resolve
      (isFileName_resultName hstamp (hnames _ hg).2 ignored) heq
    exact (resultName_inj (hnames _ hf).1 (hnames _ hg).1).1 hname
  exact ⟨⟨hplace, fun heq => congrArg w.place (hsame heq)⟩, fun heq => hplace (congrArg w.place heq), hsame⟩

end Reported

theorem length_fill (slots : List (Option Order)) (texts : List (Option String)) :
    (fill slots texts).length = slots.length := by
  induction slots generalizing texts with
  | nil => rfl
  | cons slot slots ih =>
    cases slot with
    | some o => exact congrArg (· + 1) (ih texts)
    | none => cases texts <;> exact congrArg (· + 1) (ih _)

theorem length_readOrders {paths : List Path} {schedule : Schedule} {orders : List Order}
    (h : readOrders paths schedule w = .ok orders w') : orders.length = paths.length := by
  obtain ⟨slots, _, hslots, h⟩ := bind_eq_ok_iff.1 h
  obtain ⟨texts, _, -, h⟩ := bind_eq_ok_iff.1 h
  obtain ⟨rfl, -⟩ := pure_eq_ok_iff.1 h
  rw [length_fill, (forall₂_of_mapM hslots).length_eq]

theorem forall₂_of_fulfil {inventory : Inventory} {paths : List Path} {fs : List Fulfilment}
    (h : fulfil inventory paths false w = .ok fs w') :
    List.Forall₂ (fun p f => ∃ cap order, f = .of inventory [] cap p.stem order) paths fs := by
  cases paths with
  | nil =>
    obtain ⟨rfl, -⟩ := pure_eq_ok_iff.1 h
    exact .nil
  | cons first rest =>
    obtain ⟨orders, v, horders, h⟩ := bind_eq_ok_iff.1 h
    have hlength := length_readOrders horders
    rw [← List.map_fst_zip hlength.ge, List.forall₂_map_left_iff]
    refine (forall₂_of_mapM h).imp ?_
    rintro ⟨p, order⟩ f ⟨t, t', hf⟩
    obtain ⟨cap, u, -, hf⟩ := bind_eq_ok_iff.1 hf
    obtain ⟨rfl, -⟩ := pure_eq_ok_iff.1 hf
    exact ⟨cap, order, rfl⟩

theorem map_source_of_fulfil {inventory : Inventory} {paths : List Path} {fs : List Fulfilment}
    (h : fulfil inventory paths false w = .ok fs w') : fs.map (·.source) = paths.map Path.stem := by
  rw [← List.forall₂_eq_eq_eq, List.forall₂_map_left_iff, List.forall₂_map_right_iff]
  refine (forall₂_of_fulfil h).flip.imp ?_
  rintro _ p ⟨cap, order, rfl⟩
  rfl

theorem quiet_finalizeOne (parts : List Part) (k : Knowledge) (f : Fulfilment) : Quiet (finalizeOne parts k f) := by
  rw [finalizeOne]
  split
  · exact .pure _
  · exact .bind (quiet_print _) fun _ => .pure k

theorem frame_of_finalizeAll {fs : List Fulfilment} {inventory i : Inventory}
    (h : finalizeAll fs inventory places w = .ok i w') : World.Frame [w.place places.knowledge] w w' := by
  obtain ⟨k, u, hk, h⟩ := bind_eq_ok_iff.1 h
  have hfold := (Quiet.foldlM (quiet_finalizeOne inventory.parts) _ fs).ok hk
  obtain ⟨_, v, hsave, h⟩ := bind_eq_ok_iff.1 h
  rw [saveKnowledge, writeText, get_bind] at hsave
  obtain ⟨files, hfiles, rfl⟩ := changeFiles_eq_ok_iff.1 hsave
  obtain ⟨_, x, hprint, h⟩ := bind_eq_ok_iff.1 h
  obtain ⟨rfl, rfl⟩ := pure_eq_ok_iff.1 h
  have hwritten : World.Frame [u.place places.knowledge] u { u with files := files } := by
    refine .of_files u fun place n hplace hn => ?_
    rw [List.mem_singleton] at hplace
    exact FileTree.node?_putDeep hfiles (Ne.symm hplace) hn
  rw [hfold.place] at hwritten
  exact (hfold.trans hwritten).trans ((quiet_print _).ok hprint)

/-- Results are at the same path exactly if their orders have the same name, and then the last one stays. -/
structure LastStays (places : Places) (finalize : Bool) (w' : World) (runs : List (Fulfilment × Option Path)) :
    Prop where
  same : ∀ f q g q', (f, some q) ∈ runs → (g, some q') ∈ runs → (q = q' ↔ f.source = g.source)
  distinct : (outputs runs).Nodup ↔ ((saved runs).map (·.source)).Nodup
  stays : ∀ before f q after, runs = before ++ (f, some q) :: after → f.source ∉ (saved after).map (·.source) →
    (finalize → w'.place q ≠ w'.place places.knowledge) → Holds w' q f

theorem Reported.lastStays {runs : List (Fulfilment × Option Path)} {u v w' : World} {finalize : Bool}
    (h : Reported places u runs v) (hstamp : '/' ∉ u.stamp.toList)
    (hnames : ∀ run ∈ runs, run.1.source ≠ "" ∧ '/' ∉ run.1.source.toList)
    (hlater : World.Frame (if finalize then [v.place places.knowledge] else []) v w') :
    LastStays places finalize w' runs where
  same f q g q' hf hg := (h.place_eq_iff hstamp hnames hf hg).2
  distinct := by
    rw [List.Nodup, List.Nodup, List.pairwise_map, outputs, saved, List.pairwise_filterMap, List.pairwise_filterMap]
    refine List.Pairwise.iff_of_mem fun {a b} ha hb => ?_
    obtain ⟨f, _ | q⟩ := a
    · simp
    obtain ⟨g, _ | q'⟩ := b
    · simp
    simpa using not_congr (h.place_eq_iff hstamp hnames ha hb).2
  stays before f q after hruns hsource hapart := by
    have hplace : w'.place = u.place := (funext hlater.place).trans (funext h.frame.place)
    have hafter : u.place q ∉ (outputs after).map u.place := by
      intro hmem
      obtain ⟨q', hq', heq⟩ := List.mem_map.1 hmem
      obtain ⟨⟨g, _⟩, hg, rfl⟩ := List.mem_filterMap.1 hq'
      have hsame := (h.place_eq_iff hstamp hnames (f := g) (g := f) (by simp [hruns, hg]) (by simp [hruns])).1.1 heq
      exact hsource (List.mem_map.2 ⟨g, mem_saved.2 ⟨q', hg⟩, hsame⟩)
    have hholds := h.holds hruns hafter
    rw [Holds, hplace, ← funext h.frame.place]
    refine hlater.files _ _ ?_ hholds
    cases finalize with
    | false => exact List.not_mem_nil
    | true =>
      rw [if_pos rfl, List.mem_singleton]
      rw [funext hlater.place] at hapart
      exact hapart rfl

theorem lastStays_nil (places : Places) (finalize : Bool) (w : World) : LastStays places finalize w [] where
  same _ _ _ _ hf := absurd hf List.not_mem_nil
  distinct := by simp [outputs, saved]
  stays before _ _ _ h := by simp at h

section Processing

variable {p : Path} {paths outs : List Path} {inventory i : Inventory} {merge finalize : Bool}

theorem processPath_fulfilled {fs : List Fulfilment} {u : World} (hfiles : Order.files w.files w.cwd p = .ok paths)
    (hfulfil : fulfil inventory paths merge w = .ok fs u)
    (hrun : processPath p places inventory merge finalize w = .ok (outs, i) w') :
    ∃ runs v, runs.map Prod.fst = fs ∧ outs = outputs runs ∧ Reported places u runs v ∧
      World.Frame (if finalize then [v.place places.knowledge] else []) v w' := by
  rw [processPath, get_bind, hfiles] at hrun
  cases paths with
  | nil =>
    obtain ⟨rfl, rfl⟩ := pure_eq_ok_iff.1 hfulfil
    obtain ⟨_, _, hprint, h⟩ := bind_eq_ok_iff.1 hrun
    obtain ⟨heq, rfl⟩ := pure_eq_ok_iff.1 h
    exact ⟨[], w, rfl, (congrArg Prod.fst heq).symm, .nil w, ((quiet_print _).ok hprint).mono (List.nil_subset _)⟩
  | cons first rest =>
    obtain ⟨result, t, hresult, h⟩ := bind_eq_ok_iff.1 hrun
    have htry : tryCatch (Except.ok <$> fulfil inventory (first :: rest) merge) (fun e => pure (.error e)) w =
        .ok (Except.ok fs) u := tryCatch_eq_ok_iff.2 (.inl (map_eq_ok_iff.2 ⟨fs, hfulfil, rfl⟩))
    cases htry.symm.trans hresult
    obtain ⟨written, v, hwritten, h⟩ := bind_eq_ok_iff.1 h
    obtain ⟨runs, rfl, rfl, hreported⟩ := reported_of_mapM hwritten
    have houtputs : (runs.map Prod.snd).filterMap id = outputs runs := by
      rw [List.filterMap_map]
      rfl
    rw [houtputs] at h
    refine ⟨runs, v, rfl, ?_⟩
    cases finalize with
    | false =>
      obtain ⟨heq, rfl⟩ := pure_eq_ok_iff.1 h
      exact ⟨(congrArg Prod.fst heq).symm, hreported, .refl v⟩
    | true =>
      obtain ⟨j, x, hfinal, h⟩ := bind_eq_ok_iff.1 h
      obtain ⟨heq, rfl⟩ := pure_eq_ok_iff.1 h
      exact ⟨(congrArg Prod.fst heq).symm, hreported, frame_of_finalizeAll hfinal⟩

theorem processPath_reports (hfiles : Order.files w.files w.cwd p = .ok paths)
    (hrun : processPath p places inventory merge finalize w = .ok (outs, i) w') :
    outs = [] ∨ ∃ runs u v, outs = outputs runs ∧ fulfil inventory paths merge w = .ok (runs.map Prod.fst) u ∧
      Reported places u runs v ∧ World.Frame (if finalize then [v.place places.knowledge] else []) v w' := by
  cases hfulfil : fulfil inventory paths merge w with
  | ok fs u =>
    obtain ⟨runs, v, rfl, houts, hreported, hlater⟩ := processPath_fulfilled hfiles hfulfil hrun
    exact .inr ⟨runs, u, v, houts, rfl, hreported, hlater⟩
  | error e u =>
    rw [processPath, get_bind, hfiles] at hrun
    cases paths with
    | nil => cases hfulfil
    | cons first rest =>
      obtain ⟨result, t, hresult, h⟩ := bind_eq_ok_iff.1 hrun
      obtain htry | ⟨_, _, -, hhandled⟩ := tryCatch_eq_ok_iff.1 hresult
      · obtain ⟨fs, hfs, -⟩ := map_eq_ok_iff.1 htry
        cases hfulfil.symm.trans hfs
      · obtain ⟨rfl, -⟩ := pure_eq_ok_iff.1 hhandled
        obtain ⟨_, _, -, h⟩ := bind_eq_ok_iff.1 h
        exact .inl (congrArg Prod.fst (pure_eq_ok_iff.1 h).1).symm

theorem processPath_eq_ok {u v : World} {first : Path} {rest : List Path} {fs : List Fulfilment}
    {written : List (Option Path)} (hfiles : Order.files w.files w.cwd p = .ok (first :: rest))
    (hfulfil : fulfil inventory (first :: rest) false w = .ok fs u)
    (hwritten : fs.mapM (report places) u = .ok written v) :
    processPath p places inventory false false w = .ok (written.filterMap id, inventory) v := by
  have hresult : tryCatch (Except.ok <$> fulfil inventory (first :: rest) false) (fun e => pure (.error e)) w =
      .ok (Except.ok fs) u := tryCatch_eq_ok_iff.2 (.inl (map_eq_ok_iff.2 ⟨fs, hfulfil, rfl⟩))
  rw [processPath, get_bind, hfiles]
  exact bind_eq_ok_iff.2 ⟨_, u, hresult, bind_eq_ok_iff.2 ⟨written, v, hwritten, rfl⟩⟩

/-- The results of a path are named after its files and its second, and the time of a `World` stands still: of
results written in one second, the paths that are returned are distinct exactly if no two results are from files
with the same stem; and of those with the same stem the last one stays. -/
theorem processPath_lastStays (hfiles : Order.files w.files w.cwd p = .ok paths)
    (hstems : ∀ q ∈ paths, '/' ∉ q.stem.toList) (hstamp : '/' ∉ w.stamp.toList)
    (hrun : processPath p places inventory false finalize w = .ok (outs, i) w') :
    ∃ runs, outs = outputs runs ∧ LastStays places finalize w' runs ∧ (runs = [] ∨
      runs.map (·.1.source) = paths.map Path.stem ∧ ∃ u v,
        fulfil inventory paths false w = .ok (runs.map Prod.fst) u ∧ Reported places u runs v) := by
  obtain rfl | ⟨runs, u, v, rfl, hfulfil, hreported, hlater⟩ := processPath_reports hfiles hrun
  · exact ⟨[], rfl, lastStays_nil _ _ _, .inl rfl⟩
  have hsources := map_source_of_fulfil hfulfil
  rw [List.map_map] at hsources
  have hnames : ∀ run ∈ runs, run.1.source ≠ "" ∧ '/' ∉ run.1.source.toList := by
    intro run hmem
    have hstem : run.1.source ∈ paths.map Path.stem := hsources ▸ List.mem_map_of_mem hmem
    obtain ⟨q, hq, hstem⟩ := List.mem_map.1 hstem
    rw [← hstem]
    exact ⟨Order.stem_ne_empty (Order.isOrderFile_of_files hfiles q hq), hstems q hq⟩
  have hstamp' : '/' ∉ u.stamp.toList := by rwa [((quiet_fulfil _ _ _).ok hfulfil).stamp]
  exact ⟨runs, rfl, hreported.lastStays hstamp' hnames hlater, .inr ⟨hsources, u, v, hfulfil, hreported⟩⟩

end Processing

section Twins

def ordersFolder : Path := ⟨"", ["orders"]⟩

def twinWorld : World where
  cwd := ⟨"/", []⟩
  files := [(⟨"/", ["orders"]⟩, .folder),
    (⟨"/", ["orders", "a.json"]⟩, .file (FileTree.bytesOfText "\x7b\"model\": \"MT22\"\x7d")),
    (⟨"/", ["orders", "a.txt"]⟩, .file []), (⟨"/", ["orders", "b.txt"]⟩, .file [])]
  stamp := "20240102_030405"
  day := "20240102"
  instant := ""

def twinPaths : List Path := [ordersFolder / "a.json", ordersFolder / "a.txt", ordersFolder / "b.txt"]

def twinResult : Path := dataPlaces.output / "a_配置结果_20240102_030405.xlsx"

def loneResult : Path := dataPlaces.output / "b_配置结果_20240102_030405.xlsx"

theorem files_twinWorld : Order.files twinWorld.files twinWorld.cwd ordersFolder = .ok twinPaths := by
  have hfolder : twinWorld.files.isFolder (ordersFolder.resolve twinWorld.cwd) := by decide
  have hnames : (twinWorld.files.entries (ordersFolder.resolve twinWorld.cwd)).filter (fun n =>
      twinWorld.files.isFile ((ordersFolder.resolve twinWorld.cwd).join ⟨"", [n]⟩) && Order.isOrderFile ⟨"", [n]⟩) =
      ["a.json", "a.txt", "b.txt"] := by decide +kernel
  have hsorted : ["a.json", "a.txt", "b.txt"].mergeSort (· ≤ ·) = ["a.json", "a.txt", "b.txt"] :=
    List.mergeSort_of_pairwise (by decide)
  simp only [Order.files, hfolder, if_true, hnames, hsorted]
  exact congrArg Except.ok (by decide +kernel)

def workbookAt? (w : World) (q : Path) : Option Workbook :=
  match w.files.node? (w.place q) with
  | some (.written book) => some book
  | _ => none

theorem Holds.workbookAt? {w : World} {q : Path} {f : Fulfilment} (h : Holds w q f) :
    workbookAt? w q = some (f.sheets.map SheetPlan.write) := by
  rw [Holds] at h
  rw [Command.workbookAt?, h]

def standing (places : Places) (inventory : Inventory) (paths : List Path) (w : World) :
    List (Option Path × Bool) :=
  match fulfil inventory paths false w with
  | .ok fs u => match fs.mapM (report places) u with
    | .ok written v => (fs.zip written).map fun e =>
      (e.2, e.2.any fun q => workbookAt? v q = some (e.1.sheets.map SheetPlan.write))
    | .error .. => []
  | .error .. => []

theorem processPath_twinWorld : ∃ f g h v,
    (∃ u, fulfil {} twinPaths false twinWorld = .ok [f, g, h] u) ∧
    processPath ordersFolder dataPlaces {} false false twinWorld = .ok ([twinResult, twinResult, loneResult], {}) v ∧
      ¬Holds v twinResult f := by
  have hstanding : standing dataPlaces {} twinPaths twinWorld =
    [(some twinResult, false), (some twinResult, true), (some loneResult, true)] := by decide +kernel
  rw [standing] at hstanding
  split at hstanding
  case h_2 => cases hstanding
  rename_i fs u hfulfil
  split at hstanding
  case h_2 => cases hstanding
  rename_i written v hwritten
  obtain ⟨runs, rfl, rfl, -⟩ := reported_of_mapM hwritten
  rw [← List.zip_of_prod rfl rfl] at hstanding
  obtain ⟨⟨f, _⟩, _, rfl, hf, hstanding⟩ := List.map_eq_cons_iff.1 hstanding
  obtain ⟨⟨g, _⟩, _, rfl, hg, hstanding⟩ := List.map_eq_cons_iff.1 hstanding
  obtain ⟨⟨h, _⟩, _, rfl, hh, hstanding⟩ := List.map_eq_cons_iff.1 hstanding
  obtain rfl := List.map_eq_nil_iff.1 hstanding
  obtain ⟨rfl, hlost⟩ := Prod.mk.inj hf
  obtain ⟨rfl, -⟩ := Prod.mk.inj hg
  obtain ⟨rfl, -⟩ := Prod.mk.inj hh
  refine ⟨f, g, h, v, ⟨u, hfulfil⟩, processPath_eq_ok files_twinWorld hfulfil hwritten, fun hholds => ?_⟩
  exact of_decide_eq_false hlost hholds.workbookAt?

/-- Two orders that are named alike have one result, that of the second. -/
theorem processPath_overwrites : ∃ paths first others outs i v,
    Order.files twinWorld.files twinWorld.cwd ordersFolder = .ok paths ∧
      (∃ u, fulfil {} paths false twinWorld = .ok (first :: others) u) ∧
      processPath ordersFolder dataPlaces {} false false twinWorld = .ok (outs, i) v ∧
      ¬outs.Nodup ∧ twinResult ∈ outs.head? ∧ ¬Holds v twinResult first := by
  obtain ⟨f, g, h, v, hfulfil, hrun, hlost⟩ := processPath_twinWorld
  exact ⟨_, f, [g, h], _, _, v, files_twinWorld, hfulfil, hrun, by simp, rfl, hlost⟩

theorem processPath_lastStays_twinWorld :
    Order.files twinWorld.files twinWorld.cwd ordersFolder = .ok twinPaths ∧
      (∀ q ∈ twinPaths, '/' ∉ q.stem.toList) ∧ '/' ∉ twinWorld.stamp.toList ∧
      ∃ runs i v, processPath ordersFolder dataPlaces {} false false twinWorld = .ok (outputs runs, i) v ∧
        runs.map (·.1.source) = ["a", "a", "b"] ∧ LastStays dataPlaces false v runs := by
  have hstems : ∀ q ∈ twinPaths, '/' ∉ q.stem.toList := by decide +kernel
  have hstamp : '/' ∉ twinWorld.stamp.toList := by decide +kernel
  obtain ⟨f, g, h, v, -, hrun, -⟩ := processPath_twinWorld
  obtain ⟨runs, houts, hlast, hnone | ⟨hsources, -⟩⟩ := processPath_lastStays files_twinWorld hstems hstamp hrun
  · rw [hnone] at houts
    cases houts
  · refine ⟨files_twinWorld, hstems, hstamp, runs, {}, v, houts ▸ hrun, ?_, hlast⟩
    rw [hsources]
    decide +kernel

end Twins
end Command

end Kitting
