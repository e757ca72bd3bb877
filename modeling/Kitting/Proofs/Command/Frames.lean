import Kitting.Proofs.Files

namespace Kitting

/-- What stays, but for the files at some places. -/
structure World.Frame (changed : List Path) (w w' : World) : Prop where
  cwd : w'.cwd = w.cwd
  stamp : w'.stamp = w.stamp
  loaded : ∀ l, w.loaded = some l → w'.loaded = some l
  output : ∃ more, w'.output = w.output ++ more
  files : ∀ place n, place ∉ changed → w.files.node? place = some n → w'.files.node? place = some n

namespace World.Frame

variable {w w' w'' : World} {changed changed' : List Path}

theorem refl (w : World) : Frame [] w w := ⟨rfl, rfl, fun _ h => h, ⟨"", String.append_empty.symm⟩, fun _ _ _ h => h⟩

theorem trans (h : Frame changed w w') (h' : Frame changed' w' w'') : Frame (changed ++ changed') w w'' where
  cwd := h'.cwd.trans h.cwd
  stamp := h'.stamp.trans h.stamp
  loaded l hl := h'.loaded l (h.loaded l hl)
  output := by
    obtain ⟨more, hmore⟩ := h.output
    obtain ⟨more', hmore'⟩ := h'.output
    exact ⟨more ++ more', by rw [hmore', hmore, String.append_assoc]⟩
  files place n hplace hn := by
    rw [List.mem_append, not_or] at hplace
    exact h'.files place n hplace.2 (h.files place n hplace.1 hn)

theorem mono (h : Frame changed w w') (hsub : changed ⊆ changed') : Frame changed' w w' :=
  ⟨h.cwd, h.stamp, h.loaded, h.output, fun place n hplace => h.files place n fun hmem => hplace (hsub hmem)⟩

theorem of_files (w : World) {files : FileTree}
    (h : ∀ place n, place ∉ changed → w.files.node? place = some n → files.node? place = some n) :
    Frame changed w { w with files := files } :=
  ⟨rfl, rfl, fun _ hl => hl, ⟨"", String.append_empty.symm⟩, h⟩

theorem place (h : Frame changed w w') (p : Path) : w'.place p = w.place p := by
  rw [World.place, World.place, h.cwd]

end World.Frame

namespace Session

open World

variable {α β : Type} {w w' : World}

structure FailsQuietly (x : Session α) : Prop where
  error : ∀ {w e w'}, x w = .error e w' → Frame [] w w'

/-- However it ends, everything stays. -/
structure Quiet (x : Session α) : Prop extends FailsQuietly x where
  ok : ∀ {w a w'}, x w = .ok a w' → Frame [] w w'

namespace FailsQuietly

protected theorem bind {x : Session α} {f : α → Session β} (hx : Quiet x) (hf : ∀ a, FailsQuietly (f a)) :
    FailsQuietly (x >>= f) where
  error h := by
    obtain h | ⟨a, t, ha, h⟩ := bind_eq_error_iff.1 h
    · exact hx.error h
    · exact (hx.ok ha).trans ((hf a).error h)

protected theorem bind_pure {x : Session α} (hx : FailsQuietly x) (f : α → β) :
    FailsQuietly (x >>= fun a => pure (f a)) where
  error h := by
    obtain h | ⟨a, t, -, h⟩ := bind_eq_error_iff.1 h
    · exact hx.error h
    · cases h

end FailsQuietly

namespace Quiet

protected theorem pure (a : α) : Quiet (pure a : Session α) where
  ok h := by
    obtain ⟨-, rfl⟩ := pure_eq_ok_iff.1 h
    exact .refl _
  error h := by cases h

protected theorem throw (e : Error) : Quiet (throw e : Session α) where
  ok h := absurd h throw_ne_ok
  error h := by
    cases h
    exact .refl _

protected theorem get : Quiet (get : Session World) where
  ok h := by
    obtain ⟨-, rfl⟩ := get_eq_ok_iff.1 h
    exact .refl _
  error h := by cases h

protected theorem modify {f : World → World} (hf : ∀ w, Frame [] w (f w)) : Quiet (modify f) where
  ok h := by
    obtain rfl := modify_eq_ok_iff.1 h
    exact hf _
  error h := by cases h

protected theorem bind {x : Session α} {f : α → Session β} (hx : Quiet x) (hf : ∀ a, Quiet (f a)) :
    Quiet (x >>= f) where
  ok h := by
    obtain ⟨a, t, ha, h⟩ := bind_eq_ok_iff.1 h
    exact (hx.ok ha).trans ((hf a).ok h)
  error := (FailsQuietly.bind hx fun a => (hf a).toFailsQuietly).error

protected theorem map {x : Session α} (hx : Quiet x) (f : α → β) : Quiet (f <$> x) where
  ok h := by
    obtain ⟨a, ha, -⟩ := map_eq_ok_iff.1 h
    exact hx.ok ha
  error h := hx.error (map_eq_error_iff.1 h)

protected theorem mapM {f : α → Session β} (hf : ∀ a, Quiet (f a)) (as : List α) : Quiet (as.mapM f) := by
  induction as with
  | nil => exact .pure []
  | cons a as ih =>
    rw [List.mapM_cons]
    exact .bind (hf a) fun b => .bind ih fun bs => .pure (b :: bs)

protected theorem foldlM {f : β → α → Session β} (hf : ∀ b a, Quiet (f b a)) (b : β) (as : List α) :
    Quiet (as.foldlM f b) := by
  induction as generalizing b with
  | nil => exact .pure b
  | cons a as ih =>
    rw [List.foldlM_cons]
    exact .bind (hf b a) ih

protected theorem lift (x : Except Error α) : Quiet (lift x) := by
  cases x with
  | ok a => exact .pure a
  | error e => exact .throw e

end Quiet

theorem failsQuietly_changeFiles (f : FileTree → Except Error FileTree) : FailsQuietly (changeFiles f) :=
  .bind .get fun w => .bind (.lift (f w.files)) fun _ => ⟨fun h => by cases h⟩

theorem quiet_print (s : String) : Quiet (print s) :=
  .modify fun _ => ⟨rfl, rfl, fun _ h => h, ⟨s, rfl⟩, fun _ _ _ h => h⟩

theorem quiet_makeFolder (place : Path) : Quiet (changeFiles (·.makeFolder place)) where
  ok h := by
    obtain ⟨files, hfiles, rfl⟩ := changeFiles_eq_ok_iff.1 h
    exact .of_files _ fun _ _ _ hn => FileTree.node?_makeFolder hfiles hn
  error := (failsQuietly_changeFiles _).error

theorem loaded_eq_ok {l : Loaded} (h : loaded w = .ok l w') :
    w' = { w with loaded := some l } ∧ ∀ l₀, w.loaded = some l₀ → l₀ = l := by
  rw [loaded, get_bind] at h
  cases hw : w.loaded with
  | some l₀ =>
    rw [hw] at h
    obtain ⟨rfl, rfl⟩ := pure_eq_ok_iff.1 h
    exact ⟨by rw [← hw], fun l hl => (Option.some.inj hl).symm⟩
  | none =>
    simp only [hw, get_bind] at h
    obtain ⟨s, _, hs, h⟩ := bind_eq_ok_iff.1 h
    obtain ⟨-, rfl⟩ := lift_eq_ok_iff.1 hs
    obtain ⟨_, v, hmodify, h⟩ := bind_eq_ok_iff.1 h
    obtain rfl := modify_eq_ok_iff.1 hmodify
    obtain ⟨rfl, rfl⟩ := pure_eq_ok_iff.1 h
    exact ⟨rfl, fun _ hl => by cases hl⟩

theorem failsQuietly_loaded : FailsQuietly loaded where
  error {w e w'} h := by
    rw [loaded, get_bind] at h
    cases hw : w.loaded with
    | some l₀ =>
      rw [hw] at h
      cases h
    | none =>
      simp only [hw, get_bind] at h
      obtain hfailed | ⟨s, t, -, hdone⟩ := bind_eq_error_iff.1 h
      · exact (Quiet.lift _).error hfailed
      · cases hdone

theorem quiet_loaded : Quiet loaded where
  ok h := by
    obtain ⟨rfl, hsame⟩ := loaded_eq_ok h
    exact ⟨rfl, rfl, fun l₀ hl => by rw [hsame l₀ hl], ⟨"", String.append_empty.symm⟩, fun _ _ _ hn => hn⟩
  error := failsQuietly_loaded.error

theorem quiet_settings : Quiet settings := .bind quiet_loaded fun l => .pure l.settings

theorem quiet_caller? : Quiet caller? := .bind quiet_loaded fun _ => .pure _

theorem quiet_record (c : Call) : Quiet (record c) :=
  .modify fun _ => ⟨rfl, rfl, fun _ h => h, ⟨"", String.append_empty.symm⟩, fun _ _ _ h => h⟩

theorem quiet_extract (given : Option Caller) (p : Path) : Quiet (extract given p) := by
  refine .bind quiet_caller? fun own => ?_
  cases own with
  | none => exact .pure none
  | some own =>
    refine .bind .get fun w => ?_
    cases Document.block p w.files (w.place p) with
    | error e => exact .pure none
    | ok block => exact .bind (quiet_record _) fun _ => .pure _

theorem quiet_extractAll (workers : Option Int) (paths : List Path) (schedule : Schedule) :
    Quiet (extractAll workers paths schedule) := by
  have hbounded {f : Path × Nat → Session (Nat × Option String)} (hf : ∀ e, Quiet (f e)) (bound : Int) : Quiet (do
      if bound < 0 then throw .noWorkers
      let arrived ← (schedule paths.zipIdx).mapM f
      return arranged paths.length arrived) := by
    have harrived : Quiet ((schedule paths.zipIdx).mapM f >>= fun arrived => pure (arranged paths.length arrived)) :=
      .bind (.mapM hf _) fun _ => .pure _
    dsimp only
    split
    · exact .bind (.throw _) fun _ => harrived
    · exact harrived
  have hone (e : Path × Nat) : Quiet (extract none e.1 >>= fun text => pure (e.2, text)) :=
    .bind (quiet_extract none e.1) fun _ => .pure _
  rw [extractAll]
  split
  · exact .pure []
  · dsimp only
    split
    · exact .bind (quiet_settings.map _) (hbounded hone)
    · exact .bind (.pure _) (hbounded hone)

theorem quiet_readOrder (p : Path) : Quiet (readOrder p) := by
  refine .bind .get fun w => ?_
  cases w.files.text (w.place p) with
  | ok s => exact .pure _
  | error e => exact .throw _

theorem quiet_readOrders (paths : List Path) (schedule : Schedule) : Quiet (readOrders paths schedule) := by
  refine .bind (.mapM (fun p => ?_) paths) fun _ => .bind (quiet_extractAll _ _ _) fun _ => .pure _
  split
  · exact (quiet_readOrder p).map some
  · exact .pure none

theorem quiet_cap : Quiet cap := .bind quiet_settings fun _ => .pure _

theorem quiet_fulfil (inventory : Inventory) (paths : List Path) (merge : Bool) :
    Quiet (fulfil inventory paths merge) := by
  cases paths with
  | nil => exact .pure []
  | cons first rest =>
    refine .bind (quiet_readOrders _ _) fun orders => ?_
    split
    · exact .bind quiet_cap fun _ => .pure _
    · exact .mapM (fun e => .bind quiet_cap fun _ => .pure _) _

end Session

end Kitting
