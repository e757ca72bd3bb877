import Kitting.Command.Run
import Kitting.Proofs.Effects
import Kitting.Proofs.Text.Utf8

namespace Kitting

namespace FileTree

variable {t t' : FileTree} {place other : Path} {n m : Node}

theorem unixBreaks_of_notMem {cs : List Char} (h : '\r' ∉ cs) : unixBreaks cs = cs := by
  induction cs with
  | nil => rfl
  | cons c cs ih =>
    rw [List.mem_cons, not_or] at h
    rw [unixBreaks.eq_def]
    split
    · rename_i heq
      cases heq
    · rename_i heq
      exact absurd (List.cons.inj heq).1.symm h.1
    · rename_i heq
      cases heq
      rw [if_neg (Ne.symm h.1), ih h.2]

theorem textOfBytes_bytesOfText {s : String} (h : '\r' ∉ s.toList) : textOfBytes (bytesOfText s) = .ok s := by
  simp only [textOfBytes, bytesOfText, Text.Utf8.decode_encode, unixBreaks_of_notMem h, String.ofList_toList]

theorem node?_of_put (h : put t place n = .ok t') : node? t' place = some n := by
  rw [put] at h
  split at h
  · cases h
  split at h
  · cases h
  rename_i hfolder
  split at h
  · cases h
  cases h
  cases hnames : place.names.isEmpty with
  | true => exact absurd (by simp [isFolder, node?, hnames]) hfolder
  | false => rw [node?, hnames, if_neg Bool.false_ne_true, Assoc.get?_put, if_pos rfl]

theorem exists_put (h : put t place n = .ok t') (m : Node) : ∃ t'', put t place m = .ok t'' := by
  rw [put] at h ⊢
  split at h
  · cases h
  rename_i hblocked
  split at h
  · cases h
  rename_i hfolder
  split at h
  · cases h
  rename_i hparent
  rw [if_neg hblocked, if_neg hfolder, if_neg hparent]
  exact ⟨_, rfl⟩

theorem exists_putDeep (h : putDeep t place n = .ok t') (m : Node) : ∃ t'', putDeep t place m = .ok t'' := by
  rw [putDeep] at h ⊢
  cases hfolder : makeFolder t place.parent with
  | error e =>
    rw [hfolder] at h
    cases h
  | ok t₁ =>
    rw [hfolder] at h
    exact exists_put h m

theorem node?_addFolder (h : node? t other = some n) (place : Path) : node? (addFolder t place) other = some n := by
  rw [addFolder]
  split
  · exact h
  · rename_i hexists
    have hne : place ≠ other := by
      rintro rfl
      simp [exists?, h] at hexists
    rw [node?] at h ⊢
    rw [Assoc.get?_put, if_neg hne]
    exact h

theorem node?_foldl_addFolder (h : node? t other = some n) (places : List Path) :
    node? (places.foldl addFolder t) other = some n := by
  induction places generalizing t with
  | nil => exact h
  | cons p ps ih => exact ih (node?_addFolder h p)

theorem node?_makeFolder (h : makeFolder t place = .ok t') (hn : node? t other = some n) :
    node? t' other = some n := by
  rw [makeFolder] at h
  split at h
  · cases h
  split at h
  · cases h
  cases h
  exact node?_foldl_addFolder hn _

theorem node?_put_of_ne (h : put t place m = .ok t') (hne : place ≠ other) : node? t' other = node? t other := by
  rw [put] at h
  split at h
  · cases h
  split at h
  · cases h
  split at h
  · cases h
  cases h
  rw [node?, node?, Assoc.get?_put, if_neg hne]

theorem node?_putDeep (h : putDeep t place m = .ok t') (hne : place ≠ other) (hn : node? t other = some n) :
    node? t' other = some n := by
  rw [putDeep] at h
  cases hfolder : makeFolder t place.parent with
  | error e =>
    rw [hfolder] at h
    cases h
  | ok t₁ =>
    rw [hfolder] at h
    rw [node?_put_of_ne h hne]
    exact node?_makeFolder hfolder hn

theorem text_of_putDeep {s : String} (hs : '\r' ∉ s.toList)
    (h : putDeep t place (.file (bytesOfText s)) = .ok t') : t'.text place = .ok s := by
  rw [putDeep] at h
  cases hfolder : makeFolder t place.parent with
  | error e =>
    rw [hfolder] at h
    cases h
  | ok t₁ =>
    rw [hfolder] at h
    have hnode := node?_of_put h
    simp only [text, bytes, hnode]
    exact textOfBytes_bytesOfText hs

end FileTree

def World.accepts (w : World) (p : Path) : Bool := (w.files.putDeep (w.place p) (.file [])).isOk

theorem World.exists_putDeep {w : World} {p : Path} (h : w.accepts p) (n : Node) :
    ∃ files, w.files.putDeep (w.place p) n = .ok files := by
  rw [accepts] at h
  cases hput : w.files.putDeep (w.place p) (.file []) with
  | ok files => exact FileTree.exists_putDeep hput n
  | error e =>
    rw [hput] at h
    cases h

namespace Session

variable {w w' : World}

theorem lift_eq_ok_iff {α : Type} {x : Except Error α} {a : α} :
    lift x w = .ok a w' ↔ x = .ok a ∧ w = w' := by
  cases x with
  | ok b =>
    change EStateM.Result.ok b w = .ok a w' ↔ _
    simp
  | error e =>
    change EStateM.Result.error e w = .ok a w' ↔ _
    simp

theorem changeFiles_eq_ok_iff {f : FileTree → Except Error FileTree} :
    changeFiles f w = .ok () w' ↔ ∃ files, f w.files = .ok files ∧ w' = { w with files := files } := by
  simp only [changeFiles, bind_eq_ok_iff, get_eq_ok_iff, lift_eq_ok_iff, modify_eq_ok_iff]
  constructor
  · rintro ⟨_, _, ⟨rfl, rfl⟩, files, _, ⟨hfiles, rfl⟩, rfl⟩
    exact ⟨files, hfiles, rfl⟩
  · rintro ⟨files, hfiles, rfl⟩
    exact ⟨w, w, ⟨rfl, rfl⟩, files, w, ⟨hfiles, rfl⟩, rfl⟩

theorem exists_writeText {p : Path} (h : w.accepts p) (s : String) : ∃ w', writeText p s w = .ok () w' := by
  obtain ⟨files, hput⟩ := World.exists_putDeep h (.file (FileTree.bytesOfText s))
  exact ⟨_, bind_eq_ok_iff.2 ⟨_, _, get_eq_ok_iff.2 ⟨rfl, rfl⟩, changeFiles_eq_ok_iff.2 ⟨files, hput, rfl⟩⟩⟩

theorem text_of_writeText {p : Path} {s : String} (hs : '\r' ∉ s.toList) (h : writeText p s w = .ok () w') :
    w'.files.text (w'.place p) = .ok s := by
  obtain ⟨_, _, hget, h⟩ := bind_eq_ok_iff.1 h
  obtain ⟨rfl, rfl⟩ := get_eq_ok_iff.1 hget
  obtain ⟨files, hfiles, rfl⟩ := changeFiles_eq_ok_iff.1 h
  exact FileTree.text_of_putDeep hs hfiles

end Session

namespace Command

theorem textAt?_eq {p : Path} {s : String} {w : World} (h : w.files.text (w.place p) = .ok s) :
    textAt? p w = .ok (some s) w := by
  refine bind_eq_ok_iff.2 ⟨w, w, get_eq_ok_iff.2 ⟨rfl, rfl⟩, ?_⟩
  rw [h]
  rfl

theorem textAt?_of_writeText {p q : Path} {s : String} {w w' v : World} (hs : '\r' ∉ s.toList)
    (hwrite : Session.writeText p s w = .ok () w')
    (hfile : v.files.text (v.place q) = w'.files.text (w'.place p)) : textAt? q v = .ok (some s) v :=
  textAt?_eq (hfile.trans (Session.text_of_writeText hs hwrite))

end Command

end Kitting
