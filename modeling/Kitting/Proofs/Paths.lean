import Kitting.Command.Run

namespace Kitting

open Text

namespace Path

variable {s s' : String} {folder p : Path}

structure IsFileName (s : String) : Prop where
  unbroken : '/' ∉ s.toList
  long : 2 < s.length

theorem fieldsOf_of_notMem {sep : Char} {cs : List Char} (h : sep ∉ cs) : fieldsOf sep cs = [cs] := by
  induction cs with
  | nil => rfl
  | cons c cs ih =>
    rw [List.mem_cons, not_or] at h
    rw [fieldsOf, if_neg (Ne.symm h.1), ih h.2]

theorem rootOf_of_notMem {cs : List Char} (h : '/' ∉ cs) : rootOf cs = "" := by
  cases cs with
  | nil => rfl
  | cons c cs =>
    rw [List.mem_cons, not_or] at h
    rw [rootOf.eq_def]
    split <;> simp_all

theorem IsFileName.ofText (h : IsFileName s) : ofText s = ⟨"", [s]⟩ := by
  have hempty : s ≠ "" := by
    rintro rfl
    exact absurd h.long (by decide)
  have hdot : s ≠ "." := by
    rintro rfl
    exact absurd h.long (by decide)
  rw [Path.ofText, rootOf_of_notMem h.unbroken, fieldsOf_of_notMem h.unbroken, List.map_singleton,
    String.ofList_toList, List.filter_cons_of_pos (by simp [hempty, hdot]), List.filter_nil]

theorem IsFileName.div (h : IsFileName s) (folder : Path) : folder / s = ⟨folder.root, folder.names ++ [s]⟩ := by
  change folder.join (Path.ofText s) = _
  rw [h.ofText]
  rfl

theorem IsFileName.resolve (h : IsFileName s) (folder cwd : Path) :
    (folder / s).resolve cwd = ⟨(folder.resolve cwd).root, (folder.resolve cwd).names ++ [s]⟩ := by
  have hup : s ≠ ".." := by
    rintro rfl
    exact absurd h.long (by decide)
  have hcollapse (names : List String) : collapse (names ++ [s]) = collapse names ++ [s] := by
    rw [collapse, List.foldl_append, List.foldl_cons, List.foldl_nil, if_neg hup, collapse]
  rw [h.div, Path.resolve, Path.resolve]
  cases hroot : folder.root.isEmpty <;> simp only [join, hroot, if_true, Bool.false_eq_true, if_false]
  · rw [hcollapse]
  · rw [← List.append_assoc, hcollapse]

theorem IsFileName.eq_of_resolve {cwd : Path} (h : IsFileName s) (h' : IsFileName s')
    (heq : (folder / s).resolve cwd = (folder / s').resolve cwd) : s = s' := by
  rw [h.resolve, h'.resolve, Path.mk.injEq] at heq
  exact List.singleton_inj.1 (List.append_cancel_left heq.2)

theorem stem_ne_empty (h : p.suffix ≠ "") : p.stem ≠ "" := by
  rw [suffix, splitName] at h
  rw [stem, splitName]
  split at h
  · exact absurd rfl h
  · rename_i hsplit
    rw [if_neg hsplit]
    simp only [Bool.or_eq_true, not_or, List.isEmpty_iff] at hsplit
    simpa using hsplit.2

end Path

namespace Order

variable {t : FileTree} {cwd p : Path} {paths : List Path}

theorem stem_ne_empty (h : isOrderFile p) : p.stem ≠ "" := by
  refine Path.stem_ne_empty fun hempty => ?_
  rw [isOrderFile, Path.hasSuffix, hempty] at h
  revert h
  decide +kernel

theorem isOrderFile_of_files (h : files t cwd p = .ok paths) : ∀ q ∈ paths, isOrderFile q := by
  simp only [files] at h
  split at h
  · cases h
    intro q hq
    obtain ⟨n, hn, rfl⟩ := List.mem_map.1 hq
    have hfile := (List.mem_filter.1 (List.mem_mergeSort.1 hn)).2
    rw [Bool.and_eq_true] at hfile
    have hname : (p.join ⟨"", [n]⟩).name = (Path.mk "" [n]).name := by simp [Path.join, Path.name]
    rw [isOrderFile, Path.hasSuffix, Path.suffix, hname]
    exact hfile.2
  split at h
  · cases h
    simpa
  · cases h

end Order

end Kitting
