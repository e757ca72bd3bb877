namespace Kitting

abbrev Assoc (κ ν : Type) := List (κ × ν)

namespace Assoc

variable {κ ν : Type} [DecidableEq κ]

def get? : Assoc κ ν → κ → Option ν
  | [], _ => none
  | (k, v) :: rest, key => if k = key then some v else get? rest key

def alter (f : Option ν → ν) (key : κ) : Assoc κ ν → Assoc κ ν
  | [] => [(key, f none)]
  | (k, v) :: rest => if k = key then (k, f (some v)) :: rest else (k, v) :: alter f key rest

def put (m : Assoc κ ν) (key : κ) (value : ν) : Assoc κ ν := alter (fun _ => value) key m

def erase (m : Assoc κ ν) (key : κ) : Assoc κ ν := m.filter (·.1 ≠ key)

def keys (m : Assoc κ ν) : List κ := m.map (·.1)

/-- Of two pairs with one key, the first gives the position and the last the value. -/
def ofPairs (pairs : List (κ × ν)) : Assoc κ ν := pairs.foldl (fun m p => put m p.1 p.2) []

def has (m : Assoc κ ν) (key : κ) : Bool := (get? m key).isSome

@[simp] theorem get?_nil (key : κ) : get? ([] : Assoc κ ν) key = none := rfl

theorem get?_append (m m' : Assoc κ ν) (key : κ) : get? (m ++ m') key = (get? m key).or (get? m' key) := by
  induction m with
  | nil => rfl
  | cons p rest ih =>
    obtain ⟨k, v⟩ := p
    by_cases hk : k = key
    · simp [get?, hk]
    · simp [get?, hk, ih]

theorem get?_alter (f : Option ν → ν) (m : Assoc κ ν) (key other : κ) :
    get? (alter f key m) other = if key = other then some (f (get? m key)) else get? m other := by
  induction m with
  | nil => simp [alter, get?]
  | cons p rest ih =>
    obtain ⟨k, v⟩ := p
    by_cases hk : k = key
    · subst hk; simp only [alter, get?, if_pos]; split <;> simp_all
    · by_cases ho : k = other
      · subst ho; simp [alter, get?, hk, Ne.symm hk]
      · simp [alter, get?, hk, ho, ih]

theorem get?_put (m : Assoc κ ν) (key other : κ) (value : ν) :
    get? (put m key value) other = if key = other then some value else get? m other :=
  get?_alter _ m key other

theorem keys_alter (f : Option ν → ν) (m : Assoc κ ν) (key : κ) :
    keys (alter f key m) = if key ∈ keys m then keys m else keys m ++ [key] := by
  induction m with
  | nil => simp [alter, keys]
  | cons p rest ih =>
    obtain ⟨k, v⟩ := p
    by_cases hk : k = key
    · simp [alter, keys, hk]
    · simp only [keys, alter, hk, if_false, List.map_cons, List.mem_cons, Ne.symm hk, false_or] at ih ⊢
      split <;> simp_all

theorem keys_put (m : Assoc κ ν) (key : κ) (value : ν) :
    keys (put m key value) = if key ∈ keys m then keys m else keys m ++ [key] :=
  keys_alter _ m key

theorem nodup_keys_alter {m : Assoc κ ν} (h : (keys m).Nodup) (f : Option ν → ν) (key : κ) :
    (keys (alter f key m)).Nodup := by
  rw [keys_alter]
  split
  case isTrue => exact h
  case isFalse hk =>
    refine List.nodup_append.2 ⟨h, by simp, ?_⟩
    intro a ha b hb
    rw [List.mem_singleton.1 hb]
    exact fun hak => hk (hak ▸ ha)

theorem nodup_keys_put {m : Assoc κ ν} (h : (keys m).Nodup) (key : κ) (value : ν) :
    (keys (put m key value)).Nodup :=
  nodup_keys_alter h _ key

theorem alter_of_notMem (f : Option ν → ν) {m : Assoc κ ν} {key : κ} (h : key ∉ keys m) :
    alter f key m = m ++ [(key, f none)] := by
  induction m with
  | nil => rfl
  | cons p rest ih =>
    obtain ⟨k, v⟩ := p
    simp only [keys, List.map_cons, List.mem_cons, not_or] at h
    rw [alter, if_neg (Ne.symm h.1), ih h.2, List.cons_append]

theorem ofPairs_of_nodup {pairs : List (κ × ν)} (h : (keys pairs).Nodup) : ofPairs pairs = pairs := by
  suffices hfold : ∀ m : Assoc κ ν, (keys (m ++ pairs)).Nodup →
      pairs.foldl (fun m p => put m p.1 p.2) m = m ++ pairs from hfold [] h
  clear h
  induction pairs with
  | nil => exact fun m _ => (List.append_nil m).symm
  | cons p pairs ih =>
    intro m hm
    have hnot : p.1 ∉ keys m := by
      rw [keys, List.map_append, List.nodup_append] at hm
      exact fun hmem => hm.2.2 _ hmem _ List.mem_cons_self rfl
    rw [List.foldl_cons, put, alter_of_notMem _ hnot, ih _ (by rwa [List.append_assoc]), List.append_assoc]
    rfl

theorem get?_erase (m : Assoc κ ν) (key other : κ) :
    get? (erase m key) other = if key = other then none else get? m other := by
  simp only [erase]
  induction m with
  | nil => simp
  | cons p rest ih =>
    obtain ⟨k, v⟩ := p
    by_cases hk : k = key
    · subst hk
      rw [List.filter_cons_of_neg (by simp), ih]
      simp only [get?]
      split <;> rfl
    · rw [List.filter_cons_of_pos (by simpa using hk)]
      by_cases ho : k = other
      · simp [get?, ho, show key ≠ other from fun h => hk (ho.trans h.symm)]
      · rw [get?, get?, if_neg ho, if_neg ho, ih]

theorem keys_erase (m : Assoc κ ν) (key : κ) : keys (erase m key) = (keys m).filter (· ≠ key) := by
  simp only [keys, erase, List.filter_map]
  rfl

theorem mem_keys_iff {m : Assoc κ ν} {key : κ} : key ∈ keys m ↔ ∃ value, get? m key = some value := by
  induction m with
  | nil => simp [keys]
  | cons p rest ih =>
    obtain ⟨k, v⟩ := p
    by_cases hk : k = key
    · simp [keys, get?, hk]
    · simp only [keys, List.map_cons, List.mem_cons, Ne.symm hk, false_or, get?, hk, if_false] at ih ⊢
      exact ih

theorem mem_iff_get? {m : Assoc κ ν} (h : (keys m).Nodup) {key : κ} {value : ν} :
    (key, value) ∈ m ↔ get? m key = some value := by
  induction m with
  | nil => simp
  | cons p rest ih =>
    obtain ⟨k, v⟩ := p
    rw [keys, List.map_cons, List.nodup_cons] at h
    by_cases hk : k = key
    · subst hk
      have hnot : (k, value) ∉ rest := fun hmem => h.1 (List.mem_map.2 ⟨_, hmem, rfl⟩)
      simp [get?, hnot, eq_comm]
    · simp [get?, hk, Ne.symm hk, ih h.2]

section Fold

variable {α : Type} (f : α → Option ν → ν) (keyOf : α → κ)

theorem get?_foldl_alter (xs : List α) (m : Assoc κ ν) (key : κ) :
    get? (xs.foldl (fun m x => alter (f x) (keyOf x) m) m) key =
      (xs.filter (keyOf · = key)).foldl (fun o x => some (f x o)) (get? m key) := by
  induction xs generalizing m with
  | nil => rfl
  | cons x xs ih =>
    rw [List.foldl_cons, ih, get?_alter]
    by_cases hx : keyOf x = key
    · rw [if_pos hx, List.filter_cons_of_pos (by simpa using hx), List.foldl_cons, hx]
    · rw [if_neg hx, List.filter_cons_of_neg (by simpa using hx)]

theorem get?_foldl_append (xs : List α) (key : κ) :
    get? (xs.foldl (fun m x => alter (fun entries => entries.getD [] ++ [x]) (keyOf x) m) []) key =
      if xs.filter (keyOf · = key) = [] then none else some (xs.filter (keyOf · = key)) := by
  have hfold (l : List α) (o : Option (List α)) :
      l.foldl (fun o x => some (o.getD [] ++ [x])) o = if l = [] then o else some (o.getD [] ++ l) := by
    induction l generalizing o with
    | nil => rfl
    | cons x l ih =>
      rw [List.foldl_cons, ih, if_neg (List.cons_ne_nil x l)]
      by_cases hl : l = []
      · rw [if_pos hl, hl]
      · rw [if_neg hl, Option.getD_some, List.append_assoc, List.singleton_append]
  rw [get?_foldl_alter, get?_nil, hfold]
  rfl

theorem get?_ofPairs_eq (pairs : List (κ × ν)) (key : κ) :
    get? (ofPairs pairs) key = (pairs.filter (·.1 = key)).getLast?.map (·.2) := by
  have hfold (l : List (κ × ν)) (o : Option ν) :
      l.foldl (fun _ p => some p.2) o = (l.getLast?.map (·.2)).or o := by
    induction l generalizing o with
    | nil => rfl
    | cons p l ih =>
      rw [List.foldl_cons, ih]
      cases l with
      | nil => rfl
      | cons q l => rw [List.getLast?_cons_cons]; rfl
  refine (get?_foldl_alter (fun (p : κ × ν) _ => p.2) (·.1) pairs [] key).trans ?_
  rw [hfold, get?_nil, Option.or_none]

theorem get?_ofPairs {before after : List (κ × ν)} {key : κ} (value : ν) (h : ∀ p ∈ after, p.1 ≠ key) :
    get? (ofPairs (before ++ (key, value) :: after)) key = some value := by
  have hnone : after.filter (·.1 = key) = [] := List.filter_eq_nil_iff.2 (by simpa using h)
  rw [get?_ofPairs_eq, List.filter_append, List.filter_cons_of_pos (by simp), hnone, List.getLast?_concat,
    Option.map_some]

theorem nodup_keys_foldl_alter (xs : List α) {m : Assoc κ ν} (h : (keys m).Nodup) :
    (keys (xs.foldl (fun m x => alter (f x) (keyOf x) m) m)).Nodup := by
  induction xs generalizing m with
  | nil => exact h
  | cons x xs ih => exact ih (nodup_keys_alter h _ _)

theorem keys_foldl_alter (xs : List α) (m : Assoc κ ν) :
    keys (xs.foldl (fun m x => alter (f x) (keyOf x) m) m) =
      keys m ++ ((xs.map keyOf).filter (fun key => key ∉ keys m)).eraseDups := by
  induction xs generalizing m with
  | nil => simp
  | cons x xs ih =>
    rw [List.foldl_cons, ih, keys_alter, List.map_cons]
    by_cases hx : keyOf x ∈ keys m
    · rw [if_pos hx, List.filter_cons_of_neg (by simpa using hx)]
    · rw [if_neg hx, List.filter_cons_of_pos (by simpa using hx), List.eraseDups_cons, List.filter_filter,
        List.append_assoc, List.singleton_append]
      refine congrArg (fun l => keys m ++ keyOf x :: l.eraseDups) (List.filter_congr fun key _ => ?_)
      rw [Bool.eq_iff_iff]
      simp [and_comm]

theorem keys_ofPairs (pairs : List (κ × ν)) : keys (ofPairs pairs) = (pairs.map (·.1)).eraseDups := by
  refine (keys_foldl_alter (fun (p : κ × ν) _ => p.2) (·.1) pairs []).trans ?_
  rw [keys, List.map_nil, List.nil_append, List.filter_eq_self.2 fun _ _ => by simp]

end Fold

end Assoc

end Kitting
