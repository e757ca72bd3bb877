import Mathlib.Data.List.Forall2

namespace Kitting

variable {ε σ α β : Type} {s s' : σ}

theorem bind_eq_ok_iff {x : EStateM ε σ α} {f : α → EStateM ε σ β} {b : β} :
    (x >>= f) s = .ok b s' ↔ ∃ a t, x s = .ok a t ∧ f a t = .ok b s' := by
  change EStateM.bind x f s = _ ↔ _
  rw [EStateM.bind]
  cases x s with
  | ok a t =>
    constructor
    · exact fun h => ⟨a, t, rfl, h⟩
    · rintro ⟨_, _, ⟨⟩, h⟩
      exact h
  | error e t => simp

theorem pure_eq_ok_iff {a b : α} : (pure a : EStateM ε σ α) s = .ok b s' ↔ a = b ∧ s = s' := by
  change EStateM.Result.ok a s = .ok b s' ↔ _
  simp

theorem get_eq_ok_iff {t : σ} : (get : EStateM ε σ σ) s = .ok t s' ↔ s = t ∧ s = s' := by
  change EStateM.Result.ok s s = .ok t s' ↔ _
  simp

theorem get_bind (f : σ → EStateM ε σ β) (s : σ) : (get >>= f) s = f s s := rfl

theorem modify_eq_ok_iff {f : σ → σ} : (modify f : EStateM ε σ PUnit) s = .ok () s' ↔ f s = s' := by
  change EStateM.Result.ok () (f s) = .ok () s' ↔ _
  simp

theorem bind_eq_error_iff {x : EStateM ε σ α} {f : α → EStateM ε σ β} {e : ε} :
    (x >>= f) s = .error e s' ↔ x s = .error e s' ∨ ∃ a t, x s = .ok a t ∧ f a t = .error e s' := by
  change EStateM.bind x f s = _ ↔ _
  rw [EStateM.bind]
  cases x s with
  | error e t => simp
  | ok a t =>
    constructor
    · exact fun h => .inr ⟨a, t, rfl, h⟩
    · rintro (⟨⟨⟩⟩ | ⟨_, _, ⟨⟩, h⟩)
      exact h

theorem map_eq_ok_iff {x : EStateM ε σ α} {g : α → β} {b : β} :
    (g <$> x) s = .ok b s' ↔ ∃ a, x s = .ok a s' ∧ g a = b := by
  change EStateM.map g x s = _ ↔ _
  rw [EStateM.map]
  cases x s with
  | error e t => simp
  | ok a t => simp [and_comm]

theorem map_eq_error_iff {x : EStateM ε σ α} {g : α → β} {e : ε} :
    (g <$> x) s = .error e s' ↔ x s = .error e s' := by
  change EStateM.map g x s = _ ↔ _
  rw [EStateM.map]
  cases x s <;> simp

theorem tryCatch_eq_ok_iff {x : EStateM ε σ α} {h : ε → EStateM ε σ α} {a : α} :
    tryCatch x h s = .ok a s' ↔ x s = .ok a s' ∨ ∃ e t, x s = .error e t ∧ h e t = .ok a s' := by
  change EStateM.tryCatch x h s = _ ↔ _
  rw [EStateM.tryCatch]
  cases x s with
  | ok b t => simp
  | error e t =>
    constructor
    · exact fun hok => .inr ⟨e, t, rfl, hok⟩
    · rintro (⟨⟨⟩⟩ | ⟨_, _, ⟨⟩, hok⟩)
      exact hok

theorem tryCatch_eq_error_iff {x : EStateM ε σ α} {h : ε → EStateM ε σ α} {e : ε} :
    tryCatch x h s = .error e s' ↔ ∃ e' t, x s = .error e' t ∧ h e' t = .error e s' := by
  change EStateM.tryCatch x h s = _ ↔ _
  rw [EStateM.tryCatch]
  cases x s with
  | ok b t => simp
  | error e' t =>
    constructor
    · exact fun herror => ⟨e', t, rfl, herror⟩
    · rintro ⟨_, _, ⟨⟩, herror⟩
      exact herror

theorem throw_ne_ok {e : ε} {a : α} : (throw e : EStateM ε σ α) s ≠ .ok a s' := by
  change EStateM.Result.error e s ≠ _
  simp

theorem forall₂_of_mapM {f : α → EStateM ε σ β} {as : List α} {bs : List β} (h : as.mapM f s = .ok bs s') :
    List.Forall₂ (fun a b => ∃ t t', f a t = .ok b t') as bs := by
  induction as generalizing bs s s' with
  | nil =>
    obtain ⟨rfl, -⟩ := pure_eq_ok_iff.1 h
    exact .nil
  | cons a as ih =>
    rw [List.mapM_cons] at h
    obtain ⟨b, t, hb, h⟩ := bind_eq_ok_iff.1 h
    obtain ⟨bs', t', hbs, h⟩ := bind_eq_ok_iff.1 h
    obtain ⟨rfl, -⟩ := pure_eq_ok_iff.1 h
    exact .cons ⟨_, _, hb⟩ (ih hbs)

end Kitting
