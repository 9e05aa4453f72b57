import Mathlib.Data.List.Forall2

namespace ChangeRelay

variable {ε α β : Type}

theorem bind_eq_ok_iff {x : Except ε α} {f : α → Except ε β} {b : β} :
    (x >>= f) = .ok b ↔ ∃ a, x = .ok a ∧ f a = .ok b := by
  cases x <;> simp [bind, Except.bind]

theorem map_eq_ok_iff {x : Except ε α} {f : α → β} {b : β} :
    x.map f = .ok b ↔ ∃ a, x = .ok a ∧ f a = b := by
  cases x <;> simp [Except.map]

theorem mapM_eq_ok_iff {f : α → Except ε β} {xs : List α} {ys : List β} :
    xs.mapM f = .ok ys ↔ List.Forall₂ (fun x y ↦ f x = .ok y) xs ys := by
  induction xs generalizing ys with
  | nil => cases ys <;> simp [pure, Except.pure]
  | cons x xs ih =>
    rw [List.mapM_cons, bind_eq_ok_iff, List.forall₂_cons_left_iff]
    refine exists_congr fun y ↦ ?_
    rw [bind_eq_ok_iff]
    constructor
    · rintro ⟨hy, zs, hzs, h⟩
      cases h
      exact ⟨zs, hy, ih.mp hzs, rfl⟩
    · rintro ⟨zs, hy, hzs, rfl⟩
      exact ⟨hy, zs, ih.mpr hzs, rfl⟩

theorem exists_forall₂_iff {R : α → β → Prop} {xs : List α} :
    (∃ ys, List.Forall₂ R xs ys) ↔ ∀ x ∈ xs, ∃ y, R x y := by
  induction xs with
  | nil => simp
  | cons x xs ih =>
    rw [List.forall_mem_cons, ← ih]
    constructor
    · rintro ⟨_, _ | ⟨hx, h⟩⟩
      exact ⟨⟨_, hx⟩, _, h⟩
    · rintro ⟨⟨y, hx⟩, ys, h⟩
      exact ⟨y :: ys, .cons hx h⟩

/-- What every step keeps holds of the result of all of them. -/
theorem foldlM_keeps {P : β → Prop} {f : β → α → Except ε β}
    (hf : ∀ {b a b'}, P b → f b a = .ok b' → P b') {xs : List α} {b b' : β} (hb : P b)
    (h : xs.foldlM f b = .ok b') : P b' := by
  induction xs generalizing b with
  | nil =>
    cases h
    exact hb
  | cons x xs ih =>
    rw [List.foldlM_cons, bind_eq_ok_iff] at h
    obtain ⟨c, hc, h⟩ := h
    exact ih (hf hb hc) h

end ChangeRelay
