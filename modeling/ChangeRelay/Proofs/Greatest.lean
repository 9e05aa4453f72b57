import Mathlib.Order.Bounds.Basic
import Mathlib.Order.MinMax

namespace ChangeRelay

theorem isGreatest_foldl_max {α β : Type} [LinearOrder β] (value : α → β) (start : β)
    (xs : List α) :
    IsGreatest (insert start {b | ∃ x ∈ xs, value x = b})
      (xs.foldl (fun m x ↦ max m (value x)) start) := by
  induction xs generalizing start with
  | nil => exact ⟨.inl rfl, fun b hb ↦ hb.elim (fun h ↦ h.le) fun ⟨_, hx, _⟩ ↦ by cases hx⟩
  | cons x xs ih =>
    obtain ⟨hmem, hub⟩ := ih (max start (value x))
    have hmax : max start (value x) ≤ (x :: xs).foldl (fun m x ↦ max m (value x)) start :=
      hub (.inl rfl)
    constructor
    · rcases hmem with h | ⟨y, hy, h⟩
      · rw [List.foldl_cons, h]
        rcases max_choice start (value x) with hc | hc
        · exact .inl hc
        · exact .inr ⟨x, List.mem_cons_self, hc.symm⟩
      · exact .inr ⟨y, List.mem_cons_of_mem x hy, h⟩
    · rintro b (rfl | ⟨y, hy, rfl⟩)
      · exact (le_max_left _ _).trans hmax
      · rcases List.mem_cons.mp hy with rfl | hy
        · exact (le_max_right _ _).trans hmax
        · exact hub (.inr ⟨y, hy, rfl⟩)

end ChangeRelay
