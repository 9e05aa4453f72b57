import ChangeRelay.Time.Ticker

namespace ChangeRelay.Time

theorem toMillis_mul (ms : Nat) : toMillis (ms * 1_000_000) = ms := by
  simp only [toMillis, toMillis.milliNanos]
  omega

theorem lt_toMillis_iff {t ns : Nat} : t < toMillis ns ↔ t * 1_000_000 < ns := by
  simp only [toMillis, toMillis.milliNanos]
  omega

def slot (t₀ p now : Nat) : Nat := (now - t₀) / p

theorem slot_lt_slot {t₀ p k m n : Nat} (hp : 0 < p) (h₀ : t₀ ≤ m) (hm : m < t₀ + k * p)
    (hn : t₀ + k * p ≤ n) : slot t₀ p m < slot t₀ p n := by
  have hlt : slot t₀ p m < k := (Nat.div_lt_iff_lt_mul hp).mpr (by omega)
  have hle : k ≤ slot t₀ p n := (Nat.le_div_iff_mul_le hp).mpr (by omega)
  exact Nat.lt_of_lt_of_le hlt hle

namespace Ticker

variable {t : Ticker} {t₀ now : Nat}

/-- The next tick of the timer is due at a point of the grid that begins at `t₀`. -/
def OnGrid (t₀ : Nat) (t : Ticker) : Prop := ∃ k, t.next = t₀ + k * t.period

theorem take_next_of_le (h : now ≤ t.next + tolerance) : (t.take now).next = t.next + t.period :=
  if_pos h

theorem take_next_of_lt (hp : 0 < t.period) (h : t.next + tolerance < now) :
    (t.take now).next = t.next + ((now - t.next) / t.period + 1) * t.period := by
  have htake : (t.take now).next = now + t.period - (now - t.next) % t.period :=
    if_neg (by omega)
  have hdiv := Nat.div_add_mod' (now - t.next) t.period
  have hmod := Nat.mod_lt (now - t.next) hp
  rw [htake, Nat.add_mul, Nat.one_mul]
  omega

/-- A tick that is taken too late moves the timer to the first point of the grid after that. -/
theorem take_next_bounds (hp : 0 < t.period) (h : t.next + tolerance < now) :
    now < (t.take now).next ∧ (t.take now).next ≤ now + t.period := by
  have hdiv := Nat.div_add_mod' (now - t.next) t.period
  have hmod := Nat.mod_lt (now - t.next) hp
  rw [take_next_of_lt hp h, Nat.add_mul, Nat.one_mul]
  omega

theorem add_period_le_take_next (hp : 0 < t.period) (now : Nat) :
    t.next + t.period ≤ (t.take now).next := by
  rcases Nat.lt_or_ge (t.next + tolerance) now with h | h
  · rw [take_next_of_lt hp h, Nat.add_mul, Nat.one_mul]
    omega
  · exact Nat.le_of_eq (take_next_of_le h).symm

theorem OnGrid.le (h : t.OnGrid t₀) : t₀ ≤ t.next := by
  obtain ⟨k, hk⟩ := h
  omega

theorem OnGrid.take (h : t.OnGrid t₀) (hp : 0 < t.period) (now : Nat) :
    (t.take now).OnGrid t₀ := by
  obtain ⟨k, hk⟩ := h
  rcases Nat.lt_or_ge (t.next + tolerance) now with hlt | hle
  · refine ⟨k + ((now - t.next) / t.period + 1), ?_⟩
    rw [take_next_of_lt hp hlt, hk, Nat.add_assoc, ← Nat.add_mul]
    rfl
  · refine ⟨k + 1, ?_⟩
    rw [take_next_of_le hle, hk, Nat.add_assoc, ← Nat.succ_mul]
    rfl

end Ticker

end ChangeRelay.Time
