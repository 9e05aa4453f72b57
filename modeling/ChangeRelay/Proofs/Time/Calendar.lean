import ChangeRelay.Time.Calendar
import Mathlib.Data.Int.Init
import Mathlib.Tactic.SplitIfs

namespace ChangeRelay.Time

theorem daysBeforeYear_succ (y : Int) :
    daysBeforeYear (y + 1) = daysBeforeYear y + if isLeap y then 366 else 365 := by
  unfold daysBeforeYear isLeap
  by_cases h4 : y % 4 = 0 <;> by_cases h100 : y % 100 = 0 <;> by_cases h400 : y % 400 = 0 <;>
    simp [h4, h100, h400] <;> omega

theorem daysBeforeMonth_succ {m : Nat} (h : 1 ≤ m) (y : Int) :
    daysBeforeMonth y (m + 1) = daysBeforeMonth y m + daysInMonth y m := by
  obtain ⟨k, rfl⟩ : ∃ k, m = k + 1 := ⟨m - 1, by omega⟩
  have hsum : ∀ (l : List Nat) (n : Nat), (l ++ [n]).foldr (· + ·) 0 = l.foldr (· + ·) 0 + n := by
    intro l n
    induction l with
    | nil => simp
    | cons a l ih => simp only [List.cons_append, List.foldr_cons, ih, Nat.add_assoc]
  simp only [daysBeforeMonth, Nat.add_sub_cancel, List.range_succ, List.map_append, List.map_cons,
    List.map_nil, hsum]

theorem daysBeforeMonth_thirteen (y : Int) :
    daysBeforeMonth y 13 = if isLeap y then 366 else 365 := by
  cases h : isLeap y <;> simp [daysBeforeMonth, daysInMonth, List.range_succ, h]

theorem daysInMonth_pos (y : Int) (m : Nat) : 0 < daysInMonth y m := by
  unfold daysInMonth
  split <;> try split
  all_goals decide

theorem daysInMonth_le (y : Int) (m : Nat) : daysInMonth y m ≤ 31 := by
  unfold daysInMonth
  split <;> try split
  all_goals decide

theorem daysBeforeYear_mono {y y' : Int} (h : y ≤ y') : daysBeforeYear y ≤ daysBeforeYear y' := by
  unfold daysBeforeYear
  omega

theorem daysBeforeMonth_mono {y : Int} {m m' : Nat} (hm : 1 ≤ m) (h : m ≤ m') :
    daysBeforeMonth y m ≤ daysBeforeMonth y m' := by
  induction h with
  | refl => exact Nat.le_refl _
  | step h ih =>
    rw [daysBeforeMonth_succ (Nat.le_trans hm h)]
    omega

namespace Date

structure InCalendar (d : Date) : Prop where
  month_pos : 1 ≤ d.month
  month_le : d.month ≤ 12
  day_pos : 1 ≤ d.day
  day_le : d.day ≤ daysInMonth d.year d.month

def next (d : Date) : Date :=
  if d.day < daysInMonth d.year d.month then { d with day := d.day + 1 }
  else if d.month < 12 then ⟨d.year, d.month + 1, 1⟩
  else ⟨d.year + 1, 1, 1⟩

/-- The number of a day, counted in either direction from the first of January 1970. -/
inductive Counts : Date → Int → Prop
  | epoch : Counts ⟨1970, 1, 1⟩ 0
  | next {d : Date} {n : Int} (h : Counts d n) : Counts d.next (n + 1)
  | previous {d : Date} {n : Int} (hd : d.InCalendar) (h : Counts d.next (n + 1)) : Counts d n

variable {d d' : Date} {n : Int}

theorem InCalendar.next (h : d.InCalendar) : d.next.InCalendar := by
  obtain ⟨hm, hm', hd, hd'⟩ := h
  unfold Date.next
  split_ifs with hday hmonth
  · exact ⟨hm, hm', by simp, hday⟩
  · exact ⟨by simp, hmonth, Nat.le_refl 1, daysInMonth_pos _ _⟩
  · exact ⟨Nat.le_refl 1, by simp, Nat.le_refl 1, daysInMonth_pos _ _⟩

theorem number_next (h : d.InCalendar) : d.next.number = d.number + 1 := by
  obtain ⟨hm, hm', hd, hd'⟩ := h
  have hmonth := daysBeforeMonth_succ hm d.year
  unfold next number
  split_ifs with hday hlast
  · dsimp only
    omega
  · dsimp only
    omega
  · have hlast : d.month = 12 := by omega
    have hyear : daysBeforeMonth d.year (12 + 1) = _ := daysBeforeMonth_thirteen d.year
    have hfirst : daysBeforeMonth (d.year + 1) 1 = 0 := rfl
    simp only [hlast] at hmonth hday hd' ⊢
    simp only [daysBeforeYear_succ, hfirst]
    split_ifs at hyear ⊢ <;> omega

theorem exists_previous (h : d.InCalendar) : ∃ p : Date, p.InCalendar ∧ p.next = d := by
  obtain ⟨y, m, k⟩ := d
  obtain ⟨hm, hm', hk, hk'⟩ := h
  dsimp only at hm hm' hk hk'
  by_cases hfirst : k = 1
  · subst hfirst
    by_cases hjanuary : m = 1
    · subst hjanuary
      have hlast : daysInMonth (y - 1) 12 = 31 := rfl
      refine ⟨⟨y - 1, 12, 31⟩, ⟨?_, ?_, ?_, Nat.le_refl 31⟩, by simp [next, hlast]⟩ <;> simp
    · refine ⟨⟨y, m - 1, daysInMonth y (m - 1)⟩, ⟨?_, ?_, daysInMonth_pos _ _, Nat.le_refl _⟩, ?_⟩
      · show 1 ≤ m - 1
        omega
      · show m - 1 ≤ 12
        omega
      · have hlt : m - 1 < 12 := by omega
        have hm1 : m - 1 + 1 = m := by omega
        simp [next, hlt, hm1]
  · refine ⟨⟨y, m, k - 1⟩, ⟨hm, hm', ?_, ?_⟩, ?_⟩
    · show 1 ≤ k - 1
      omega
    · show k - 1 ≤ daysInMonth y m
      omega
    · have hlt : k - 1 < daysInMonth y m := by omega
      have hk1 : k - 1 + 1 = k := by omega
      simp [next, hlt, hk1]

theorem InCalendar.number_bounds (h : d.InCalendar) :
    daysBeforeYear d.year ≤ d.number ∧ d.number < daysBeforeYear (d.year + 1) := by
  obtain ⟨hm, hm', hd, hd'⟩ := h
  have hsucc := daysBeforeMonth_succ hm d.year
  have hle : daysBeforeMonth d.year (d.month + 1) ≤ daysBeforeMonth d.year 13 :=
    daysBeforeMonth_mono (by omega) (by omega)
  rw [daysBeforeMonth_thirteen] at hle
  rw [daysBeforeYear_succ, number]
  split_ifs at hle ⊢ <;> omega

theorem InCalendar.number_lt_of_year_lt (h : d.InCalendar) (h' : d'.InCalendar)
    (hlt : d.year < d'.year) : d.number < d'.number := by
  have hmono := daysBeforeYear_mono (show d.year + 1 ≤ d'.year from hlt)
  have hb := h.number_bounds
  have hb' := h'.number_bounds
  omega

theorem InCalendar.number_lt_of_month_lt (h : d.InCalendar) (h' : d'.InCalendar)
    (hy : d.year = d'.year) (hlt : d.month < d'.month) : d.number < d'.number := by
  obtain ⟨hm, -, -, hk⟩ := h
  obtain ⟨-, -, hk', -⟩ := h'
  have hsucc := daysBeforeMonth_succ hm d.year
  have hmono : daysBeforeMonth d.year (d.month + 1) ≤ daysBeforeMonth d.year d'.month :=
    daysBeforeMonth_mono (Nat.le_add_left 1 _) hlt
  rw [number, number, ← hy]
  omega

theorem InCalendar.eq_of_number_eq (h : d.InCalendar) (h' : d'.InCalendar)
    (hn : d.number = d'.number) : d = d' := by
  have hyear : d.year = d'.year := by
    have hle := mt (h.number_lt_of_year_lt h') (by omega)
    have hge := mt (h'.number_lt_of_year_lt h) (by omega)
    omega
  have hmonth : d.month = d'.month := by
    have hle := mt (h.number_lt_of_month_lt h' hyear) (by omega)
    have hge := mt (h'.number_lt_of_month_lt h hyear.symm) (by omega)
    omega
  have hday : d.day = d'.day := by
    rw [number, number, hyear, hmonth] at hn
    omega
  obtain ⟨y, m, k⟩ := d
  obtain ⟨y', m', k'⟩ := d'
  rw [Date.mk.injEq]
  exact ⟨hyear, hmonth, hday⟩

theorem Counts.inCalendar_and_number (h : Counts d n) : d.InCalendar ∧ d.number = n := by
  induction h with
  | epoch => exact ⟨⟨by decide, by decide, by decide, by decide⟩, by decide⟩
  | next _ ih => exact ⟨ih.1.next, by rw [number_next ih.1, ih.2]⟩
  | previous hd _ ih =>
    have hn := number_next hd
    exact ⟨hd, by omega⟩

theorem exists_counts (n : Int) : ∃ d : Date, Counts d n := by
  induction n with
  | zero => exact ⟨_, .epoch⟩
  | succ n ih =>
    obtain ⟨d, hd⟩ := ih
    exact ⟨d.next, hd.next⟩
  | pred n ih =>
    obtain ⟨d, hd⟩ := ih
    obtain ⟨p, hp, rfl⟩ := exists_previous hd.inCalendar_and_number.1
    exact ⟨p, .previous hp (by rwa [Int.sub_add_cancel])⟩

/-- Counting days comes to what the arithmetic of years and months comes to. -/
theorem counts_iff : Counts d n ↔ d.InCalendar ∧ d.number = n := by
  refine ⟨Counts.inCalendar_and_number, fun ⟨hd, hn⟩ ↦ ?_⟩
  obtain ⟨d', h⟩ := exists_counts n
  obtain ⟨hd', hn'⟩ := h.inCalendar_and_number
  rwa [hd.eq_of_number_eq hd' (hn.trans hn'.symm)]

theorem Counts.year_bounds (h : Counts d n) :
    daysBeforeYear d.year ≤ n ∧ n < daysBeforeYear (d.year + 1) := by
  obtain ⟨hd, rfl⟩ := counts_iff.mp h
  exact hd.number_bounds

end Date

end ChangeRelay.Time
