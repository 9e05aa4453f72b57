import ChangeRelay.Text.Blank
import Mathlib.Algebra.Group.Nat.Defs

namespace ChangeRelay.Text

variable {r : List Char}

/-- A text that does not go on with the digits before it. -/
def EndsDigits (r : List Char) : Prop := ∀ c ∈ r.head?, c.isDigit = false

theorem EndsDigits.take (h : EndsDigits r) (n : Nat) : EndsDigits (r.take n) := by
  cases r with
  | nil => simpa using h
  | cons c r =>
    cases n with
    | zero => simp [EndsDigits]
    | succ n => exact h

theorem takeWhile_digits {ds : List Char} (hd : ∀ c ∈ ds, c.isDigit = true) (hr : EndsDigits r) :
    (ds ++ r).takeWhile Char.isDigit = ds := by
  rw [List.takeWhile_append_of_pos hd]
  cases r with
  | nil => simp
  | cons c r => simp [hr c rfl]

theorem dropWhile_digits {ds : List Char} (hd : ∀ c ∈ ds, c.isDigit = true) (hr : EndsDigits r) :
    (ds ++ r).dropWhile Char.isDigit = r := by
  rw [List.dropWhile_append_of_pos hd]
  cases r with
  | nil => rfl
  | cons c r => simp [hr c rfl]

theorem isBlank_of_isDigit {c : Char} (h : c.isDigit = true) : isBlank c = false := by
  have hc : 48 ≤ c.toNat ∧ c.toNat ≤ 57 := Char.isDigit_iff_toNat.mp h
  unfold isBlank
  simp only [Bool.or_eq_false_iff, Bool.and_eq_false_iff, decide_eq_false_iff_not,
    beq_eq_false_iff_ne]
  omega

theorem trimStart_cons {c : Char} (h : isBlank c = false) (s : List Char) :
    trimStart (c :: s) = c :: s :=
  List.dropWhile_cons_of_neg (by simp [h])

def digits : Nat → Nat → List Char
  | 0, _ => []
  | width + 1, n => digits width (n / 10) ++ [Nat.digitChar (n % 10)]

theorem digitChar_spec : ∀ d < 10, (Nat.digitChar d).isDigit = true ∧
    (Nat.digitChar d).toNat - 48 = d := by
  decide

theorem length_digits (width n : Nat) : (digits width n).length = width := by
  induction width generalizing n with
  | zero => rfl
  | succ width ih => simp [digits, ih]

theorem isDigit_digits (width n : Nat) : ∀ c ∈ digits width n, c.isDigit = true := by
  induction width generalizing n with
  | zero => simp [digits]
  | succ width ih =>
    rw [digits, List.forall_mem_append]
    exact ⟨ih _, List.forall_mem_singleton.mpr (digitChar_spec _ (Nat.mod_lt _ (by decide))).1⟩

theorem digits_add (width more n : Nat) :
    digits (width + more) n = digits width (n / 10 ^ more) ++ digits more n := by
  induction more generalizing n with
  | zero => simp [digits]
  | succ more ih =>
    rw [← Nat.add_assoc, digits, ih, digits, Nat.div_div_eq_div_mul, ← Nat.pow_succ',
      List.append_assoc]

theorem digits_cons {width : Nat} (hw : 0 < width) (n : Nat) :
    ∃ c u, digits width n = c :: u ∧ c.isDigit = true := by
  cases h : digits width n with
  | nil =>
    have hlen := length_digits width n
    rw [h] at hlen
    exact absurd hw (by simp [← hlen])
  | cons c u => exact ⟨c, u, rfl, isDigit_digits width n c (by simp [h])⟩

theorem trimStart_digits {width : Nat} (hw : 0 < width) (n : Nat) (r : List Char) :
    trimStart (digits width n ++ r) = digits width n ++ r := by
  obtain ⟨c, u, h, hc⟩ := digits_cons hw n
  rw [h, List.cons_append]
  exact trimStart_cons (isBlank_of_isDigit hc) _

end ChangeRelay.Text
