namespace ChangeRelay.Text

/-- The characters of the Unicode property White_Space. -/
def isBlank (c : Char) : Bool :=
  let n := c.toNat
  (9 ≤ n && n ≤ 13) || n == 0x20 || n == 0x85 || n == 0xA0 || n == 0x1680 ||
    (0x2000 ≤ n && n ≤ 0x200A) || n == 0x2028 || n == 0x2029 || n == 0x202F || n == 0x205F ||
    n == 0x3000

def trimStart (s : List Char) : List Char := s.dropWhile isBlank

def trimEnd (s : List Char) : List Char := (s.reverse.dropWhile isBlank).reverse

def trim (s : List Char) : List Char := trimEnd (trimStart s)

theorem trimStart_append_blank {b s : List Char} (h : ∀ c ∈ b, isBlank c) :
    trimStart (b ++ s) = trimStart s := by
  induction b with
  | nil => rfl
  | cons c b ih =>
    simp only [trimStart, List.cons_append, List.dropWhile_cons, h c (by simp), if_true] at ih ⊢
    exact ih fun d hd ↦ h d (by simp [hd])

theorem trim_of_blanks {b w b' : List Char} (hb : ∀ c ∈ b, isBlank c = true)
    (hb' : ∀ c ∈ b', isBlank c = true) (hw : ∀ c ∈ w, isBlank c = false) :
    trim (b ++ w ++ b') = w := by
  have hr : ∀ c ∈ b'.reverse, isBlank c = true := by simpa using hb'
  have start : ∀ {u : List Char}, (∀ c ∈ u, isBlank c = false) → trimStart u = u := by
    intro u hu
    cases u with
    | nil => rfl
    | cons c u => exact List.dropWhile_cons_of_neg (by simp [hu c])
  unfold trim
  rw [List.append_assoc, trimStart_append_blank hb]
  cases w with
  | nil =>
    have h : trimStart (b' ++ []) = [] := trimStart_append_blank hb'
    rw [List.nil_append, ← List.append_nil b', h]
    rfl
  | cons c w =>
    have h : trimStart (c :: w ++ b') = c :: w ++ b' :=
      List.dropWhile_cons_of_neg (by simp [hw c])
    have he : trimEnd (c :: w ++ b') = (trimStart (b'.reverse ++ (c :: w).reverse)).reverse := by
      rw [← List.reverse_append]
      rfl
    rw [h, he, trimStart_append_blank hr,
      start fun c' hc ↦ hw c' (List.mem_reverse.mp hc), List.reverse_reverse]

theorem exists_trim (s : List Char) :
    ∃ b b', s = b ++ trim s ++ b' ∧ (∀ c ∈ b, isBlank c = true) ∧ ∀ c ∈ b', isBlank c = true := by
  have blanks : ∀ u : List Char, ∀ c ∈ u.takeWhile isBlank, isBlank c = true :=
    fun u ↦ List.all_eq_true.mp (List.all_takeWhile)
  refine ⟨s.takeWhile isBlank, ((trimStart s).reverse.takeWhile isBlank).reverse, ?_, blanks s,
    by simpa using blanks _⟩
  have h : trim s ++ ((trimStart s).reverse.takeWhile isBlank).reverse = trimStart s := by
    unfold trim trimEnd
    rw [← List.reverse_append, List.takeWhile_append_dropWhile, List.reverse_reverse]
  rw [List.append_assoc, h]
  exact List.takeWhile_append_dropWhile.symm

end ChangeRelay.Text
