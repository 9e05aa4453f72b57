import ChangeRelay.Text.Utf8
import Mathlib.Data.String.Basic
import Mathlib.Tactic.SplitIfs

namespace ChangeRelay.Text.Utf8

variable {a b : UInt8} {c : Char} {r s : List UInt8} {n x y z w : Nat}

/-- The shortest form of the character with the given code. -/
def form (n : Nat) : List UInt8 :=
  if n < 0x80 then [.ofNat n]
  else if n < 0x800 then [.ofNat (n / 64 + 0xC0), .ofNat (n % 64 + 0x80)]
  else if n < 0x10000 then
    [.ofNat (n / 4096 + 0xE0), .ofNat (n / 64 % 64 + 0x80), .ofNat (n % 64 + 0x80)]
  else
    [.ofNat (n / 262144 + 0xF0), .ofNat (n / 4096 % 64 + 0x80), .ofNat (n / 64 % 64 + 0x80),
      .ofNat (n % 64 + 0x80)]

theorem toNat_lt (c : Char) : c.toNat < 0x110000 := by
  rcases c.valid with h | ⟨-, h⟩
  · exact Nat.lt_trans h (by decide)
  · exact h

theorem utf8EncodeChar_eq (c : Char) : String.utf8EncodeChar c = form c.toNat := by
  have hc := toNat_lt c
  have hv : c.val.toNat = c.toNat := rfl
  unfold String.utf8EncodeChar form
  simp only [hv]
  split_ifs
  any_goals omega
  · rfl
  all_goals
    congr 3
    omega

theorem toNat_ofNat (h : n.isValidChar) : (Char.ofNat n).toNat = n := by
  rw [Char.ofNat, dif_pos h]
  exact UInt32.toNat_ofNatLT

theorem utf8EncodeChar_ofNat (h : n.isValidChar) :
    String.utf8EncodeChar (Char.ofNat n) = form n := by
  rw [utf8EncodeChar_eq, toNat_ofNat h]

theorem form_one (hn : n < 0x80) : form n = [.ofNat n] := if_pos hn

theorem form_two (hy : y < 64) (hlo : 2 ≤ x) (hhi : x < 32) :
    form (x * 64 + y) = [.ofNat (x + 0xC0), .ofNat (y + 0x80)] := by
  have hx : (x * 64 + y) / 64 = x := by omega
  have hm : (x * 64 + y) % 64 = y := by omega
  rw [form, if_neg (by omega), if_pos (by omega), hx, hm]

theorem form_three (hy : y < 64) (hz : z < 64) (hlo : 32 ≤ x * 64 + y) (hhi : x < 16) :
    form ((x * 64 + y) * 64 + z) = [.ofNat (x + 0xE0), .ofNat (y + 0x80), .ofNat (z + 0x80)] := by
  have hx : ((x * 64 + y) * 64 + z) / 4096 = x := by omega
  have hd : ((x * 64 + y) * 64 + z) / 64 % 64 = y := by omega
  have hm : ((x * 64 + y) * 64 + z) % 64 = z := by omega
  rw [form, if_neg (by omega), if_neg (by omega), if_pos (by omega), hx, hd, hm]

theorem form_four (hy : y < 64) (hz : z < 64) (hw : w < 64) (hlo : 16 ≤ x * 64 + y) :
    form (((x * 64 + y) * 64 + z) * 64 + w) =
      [.ofNat (x + 0xF0), .ofNat (y + 0x80), .ofNat (z + 0x80), .ofNat (w + 0x80)] := by
  have hx : (((x * 64 + y) * 64 + z) * 64 + w) / 262144 = x := by omega
  have hd : (((x * 64 + y) * 64 + z) * 64 + w) / 4096 % 64 = y := by omega
  have he : (((x * 64 + y) * 64 + z) * 64 + w) / 64 % 64 = z := by omega
  have hm : (((x * 64 + y) * 64 + z) * 64 + w) % 64 = w := by omega
  rw [form, if_neg (by omega), if_neg (by omega), if_neg (by omega), hx, hd, he, hm]

theorem isTail_iff : isTail b = true ↔ 0x80 ≤ b.toNat ∧ b.toNat ≤ 0xBF := by
  simp [isTail, UInt8.le_iff_toNat_le]

/-- After four of the first octets the range of the second is cut. -/
theorem isSecond_iff : isSecond a b = true ↔ isTail b = true ∧ (a.toNat = 0xE0 → 0xA0 ≤ b.toNat) ∧
    (a.toNat = 0xED → b.toNat ≤ 0x9F) ∧ (a.toNat = 0xF0 → 0x90 ≤ b.toNat) ∧
    (a.toNat = 0xF4 → b.toNat ≤ 0x8F) := by
  have heq : ∀ n : UInt8, a = n ↔ a.toNat = n.toNat := fun n ↦ UInt8.toNat_inj.symm
  rw [isTail_iff]
  unfold isSecond secondRange
  simp only [heq, Bool.and_eq_true, decide_eq_true_eq, UInt8.le_iff_toNat_le]
  split_ifs with h0 hd hf h4
  all_goals simp only [UInt8.reduceToNat] at *
  all_goals omega

theorem toNat_octet (hn : n < 256) : (UInt8.ofNat n).toNat = n := by
  rw [UInt8.toNat_ofNat', Nat.mod_eq_of_lt hn]

theorem isTail_octet (hy : y < 64) : isTail (.ofNat (y + 0x80)) = true := by
  rw [isTail_iff, toNat_octet (by omega)]
  omega

theorem bits_octet (hy : y < 64) : bits (.ofNat (y + 0x80)) = y := by
  rw [bits, toNat_octet (by omega)]
  omega

theorem isSecond_octet (hx : x < 256) (hy : y < 64) (h0 : x = 0xE0 → 0x20 ≤ y)
    (hd : x = 0xED → y < 0x20) (hf : x = 0xF0 → 0x10 ≤ y) (h4 : x = 0xF4 → y < 0x10) :
    isSecond (.ofNat x) (.ofNat (y + 0x80)) = true := by
  rw [isSecond_iff, toNat_octet hx, toNat_octet (by omega)]
  exact ⟨isTail_octet hy, by omega, by omega, by omega, by omega⟩

theorem exists_octet {k : Nat} (h : k ≤ a.toNat) : ∃ x, a.toNat = x + k ∧ a = .ofNat (x + k) := by
  have hx : a.toNat = a.toNat - k + k := by omega
  exact ⟨a.toNat - k, hx, by rw [← hx, UInt8.ofNat_toNat]⟩

theorem exists_tail (h : isTail b = true) :
    ∃ y < 64, b.toNat = y + 0x80 ∧ b = .ofNat (y + 0x80) ∧ bits b = y := by
  obtain ⟨hlo, hhi⟩ := isTail_iff.mp h
  obtain ⟨y, hy, hb⟩ := exists_octet hlo
  exact ⟨y, by omega, hy, hb, by rw [bits, hy]; omega⟩

theorem first_one (hn : n < 0x80) : first (.ofNat n :: r) = .ok (Char.ofNat n, r) := by
  have ha := toNat_octet (n := n) (by omega)
  rw [first.eq_def]
  simp only [UInt8.lt_iff_toNat_lt, UInt8.reduceToNat, ha]
  rw [if_pos hn]

theorem first_two (hy : y < 64) (hlo : 2 ≤ x) (hhi : x < 32) :
    first (.ofNat (x + 0xC0) :: .ofNat (y + 0x80) :: r) = .ok (Char.ofNat (x * 64 + y), r) := by
  have ha := toNat_octet (n := x + 0xC0) (by omega)
  have hb :=
    isSecond_octet (x := x + 0xC0) (by omega) hy (by omega) (by omega) (by omega) (by omega)
  have hx : (x + 0xC0) % 32 = x := by omega
  rw [first.eq_def]
  simp only [UInt8.lt_iff_toNat_lt, UInt8.reduceToNat, ha, Bool.or_eq_true, decide_eq_true_eq, hb,
    bits_octet hy, Bool.not_true]
  rw [if_neg (by omega), if_neg (by omega), if_neg Bool.false_ne_true, if_pos (by omega), hx]

theorem first_three (hy : y < 64) (hz : z < 64) (hlo : 32 ≤ x * 64 + y) (hhi : x < 16)
    (hv : ((x * 64 + y) * 64 + z).isValidChar) :
    first (.ofNat (x + 0xE0) :: .ofNat (y + 0x80) :: .ofNat (z + 0x80) :: r) =
      .ok (Char.ofNat ((x * 64 + y) * 64 + z), r) := by
  have ha := toNat_octet (n := x + 0xE0) (by omega)
  have hb :=
    isSecond_octet (x := x + 0xE0) (by omega) hy (by omega) (by omega) (by omega) (by omega)
  have hx : (x + 0xE0) % 16 = x := by omega
  rw [first.eq_def]
  simp only [UInt8.lt_iff_toNat_lt, UInt8.reduceToNat, ha, Bool.or_eq_true, decide_eq_true_eq, hb,
    isTail_octet hz, bits_octet hy, bits_octet hz, Bool.not_true]
  rw [if_neg (by omega), if_neg (by omega), if_neg Bool.false_ne_true, if_neg (by omega),
    if_neg Bool.false_ne_true, if_pos (by omega), hx]

theorem first_four (hy : y < 64) (hz : z < 64) (hw : w < 64) (hlo : 16 ≤ x * 64 + y)
    (hv : (((x * 64 + y) * 64 + z) * 64 + w).isValidChar) :
    first (.ofNat (x + 0xF0) :: .ofNat (y + 0x80) :: .ofNat (z + 0x80) :: .ofNat (w + 0x80) :: r) =
      .ok (Char.ofNat (((x * 64 + y) * 64 + z) * 64 + w), r) := by
  have ha := toNat_octet (n := x + 0xF0) (by omega)
  have hb :=
    isSecond_octet (x := x + 0xF0) (by omega) hy (by omega) (by omega) (by omega) (by omega)
  have hx : (x + 0xF0) % 8 = x := by omega
  rw [first.eq_def]
  simp only [UInt8.lt_iff_toNat_lt, UInt8.reduceToNat, ha, Bool.or_eq_true, decide_eq_true_eq, hb,
    isTail_octet hz, isTail_octet hw, bits_octet hy, bits_octet hz, bits_octet hw, Bool.not_true]
  rw [if_neg (by omega), if_neg (by omega), if_neg Bool.false_ne_true, if_neg (by omega),
    if_neg Bool.false_ne_true, if_neg (by omega), if_neg Bool.false_ne_true, hx]

theorem first_utf8EncodeChar (c : Char) (r : List UInt8) :
    first (String.utf8EncodeChar c ++ r) = .ok (c, r) := by
  have hv : c.toNat.isValidChar := c.valid
  have hc : Char.ofNat c.toNat = c := Char.ofNat_toNat c
  rw [utf8EncodeChar_eq]
  generalize c.toNat = n at hv hc
  subst hc
  obtain h1 | h1 := Nat.lt_or_ge n 0x80
  · rw [form_one h1]
    exact first_one h1
  -- the code in digits of six bits, as many as its form has octets
  obtain ⟨p, w, hw, rfl⟩ : ∃ p w, w < 64 ∧ n = p * 64 + w := ⟨n / 64, n % 64, by omega, by omega⟩
  obtain h2 | h2 := Nat.lt_or_ge p 32
  · rw [form_two hw (by omega) h2]
    exact first_two hw (by omega) h2
  obtain ⟨q, z, hz, rfl⟩ : ∃ q z, z < 64 ∧ p = q * 64 + z := ⟨p / 64, p % 64, by omega, by omega⟩
  obtain h3 | h3 := Nat.lt_or_ge q 16
  · rw [form_three hz hw h2 h3]
    exact first_three hz hw h2 h3 hv
  obtain ⟨x, y, hy, rfl⟩ : ∃ x y, y < 64 ∧ q = x * 64 + y := ⟨q / 64, q % 64, by omega, by omega⟩
  rw [form_four hy hz hw h3]
  exact first_four hy hz hw h3 hv

theorem eq_of_first (h : first s = .ok (c, r)) : s = String.utf8EncodeChar c ++ r := by
  unfold first at h
  simp only [Bool.or_eq_true, decide_eq_true_eq, UInt8.lt_iff_toNat_lt, UInt8.reduceToNat,
    Bool.not_eq_true', ← Bool.not_eq_true] at h
  split at h
  case h_1 => cases h
  rename_i a s
  split at h
  case isTrue ha =>
    cases h
    rw [utf8EncodeChar_ofNat (.inl (by omega)), form_one ha, UInt8.ofNat_toNat]
    rfl
  split at h
  case isTrue => cases h
  rename_i ha hrange
  split at h
  case h_1 => cases h
  rename_i b s
  split at h
  case isTrue => cases h
  rename_i hb
  obtain ⟨hb, h0, hd, hf, h4⟩ := isSecond_iff.mp (Decidable.not_not.mp hb)
  obtain ⟨y, hy, hynat, rfl, hybits⟩ := exists_tail hb
  split at h
  case isTrue ha' =>
    cases h
    obtain ⟨x, hx, rfl⟩ := exists_octet (k := 0xC0) (a := a) (by omega)
    have hbits : (x + 0xC0) % 32 = x := by omega
    rw [hybits, hx, hbits, utf8EncodeChar_ofNat (by omega), form_two hy (by omega) (by omega)]
    rfl
  rename_i ha'
  split at h
  case h_1 => cases h
  rename_i d s
  split at h
  case isTrue => cases h
  rename_i hdtail
  obtain ⟨z, hz, -, rfl, hzbits⟩ := exists_tail (Decidable.not_not.mp hdtail)
  split at h
  case isTrue ha'' =>
    cases h
    obtain ⟨x, hx, rfl⟩ := exists_octet (k := 0xE0) (a := a) (by omega)
    have hbits : (x + 0xE0) % 16 = x := by omega
    rw [hybits, hzbits, hx, hbits, utf8EncodeChar_ofNat (by omega),
      form_three hy hz (by omega) (by omega)]
    rfl
  split at h
  case h_1 => cases h
  rename_i e s
  split at h
  case isTrue => cases h
  rename_i hetail
  obtain ⟨w, hw, -, rfl, hwbits⟩ := exists_tail (Decidable.not_not.mp hetail)
  cases h
  obtain ⟨x, hx, rfl⟩ := exists_octet (k := 0xF0) (a := a) (by omega)
  have hbits : (x + 0xF0) % 8 = x := by omega
  rw [hybits, hzbits, hwbits, hx, hbits, utf8EncodeChar_ofNat (by omega),
    form_four hy hz hw (by omega)]
  rfl

theorem encode_append (s t : List Char) : encode (s ++ t) = encode s ++ encode t :=
  List.flatMap_append

theorem decodeFrom_encode (index : Nat) (cs : List Char) :
    decodeFrom index (encode cs) = .ok cs := by
  induction cs generalizing index with
  | nil =>
    unfold decodeFrom
    rfl
  | cons c cs ih =>
    have hfirst : first (encode (c :: cs)) = .ok (c, encode cs) := first_utf8EncodeChar c _
    have hne : (encode (c :: cs)).isEmpty = false := by
      cases hs : encode (c :: cs) with
      | nil =>
        rw [hs] at hfirst
        cases hfirst
      | cons a s => rfl
    unfold decodeFrom
    rw [hne, if_neg Bool.false_ne_true]
    split
    · rename_i n h
      rw [hfirst] at h
      cases h
    · rename_i d r h
      rw [hfirst] at h
      cases h
      rw [ih]
      rfl

theorem eq_of_decodeFrom {index : Nat} {cs : List Char} (h : decodeFrom index s = .ok cs) :
    s = encode cs := by
  induction cs generalizing index s with
  | nil =>
    unfold decodeFrom at h
    split at h
    case isTrue hs => exact List.isEmpty_iff.mp hs
    split at h
    · cases h
    · cases hr : decodeFrom _ _ <;> rw [hr] at h <;> cases h
  | cons c cs ih =>
    unfold decodeFrom at h
    split at h
    case isTrue => cases h
    split at h
    · cases h
    · rename_i d r hfirst
      cases hr : decodeFrom (index + d.utf8Size) r with
      | error f =>
        rw [hr] at h
        cases h
      | ok ds =>
        rw [hr] at h
        cases h
        rw [eq_of_first hfirst, ih hr]
        rfl

theorem decode_eq_ok_iff {cs : List Char} : decode s = .ok cs ↔ s = encode cs := by
  constructor
  · exact eq_of_decodeFrom
  · rintro rfl
    exact decodeFrom_encode 0 cs

theorem encode_injective : Function.Injective encode := by
  intro cs ds h
  have hc := decode_eq_ok_iff.mpr h
  rw [decode_eq_ok_iff.mpr rfl] at hc
  injection hc

theorem mem_utf8EncodeChar_iff (ha : a.toNat < 0x80) :
    a ∈ String.utf8EncodeChar c ↔ c.toNat = a.toNat := by
  have hc := toNat_lt c
  have octet : ∀ n, n < 256 → (a = UInt8.ofNat n ↔ a.toNat = n) := by
    intro n hn
    rw [← UInt8.toNat_inj, toNat_octet hn]
  rw [utf8EncodeChar_eq]
  unfold form
  split_ifs with h1 h2 h3
  · rw [List.mem_singleton, octet _ (by omega)]
    exact eq_comm
  · simp only [List.mem_cons, List.not_mem_nil, or_false]
    rw [octet _ (by omega), octet _ (by omega)]
    omega
  · simp only [List.mem_cons, List.not_mem_nil, or_false]
    rw [octet _ (by omega), octet _ (by omega), octet _ (by omega)]
    omega
  · simp only [List.mem_cons, List.not_mem_nil, or_false]
    rw [octet _ (by omega), octet _ (by omega), octet _ (by omega), octet _ (by omega)]
    omega

theorem octet_lt_iff (hx : x < 256) (hy : y < 256) : UInt8.ofNat x < UInt8.ofNat y ↔ x < y := by
  rw [UInt8.lt_iff_toNat_lt, toNat_octet hx, toNat_octet hy]

theorem octet_inj (hx : x < 256) (hy : y < 256) : UInt8.ofNat x = UInt8.ofNat y ↔ x = y := by
  rw [← UInt8.toNat_inj, toNat_octet hx, toNat_octet hy]

/-- Of two codes the lower one has the lower octets, whatever follows them. -/
theorem form_lt_form {m : Nat} (h : n < m) (hm : m < 0x110000) (r s : List UInt8) :
    form n ++ r < form m ++ s := by
  unfold form
  split_ifs
  any_goals omega
  all_goals
    simp (disch := omega) only [List.cons_append, List.nil_append, List.cons_lt_cons_iff,
      octet_lt_iff, octet_inj]
    omega

theorem encode_lt_encode {cs ds : List Char} (h : cs < ds) : encode cs < encode ds := by
  rw [← List.lex_lt] at h
  induction h with
  | @nil d ds =>
    have hne : encode (d :: ds) ≠ [] := encode_injective.ne (List.cons_ne_nil d ds)
    obtain ⟨a, s, hs⟩ := List.exists_cons_of_ne_nil hne
    rw [hs]
    exact List.nil_lt_cons a s
  | @cons c cs ds h ih => exact List.append_left_lt ih
  | @rel c cs d ds hlt =>
    change String.utf8EncodeChar c ++ encode cs < String.utf8EncodeChar d ++ encode ds
    rw [utf8EncodeChar_eq, utf8EncodeChar_eq]
    exact form_lt_form hlt (toNat_lt d) _ _

theorem encode_lt_encode_iff {s t : String} : encode s.toList < encode t.toList ↔ s < t := by
  refine ⟨fun h ↦ ?_, fun h ↦ encode_lt_encode (String.lt_iff.mp h)⟩
  rcases lt_trichotomy s t with hlt | rfl | hlt
  · exact hlt
  · exact absurd h (List.lt_irrefl _)
  · exact absurd (encode_lt_encode (String.lt_iff.mp hlt)) (List.lt_asymm h)

end ChangeRelay.Text.Utf8
