import ChangeRelay.Json.Writer
import ChangeRelay.Proofs.Json.Grammar
import Mathlib.Tactic.SplitIfs

namespace ChangeRelay.Json

def pieceOf (c : Char) : Piece :=
  if c.toNat < 0x20 ∧ c ∉ ['\x08', '\t', '\n', '\x0c', '\r'] then .unit c.toNat else .char c

theorem pieceText_escape (c : Char) : PieceText (escape c) (pieceOf c) := by
  have hunit : ∀ n < 0x20, unitOf '0' '0' (hexDigit (n / 16)) (hexDigit n) = some n := by decide
  unfold escape
  -- seven short forms, the controls without one, and the characters that stand for themselves
  split_ifs with hq hb h8 h12 h10 h13 h9 hc
  · subst hq
    exact .short rfl
  · subst hb
    exact .short rfl
  · subst h8
    exact .short rfl
  · subst h12
    exact .short rfl
  · subst h10
    exact .short rfl
  · subst h13
    exact .short rfl
  · subst h9
    exact .short rfl
  · have hp : pieceOf c = .unit c.toNat := by simp [pieceOf, hc, h8, h9, h10, h12, h13]
    rw [hp]
    exact .unit (hunit _ hc)
  · have hp : pieceOf c = .char c := by simp [pieceOf, hc]
    rw [hp]
    exact .raw hq hb (Nat.le_of_not_lt hc)

theorem piecesText_escape (cs : List Char) : PiecesText (cs.flatMap escape) (cs.map pieceOf) := by
  induction cs with
  | nil => exact .nil
  | cons c cs ih => exact .cons (pieceText_escape c) ih

theorem joinPieces_pieceOf (c : Char) (ps : List Piece) :
    joinPieces (pieceOf c :: ps) = (joinPieces ps).map (c :: ·) := by
  unfold pieceOf
  split
  · rename_i h
    have hc : c.toNat < 0x20 := h.1
    have hs : (c.toNat < 0xD800 || 0xDFFF < c.toNat) = true := by
      rw [Bool.or_eq_true, decide_eq_true_eq]
      exact .inl (by omega)
    rw [joinPieces.eq_def]
    simp only [hs, if_true, Char.ofNat_toNat]
  · rfl

/-- A written string is read as the string, whatever follows its closing quotation mark. -/
theorem readString_escape (s : String) (rest : List Char) :
    readString (s.toList.flatMap escape ++ '"' :: rest) = some (s, rest) := by
  have hl := lexString_piecesText (piecesText_escape s.toList) rest
  have hj : ∀ cs : List Char, joinPieces (cs.map pieceOf) = some cs := by
    intro cs
    induction cs with
    | nil => rfl
    | cons c cs ih => rw [List.map_cons, joinPieces_pieceOf, ih]; rfl
  simp only [readString, hl, hj, Option.bind_eq_bind, Option.bind_some, String.ofList_toList]
  rfl

theorem writeString_append (s : String) (rest : List Char) :
    writeString s ++ rest = '"' :: (s.toList.flatMap escape ++ '"' :: rest) := by
  simp [writeString]

theorem readKey_writeString (k : String) (rest : List Char) :
    readKey (writeString k ++ rest) = some (k, rest) := by
  rw [writeString_append, readKey, readString_escape]

theorem head?_toDigits {n : Nat} (hn : n ≠ 0) : (Nat.toDigits 10 n).head? ≠ some '0' := by
  induction n using Nat.strongRecOn with
  | _ n ih =>
    by_cases hlt : n < 10
    · have hd : ∀ m < 10, m ≠ 0 → (Nat.toDigits 10 m).head? ≠ some '0' := by decide
      exact hd n hlt hn
    · have hs : (Nat.toDigits 10 (n / 10)).head?.isSome = true :=
        List.isSome_head?.mpr Nat.toDigits_ne_nil
      rw [Nat.toDigits_of_base_le (by decide) (by omega), List.head?_append,
        Option.or_of_isSome hs]
      exact ih (n / 10) (by omega) (by omega)

theorem clip_ofDigitChars {ds : List Char} {m : Nat} (h : Nat.ofDigitChars 10 ds m < Nat.pow 2 64) :
    clip m ds = (Nat.ofDigitChars 10 ds m, []) := by
  have hle : ∀ (ds : List Char) (m : Nat), m ≤ Nat.ofDigitChars 10 ds m := by
    intro ds
    induction ds with
    | nil => exact fun m ↦ Nat.le_refl m
    | cons c ds ih =>
      intro m
      rw [Nat.ofDigitChars_cons]
      have := ih (10 * m + (c.toNat - '0'.toNat))
      omega
  induction ds generalizing m with
  | nil => rfl
  | cons c ds ih =>
    rw [Nat.ofDigitChars_cons] at h ⊢
    have hm : 10 * m + (c.toNat - 48) < Nat.pow 2 64 := Nat.lt_of_le_of_lt (hle ds _) h
    unfold clip
    simp only [hm, if_true]
    exact ih h

def FitsWord (n : Int) : Prop := -9223372036854775808 ≤ n ∧ n < 18446744073709551616

theorem value?_of_toDigits {m : Nat} (hm : m < 18446744073709551616) (negative : Bool)
    (hs : negative = true → 0 < m ∧ m ≤ 9223372036854775808) :
    Numeral.value? ⟨negative, Nat.toDigits 10 m, none, none⟩ =
      some (.int (if negative then -m else m)) := by
  have hc : clip 0 (Nat.toDigits 10 m) = (m, []) := by
    rw [clip_ofDigitChars (by rwa [Nat.ofDigitChars_ten_toDigits]), Nat.ofDigitChars_ten_toDigits]
  simp only [Numeral.value?, Numeral.isWhole, hc]
  cases negative with
  | false => rfl
  | true => simp [(hs rfl).1, (hs rfl).2]

theorem ofDigitChars_of_clip {ds : List Char} {m v : Nat} (h : clip m ds = (v, [])) :
    Nat.ofDigitChars 10 ds m = v := by
  induction ds generalizing m with
  | nil =>
    cases h
    rfl
  | cons c ds ih =>
    rw [Nat.ofDigitChars_cons]
    unfold clip at h
    dsimp only at h
    split at h
    · exact ih h
    · cases h

/-- A written integer is read as the integer, whatever follows it that is no more of a number. -/
theorem readNumber_writeInt {n : Int} (hn : FitsWord n) {rest : List Char} (hr : EndsNumber rest) :
    readNumber (writeInt n ++ rest) = some (.int n, rest) := by
  have hl : ∀ (m : Nat) (negative : Bool),
      lexNumber ((if negative then ['-'] else []) ++ (Nat.toDigits 10 m ++ rest)) =
        some (⟨negative, Nat.toDigits 10 m, none, none⟩, rest) := by
    intro m negative
    have hd : IsDigits (Nat.toDigits 10 m) :=
      ⟨Nat.toDigits_ne_nil, fun c hc ↦ Nat.isDigit_of_mem_toDigits (by decide) (by decide) hc⟩
    have hz : (Nat.toDigits 10 m).head? ≠ some '0' ∨ (Nat.toDigits 10 m).length = 1 := by
      by_cases hm : m = 0
      · subst hm
        exact .inr rfl
      · exact .inl (head?_toDigits hm)
    simpa using lexNumber_numeralText (.mk negative hd hz .absent .absent) hr
  have hv : ∀ (m : Nat) (negative : Bool) {v : Json},
      Numeral.value? ⟨negative, Nat.toDigits 10 m, none, none⟩ = some v →
      readNumber ((if negative then ['-'] else []) ++ (Nat.toDigits 10 m ++ rest)) =
        some (v, rest) := by
    intro m negative v h
    simp [readNumber, hl, h]
  obtain ⟨hlo, hhi⟩ := hn
  cases n with
  | ofNat m =>
    have hm : m < 18446744073709551616 := Int.ofNat_lt.mp hhi
    exact hv m false (value?_of_toDigits hm false (by simp))
  | negSucc m =>
    have hm : m + 1 ≤ 9223372036854775808 := by omega
    exact hv (m + 1) true (value?_of_toDigits (by omega) true fun _ ↦ ⟨by omega, hm⟩)

theorem writeInt_head (n : Int) : ∃ c r, writeInt n = c :: r ∧ (c = '-' ∨ c.isDigit = true) := by
  cases n with
  | ofNat m =>
    cases h : Nat.toDigits 10 m with
    | nil => exact absurd h Nat.toDigits_ne_nil
    | cons c r =>
      have hc : c ∈ Nat.toDigits 10 m := by simp [h]
      exact ⟨c, r, h, .inr (Nat.isDigit_of_mem_toDigits (by decide) (by decide) hc)⟩
  | negSucc m => exact ⟨'-', _, rfl, .inl rfl⟩

end ChangeRelay.Json
