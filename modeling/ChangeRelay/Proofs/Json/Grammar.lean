import ChangeRelay.Json.Reader
import ChangeRelay.Proofs.Text.Digits
import Mathlib.Data.Option.Basic

namespace ChangeRelay.Json

open Text (EndsDigits takeWhile_digits dropWhile_digits)

/-- The syntax tree of a text. Members stand in the order of the text, and names may be repeated. -/
inductive Tree where
  | null
  | bool (b : Bool)
  | number (n : Numeral)
  | string (ps : List Piece)
  | array (items : List Tree)
  | object (members : List (List Piece × Tree))

def IsBlanks (s : List Char) : Prop := ∀ c ∈ s, isBlank c = true

inductive PieceText : List Char → Piece → Prop
  | raw {c : Char} (hq : c ≠ '"') (hb : c ≠ '\\') (hc : 0x20 ≤ c.toNat) : PieceText [c] (.char c)
  | short {e c : Char} (h : shortEscape e = some c) : PieceText ['\\', e] (.char c)
  | unit {a b c d : Char} {n : Nat} (h : unitOf a b c d = some n) :
      PieceText ['\\', 'u', a, b, c, d] (.unit n)

inductive PiecesText : List Char → List Piece → Prop
  | nil : PiecesText [] []
  | cons {t s : List Char} {p : Piece} {ps : List Piece} (hp : PieceText t p)
      (hs : PiecesText s ps) : PiecesText (t ++ s) (p :: ps)

theorem piecesText_plain {s : List Char}
    (h : ∀ c ∈ s, c ≠ '"' ∧ c ≠ '\\' ∧ 0x20 ≤ c.toNat) : PiecesText s (s.map .char) := by
  induction s with
  | nil => exact .nil
  | cons c s ih =>
    obtain ⟨hq, hb, hc⟩ := h c (by simp)
    exact .cons (.raw hq hb hc) (ih fun d hd ↦ h d (by simp [hd]))

def IsDigits (ds : List Char) : Prop := ds ≠ [] ∧ ∀ c ∈ ds, c.isDigit = true

inductive FractionText : List Char → Option (List Char) → Prop
  | absent : FractionText [] none
  | present {ds : List Char} (h : IsDigits ds) : FractionText ('.' :: ds) (some ds)

inductive SignText : List Char → Bool → Prop
  | none : SignText [] false
  | plus : SignText ['+'] false
  | minus : SignText ['-'] true

inductive ExponentText : List Char → Option (Bool × List Char) → Prop
  | absent : ExponentText [] none
  | present {e : Char} {t ds : List Char} {negative : Bool} (he : e = 'e' ∨ e = 'E')
      (ht : SignText t negative) (h : IsDigits ds) :
      ExponentText (e :: (t ++ ds)) (some (negative, ds))

inductive NumeralText : List Char → Numeral → Prop
  | mk {whole t u : List Char} {fraction : Option (List Char)}
      {exponent : Option (Bool × List Char)} (negative : Bool) (hw : IsDigits whole)
      (hz : whole.head? ≠ some '0' ∨ whole.length = 1) (ht : FractionText t fraction)
      (hu : ExponentText u exponent) :
      NumeralText ((if negative then ['-'] else []) ++ (whole ++ (t ++ u)))
        ⟨negative, whole, fraction, exponent⟩

/-- What follows an item up to the closing bracket: the further items, each after a comma. -/
inductive Rest : List (List Char) → List Char → Prop
  | close {b : List Char} (hb : IsBlanks b) : Rest [] b
  | more {b b' t s : List Char} {ts : List (List Char)} (hb : IsBlanks b) (hb' : IsBlanks b')
      (hs : Rest ts s) : Rest (t :: ts) (b ++ ',' :: (b' ++ (t ++ s)))

inductive Divided : List (List Char) → List Char → Prop
  | none {b : List Char} (hb : IsBlanks b) : Divided [] b
  | some {b t s : List Char} {ts : List (List Char)} (hb : IsBlanks b) (hs : Rest ts s) :
      Divided (t :: ts) (b ++ (t ++ s))

structure Member where
  name : List Char
  pieces : List Piece
  before : List Char
  after : List Char
  text : List Char
  value : Tree

def Member.written (m : Member) : List Char :=
  '"' :: (m.name ++ '"' :: (m.before ++ ':' :: (m.after ++ m.text)))

structure Member.IsNamed (m : Member) : Prop where
  name : PiecesText m.name m.pieces
  before : IsBlanks m.before
  after : IsBlanks m.after

inductive TreeText : List Char → Tree → Prop
  | nullWord : TreeText ['n', 'u', 'l', 'l'] .null
  | trueWord : TreeText ['t', 'r', 'u', 'e'] (.bool true)
  | falseWord : TreeText ['f', 'a', 'l', 's', 'e'] (.bool false)
  | number {t : List Char} {n : Numeral} (h : NumeralText t n) : TreeText t (.number n)
  | string {t : List Char} {ps : List Piece} (h : PiecesText t ps) :
      TreeText ('"' :: (t ++ ['"'])) (.string ps)
  | array {parts : List (List Char × Tree)} {s : List Char} (h : ∀ p ∈ parts, TreeText p.1 p.2)
      (hs : Divided (parts.map Prod.fst) s) :
      TreeText ('[' :: (s ++ [']'])) (.array (parts.map Prod.snd))
  | object {ms : List Member} {s : List Char} (hn : ∀ m ∈ ms, m.IsNamed)
      (h : ∀ m ∈ ms, TreeText m.text m.value) (hs : Divided (ms.map Member.written) s) :
      TreeText ('\x7b' :: (s ++ ['\x7d'])) (.object (ms.map fun m ↦ (m.pieces, m.value)))

variable {b r s t : List Char}

theorem IsBlanks.append (h : IsBlanks s) (h' : IsBlanks t) : IsBlanks (s ++ t) := by
  intro c hc
  rcases List.mem_append.mp hc with hc | hc
  · exact h c hc
  · exact h' c hc

theorem skipBlank_append (hb : IsBlanks b) (s : List Char) : skipBlank (b ++ s) = skipBlank s :=
  List.dropWhile_append_of_pos hb

theorem skipBlank_of_blanks (hb : IsBlanks b) : skipBlank b = [] := by
  rw [← List.append_nil b, skipBlank_append hb]
  rfl

theorem exists_skipBlank (s : List Char) : ∃ b, IsBlanks b ∧ s = b ++ skipBlank s :=
  ⟨s.takeWhile isBlank, List.all_eq_true.mp List.all_takeWhile,
    List.takeWhile_append_dropWhile.symm⟩

theorem skipBlank_eq_nil_iff : skipBlank s = [] ↔ IsBlanks s := by
  refine ⟨fun h ↦ ?_, skipBlank_of_blanks⟩
  obtain ⟨b, hb, hs⟩ := exists_skipBlank s
  rw [h, List.append_nil] at hs
  exact hs ▸ hb

theorem lexString_raw {c : Char} (hq : c ≠ '"') (hb : c ≠ '\\') (hc : 0x20 ≤ c.toNat) :
    lexString (c :: s) = (lexString s).map fun r ↦ (.char c :: r.1, r.2) := by
  rw [lexString]
  · simp [hb, Nat.not_lt.mpr hc]
  · simpa using hq
  · simp [hb]
  · simp [hb]

theorem lexString_short {e d : Char} (h : shortEscape e = some d) :
    lexString ('\\' :: e :: s) = (lexString s).map fun r ↦ (.char d :: r.1, r.2) := by
  have hu : e ≠ 'u' := by
    rintro rfl
    cases h
  rw [lexString]
  · simp [h]
  · simp [hu]

theorem lexString_piecesText {ps : List Piece} (h : PiecesText t ps) (r : List Char) :
    lexString (t ++ '"' :: r) = some (ps, r) := by
  induction h with
  | nil => rfl
  | cons hp _ ih =>
    rw [List.append_assoc]
    cases hp with
    | raw hq hb hc =>
      rw [List.singleton_append, lexString_raw hq hb hc, ih]
      rfl
    | short he =>
      rw [List.cons_append, List.cons_append, List.nil_append, lexString_short he, ih]
      rfl
    | unit hu =>
      simp only [List.cons_append, List.nil_append]
      rw [lexString, hu]
      simp only [ih, Option.map_some]

theorem piecesText_of_lexString {ps : List Piece} (h : lexString s = some (ps, r)) :
    ∃ t, s = t ++ '"' :: r ∧ PiecesText t ps := by
  fun_induction lexString s generalizing ps with
  | case1 => cases h
  | case2 s =>
    cases h
    exact ⟨[], rfl, .nil⟩
  | case3 a b c d s hu => cases h
  | case4 a b c d s n hu ih =>
    obtain ⟨⟨qs, r'⟩, hq, he⟩ := Option.map_eq_some_iff.mp h
    cases he
    obtain ⟨t, rfl, ht⟩ := ih hq
    exact ⟨_, rfl, .cons (.unit hu) ht⟩
  | case5 e s hne he => cases h
  | case6 e s hne c he ih =>
    obtain ⟨⟨qs, r'⟩, hq, heq⟩ := Option.map_eq_some_iff.mp h
    cases heq
    obtain ⟨t, rfl, ht⟩ := ih hq
    exact ⟨_, rfl, .cons (.short he) ht⟩
  | case7 c s hq hu he hc => cases h
  | case8 c s hq hu he hc ih =>
    obtain ⟨⟨qs, r'⟩, hqs, heq⟩ := Option.map_eq_some_iff.mp h
    cases heq
    obtain ⟨t, rfl, ht⟩ := ih hqs
    simp only [Bool.or_eq_true, decide_eq_true_eq, not_or, Nat.not_lt] at hc
    exact ⟨_, rfl, .cons (.raw hq hc.1 hc.2) ht⟩

/-- A text that does not go on with the number before it. -/
def EndsNumber (r : List Char) : Prop :=
  ∀ c ∈ r.head?, c.isDigit = false ∧ c ≠ '.' ∧ c ≠ 'e' ∧ c ≠ 'E'

def EndsFraction (r : List Char) : Prop := ∀ c ∈ r.head?, c.isDigit = false ∧ c ≠ '.'

theorem EndsFraction.endsDigits (h : EndsFraction r) : EndsDigits r := fun c hc ↦ (h c hc).1

theorem exists_digits (h : s.takeWhile Char.isDigit ≠ []) :
    IsDigits (s.takeWhile Char.isDigit) ∧
      s = s.takeWhile Char.isDigit ++ s.dropWhile Char.isDigit :=
  ⟨⟨h, List.all_eq_true.mp List.all_takeWhile⟩, List.takeWhile_append_dropWhile.symm⟩

theorem lexFraction_fractionText {f : Option (List Char)} (h : FractionText t f)
    (hr : EndsFraction r) : lexFraction (t ++ r) = some (f, r) := by
  cases h with
  | absent =>
    cases r with
    | nil => rfl
    | cons c r =>
      unfold lexFraction
      split
      · rename_i heq
        cases heq
        exact absurd rfl (hr '.' rfl).2
      · rfl
  | @present ds hd =>
    obtain ⟨d, ds, rfl⟩ := List.exists_cons_of_ne_nil hd.1
    simp only [List.cons_append, lexFraction]
    rw [← List.cons_append, takeWhile_digits hd.2 hr.endsDigits,
      dropWhile_digits hd.2 hr.endsDigits]

theorem fractionText_of_lexFraction {f : Option (List Char)} (h : lexFraction s = some (f, r)) :
    ∃ t, s = t ++ r ∧ FractionText t f := by
  unfold lexFraction at h
  split at h
  · rename_i u
    split at h
    · cases h
    · rename_i ds hds
      cases h
      have hne : u.takeWhile Char.isDigit ≠ [] := hds
      obtain ⟨hd, hu⟩ := exists_digits hne
      exact ⟨_, congrArg _ hu, .present hd⟩
  · cases h
    exact ⟨[], rfl, .absent⟩

theorem lexExponent_signText {ds : List Char} {negative : Bool} (ht : SignText t negative)
    (hd : IsDigits ds) (hr : EndsDigits r) :
    lexExponent (t ++ (ds ++ r)) = some ((negative, ds), r) := by
  have htake := takeWhile_digits hd.2 hr
  have hdrop := dropWhile_digits hd.2 hr
  obtain ⟨d, ds, rfl⟩ := List.exists_cons_of_ne_nil hd.1
  have hsign : ∀ c u, c.isDigit = false → d :: ds ++ r ≠ c :: u := by
    intro c u hc h
    cases h
    exact Bool.false_ne_true (hc.symm.trans (hd.2 d (by simp)))
  cases ht with
  | none =>
    unfold lexExponent
    split
    rename_i b u h
    split at h
    · rename_i u' heq
      exact absurd heq (hsign '+' u' rfl)
    · rename_i u' heq
      exact absurd heq (hsign '-' u' rfl)
    · cases h
      rw [List.nil_append, htake, hdrop]
  | plus =>
    unfold lexExponent
    simp only [List.singleton_append]
    rw [htake, hdrop]
  | minus =>
    unfold lexExponent
    simp only [List.singleton_append]
    rw [htake, hdrop]

theorem signText_of_lexExponent {ds : List Char} {negative : Bool}
    (h : lexExponent s = some ((negative, ds), r)) :
    ∃ t, s = t ++ (ds ++ r) ∧ SignText t negative ∧ IsDigits ds := by
  unfold lexExponent at h
  split at h
  rename_i b u heq
  split at h
  · cases h
  · rename_i hne
    cases h
    obtain ⟨hd, hu⟩ := exists_digits hne
    split at heq <;> cases heq
    · exact ⟨['+'], congrArg _ hu, .plus, hd⟩
    · exact ⟨['-'], congrArg _ hu, .minus, hd⟩
    · exact ⟨[], hu, .none, hd⟩

theorem EndsNumber.endsDigits (h : EndsNumber r) : EndsDigits r := fun c hc ↦ (h c hc).1

theorem ExponentText.endsFraction {e : Option (Bool × List Char)} (h : ExponentText t e)
    (hr : EndsNumber r) : EndsFraction (t ++ r) := by
  cases h with
  | absent => exact fun c hc ↦ ⟨(hr c hc).1, (hr c hc).2.1⟩
  | present he =>
    intro c hc
    cases hc
    rcases he with rfl | rfl <;> decide

theorem FractionText.endsDigits {f : Option (List Char)} (h : FractionText t f)
    (hr : EndsFraction r) : EndsDigits (t ++ r) := by
  cases h with
  | absent => exact hr.endsDigits
  | present =>
    intro c hc
    cases hc
    rfl

theorem NumeralText.head {n : Numeral} (h : NumeralText t n) :
    ∃ c u, t = c :: u ∧ (c = '-' ∨ c.isDigit = true) := by
  obtain ⟨negative, hw, -, -, -⟩ := h
  cases negative with
  | true => exact ⟨'-', _, rfl, .inl rfl⟩
  | false =>
    obtain ⟨d, ds, rfl⟩ := List.exists_cons_of_ne_nil hw.1
    exact ⟨d, _, rfl, .inr (hw.2 d (by simp))⟩

theorem lexNumber_numeralText {n : Numeral} (h : NumeralText t n) (hr : EndsNumber r) :
    lexNumber (t ++ r) = some (n, r) := by
  obtain ⟨negative, hw, hz, ht, hu⟩ := h
  rename_i whole t u fraction exponent
  have hfraction := hu.endsFraction hr
  have hdigits := ht.endsDigits hfraction
  have hguard : (guard ((!whole.isEmpty && (whole.head? ≠ some '0' || whole.length = 1)) = true) :
      Option Unit) = some () := by
    refine if_pos ?_
    simpa [hw.1] using hz
  simp only [List.append_assoc]
  unfold lexNumber
  split
  rename_i b s h
  obtain ⟨rfl, rfl⟩ : b = negative ∧ s = whole ++ (t ++ (u ++ r)) := by
    cases negative with
    | true =>
      cases h
      exact ⟨rfl, rfl⟩
    | false =>
      split at h
      · rename_i heq
        obtain ⟨d, ds, rfl⟩ := List.exists_cons_of_ne_nil hw.1
        cases heq
        exact absurd (hw.2 '-' (by simp)) (by decide)
      · cases h
        exact ⟨rfl, rfl⟩
  rw [takeWhile_digits hw.2 hdigits, dropWhile_digits hw.2 hdigits]
  dsimp only
  rw [hguard, lexFraction_fractionText ht hfraction]
  cases hu with
  | absent =>
    cases r with
    | nil => rfl
    | cons c r => simp [(hr c rfl).2.2]
  | present he hs hd =>
    simp only [List.cons_append, List.append_assoc, Option.bind_eq_bind, Option.bind_some]
    rw [if_pos (by simpa using he), lexExponent_signText hs hd hr.endsDigits]
    rfl

theorem numeralText_of_lexNumber {n : Numeral} (h : lexNumber s = some (n, r)) :
    ∃ t, s = t ++ r ∧ NumeralText t n := by
  unfold lexNumber at h
  split at h
  rename_i negative u hsign
  have hs : s = (if negative then ['-'] else []) ++ u := by
    split at hsign <;> cases hsign <;> rfl
  dsimp only at h
  simp only [Option.bind_eq_bind, Option.bind_eq_some_iff] at h
  obtain ⟨⟨⟩, hguard, ⟨fraction, v⟩, hf, h⟩ := h
  have hwhole : u.takeWhile Char.isDigit ≠ [] ∧
      ((u.takeWhile Char.isDigit).head? ≠ some '0' ∨ (u.takeWhile Char.isDigit).length = 1) := by
    simpa using (Option.guard_eq_some' _).mp hguard
  obtain ⟨hw, hu⟩ := exists_digits hwhole.1
  obtain ⟨t, ht, hft⟩ := fractionText_of_lexFraction hf
  obtain ⟨w, e, hv, he, hn⟩ : ∃ w e, v = w ++ r ∧ ExponentText w e ∧
      n = ⟨negative, u.takeWhile Char.isDigit, fraction, e⟩ := by
    dsimp only at h
    split at h
    · rename_i c v
      split at h
      · rename_i hc
        obtain ⟨⟨⟨b, ds⟩, r'⟩, hexp, h⟩ := Option.bind_eq_some_iff.mp h
        cases h
        obtain ⟨w, rfl, hs, hd⟩ := signText_of_lexExponent hexp
        exact ⟨c :: (w ++ ds), _, by simp, .present (by simpa using hc) hs hd, rfl⟩
      · cases h
        exact ⟨[], none, rfl, .absent, rfl⟩
    · cases h
      exact ⟨[], none, rfl, .absent, rfl⟩
  rw [hn]
  refine ⟨_, ?_, .mk negative hw hwhole.2 hft he⟩
  simp only [List.append_assoc]
  rw [← hv, ← ht, ← hu, hs]

end ChangeRelay.Json
