import ChangeRelay.Proofs.Text.Digits
import ChangeRelay.Proofs.Time.Calendar
import ChangeRelay.Time.Instant
import Mathlib.Control.Basic
import Mathlib.Data.Option.Basic

namespace ChangeRelay.Time

open Text

inductive YearText : Int → List Char → Prop
  | plain {y : Nat} (h : y < 10 ^ 4) : YearText y (digits 4 y)
  | after {width y : Nat} (hw : 4 ≤ width) (h : y < 10 ^ width) : YearText y ('+' :: digits width y)
  | before {width y : Nat} (hw : 4 ≤ width) (h : y < 10 ^ width) :
    YearText (-y) ('-' :: digits width y)

/-- The part of a second below one, exact to the nanosecond. -/
inductive FractionText : Nat → List Char → Prop
  | absent : FractionText 0 []
  | present {width n nanosecond : Nat} (hw : 0 < width) (h : n < 10 ^ width)
      (exact : n * 10 ^ 9 = nanosecond * 10 ^ width) :
      FractionText nanosecond ('.' :: digits width n)

inductive ZoneText : Int → List Char → Prop
  | upper : ZoneText 0 ['Z']
  | lower : ZoneText 0 ['z']
  | east {h m : Nat} (hh : h < 24) (hm : m < 60) :
    ZoneText (60 * h + m : Nat) ('+' :: (digits 2 h ++ ':' :: digits 2 m))
  | west {h m : Nat} (hh : h < 24) (hm : m < 60) :
    ZoneText (-(60 * h + m : Nat)) ('-' :: (digits 2 h ++ ':' :: digits 2 m))

namespace Instant

/-- A text of an instant: the date and the time of day at the offset, and the offset. -/
inductive Written (i : Instant) (offset : Int) : List Char → Prop
  | mk {d : Date} {n : Int} {hour minute second nanosecond : Nat} {year fraction zone : List Char}
      {mark : Char} (day : Date.Counts d n) (hour_lt : hour < 24) (minute_lt : minute < 60)
      (second_lt : second < 60) (hy : YearText d.year year)
      (hm : mark = 'T' ∨ mark = 't' ∨ mark = ' ') (hf : FractionText nanosecond fraction)
      (hz : ZoneText offset zone)
      (exact : i.nanoseconds = 1_000_000_000 *
        (86400 * n + 3600 * hour + 60 * minute + second - 60 * offset) + nanosecond) :
      Written i offset (year ++ '-' :: (digits 2 d.month ++ '-' :: (digits 2 d.day ++ mark ::
        (digits 2 hour ++ ':' :: (digits 2 minute ++ ':' :: (digits 2 second ++
          (fraction ++ zone)))))))

/-- The instant lies in these years by universal time. -/
def InYears (first last : Int) (i : Instant) : Prop :=
  ∃ d, Date.Counts d (i.nanoseconds / 86_400_000_000_000) ∧ first ≤ d.year ∧ d.year ≤ last

end Instant

variable {nanosecond : Nat} {offset : Int} {r t : List Char}

theorem FractionText.endsDigits (h : FractionText nanosecond t)
    (hr : EndsDigits r) : EndsDigits (t ++ r) := by
  cases h with
  | absent => exact hr
  | present =>
    intro c hc
    cases hc
    rfl

theorem FractionText.lt (h : FractionText nanosecond t) :
    nanosecond < 10 ^ 9 := by
  cases h with
  | absent => decide
  | @present width n _ hw h exact =>
    have hpos : 0 < 10 ^ width := Nat.pow_pos (by decide)
    have hlt : n * 10 ^ 9 < 10 ^ width * 10 ^ 9 := Nat.mul_lt_mul_of_pos_right h (by decide)
    rw [exact, Nat.mul_comm] at hlt
    exact Nat.lt_of_mul_lt_mul_left hlt

theorem ZoneText.head (h : ZoneText offset t) :
    ∃ c u, t = c :: u ∧ c.isDigit = false ∧ c ≠ '.' ∧ isBlank c = false := by
  cases h <;> exact ⟨_, _, rfl, by decide, by decide, by decide⟩

theorem ZoneText.bounds (h : ZoneText offset t) : -1440 < offset ∧ offset < 1440 := by
  cases h <;> omega

namespace Instant

variable {i : Instant}

theorem digitsValue_digits {width n : Nat} (h : n < 10 ^ width) :
    digitsValue (digits width n) = n := by
  induction width generalizing n with
  | zero =>
    have hn : n = 0 := by simpa using h
    rw [hn]
    rfl
  | succ width ih =>
    have hdiv : n / 10 < 10 ^ width := Nat.div_lt_of_lt_mul (by rwa [Nat.pow_succ'] at h)
    have hdigit := (digitChar_spec (n % 10) (Nat.mod_lt n (by decide))).2
    have hvalue : digitsValue (digits width (n / 10) ++ [Nat.digitChar (n % 10)]) =
        10 * digitsValue (digits width (n / 10)) + ((Nat.digitChar (n % 10)).toNat - 48) := by
      simp [digitsValue]
    rw [digits, hvalue, ih hdiv, hdigit]
    omega

theorem readDigits_digits {most width : Nat} (n : Nat) (hw : 0 < width) (hm : width ≤ most)
    (hr : width = most ∨ EndsDigits r) :
    readDigits most (digits width n ++ r) = some (digits width n, r) := by
  have hlen := length_digits width n
  have hrest : EndsDigits (r.take (most - width)) := by
    rcases hr with rfl | hr
    · simp [EndsDigits]
    · exact hr.take _
  have htake : ((digits width n ++ r).take most).takeWhile Char.isDigit = digits width n := by
    rw [List.take_append, List.take_of_length_le (hlen.symm ▸ hm), hlen]
    exact takeWhile_digits (isDigit_digits width n) hrest
  have hdrop : (digits width n ++ r).drop (digits width n).length = r := List.drop_left
  obtain ⟨c, u, hcons, -⟩ := digits_cons hw n
  unfold readDigits
  rw [htake]
  rw [hcons] at hdrop ⊢
  dsimp only
  rw [hdrop]

theorem readPart_digits {greatest n : Nat} (h : n ≤ greatest) (hg : greatest < 100) :
    readPart greatest (digits 2 n ++ r) = some (n, r) := by
  unfold readPart
  rw [trimStart_digits (by decide), readDigits_digits n (by decide) (Nat.le_refl 2) (.inl rfl)]
  simp only [Option.bind_eq_bind, Option.bind_some,
    digitsValue_digits (show n < 10 ^ 2 by omega), h, guard_true]
  rfl

theorem afterMark_cons {mark : Char} (h : isBlank mark = false) (s : List Char) :
    afterMark mark (mark :: s) = some s := by
  unfold afterMark
  rw [trimStart_cons h]
  simp

theorem readYear_yearText {y : Int} (h : YearText y t) (hr : EndsDigits r) :
    readYear (t ++ r) = some (y, r) := by
  have all : ∀ {width : Nat}, 0 < width → ∀ y, readDigits (digits width y ++ r).length
      (digits width y ++ r) = some (digits width y, r) := by
    intro width hw y
    exact readDigits_digits y hw (by simp [length_digits]) (.inr hr)
  unfold readYear
  cases h with
  | @plain y h =>
    rw [trimStart_digits (by decide)]
    have hread := readDigits_digits (r := r) y (by decide) (Nat.le_refl 4) (.inl rfl)
    obtain ⟨c, u, hcons, hc⟩ := digits_cons (show 0 < 4 by decide) y
    rw [hcons, List.cons_append] at hread ⊢
    split
    · rename_i heq
      cases heq
      exact absurd hc (by decide)
    · rename_i heq
      cases heq
      exact absurd hc (by decide)
    · rw [hread, ← hcons]
      simp [digitsValue_digits h]
  | @after width y hw h =>
    rw [List.cons_append, trimStart_cons (by decide)]
    have hread := all (show 0 < width by omega) y
    simp only [hread, Option.map_some, digitsValue_digits h]
  | @before width y hw h =>
    rw [List.cons_append, trimStart_cons (by decide)]
    have hread := all (show 0 < width by omega) y
    simp only [hread, Option.map_some, digitsValue_digits h]

theorem readFraction_few {width n : Nat} (hw : 0 < width) (hle : width ≤ 9) (h : n < 10 ^ width)
    (exact : n * 10 ^ 9 = nanosecond * 10 ^ width) (hr : EndsDigits r) :
    readFraction ('.' :: (digits width n ++ r)) = some (nanosecond, r) := by
  have hpow : (10 : Nat) ^ 9 = 10 ^ (9 - width) * 10 ^ width := by
    rw [← Nat.pow_add, Nat.sub_add_cancel hle]
  rw [hpow, ← Nat.mul_assoc] at exact
  have hvalue := Nat.eq_of_mul_eq_mul_right (Nat.pow_pos (by decide)) exact
  have hdrop : ([] ++ r).dropWhile Char.isDigit = r := dropWhile_digits (by simp) hr
  rw [List.nil_append] at hdrop
  rw [readFraction, readDigits_digits n hw hle (.inr hr)]
  simpa [digitsValue_digits h, length_digits, hdrop] using hvalue

theorem readFraction_many {more n : Nat} (h : n < 10 ^ (9 + more))
    (exact : n * 10 ^ 9 = nanosecond * 10 ^ (9 + more)) (hr : EndsDigits r) :
    readFraction ('.' :: (digits (9 + more) n ++ r)) = some (nanosecond, r) := by
  have hn : n = nanosecond * 10 ^ more := by
    rw [Nat.pow_add, Nat.mul_comm (10 ^ 9), ← Nat.mul_assoc] at exact
    exact Nat.eq_of_mul_eq_mul_right (by decide) exact
  have hdiv : n / 10 ^ more = nanosecond := by
    rw [hn, Nat.mul_div_cancel _ (Nat.pow_pos (by decide))]
  have hlt : nanosecond < 10 ^ 9 := by
    rw [hn, Nat.pow_add] at h
    exact Nat.lt_of_mul_lt_mul_right h
  have hdrop := dropWhile_digits (isDigit_digits more n) hr
  rw [readFraction, digits_add, List.append_assoc, hdiv,
    readDigits_digits nanosecond (by decide) (Nat.le_refl 9) (.inl rfl)]
  simp [digitsValue_digits hlt, length_digits, hdrop]

theorem readFraction_fractionText (h : FractionText nanosecond t)
    (hr : EndsDigits r) (hdot : r.head? ≠ some '.') :
    readFraction (t ++ r) = some (nanosecond, r) := by
  cases h with
  | absent =>
    rw [List.nil_append]
    unfold readFraction
    split
    · exact absurd rfl hdot
    · rfl
  | @present width n _ hw h exact =>
    rw [List.cons_append]
    rcases Nat.lt_or_ge 9 width with hlt | hle
    · obtain ⟨more, rfl⟩ : ∃ more, width = 9 + more := ⟨width - 9, by omega⟩
      exact readFraction_many h exact hr
    · exact readFraction_few hw hle h exact hr

theorem readOffset_digits {h m : Nat} (hh : h < 24) (hm : m < 60) :
    readOffset (digits 2 h ++ ':' :: (digits 2 m ++ r)) = some (60 * h + m, r) := by
  have hcolon : (':' :: (digits 2 m ++ r)).dropWhile (fun c ↦ c = ':' || isBlank c) =
      digits 2 m ++ r := by
    obtain ⟨c, u, hcons, hc⟩ := digits_cons (show 0 < 2 by decide) m
    have hne : c ≠ ':' := by
      rintro rfl
      exact absurd hc (by decide)
    rw [hcons]
    simp [hne, isBlank_of_isDigit hc]
  unfold readOffset
  rw [readDigits_digits h (by decide) (Nat.le_refl 2) (.inl rfl)]
  have hread := readDigits_digits (r := r) m (by decide) (Nat.le_refl 2) (.inl rfl)
  simp only [Option.bind_eq_bind, Option.bind_some, hcolon, hread, length_digits,
    digitsValue_digits (show h < 10 ^ 2 by omega), digitsValue_digits (show m < 10 ^ 2 by omega),
    hh, hm, decide_true, Bool.and_self, guard_true]
  rfl

theorem readZone_zoneText (h : ZoneText offset t) : readZone t = some (offset, []) := by
  cases h with
  | upper => rfl
  | lower => rfl
  | @east h m hh hm =>
    have hread : readZone ('+' :: (digits 2 h ++ ':' :: digits 2 m)) =
        (readOffset (digits 2 h ++ ':' :: (digits 2 m ++ []))).map fun p ↦ ((p.1 : Int), p.2) := by
      rw [List.append_nil]
      rfl
    rw [hread, readOffset_digits hh hm]
    rfl
  | @west h m hh hm =>
    have hread : readZone ('-' :: (digits 2 h ++ ':' :: digits 2 m)) =
        (readOffset (digits 2 h ++ ':' :: (digits 2 m ++ []))).map fun p ↦ (-(p.1 : Int), p.2) := by
      rw [List.append_nil]
      rfl
    rw [hread, readOffset_digits hh hm]
    rfl

theorem readDate_written {d : Date} {year : List Char} (hd : d.InCalendar)
    (hy : YearText d.year year) : readDate (year ++ '-' :: (digits 2 d.month ++ '-' ::
      (digits 2 d.day ++ r))) = some (d, r) := by
  have hday : d.day ≤ 31 := Nat.le_trans hd.day_le (daysInMonth_le _ _)
  have hends : ∀ s, EndsDigits ('-' :: s) := by
    intro s c hc
    cases hc
    rfl
  unfold readDate
  simp only [readYear_yearText hy (hends _), afterMark_cons (show isBlank '-' = false by decide),
    readPart_digits hd.month_le (by decide), readPart_digits hday (by decide), Option.bind_eq_bind,
    Option.bind_some]
  rfl

theorem readTime_written {hour minute second : Nat} {fraction : List Char}
    (hh : hour < 24) (hm : minute < 60) (hs : second < 60) (hf : FractionText nanosecond fraction)
    (hr : EndsDigits r) (hdot : r.head? ≠ some '.') :
    readTime (digits 2 hour ++ ':' :: (digits 2 minute ++ ':' :: (digits 2 second ++
      (fraction ++ r)))) = some ((3600 * hour + 60 * minute + second, nanosecond), r) := by
  have hne : second ≠ 60 := by omega
  unfold readTime
  simp only [readPart_digits (show hour ≤ 23 by omega) (by decide),
    afterMark_cons (show isBlank ':' = false by decide),
    readPart_digits (show minute ≤ 59 by omega) (by decide),
    readPart_digits (show second ≤ 60 by omega) (by decide), readFraction_fractionText hf hr hdot,
    Option.bind_eq_bind, Option.bind_some]
  simp [hne]

theorem InYears.bounds (h : i.InYears (-262142) 262141) :
    daysBeforeYear (-262142) ≤ i.nanoseconds / 86_400_000_000_000 ∧
      i.nanoseconds / 86_400_000_000_000 < daysBeforeYear 262142 := by
  obtain ⟨d, hd, hfirst, hlast⟩ := h
  have hbounds := hd.year_bounds
  have hle := daysBeforeYear_mono hfirst
  have hlt := daysBeforeYear_mono (show d.year + 1 ≤ 262142 by omega)
  omega

theorem InYears.isDay (h : i.InYears (-262142) 262141) :
    isDay (i.nanoseconds / 86_400_000_000_000) = true := by
  have hbounds := h.bounds
  have hfirst := daysBeforeYear_mono (show Date.firstYear ≤ -262142 by decide)
  have hlast := daysBeforeYear_mono (show 262142 ≤ Date.lastYear + 1 by decide)
  unfold Time.isDay
  rw [Bool.and_eq_true, decide_eq_true_iff, decide_eq_true_iff]
  omega

theorem InYears.isValid {d : Date} {n : Int} (h : i.InYears (-262142) 262141)
    (hd : Date.Counts d n) (hlo : i.nanoseconds / 86_400_000_000_000 - 1 ≤ n)
    (hhi : n ≤ i.nanoseconds / 86_400_000_000_000 + 1) : d.isValid = true := by
  obtain ⟨hm, hm', hk, hk'⟩ := (Date.counts_iff.mp hd).1
  have hbounds := h.bounds
  have hyear := hd.year_bounds
  have hfirst : Date.firstYear ≤ d.year := by
    refine Int.not_lt.mp fun hlt ↦ ?_
    have hmono := daysBeforeYear_mono (show d.year + 1 ≤ Date.firstYear by omega)
    have hstart : daysBeforeYear Date.firstYear < daysBeforeYear (-262142) - 1 := by decide
    omega
  have hlast : d.year ≤ Date.lastYear := by
    refine Int.not_lt.mp fun hlt ↦ ?_
    have hmono := daysBeforeYear_mono (show Date.lastYear + 1 ≤ d.year by omega)
    have hstart : daysBeforeYear 262142 + 1 < daysBeforeYear (Date.lastYear + 1) := by decide
    omega
  simp [Date.isValid, hfirst, hlast, hm, hm', hk, hk']

/-- Every text of an instant is read as that instant. -/
theorem ofText?_written (h : i.Written offset t) (hi : i.InYears (-262142) 262141) :
    ofText? (String.ofList t) = some i := by
  cases h with
  | @mk d n hour minute second nanosecond year fraction zone mark day hh hm hs hy hmark hf hz
      exact =>
    obtain ⟨hd, rfl⟩ := Date.counts_iff.mp day
    have hzone := hz.bounds
    have hnano := hf.lt
    have hvalid : d.isValid = true := hi.isValid day (by omega) (by omega)
    obtain ⟨c, u, rfl, hc, hdot, hblank⟩ := hz.head
    have hends : EndsDigits (c :: u) := by
      intro c' hc'
      cases hc'
      exact hc
    have hseconds : (86400 * d.number + ((3600 * hour + 60 * minute + second : Nat) : Int) -
        60 * offset) / 86400 = i.nanoseconds / 86_400_000_000_000 := by
      omega
    have hdate := readDate_written (r := mark :: (digits 2 hour ++ ':' :: (digits 2 minute ++ ':' ::
      (digits 2 second ++ (fraction ++ c :: u))))) hd hy
    have htime := readTime_written hh hm hs hf hends (by simpa using hdot)
    have hvalue : Instant.mk (1_000_000_000 * (86400 * d.number +
        ((3600 * hour + 60 * minute + second : Nat) : Int) - 60 * offset) + nanosecond) = i := by
      obtain ⟨ns⟩ := i
      exact congrArg Instant.mk (by simpa [← Int.add_assoc] using exact.symm)
    unfold ofText?
    rw [String.toList_ofList, hdate]
    simp only [Option.bind_eq_bind, Option.bind_some, hvalid]
    rcases hmark with rfl | rfl | rfl
    all_goals
      simp only [htime, trimStart_cons hblank, readZone_zoneText hz, hseconds, hi.isDay,
        Option.bind_some, hvalue]
      rfl

theorem exists_yearText {y : Int} (hlo : Date.firstYear ≤ y) (hhi : y ≤ Date.lastYear) :
    ∃ t, YearText y t := by
  have hfirst : Date.firstYear = -262143 := rfl
  have hlast : Date.lastYear = 262142 := rfl
  obtain ⟨n, rfl | rfl⟩ := Int.eq_nat_or_neg y
  · exact ⟨_, .after (show 4 ≤ 6 by decide) (by omega)⟩
  · exact ⟨_, .before (show 4 ≤ 6 by decide) (by omega)⟩

theorem exists_zoneText (hlo : -1440 < offset) (hhi : offset < 1440) : ∃ t, ZoneText offset t := by
  obtain ⟨n, rfl | rfl⟩ := Int.eq_nat_or_neg offset
  · rw [← Nat.div_add_mod n 60]
    exact ⟨_, .east (by omega) (by omega)⟩
  · rw [← Nat.div_add_mod n 60]
    exact ⟨_, .west (by omega) (by omega)⟩

theorem exists_written (hi : i.InYears (-262142) 262141) (hlo : -1440 < offset)
    (hhi : offset < 1440) : ∃ t, i.Written offset t := by
  obtain ⟨seconds, hseconds⟩ : ∃ s, s = i.nanoseconds / 1_000_000_000 + 60 * offset := ⟨_, rfl⟩
  obtain ⟨rest, hrest⟩ : ∃ n : Nat, (n : Int) = seconds % 86400 :=
    ⟨_, Int.toNat_of_nonneg (Int.emod_nonneg _ (by decide))⟩
  obtain ⟨nanosecond, hnano⟩ : ∃ n : Nat, (n : Int) = i.nanoseconds % 1_000_000_000 :=
    ⟨_, Int.toNat_of_nonneg (Int.emod_nonneg _ (by decide))⟩
  obtain ⟨d, hd⟩ := Date.exists_counts (seconds / 86400)
  have hvalid := hi.isValid hd (by omega) (by omega)
  simp only [Date.isValid, Bool.and_eq_true, decide_eq_true_eq] at hvalid
  obtain ⟨year, hy⟩ := exists_yearText hvalid.1.1.1.1.1 hvalid.1.1.1.1.2
  obtain ⟨zone, hz⟩ := exists_zoneText hlo hhi
  have hf : FractionText nanosecond ('.' :: digits 9 nanosecond) :=
    .present (by decide) (by omega) rfl
  have exact : i.nanoseconds = 1_000_000_000 * (86400 * (seconds / 86400) +
      3600 * (rest / 3600 : Nat) + 60 * (rest % 3600 / 60 : Nat) + (rest % 60 : Nat) -
        60 * offset) + nanosecond := by
    omega
  exact ⟨_, .mk hd (by omega) (by omega) (by omega) hy (.inl rfl) hf hz exact⟩

end Instant

end ChangeRelay.Time
