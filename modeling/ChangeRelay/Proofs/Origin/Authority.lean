import ChangeRelay.Origin
import Mathlib.Data.List.DropRight

namespace ChangeRelay.Origin

theorem isAlpha_iff (c : Char) :
    c.isAlpha = true ↔
      65 ≤ c.toNat ∧ c.toNat ≤ 90 ∨ 97 ≤ c.toNat ∧ c.toNat ≤ 122 := by
  have hupper : c.isUpper = true ↔ 65 ≤ c.toNat ∧ c.toNat ≤ 90 := decide_eq_true_iff
  have hlower : c.isLower = true ↔ 97 ≤ c.toNat ∧ c.toNat ≤ 122 :=
    Bool.and_eq_true_iff.trans (and_congr decide_eq_true_iff decide_eq_true_iff)
  exact Bool.or_eq_true_iff.trans (or_congr hupper hlower)

theorem toNat_lower (c : Char) :
    (lower c).toNat = if 65 ≤ c.toNat ∧ c.toNat ≤ 90 then c.toNat + 32 else c.toNat := by
  unfold lower
  simp only [Bool.and_eq_true, decide_eq_true_eq]
  change (if 65 ≤ c.toNat ∧ c.toNat ≤ 90 then _ else _ : Char).toNat = _
  split
  · have hv : (c.toNat + 32).isValidChar := .inl (by omega)
    rw [Char.ofNat, dif_pos hv]
    rfl
  · rfl

theorem isAlpha_lower (c : Char) : (lower c).isAlpha = c.isAlpha := by
  rw [Bool.eq_iff_iff, isAlpha_iff, isAlpha_iff, toNat_lower]
  split <;> omega

theorem lower_of_not_isAlpha {c : Char} (hc : c.isAlpha = false) : lower c = c := by
  have hn := mt (isAlpha_iff c).mpr (by simp [hc])
  rw [← Char.toNat_inj, toNat_lower, if_neg (by omega)]

theorem lower_eq_iff {x : Char} (hx : x.isAlpha = false) (c : Char) : lower c = x ↔ c = x := by
  constructor
  · rintro rfl
    rw [isAlpha_lower] at hx
    exact (lower_of_not_isAlpha hx).symm
  · rintro rfl
    exact lower_of_not_isAlpha hx

theorem isVisible_iff (c : Char) :
    isVisible c = true ↔ c.toNat = 9 ∨ 32 ≤ c.toNat ∧ c.toNat ≤ 126 := by
  simp only [isVisible, Bool.or_eq_true, Bool.and_eq_true, decide_eq_true_eq, ← Char.toNat_inj]
  rfl

theorem isVisible_lower (c : Char) : isVisible (lower c) = isVisible c := by
  rw [Bool.eq_iff_iff, isVisible_iff, isVisible_iff, toNat_lower]
  split <;> omega

section sameName

variable {s t : List Char}

theorem sameName_iff : sameName s t = true ↔ s.map lower = t.map lower := beq_iff_eq

theorem length_of_sameName (h : sameName s t = true) : s.length = t.length := by
  simpa using congrArg List.length (sameName_iff.mp h)

theorem mem_of_sameName (h : sameName s t = true) {x : Char} (hx : x.isAlpha = false) :
    x ∈ s ↔ x ∈ t := by
  have hmem (u : List Char) : x ∈ u.map lower ↔ x ∈ u := by simp [lower_eq_iff hx]
  rw [← hmem s, sameName_iff.mp h, hmem t]

theorem eq_of_sameName (h : sameName s t = true) (ht : t.any Char.isAlpha = false) : s = t := by
  rw [sameName_iff] at h
  induction t generalizing s with
  | nil => exact List.map_eq_nil_iff.mp h
  | cons x t ih =>
    obtain ⟨c, s, rfl, hc, hs⟩ := List.map_eq_cons_iff.mp h
    obtain ⟨hx, ht⟩ := Bool.or_eq_false_iff.mp (List.any_cons ▸ ht)
    rw [lower_of_not_isAlpha hx, lower_eq_iff hx] at hc
    rw [hc, ih hs ht]

theorem forall_of_sameName {q : Char → Bool} (hq : ∀ c, q (lower c) = q c)
    (h : sameName s t = true) (ht : t.all q = true) : ∀ x ∈ s, q x = true := by
  intro x hx
  have hmem : lower x ∈ t.map lower := sameName_iff.mp h ▸ List.mem_map_of_mem hx
  obtain ⟨y, hy, he⟩ := List.mem_map.mp hmem
  rw [← hq, ← he, hq, List.all_eq_true.mp ht y hy]

end sameName

theorem isAuthorityChar_lower (c : Char) : isAuthorityChar (lower c) = isAuthorityChar c := by
  cases hc : c.isAlpha with
  | false => rw [lower_of_not_isAlpha hc]
  | true => simp [isAuthorityChar, Char.isAlphanum, isAlpha_lower, hc]

/-- Characters of an authority that mean nothing but themselves. -/
structure IsPlain (c : Char) : Prop where
  allowed : isAuthorityChar c = true
  special : c ∉ "@:[]".toList

theorem isPlain_of_isAlphanum {c : Char} (h : c.isAlphanum = true) : IsPlain c := by
  refine ⟨by simp [isAuthorityChar, h], ?_⟩
  intro hc
  have hnone : "@:[]".toList.any Char.isAlphanum = false := by decide
  exact List.any_eq_false.mp hnone c hc h

theorem ne_of_isAuthorityChar {c x : Char} (h : isAuthorityChar c = true)
    (hx : isAuthorityChar x = false) : c ≠ x := by
  rintro rfl
  rw [h] at hx
  cases hx

theorem isVisible_of_isAuthorityChar {c : Char} (h : isAuthorityChar c = true) :
    isVisible c = true := by
  have hall : "!$&'()*+,-.:;=@[]_~".toList.all isVisible = true := by decide
  rcases Bool.or_eq_true_iff.mp h with ha | hs
  · rw [isVisible_iff]
    rcases Bool.or_eq_true_iff.mp ha with ha | hd
    · have := (isAlpha_iff c).mp ha
      omega
    · have : 48 ≤ c.toNat ∧ c.toNat ≤ 57 := Char.isDigit_iff_toNat.mp hd
      omega
  · exact List.all_eq_true.mp hall c (List.contains_iff_mem.mp hs)

theorem endsAuthority_of_isAuthorityChar {c : Char} (h : isAuthorityChar c = true) :
    endsAuthority c = false := by
  have hne {x : Char} (hx : isAuthorityChar x = false) : c ≠ x := ne_of_isAuthorityChar h hx
  simp [endsAuthority, hne (x := '/') (by decide), hne (x := '?') (by decide),
    hne (x := '#') (by decide)]

namespace Scan

variable {s s' : Scan} {c : Char} {cs : List Char}

theorem step_of_isPlain (s : Scan) (h : IsPlain c) : s.step c = some s := by
  have hspecial := h.special
  have hne : c ≠ '%' := ne_of_isAuthorityChar h.allowed (by decide)
  change c ∉ ['@', ':', '[', ']'] at hspecial
  simp only [List.mem_cons, List.not_mem_nil, or_false, not_or] at hspecial
  simp [step, hne, h.allowed, hspecial]

theorem scan_of_plain (s : Scan) (h : ∀ c ∈ cs, IsPlain c) : cs.foldlM step s = some s := by
  induction cs with
  | nil => rfl
  | cons c cs ih =>
    rw [List.foldlM_cons, step_of_isPlain s (h c List.mem_cons_self)]
    exact ih fun d hd ↦ h d (List.mem_cons_of_mem c hd)

theorem step_lower (s : Scan) (c : Char) : s.step (lower c) = s.step c := by
  cases hc : c.isAlpha with
  | false => rw [lower_of_not_isAlpha hc]
  | true =>
    have hplain {d : Char} (hd : d.isAlpha = true) : s.step d = some s :=
      step_of_isPlain s (isPlain_of_isAlphanum (by simp [Char.isAlphanum, hd]))
    rw [hplain hc, hplain (by rw [isAlpha_lower, hc])]

theorem scan_of_sameName (s : Scan) {t u : List Char} (h : sameName t u = true) :
    t.foldlM step s = u.foldlM step s := by
  have hlower (v : List Char) : (v.map lower).foldlM step s = v.foldlM step s := by
    rw [List.foldlM_map]
    simp only [step_lower]
  rw [← hlower t, sameName_iff.mp h, hlower u]

theorem step_brackets (h : s.step c = some s') :
    (c = '[' ∧ s.opened = false ∧ s'.opened = true ∧ s'.closed = s.closed) ∨
    (c = ']' ∧ s.opened = true ∧ s'.opened = true ∧ s'.closed = true) ∨
    (c ∉ ['[', ']'] ∧ s'.opened = s.opened ∧ s'.closed = s.closed) := by
  by_cases hopen : c = '['
  · subst hopen
    have h : (if s.percent || s.opened then none else some { s with opened := true }) = some s' := h
    split at h
    · cases h
    · rename_i hn
      cases h
      simp only [Bool.or_eq_true, not_or, Bool.not_eq_true] at hn
      exact .inl ⟨rfl, hn.2, rfl, rfl⟩
  by_cases hclose : c = ']'
  · subst hclose
    have h : (if !s.opened || s.closed then none
      else some { s with closed := true, colons := 0, percent := false }) = some s' := h
    split at h
    · cases h
    · rename_i hn
      cases h
      simp only [Bool.or_eq_true, not_or, Bool.not_eq_true', Bool.not_eq_false] at hn
      exact .inr (.inl ⟨rfl, hn.1, hn.1, rfl⟩)
  -- Any other character leaves the brackets as they are.
  refine .inr (.inr ⟨by simp [hopen, hclose], ?_⟩)
  simp only [step, hopen, hclose, if_false] at h
  repeat' split at h
  all_goals cases h
  all_goals exact ⟨rfl, rfl⟩

/-- A bracket that closes comes after one that opens. -/
theorem opened_of_closed (h : cs.foldlM step s = some s') (hs : s.closed = true → s.opened = true) :
    s'.closed = true → s'.opened = true := by
  induction cs generalizing s with
  | nil =>
    cases h
    exact hs
  | cons c cs ih =>
    obtain ⟨s₁, h₁, hrest⟩ := Option.bind_eq_some_iff.mp h
    refine ih hrest fun hc ↦ ?_
    obtain ⟨-, -, ho, -⟩ | ⟨-, -, ho, -⟩ | ⟨-, ho, hcl⟩ := step_brackets h₁
    · exact ho
    · exact ho
    · rw [ho]
      exact hs (hcl ▸ hc)

theorem opened_of_opened (h : cs.foldlM step s = some s') (hs : s.opened = true) :
    s'.opened = true := by
  induction cs generalizing s with
  | nil =>
    cases h
    exact hs
  | cons c cs ih =>
    obtain ⟨s₁, h₁, hrest⟩ := Option.bind_eq_some_iff.mp h
    refine ih hrest ?_
    obtain ⟨-, -, ho, -⟩ | ⟨-, -, ho, -⟩ | ⟨-, ho, -⟩ := step_brackets h₁
    · exact ho
    · exact ho
    · rw [ho, hs]

theorem closed_of_not_mem (h : cs.foldlM step s = some s') (hc : ']' ∉ cs) :
    s'.closed = s.closed := by
  induction cs generalizing s with
  | nil =>
    cases h
    rfl
  | cons c cs ih =>
    obtain ⟨s₁, h₁, hrest⟩ := Option.bind_eq_some_iff.mp h
    rw [ih hrest fun hm ↦ hc (List.mem_cons_of_mem c hm)]
    obtain ⟨-, -, -, hcl⟩ | ⟨rfl, -, -, -⟩ | ⟨-, -, hcl⟩ := step_brackets h₁
    · exact hcl
    · exact absurd List.mem_cons_self hc
    · exact hcl

end Scan

theorem isAuthority_iff (a : List Char) :
    isAuthority a = true ↔
      ∃ s, a.foldlM Scan.step .start = some s ∧ s.isComplete = true ∧ a.getLast? ≠ some '@' := by
  unfold isAuthority
  cases a.foldlM Scan.step .start <;> simp

theorem mem_of_bracket {u h : List Char} (ha : isAuthority (u ++ '[' :: h) = true) : ']' ∈ h := by
  obtain ⟨s, hs, hcomplete, -⟩ := (isAuthority_iff _).mp ha
  rw [List.foldlM_append] at hs
  obtain ⟨s₁, h₁, hs⟩ := Option.bind_eq_some_iff.mp hs
  obtain ⟨s₂, h₂, hs⟩ := Option.bind_eq_some_iff.mp hs
  by_contra hn
  have hpair : s.opened = s.closed := by
    simp only [Scan.isComplete, Bool.and_eq_true, beq_iff_eq] at hcomplete
    exact hcomplete.1.1
  obtain ⟨-, ho₁, ho₂, hc₂⟩ | ⟨hc, -⟩ | ⟨hc, -⟩ := Scan.step_brackets h₂
  · have hc₁ : s₁.closed = false := by
      cases hc : s₁.closed with
      | false => rfl
      | true =>
        have := Scan.opened_of_closed h₁ (fun h ↦ h) hc
        rw [ho₁] at this
        cases this
    have ho := Scan.opened_of_opened hs ho₂
    rw [hpair, Scan.closed_of_not_mem hs hn, hc₂, hc₁] at ho
    cases ho
  · cases hc
  · exact absurd List.mem_cons_self hc

theorem takeWhile_append_stop {α : Type} {p : α → Bool} {xs ys : List α} (hx : ∀ x ∈ xs, p x = true)
    (hy : ∀ y, ys.head? = some y → p y = false) : (xs ++ ys).takeWhile p = xs := by
  rw [List.takeWhile_append_of_pos hx]
  cases ys with
  | nil => simp
  | cons y ys => rw [List.takeWhile_cons_of_neg (by simp [hy y rfl]), List.append_nil]

theorem afterLastAt_append {u v : List Char} (hu : ∀ c, u.getLast? = some c → c = '@')
    (hv : '@' ∉ v) : afterLastAt (u ++ v) = v := by
  unfold afterLastAt
  rw [List.reverse_append, takeWhile_append_stop, List.reverse_reverse]
  · intro c hc
    simp only [ne_eq, decide_not, Bool.not_eq_eq_eq_not, Bool.not_true, decide_eq_false_iff_not]
    rintro rfl
    exact hv (List.mem_reverse.mp hc)
  · intro c hc
    simp [hu c (by rwa [List.head?_reverse] at hc)]

theorem exists_user (a : List Char) :
    ∃ u, u ++ afterLastAt a = a ∧ (∀ c, u.getLast? = some c → c = '@') ∧ '@' ∉ afterLastAt a := by
  refine ⟨a.rdropWhile (· ≠ '@'), List.rdropWhile_append_rtakeWhile, ?_, ?_⟩
  · intro c hc
    obtain ⟨hne, rfl⟩ := List.mem_getLast?_eq_getLast hc
    simpa using List.rdropWhile_last_not (· ≠ '@') a hne
  · intro hm
    simpa using List.mem_rtakeWhile_imp hm

/-- The host is what comes first after the last at sign, with nothing but a port behind it unless it
is in brackets. -/
theorem exists_port {a : List Char} (ha : isAuthority a = true) :
    ∃ port, host a ++ port = afterLastAt a ∧
      ((∀ c, port.head? = some c → c = ':') ∨ (host a).head? = some '[') := by
  obtain ⟨u, hua, -, -⟩ := exists_user a
  unfold host
  split
  · rename_i h he
    rw [he] at hua
    have hmem : ']' ∈ h := mem_of_bracket (hua.symm ▸ ha)
    refine ⟨(h.dropWhile (· ≠ ']')).tail, ?_, .inr (by simp)⟩
    rw [he]
    have hne : h.dropWhile (· ≠ ']') ≠ [] := by
      intro hn
      simpa using List.dropWhile_eq_nil_iff.mp hn ']' hmem
    have hhead : (h.dropWhile (· ≠ ']')).head hne = ']' := by
      simpa using List.head_dropWhile_not (· ≠ ']') hne
    have hrest : ']' :: (h.dropWhile (· ≠ ']')).tail = h.dropWhile (· ≠ ']') := by
      conv_rhs => rw [← List.cons_head_tail hne, hhead]
    simp only [List.cons_append, List.append_assoc, List.nil_append]
    rw [hrest, List.takeWhile_append_dropWhile]
  · refine ⟨(afterLastAt a).dropWhile (· ≠ ':'), List.takeWhile_append_dropWhile, .inl ?_⟩
    intro c hc
    have hstop := List.head?_dropWhile_not (· ≠ ':') (afterLastAt a)
    rw [hc] at hstop
    simpa using hstop

theorem localHosts_chars : ∀ l ∈ localHosts, '@' ∉ l ∧ l ≠ [] ∧
    (l = "[::1]".toList ∨ ':' ∉ l ∧ '[' ∉ l) := by decide

theorem scan_of_local {h l : List Char} (hl : l ∈ localHosts) (hh : sameName h l = true) :
    ∃ s : Scan, h.foldlM Scan.step .start = some s ∧ s.opened = s.closed ∧ s.colons = 0 ∧
      s.percent = false := by
  rw [Scan.scan_of_sameName _ hh]
  simp only [localHosts, List.mem_cons, List.not_mem_nil, or_false] at hl
  rcases hl with rfl | rfl | rfl
  · exact ⟨.start, rfl, rfl, rfl, rfl⟩
  · exact ⟨.start, rfl, rfl, rfl, rfl⟩
  · exact ⟨⟨0, false, true, true⟩, rfl, rfl, rfl, rfl⟩

theorem isAuthority_of_local {h l port : List Char} (hl : l ∈ localHosts)
    (hh : sameName h l = true)
    (hp : port = [] ∨ ∃ ds, port = ':' :: ds ∧ ∀ d ∈ ds, IsPlain d) :
    isAuthority (h ++ port) = true := by
  obtain ⟨s, hs, hpair, hcolons, hpercent⟩ := scan_of_local hl hh
  have hlast : (h ++ port).getLast? ≠ some '@' := by
    intro he
    rcases List.mem_append.mp (List.mem_of_getLast? he) with hm | hm
    · exact (localHosts_chars l hl).1 ((mem_of_sameName hh (by decide)).mp hm)
    · rcases hp with rfl | ⟨ds, rfl, hds⟩
      · cases hm
      · rcases List.mem_cons.mp hm with hc | hm
        · cases hc
        · exact (hds _ hm).special (by decide)
  rw [isAuthority_iff]
  rcases hp with rfl | ⟨ds, rfl, hds⟩
  · exact ⟨s, by rw [List.append_nil, hs], by simp [Scan.isComplete, *], hlast⟩
  · refine ⟨{ s with colons := 1 }, ?_, by simp [Scan.isComplete, *], hlast⟩
    have hallowed : isAuthorityChar ':' = true := by decide
    have hcolon : s.step ':' = some { s with colons := 1 } := by
      simp [Scan.step, hcolons, hallowed]
    rw [List.foldlM_append, hs]
    change (':' :: ds).foldlM Scan.step s = _
    rw [List.foldlM_cons, hcolon]
    exact Scan.scan_of_plain _ hds

theorem host_append {u h port l : List Char} (hu : ∀ c, u.getLast? = some c → c = '@')
    (hl : l ∈ localHosts) (hh : sameName h l = true) (hp : '@' ∉ port)
    (hport : (∀ c, port.head? = some c → c = ':') ∨ sameName h "[::1]".toList = true) :
    host (u ++ (h ++ port)) = h := by
  obtain ⟨hat, hne, hchars⟩ := localHosts_chars l hl
  have hlast : afterLastAt (u ++ (h ++ port)) = h ++ port := by
    refine afterLastAt_append hu fun hm ↦ ?_
    rcases List.mem_append.mp hm with hm | hm
    · exact hat ((mem_of_sameName hh (by decide)).mp hm)
    · exact hp hm
  rw [host, hlast]
  have hsix (hs : sameName h "[::1]".toList = true) : h = "[::1]".toList :=
    eq_of_sameName hs (by decide)
  rcases hchars with rfl | ⟨hcolon, hbracket⟩
  · rw [hsix hh]
    rfl
  · have hmem : '[' ∉ h := mt (mem_of_sameName hh (by decide)).mp hbracket
    have hhead : ∀ c, port.head? = some c → c = ':' :=
      hport.resolve_right fun hs ↦ hmem (hsix hs ▸ by decide)
    split
    · rename_i r he
      cases h with
      | nil =>
        have hlen := length_of_sameName hh
        exact absurd (List.length_eq_zero_iff.mp hlen.symm) hne
      | cons c h =>
        cases he
        exact absurd List.mem_cons_self hmem
    · refine takeWhile_append_stop (fun c hc ↦ ?_) fun c hc ↦ by simp [hhead c hc]
      have hcol : ':' ∉ h := mt (mem_of_sameName hh (by decide)).mp hcolon
      simp only [ne_eq, decide_not, Bool.not_eq_eq_eq_not, Bool.not_true, decide_eq_false_iff_not]
      rintro rfl
      exact hcol hc

end ChangeRelay.Origin
