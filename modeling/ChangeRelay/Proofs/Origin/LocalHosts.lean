import ChangeRelay.Proofs.Origin.Authority

namespace ChangeRelay.Origin

def authorityOf (o : List Char) : List Char := (o.drop 7).takeWhile fun c ↦ !endsAuthority c

theorem httpHost?_eq_some_iff {o h : List Char} :
    httpHost? o = some h ↔
      o.length ≤ maxLength ∧ sameName (o.take 7) "http://".toList = true ∧ authorityOf o ≠ [] ∧
        isAuthority (authorityOf o) = true ∧
        isTail ((o.drop 7).drop (authorityOf o).length) = true ∧ host (authorityOf o) = h := by
  unfold httpHost?
  dsimp only
  change (if _ then (if (!(authorityOf o).isEmpty && isAuthority (authorityOf o) &&
    isTail ((o.drop 7).drop (authorityOf o).length)) = true then some (host (authorityOf o))
    else none) else none) = _ ↔ _
  simp only [Option.ite_none_right_eq_some, Bool.and_eq_true, decide_eq_true_eq,
    Bool.not_eq_true', List.isEmpty_eq_false_iff, Option.some.injEq, and_assoc]

def tailOf (o : List Char) : List Char := (o.drop 7).dropWhile fun c ↦ !endsAuthority c

theorem authorityOf_append_tailOf (o : List Char) : authorityOf o ++ tailOf o = o.drop 7 :=
  List.takeWhile_append_dropWhile

theorem drop_authorityOf (o : List Char) :
    (o.drop 7).drop (authorityOf o).length = tailOf o := by
  rw [← authorityOf_append_tailOf, List.drop_left]

/-- The parts of an origin with an authority: `user` goes up to the last at sign, and `port` is all
that is left of the authority after the host. -/
structure Parts where
  scheme : List Char
  user : List Char
  host : List Char
  port : List Char
  tail : List Char

namespace Parts

def authority (p : Parts) : List Char := p.user ++ (p.host ++ p.port)

def text (p : Parts) : List Char := p.scheme ++ (p.authority ++ p.tail)

structure IsLocal (p : Parts) : Prop where
  scheme : sameName p.scheme "http://".toList = true
  user : ∀ c, p.user.getLast? = some c → c = '@'
  host : ∃ l ∈ localHosts, sameName p.host l = true
  port : '@' ∉ p.port
  authority : ∀ c ∈ p.authority, endsAuthority c = false
  tail : ∀ c, p.tail.head? = some c → endsAuthority c = true

def IsExact (p : Parts) : Prop := ∀ c, p.port.head? = some c → c = ':'

structure IsWellFormed (p : Parts) : Prop where
  length_le : p.text.length ≤ maxLength
  authority : isAuthority p.authority = true
  tail : isTail p.tail = true

variable {p : Parts}

theorem IsLocal.length_scheme (h : p.IsLocal) : p.scheme.length = 7 := length_of_sameName h.scheme

theorem IsLocal.take_text (h : p.IsLocal) : p.text.take 7 = p.scheme :=
  List.take_left' h.length_scheme

theorem IsLocal.drop_text (h : p.IsLocal) : p.text.drop 7 = p.authority ++ p.tail :=
  List.drop_left' h.length_scheme

theorem IsLocal.authorityOf_text (h : p.IsLocal) : authorityOf p.text = p.authority := by
  rw [authorityOf, h.drop_text]
  refine takeWhile_append_stop (fun c hc ↦ ?_) fun c hc ↦ ?_
  · rw [h.authority c hc]
    rfl
  · rw [h.tail c hc]
    rfl

theorem IsLocal.at_not_mem (h : p.IsLocal) : '@' ∉ p.host ++ p.port := by
  obtain ⟨l, hl, hh⟩ := h.host
  intro hm
  rcases List.mem_append.mp hm with hm | hm
  · exact (localHosts_chars l hl).1 ((mem_of_sameName hh (by decide)).mp hm)
  · exact h.port hm

theorem IsLocal.afterLastAt_eq (h : p.IsLocal) : afterLastAt p.authority = p.host ++ p.port :=
  afterLastAt_append h.user h.at_not_mem

theorem IsLocal.httpHost?_eq (h : p.IsLocal) (hw : p.IsWellFormed)
    (hp : p.IsExact ∨ sameName p.host "[::1]".toList = true) : httpHost? p.text = some p.host := by
  obtain ⟨l, hl, hh⟩ := h.host
  rw [httpHost?_eq_some_iff, h.take_text, h.authorityOf_text]
  refine ⟨hw.length_le, h.scheme, ?_, hw.authority, ?_, host_append h.user hl hh h.port hp⟩
  · intro hn
    have hnil : p.host = [] := (List.append_eq_nil_iff.mp (List.append_eq_nil_iff.mp hn).2).1
    have hlen := length_of_sameName hh
    rw [hnil] at hlen
    exact (localHosts_chars l hl).2.1 (List.length_eq_zero_iff.mp hlen.symm)
  · rw [h.drop_text, List.drop_left]
    exact hw.tail

end Parts

theorem exists_parts {o h : List Char} (ho : httpHost? o = some h)
    (hl : ∃ l ∈ localHosts, sameName h l = true) :
    ∃ p : Parts, p.text = o ∧ p.IsLocal ∧ p.IsWellFormed ∧
      (p.IsExact ∨ sameName p.host "[::1]".toList = true) := by
  obtain ⟨hlen, hscheme, -, ha, htail, rfl⟩ := httpHost?_eq_some_iff.mp ho
  obtain ⟨u, hu, hlast, hat⟩ := exists_user (authorityOf o)
  obtain ⟨port, hport, hend⟩ := exists_port ha
  rw [drop_authorityOf] at htail
  let p : Parts := ⟨o.take 7, u, host (authorityOf o), port, tailOf o⟩
  have hauthority : p.authority = authorityOf o := by
    change u ++ (host (authorityOf o) ++ port) = _
    rw [hport, hu]
  have htext : p.text = o := by
    change o.take 7 ++ (p.authority ++ tailOf o) = o
    rw [hauthority, authorityOf_append_tailOf, List.take_append_drop]
  refine ⟨p, htext, ⟨hscheme, hlast, hl, ?_, ?_, ?_⟩,
    ⟨htext.symm ▸ hlen, hauthority.symm ▸ ha, htail⟩, ?_⟩
  · exact fun hm ↦ hat (hport ▸ List.mem_append_right _ hm)
  · rw [hauthority]
    intro c hc
    simpa using List.mem_takeWhile_imp hc
  · intro c hc
    have hstop := List.head?_dropWhile_not (fun c ↦ !endsAuthority c) (o.drop 7)
    change (tailOf o).head? = some c at hc
    rw [← tailOf, hc] at hstop
    simpa using hstop
  · refine hend.imp_right fun hb ↦ ?_
    -- Of the local hosts only one is in brackets.
    obtain ⟨l, hmem, hh⟩ := hl
    rcases (localHosts_chars l hmem).2.2 with rfl | ⟨-, hbracket⟩
    · exact hh
    · exact absurd ((mem_of_sameName hh (by decide)).mp (List.mem_of_head? hb)) hbracket

theorem isLocal_iff (o : List Char) :
    isLocal o = true ↔ o = "null".toList ∨ ∃ p : Parts, p.text = o ∧ p.IsLocal ∧ p.IsWellFormed ∧
      (p.IsExact ∨ sameName p.host "[::1]".toList = true) := by
  unfold isLocal
  rw [Bool.or_eq_true, decide_eq_true_eq]
  refine or_congr_right ⟨?_, ?_⟩
  · intro h
    split at h
    · rename_i host hhost
      exact exists_parts hhost (List.any_eq_true.mp h)
    · cases h
  · rintro ⟨p, rfl, hl, hw, hp⟩
    rw [hl.httpHost?_eq hw hp]
    obtain ⟨l, hmem, hh⟩ := hl.host
    exact List.any_eq_true.mpr ⟨l, hmem, hh⟩

/-- Nothing but a local host, with or without a port of up to five digits. -/
structure Parts.IsBare (p : Parts) : Prop where
  scheme : sameName p.scheme "http://".toList = true
  user : p.user = []
  host : ∃ l ∈ localHosts, sameName p.host l = true
  port : p.port = [] ∨ ∃ ds, p.port = ':' :: ds ∧ ds.length ≤ 5 ∧ ∀ d ∈ ds, d.isDigit = true
  tail : p.tail = []

namespace Parts.IsBare

variable {p : Parts}

theorem authority_eq (h : p.IsBare) : p.authority = p.host ++ p.port := by
  rw [authority, h.user, List.nil_append]

theorem port_plain (h : p.IsBare) :
    p.port = [] ∨ ∃ ds, p.port = ':' :: ds ∧ ∀ d ∈ ds, IsPlain d := by
  refine h.port.imp_right ?_
  rintro ⟨ds, hds, -, hdigit⟩
  exact ⟨ds, hds, fun d hd ↦ isPlain_of_isAlphanum (by simp [Char.isAlphanum, hdigit d hd])⟩

theorem isAuthorityChar (h : p.IsBare) : ∀ c ∈ p.authority, isAuthorityChar c = true := by
  obtain ⟨l, hl, hh⟩ := h.host
  have hall : ∀ l ∈ localHosts, l.all Origin.isAuthorityChar = true := by decide
  rw [h.authority_eq]
  intro c hc
  rcases List.mem_append.mp hc with hc | hc
  · exact forall_of_sameName isAuthorityChar_lower hh (hall l hl) c hc
  · rcases h.port_plain with he | ⟨ds, he, hds⟩
    · rw [he] at hc
      cases hc
    · rw [he] at hc
      rcases List.mem_cons.mp hc with rfl | hc
      · decide
      · exact (hds c hc).allowed

theorem isExact (h : p.IsBare) : p.IsExact := by
  intro c hc
  rcases h.port with he | ⟨ds, he, -⟩
  · rw [he] at hc
    cases hc
  · rw [he] at hc
    exact (Option.some.inj hc).symm

theorem isLocal (h : p.IsBare) : p.IsLocal where
  scheme := h.scheme
  user := by simp [h.user]
  host := h.host
  port := by
    intro hm
    rcases h.port_plain with he | ⟨ds, he, hds⟩
    · rw [he] at hm
      cases hm
    · rw [he] at hm
      rcases List.mem_cons.mp hm with hc | hm
      · cases hc
      · exact (hds _ hm).special (by decide)
  authority c hc := endsAuthority_of_isAuthorityChar (h.isAuthorityChar c hc)
  tail := by simp [h.tail]

theorem isWellFormed (h : p.IsBare) : p.IsWellFormed where
  length_le := by
    obtain ⟨l, hl, hh⟩ := h.host
    have hhost : p.host.length ≤ 9 := by
      have hshort : ∀ l ∈ localHosts, l.length ≤ 9 := by decide
      exact length_of_sameName hh ▸ hshort l hl
    have hport : p.port.length ≤ 6 := by
      rcases h.port with he | ⟨ds, he, hds, -⟩
      · simp [he]
      · rw [he, List.length_cons]
        omega
    rw [text, h.authority_eq, h.tail]
    simp only [List.length_append, h.isLocal.length_scheme, List.length_nil, maxLength]
    omega
  authority := by
    obtain ⟨l, hl, hh⟩ := h.host
    rw [h.authority_eq]
    exact isAuthority_of_local hl hh h.port_plain
  tail := by
    rw [h.tail]
    rfl

theorem isVisible (h : p.IsBare) : p.text.all isVisible = true := by
  rw [List.all_eq_true, text, h.tail, List.append_nil]
  intro c hc
  rcases List.mem_append.mp hc with hc | hc
  · exact forall_of_sameName isVisible_lower h.scheme (by decide) c hc
  · exact isVisible_of_isAuthorityChar (h.isAuthorityChar c hc)

end Parts.IsBare

def originLine? (headers : List (String × String)) : Option (String × String) :=
  headers.find? fun h ↦ sameName h.1.toList "origin".toList

variable {headers : List (String × String)} {line : String × String}

theorem isAdmitted_of_none (h : originLine? headers = none) : isAdmitted headers = true := by
  unfold originLine? at h
  rw [isAdmitted, h]

theorem isAdmitted_iff (h : originLine? headers = some line) :
    isAdmitted headers = true ↔
      (trim line.2.toList).all isVisible = true ∧ isLocal (trim line.2.toList) = true := by
  unfold originLine? at h
  rw [isAdmitted, h]
  dsimp only
  split
  · rename_i hv
    simp [hv]
  · rename_i hv
    have hempty : isLocal [] = false := by decide
    simp [hv, hempty]

theorem check_eq_ok_iff : check headers = .ok () ↔ isAdmitted headers = true := by
  unfold check
  cases isAdmitted headers <;> simp

/-- A request without an origin is let in. One with an origin is let in if and only if that is
visible text and is `null`, or a well-formed address of the scheme `http` with a local host: the
part after the last at sign is the host, and a port or nothing follows, or the host is the one in
brackets. Bare local hosts are let in, and who is not let in is told 403. -/
theorem admits_local_hosts (headers : List (String × String)) :
    (originLine? headers = none → check headers = .ok ()) ∧
    (∀ line, originLine? headers = some line →
      let o := trim line.2.toList
      (check headers = .ok () ↔ o.all isVisible = true ∧
        (o = "null".toList ∨ ∃ p : Parts, p.text = o ∧ p.IsLocal ∧ p.IsWellFormed ∧
          (p.IsExact ∨ sameName p.host "[::1]".toList = true))) ∧
      (o = "null".toList ∨ (∃ p : Parts, p.text = o ∧ p.IsBare) → check headers = .ok ())) ∧
    (check headers ≠ .ok () → check headers = .error ⟨403, "Origin not allowed"⟩) := by
  refine ⟨fun h ↦ check_eq_ok_iff.mpr (isAdmitted_of_none h), ?_, ?_⟩
  · intro line h
    have hok := check_eq_ok_iff.trans (isAdmitted_iff h)
    rw [isLocal_iff] at hok
    dsimp only
    generalize trim line.2.toList = o at hok ⊢
    refine ⟨hok, ?_⟩
    rintro (rfl | ⟨p, rfl, hbare⟩)
    · exact hok.mpr ⟨by decide, .inl rfl⟩
    · exact hok.mpr ⟨hbare.isVisible,
        .inr ⟨p, rfl, hbare.isLocal, hbare.isWellFormed, .inl hbare.isExact⟩⟩
  · intro h
    exact if_neg (mt check_eq_ok_iff.mpr h)

theorem admits_local_hosts_user :
    check [("ORIGIN", " HTTP://a@LocalHost:80/x ")] = .ok () ∧
      ∃ p : Parts, p.text = "HTTP://a@LocalHost:80/x".toList ∧ p.IsLocal := by
  have hok : check [("ORIGIN", " HTTP://a@LocalHost:80/x ")] = .ok () := rfl
  have h := (admits_local_hosts [("ORIGIN", " HTTP://a@LocalHost:80/x ")]).2.1 _ rfl
  obtain ⟨-, hn | ⟨p, hp, hl, -⟩⟩ := h.1.mp hok
  · exact absurd hn (by decide)
  · exact ⟨hok, p, hp, hl⟩

/-- The page of another host whose name begins with the address in brackets is let in. -/
theorem not_always_exact :
    ¬∀ (headers : List (String × String)) (line : String × String),
      originLine? headers = some line → check headers = .ok () →
      trim line.2.toList = "null".toList ∨
        ∃ p : Parts, p.text = trim line.2.toList ∧ p.IsLocal ∧ p.IsExact := by
  intro hall
  rcases hall [("Origin", "http://[::1].evil.example")] _ rfl rfl with hn | ⟨p, hp, hl, hexact⟩
  · exact absurd hn (by decide)
  · have hrest : p.host ++ p.port = "[::1].evil.example".toList := by
      rw [← hl.afterLastAt_eq, ← hl.authorityOf_text, hp]
      decide
    obtain ⟨l, hmem, hh⟩ := hl.host
    obtain ⟨-, hne, hchars⟩ := localHosts_chars l hmem
    cases hhost : p.host with
    | nil =>
      rw [hhost] at hh
      exact hne (List.length_eq_zero_iff.mp (length_of_sameName hh).symm)
    | cons c h =>
      rw [hhost] at hrest hh
      obtain ⟨rfl, -⟩ := List.cons.inj hrest
      -- A host that begins with a bracket is the one in brackets.
      have hl := hchars.resolve_right fun hn ↦
        hn.2 ((mem_of_sameName hh (by decide)).mp List.mem_cons_self)
      rw [eq_of_sameName hh (hl ▸ by decide), hl] at hrest
      have hport : p.port = ".evil.example".toList := List.append_cancel_left hrest
      exact absurd (hexact '.' (by rw [hport]; rfl)) (by decide)

end ChangeRelay.Origin
