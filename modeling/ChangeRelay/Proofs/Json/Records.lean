import ChangeRelay.Proofs.Json.RoundTrip
import ChangeRelay.Proofs.Json.Shape

namespace ChangeRelay.Json

variable {α σ : Type}

theorem skipBlank_writeString (s : String) (rest : List Char) :
    skipBlank (writeString s ++ rest) = '"' :: (s.toList.flatMap escape ++ '"' :: rest) := by
  rw [writeString_append, skipBlank_cons rfl]

theorem readText_writeString (s : String) (rest : List Char) :
    readText (writeString s ++ rest) = .ok (s, rest) := by
  unfold readText
  rw [skipBlank_writeString]
  simp only [readString_escape, orFault]

theorem readInt64_writeInt {n : Int} (hn : isInt64 n = true) {rest : List Char}
    (hr : EndsNumber rest) : readInt64 (writeInt n ++ rest) = .ok (n, rest) := by
  obtain ⟨hlo, hhi⟩ := isInt64_iff.mp hn
  have hread := readNumber_writeInt ⟨hlo, by omega⟩ hr
  obtain ⟨c, r, h, hc⟩ := writeInt_head n
  rw [h, List.cons_append] at hread ⊢
  have hd : (decide (c = '-') || c.isDigit) = true := by simpa using hc
  unfold readInt64
  rw [skipBlank_cons (isBlank_numeral hc)]
  simp only [hd, hread, hn, if_true]

theorem require_eq_ok_iff {name : String} {o : Option α} {a : α} :
    require name o = .ok a ↔ o = some a := by
  cases o <;> simp [require]

theorem fill_eq_ok_iff {name : String} {field : Option α} {read : Reader α} {put : α → σ}
    {s r : List Char} {d : σ} :
    fill name field read put s = .ok (d, r) ↔
      field = none ∧ ∃ a, readMember read s = .ok (a, r) ∧ put a = d := by
  cases field with
  | some b => simp [fill]
  | none =>
    simp only [fill, bind_eq_ok_iff, true_and]
    constructor
    · rintro ⟨⟨a, r'⟩, hread, h⟩
      cases h
      exact ⟨a, hread, rfl⟩
    · rintro ⟨a, hread, rfl⟩
      exact ⟨(a, r), hread, rfl⟩

theorem fill_keeps {name : String} {field : Option α} {read : Reader α} {put : α → σ}
    {s r : List Char} {d : σ} {P : σ → Prop} (h : fill name field read put s = .ok (d, r))
    (hput : ∀ a t, read t = .ok (a, r) → P (put a)) : P d := by
  obtain ⟨-, a, ha, rfl⟩ := fill_eq_ok_iff.mp h
  obtain ⟨t, -, ha⟩ := bind_eq_ok_iff.mp ha
  exact hput a t ha

variable {member : σ → String → Reader σ} {fuel : Nat} {first : Bool} {acc acc' : σ}
  {s r : List Char}

theorem readObject_fill {k name : String} {t : List Char} {read : Reader α} {put : α → σ} {a : α}
    (hs : ahead '\x7d' first s = some (.item (writeString k ++ ':' :: t)))
    (hm : member acc k = fill name none read put) (hr : read t = .ok (a, r)) :
    readObject member (fuel + 1) first acc s = readObject member fuel false (put a) r := by
  have hc : readMember read (':' :: t) = .ok (a, r) := hr
  have hf : member acc k (':' :: t) = .ok (put a, r) := by
    rw [hm]
    exact fill_eq_ok_iff.mpr ⟨rfl, a, hc, rfl⟩
  rw [readObject, hs]
  simp only [orFault, bind, Except.bind, readKey_writeString, hf]

theorem readObject_close (hs : ahead '\x7d' first s = some (.close r)) :
    readObject member (fuel + 1) first acc s = .ok (acc, r) := by
  rw [readObject, hs]
  rfl

/-- What each member that is read keeps, the whole object keeps. -/
theorem readObject_keeps {P : σ → Prop}
    (hm : ∀ acc k s acc' r, P acc → member acc k s = .ok (acc', r) → P acc') (hp : P acc)
    (h : readObject member fuel first acc s = .ok (acc', r)) : P acc' := by
  induction fuel generalizing first acc s with
  | zero => cases h
  | succ fuel ih =>
    rw [readObject, bind_eq_ok_iff] at h
    obtain ⟨a, -, h⟩ := h
    cases a with
    | close t =>
      cases h
      exact hp
    | item t =>
      simp only [bind_eq_ok_iff] at h
      obtain ⟨⟨k, t⟩, -, ⟨acc'', t'⟩, hone, h⟩ := h
      exact ih (hm _ _ _ _ _ hp hone) h

theorem ignore_eq (h : ignore acc s = .ok (acc', r)) : acc' = acc := by
  unfold ignore readMember at h
  obtain ⟨t, -, h⟩ := bind_eq_ok_iff.mp h
  obtain ⟨u, -, h⟩ := bind_eq_ok_iff.mp h
  cases h
  rfl

theorem readElement_eq_ok {read : Reader α} {a : α}
    (h : readElement read first s = .ok (some a, r)) : ∃ t, read t = .ok (a, r) := by
  unfold readElement at h
  obtain ⟨b, -, h⟩ := bind_eq_ok_iff.mp h
  cases b with
  | close t => cases h
  | item t =>
    obtain ⟨⟨a', r'⟩, hread, h⟩ := bind_eq_ok_iff.mp h
    cases h
    exact ⟨t, hread⟩

theorem readRecord_eq_ok {expected text : String} {object array : Reader α} {a : α}
    (h : readRecord expected object array text = .ok a) :
    ∃ t r, object t = .ok (a, r) ∨ array t = .ok (a, r) := by
  unfold readRecord at h
  have hdone : ∀ {b : α} {r : List Char},
      (if skipBlank r = [] then pure b else throw .illFormed : Except Fault α) = .ok a → b = a := by
    intro b r hb
    split at hb <;> cases hb
    rfl
  split at h
  · obtain ⟨⟨b, r⟩, hb, h⟩ := bind_eq_ok_iff.mp h
    exact ⟨_, r, .inl (hdone h ▸ hb)⟩
  · obtain ⟨⟨b, r⟩, hb, h⟩ := bind_eq_ok_iff.mp h
    exact ⟨_, r, .inr (hdone h ▸ hb)⟩
  · cases h

theorem isInt64_of_readInt64 {n : Int} (h : readInt64 s = .ok (n, r)) : isInt64 n = true := by
  unfold readInt64 at h
  split at h
  · cases h
  · split at h
    · split at h
      · cases h
      · split at h
        · rename_i hn
          cases h
          exact hn
        · cases h
      · cases h
    · cases h

end ChangeRelay.Json
