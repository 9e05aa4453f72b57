import ChangeRelay.Proofs.Json.Records
import ChangeRelay.Proofs.Json.Trees

namespace ChangeRelay.Json

variable {α β σ τ : Type}

theorem orFault_eq_ok_iff {o : Option α} {a : α} : orFault o = .ok a ↔ o = some a := by
  cases o <;> simp [orFault]

/-- A reader of texts that `R` describes: it gives what `take` finds in what the text says, and
nothing for other texts. -/
structure Takes (R : List Char → τ → List Char → Prop) (read : Reader α) (take : τ → Option α) :
    Prop where
  sound : ∀ {s r : List Char} {a : α}, read s = .ok (a, r) → ∃ x, R s x r ∧ take x = some a
  complete : ∀ {s r : List Char} {x : τ} {a : α}, R s x r → EndsNumber r → take x = some a →
    read s = .ok (a, r)

def Tree.asBool? : Tree → Option Bool
  | .bool b => some b
  | _ => none

def Tree.asText? : Tree → Option String
  | .string ps => textOf? ps
  | _ => none

def Tree.asTextOrNull? : Tree → Option (Option String)
  | .null => some none
  | .string ps => (textOf? ps).map some
  | _ => none

def Tree.asInt64? : Tree → Option Int
  | .number m =>
    match m.value? with
    | some (.int n) => if isInt64 n then some n else none
    | _ => none
  | _ => none

/-- A whole number, with a sign or not, and with none if it is zero. -/
structure Numeral.IsInteger (m : Numeral) (n : Int) : Prop where
  fraction : m.fraction = none
  exponent : m.exponent = none
  value : n = if m.negative then -(Nat.ofDigitChars 10 m.whole 0 : Int)
    else Nat.ofDigitChars 10 m.whole 0
  unsigned : n = 0 → m.negative = false

theorem Numeral.isWhole_iff {m : Numeral} :
    m.isWhole = true ↔ m.fraction = none ∧ m.exponent = none := by
  simp [isWhole]

theorem Numeral.isInteger_of_value? {m : Numeral} {n : Int} (h : m.value? = some (.int n)) :
    m.IsInteger n := by
  unfold value? at h
  generalize hc : clip 0 m.whole = c at h
  obtain ⟨v, dropped⟩ := c
  dsimp only at h
  split at h
  · rename_i hplain
    simp only [Bool.and_eq_true, List.isEmpty_iff, Bool.not_eq_true', isWhole_iff] at hplain
    obtain ⟨⟨⟨hf, he⟩, rfl⟩, hs⟩ := hplain
    cases h
    exact ⟨hf, he, by simp [hs, ofDigitChars_of_clip hc], fun _ ↦ hs⟩
  · rename_i hplain
    split at h
    · rename_i hminus
      simp only [Bool.and_eq_true, List.isEmpty_iff, decide_eq_true_eq, isWhole_iff] at hminus
      obtain ⟨⟨⟨⟨hf, he⟩, rfl⟩, hpos⟩, -⟩ := hminus
      have hs : m.negative = true := by simpa [isWhole, hf, he] using hplain
      cases h
      exact ⟨hf, he, by simp [hs, ofDigitChars_of_clip hc], fun hz ↦ by omega⟩
    · obtain ⟨f, -, hf⟩ := Option.map_eq_some_iff.mp h
      cases hf

theorem Numeral.IsInteger.value? {m : Numeral} {n : Int} (h : m.IsInteger n)
    (hn : isInt64 n = true) : m.value? = some (.int n) := by
  obtain ⟨hf, he, hv, hz⟩ := h
  obtain ⟨hlo, hhi⟩ := isInt64_iff.mp hn
  have hlt : Nat.ofDigitChars 10 m.whole 0 < Nat.pow 2 64 := by
    change Nat.ofDigitChars 10 m.whole 0 < 18446744073709551616
    split at hv <;> omega
  unfold Numeral.value?
  simp only [clip_ofDigitChars hlt, isWhole_iff.mpr ⟨hf, he⟩]
  cases hs : m.negative with
  | false => simp [hv, hs]
  | true =>
    rw [hs, if_pos rfl] at hv
    have hne : n ≠ 0 := fun h ↦ by simp [hs] at hz; exact hz h
    have hpos : 0 < Nat.ofDigitChars 10 m.whole 0 := by omega
    have hle : Nat.ofDigitChars 10 m.whole 0 ≤ 9223372036854775808 := by omega
    simp [hv, hpos, hle]

theorem Tree.asInt64?_eq_some_iff {x : Tree} {n : Int} :
    x.asInt64? = some n ↔ ∃ m : Numeral, x = .number m ∧ isInt64 n = true ∧ m.IsInteger n := by
  constructor
  · intro h
    unfold asInt64? at h
    split at h
    · rename_i m
      split at h
      · rename_i k hk
        split at h
        · rename_i hn
          cases h
          exact ⟨m, rfl, hn, Numeral.isInteger_of_value? hk⟩
        · cases h
      · cases h
    · cases h
  · rintro ⟨m, rfl, hn, hm⟩
    simp [asInt64?, hm.value? hn, hn]

theorem Starts.of_skipBlank {s r : List Char} {x : Tree} (h : Starts (Json.skipBlank s) x r) :
    Starts s x r := by
  obtain ⟨b, t, hb, hs, ht⟩ := h
  obtain ⟨b₀, hb₀, hsplit⟩ := exists_skipBlank s
  refine ⟨b₀ ++ b, t, hb₀.append hb, ?_, ht⟩
  rw [hsplit, hs, List.append_assoc]

theorem takes_bool : Takes Starts readBool Tree.asBool? where
  sound {s r a} h := by
    unfold readBool at h
    split at h
    · rename_i u hu
      obtain ⟨r', hw, h⟩ := Option.map_eq_some_iff.mp (orFault_eq_ok_iff.mp h)
      cases h
      rw [eq_of_afterWord hw] at hu
      exact ⟨_, starts_of_skipBlank hu .trueWord, rfl⟩
    · rename_i u hu
      obtain ⟨r', hw, h⟩ := Option.map_eq_some_iff.mp (orFault_eq_ok_iff.mp h)
      cases h
      rw [eq_of_afterWord hw] at hu
      exact ⟨_, starts_of_skipBlank hu .falseWord, rfl⟩
    · cases h
  complete {s r x a} h _ ha := by
    obtain ⟨t, hs, ht⟩ := h.skipBlank
    unfold readBool
    rw [hs]
    cases ht with
    | trueWord =>
      cases ha
      rfl
    | falseWord =>
      cases ha
      rfl
    | _ => cases ha

theorem takes_text : Takes Starts readText Tree.asText? where
  sound {s r a} h := by
    unfold readText at h
    split at h
    · rename_i u hu
      have hread := orFault_eq_ok_iff.mp h
      rw [readString_eq] at hread
      obtain ⟨⟨ps, r'⟩, hps, h⟩ := Option.bind_eq_some_iff.mp hread
      obtain ⟨a', ha, h⟩ := Option.map_eq_some_iff.mp h
      cases h
      obtain ⟨t, rfl, ht⟩ := piecesText_of_lexString hps
      exact ⟨.string ps, starts_of_skipBlank (by simpa using hu) (.string ht), ha⟩
    · cases h
  complete {s r x a} h _ ha := by
    obtain ⟨t, hs, ht⟩ := h.skipBlank
    unfold readText
    rw [hs]
    cases ht with
    | @string t ps ht =>
      have hread : readString (t ++ '"' :: r) = some (a, r) := by
        rw [readString_eq, lexString_piecesText ht]
        exact congrArg (Option.map (·, r)) ha
      rw [List.cons_append, List.append_assoc]
      exact congrArg orFault hread
    | _ => cases ha

theorem takes_nullOrText : Takes Starts readNullOrText Tree.asTextOrNull? where
  sound {s r a} h := by
    unfold readNullOrText at h
    split at h
    · rename_i u hu
      obtain ⟨r', hw, h⟩ := Option.map_eq_some_iff.mp (orFault_eq_ok_iff.mp h)
      cases h
      rw [eq_of_afterWord hw] at hu
      exact ⟨_, starts_of_skipBlank hu .nullWord, rfl⟩
    · obtain ⟨⟨t, r'⟩, ht, h⟩ := bind_eq_ok_iff.mp h
      cases h
      obtain ⟨x, hx, hxt⟩ := takes_text.sound ht
      refine ⟨x, hx.of_skipBlank, ?_⟩
      cases x with
      | string ps => exact congrArg (Option.map some) hxt
      | _ => cases hxt
  complete {s r x a} h hr ha := by
    obtain ⟨t, hs, ht⟩ := h.skipBlank
    unfold readNullOrText
    cases x with
    | null =>
      cases ha
      cases ht
      rw [hs]
      rfl
    | string ps =>
      obtain ⟨a, hps, rfl⟩ := Option.map_eq_some_iff.mp ha
      have hread : readText (t ++ r) = .ok (a, r) :=
        takes_text.complete ⟨[], t, by simp [IsBlanks], rfl, ht⟩ hr hps
      cases ht
      rw [hs]
      exact bind_eq_ok_iff.mpr ⟨(a, r), hread, rfl⟩
    | _ => cases ha

theorem takes_int64 : Takes Starts readInt64 Tree.asInt64? where
  sound {s r n} h := by
    unfold readInt64 at h
    split at h
    · cases h
    · rename_i c u hs
      split at h
      · split at h
        · cases h
        · rename_i k r' hread
          split at h
          · rename_i hk
            cases h
            rw [readNumber_eq] at hread
            obtain ⟨⟨m, r'⟩, hm, hread⟩ := Option.bind_eq_some_iff.mp hread
            obtain ⟨v, hv, hread⟩ := Option.map_eq_some_iff.mp hread
            cases hread
            obtain ⟨t, ht, hnum⟩ := numeralText_of_lexNumber hm
            refine ⟨.number m, starts_of_skipBlank (hs.trans ht) (.number hnum), ?_⟩
            simp [Tree.asInt64?, hv, hk]
          · cases h
        · cases h
      · cases h
  complete {s r x n} h hr hn := by
    obtain ⟨m, rfl, hrange, hm⟩ := Tree.asInt64?_eq_some_iff.mp hn
    obtain ⟨t, hs, ht⟩ := h.skipBlank
    cases ht with
    | number hnum =>
      obtain ⟨c, u, rfl, hc⟩ := hnum.head
      have hread : readNumber (c :: (u ++ r)) = some (.int n, r) := by
        rw [readNumber_eq, ← List.cons_append, lexNumber_numeralText hnum hr]
        exact congrArg (Option.map (·, r)) (hm.value? hrange)
      unfold readInt64
      rw [hs, List.cons_append]
      simp [hc, hread, hrange]

theorem takes_any (room : Nat) : Takes Starts (readAny room) (Tree.value? room) where
  sound {s r a} h := by
    have hread := orFault_eq_ok_iff.mp h
    rw [readValue_eq] at hread
    obtain ⟨⟨x, r'⟩, hx, h⟩ := Option.bind_eq_some_iff.mp hread
    obtain ⟨a', ha, h⟩ := Option.map_eq_some_iff.mp h
    cases h
    exact ⟨x, starts_of_lexValue hx, ha⟩
  complete {s r x a} h hr ha := by
    have hx := h.lexValue hr (show 2 * s.length ≤ fuelFor s by unfold fuelFor; omega)
    refine orFault_eq_ok_iff.mpr ?_
    rw [readValue_eq, hx]
    exact congrArg (Option.map (·, r)) ha

theorem takes_skip (a : α) :
    Takes Starts (fun s ↦ do return (a, ← orFault (skipValue (fuelFor s) s))) fun _ ↦ some a where
  sound {s r a'} h := by
    obtain ⟨r', hskip, h⟩ := bind_eq_ok_iff.mp h
    cases h
    rw [orFault_eq_ok_iff, skipValue_eq] at hskip
    obtain ⟨⟨x, r'⟩, hx, rfl⟩ := Option.map_eq_some_iff.mp hskip
    exact ⟨x, starts_of_lexValue hx, rfl⟩
  complete {s r x a'} h hr ha := by
    cases ha
    have hx := h.lexValue hr (show 2 * s.length ≤ fuelFor s by unfold fuelFor; omega)
    refine bind_eq_ok_iff.mpr ⟨r, ?_, rfl⟩
    rw [orFault_eq_ok_iff, skipValue_eq, hx]
    rfl

theorem Takes.map {R : List Char → τ → List Char → Prop} {read : Reader α} {take : τ → Option α}
    (h : Takes R read take) (f : α → β) :
    Takes R (fun s ↦ do let (a, r) ← read s; return (f a, r)) fun x ↦ (take x).map f where
  sound {s r b} hb := by
    obtain ⟨⟨a, r'⟩, ha, hb⟩ := bind_eq_ok_iff.mp hb
    cases hb
    obtain ⟨x, hx, hax⟩ := h.sound ha
    exact ⟨x, hx, congrArg (Option.map f) hax⟩
  complete {s r x b} hx hr hb := by
    obtain ⟨a, ha, rfl⟩ := Option.map_eq_some_iff.mp hb
    exact bind_eq_ok_iff.mpr ⟨(a, r), h.complete hx hr ha, rfl⟩

theorem Takes.finish {R : List Char → τ → List Char → Prop} {read : Reader α} {take : τ → Option α}
    (h : Takes R read take) (check : α → Except Fault β) :
    Takes R (fun s ↦ do let (a, r) ← read s; return (← check a, r))
      fun x ↦ (take x).bind fun a ↦ (check a).toOption where
  sound {s r b} hb := by
    obtain ⟨⟨a, r'⟩, ha, hb⟩ := bind_eq_ok_iff.mp hb
    obtain ⟨b', hcheck, hb⟩ := bind_eq_ok_iff.mp hb
    cases hb
    obtain ⟨x, hx, hax⟩ := h.sound ha
    exact ⟨x, hx, Option.bind_eq_some_iff.mpr ⟨a, hax, by rw [hcheck]; rfl⟩⟩
  complete {s r x b} hx hr hb := by
    obtain ⟨a, ha, hb⟩ := Option.bind_eq_some_iff.mp hb
    cases hcheck : check a with
    | error f =>
      rw [hcheck] at hb
      cases hb
    | ok b' =>
      rw [hcheck] at hb
      cases hb
      refine bind_eq_ok_iff.mpr ⟨(a, r), h.complete hx hr ha, ?_⟩
      exact bind_eq_ok_iff.mpr ⟨b, hcheck, rfl⟩

/-- What the values given for a field make of it: not given, it keeps what it holds, and an empty
one takes the only value. -/
inductive Given (take : Tree → Option α) (old : Option α) : List Tree → Option α → Prop
  | keep : Given take old [] old
  | fill {x : Tree} {a : α} (empty : old = none) (value : take x = some a) :
    Given take old [x] (some a)

def named (name : String) (ms : List (List Piece × Tree)) : List Tree :=
  (ms.filter fun m ↦ textOf? m.1 = some name).map Prod.snd

section Given

variable {take : Tree → Option α} {old new : Option α} {x : Tree} {xs : List Tree}

theorem given_nil_iff : Given take old [] new ↔ old = new :=
  ⟨fun h ↦ by cases h; rfl, fun h ↦ h ▸ .keep⟩

theorem given_some_iff {a : α} : Given take none xs (some a) ↔ ∃ x, xs = [x] ∧ take x = some a := by
  constructor
  · intro h
    cases h with
    | fill _ hx => exact ⟨_, rfl, hx⟩
  · rintro ⟨x, rfl, hx⟩
    exact .fill rfl hx

theorem given_cons_iff : Given take old (x :: xs) new ↔
    old = none ∧ ∃ a, take x = some a ∧ Given take (some a) xs new := by
  constructor
  · rintro ⟨⟩
    exact ⟨‹_›, _, ‹_›, .keep⟩
  · rintro ⟨ho, a, hx, h⟩
    cases h with
    | keep => exact .fill ho hx
    | fill he _ => cases he

theorem named_cons {name k : String} {m : List Piece × Tree} {ms : List (List Piece × Tree)}
    (h : textOf? m.1 = some k) :
    named name (m :: ms) = if k = name then m.2 :: named name ms else named name ms := by
  by_cases hk : k = name <;> simp [named, h, hk]

end Given

def ValueText (s : List Char) (x : Tree) (r : List Char) : Prop :=
  ∃ b v, IsBlanks b ∧ s = b ++ ':' :: v ∧ Starts v x r

theorem afterColon_eq_some_iff {s v : List Char} :
    afterColon s = some v ↔ ∃ b, IsBlanks b ∧ s = b ++ ':' :: v := by
  constructor
  · intro h
    obtain ⟨b, hb, hs⟩ := exists_skipBlank s
    unfold afterColon at h
    split at h
    · rename_i hv
      cases h
      exact ⟨b, hb, hv ▸ hs⟩
    · cases h
  · rintro ⟨b, hb, rfl⟩
    unfold afterColon
    rw [skipBlank_append hb, skipBlank_cons rfl]
    rfl

theorem Takes.member {read : Reader α} {take : Tree → Option α} (h : Takes Starts read take) :
    Takes ValueText (readMember read) take where
  sound {s r a} ha := by
    unfold readMember at ha
    obtain ⟨v, hv, hread⟩ := bind_eq_ok_iff.mp ha
    obtain ⟨b, hb, rfl⟩ := afterColon_eq_some_iff.mp (orFault_eq_ok_iff.mp hv)
    obtain ⟨x, hx, hax⟩ := h.sound hread
    exact ⟨x, ⟨b, v, hb, rfl, hx⟩, hax⟩
  complete {s r x a} hs hr ha := by
    obtain ⟨b, v, hb, rfl, hx⟩ := hs
    have hv : afterColon (b ++ ':' :: v) = some v := afterColon_eq_some_iff.mpr ⟨b, hb, rfl⟩
    unfold readMember
    exact bind_eq_ok_iff.mpr ⟨v, orFault_eq_ok_iff.mpr hv, h.complete hx hr ha⟩

/-- What filling a field takes from a tree: nothing if the field is filled already. -/
def fillFrom (field : Option α) (take : Tree → Option α) (put : α → σ) (x : Tree) : Option σ :=
  match field with
  | some _ => none
  | none => (take x).map put

theorem exists_fillFrom_iff {field : Option α} {take : Tree → Option α} {put : α → σ} {x : Tree}
    {P : σ → Prop} : (∃ d, fillFrom field take put x = some d ∧ P d) ↔
      field = none ∧ ∃ a, take x = some a ∧ P (put a) := by
  cases field <;> simp [fillFrom]

theorem Takes.fill {read : Reader α} {take : Tree → Option α} (h : Takes Starts read take)
    (name : String) (field : Option α) (put : α → σ) :
    Takes ValueText (fill name field read put) (fillFrom field take put) := by
  cases field with
  | none => exact h.member.map put
  | some a => exact ⟨fun h ↦ (by cases h), fun _ _ h ↦ (by cases h)⟩

theorem takes_ignore (acc : σ) : Takes ValueText (ignore acc) fun _ ↦ some acc :=
  (takes_skip acc).member

def foldMembers (step : σ → String → Tree → Option σ) : σ → List (List Piece × Tree) → Option σ
  | acc, [] => some acc
  | acc, (ps, x) :: ms => do
    let k ← textOf? ps
    foldMembers step (← step acc k x) ms

variable {member : σ → String → Reader σ} {step : σ → String → Tree → Option σ} {first : Bool}
  {acc : σ} {r s : List Char}

theorem memberText_of_readKey {k : String} {u : List Char} {x : Tree}
    (hk : readKey s = some (k, u)) (hx : ValueText u x r) :
    ∃ ps, textOf? ps = some k ∧ MemberText s (ps, x) r := by
  rw [readKey_eq] at hk
  obtain ⟨⟨ps, u'⟩, hname, hk⟩ := Option.bind_eq_some_iff.mp hk
  obtain ⟨k', hps, hk⟩ := Option.map_eq_some_iff.mp hk
  cases hk
  obtain ⟨b, v, hb, rfl, hstart⟩ := hx
  exact ⟨ps, hps,
    memberText_of_lexName hname (afterColon_eq_some_iff.mpr ⟨b, hb, rfl⟩) hstart⟩

theorem membersText_of_readObject (hm : ∀ acc k, Takes ValueText (member acc k) (step acc k))
    {fuel : Nat} {acc' : σ} (h : readObject member fuel first acc s = .ok (acc', r)) :
    ∃ ms, MembersText first s ms r ∧ foldMembers step acc ms = some acc' := by
  induction fuel generalizing first acc s with
  | zero => cases h
  | succ fuel ih =>
    rw [readObject, bind_eq_ok_iff] at h
    obtain ⟨a, ha, h⟩ := h
    have ha := orFault_eq_ok_iff.mp ha
    cases a with
    | close r' =>
      cases h
      exact ⟨[], membersText_close ha, rfl⟩
    | item u =>
      simp only [bind_eq_ok_iff] at h
      obtain ⟨⟨k, v⟩, hk, ⟨acc₁, w⟩, hone, h⟩ := h
      obtain ⟨x, hx, hstep⟩ := (hm acc k).sound hone
      obtain ⟨ps, hps, hmember⟩ := memberText_of_readKey (orFault_eq_ok_iff.mp hk) hx
      obtain ⟨ms, hms, hfold⟩ := ih h
      refine ⟨(ps, x) :: ms, membersText_item ha hmember hms, ?_⟩
      simp [foldMembers, hps, hstep, hfold]

theorem exists_head_of_readKey {k : String} {u : List Char} (h : readKey s = some (k, u)) :
    ∃ c v, s = c :: v ∧ c ≠ '\x7d' := by
  unfold readKey at h
  split at h
  · exact ⟨_, _, rfl, by decide⟩
  · cases h

theorem MemberText.readKey {ps : List Piece} {x : Tree} {k : String}
    (h : MemberText s (ps, x) r) (hk : textOf? ps = some k) :
    ∃ u, Json.readKey s = some (k, u) ∧ ValueText u x r := by
  obtain ⟨m, hm, ht, rfl, h⟩ := h
  cases h
  obtain ⟨u, hname, hcolon⟩ := lexName_written m hm r
  obtain ⟨b, hb, hu⟩ := afterColon_eq_some_iff.mp hcolon
  refine ⟨u, ?_, b, _, hb, hu, m.after, m.text, hm.after, rfl, ht⟩
  rw [readKey_eq, hname]
  exact congrArg (Option.map (·, u)) hk

theorem MembersText.readObject (hm : ∀ acc k, Takes ValueText (member acc k) (step acc k))
    {fuel : Nat} {acc' : σ} {ms : List (List Piece × Tree)} (h : MembersText first s ms r)
    (hfold : foldMembers step acc ms = some acc') (hf : s.length < fuel) :
    Json.readObject member fuel first acc s = .ok (acc', r) := by
  induction ms generalizing first acc s fuel with
  | nil =>
    obtain ⟨f, rfl⟩ : ∃ f, fuel = f + 1 := ⟨fuel - 1, by omega⟩
    cases hfold
    exact readObject_close h.nil
  | cons m ms ih =>
    obtain ⟨ps, x⟩ := m
    obtain ⟨f, rfl⟩ : ∃ f, fuel = f + 1 := ⟨fuel - 1, by omega⟩
    obtain ⟨u, v, hahead, hmember, hv, hms, hlt⟩ := h.cons
    simp only [foldMembers, Option.bind_eq_bind, Option.bind_eq_some_iff] at hfold
    obtain ⟨k, hk, acc₁, hstep, hfold⟩ := hfold
    obtain ⟨w, hkey, hvalue⟩ := hmember.readKey hk
    have hone := (hm acc k).complete hvalue hv hstep
    rw [Json.readObject, hahead]
    simp only [orFault, bind, Except.bind, hkey, hone]
    exact ih hms hfold (by omega)

theorem takes_readObject (hm : ∀ acc k, Takes ValueText (member acc k) (step acc k)) (acc : σ) :
    Takes (MembersText true) (fun s ↦ Json.readObject member (fuelFor s) true acc s)
      (foldMembers step acc) where
  sound h := membersText_of_readObject hm h
  complete h _ ha := h.readObject hm ha (by unfold fuelFor; omega)

/-- What is taken from the next element, where there is one, and then from those after it. -/
def element (take : Tree → Option α) (next : Option α → List Tree → Option β) :
    List Tree → Option β
  | [] => next none []
  | x :: xs => (take x).bind fun a ↦ next (some a) xs

def noElement (a : α) : List Tree → Option α
  | [] => some a
  | _ :: _ => none

theorem takes_element {read : Reader α} {take : Tree → Option α} {next : Option α → Reader β}
    {takeNext : Option α → List Tree → Option β} (first : Bool) (h : Takes Starts read take)
    (hnext : ∀ a, Takes (ItemsText false) (next a) (takeNext a)) :
    Takes (ItemsText first) (fun s ↦ do
      let (a, s) ← readElement read first s
      next a s) (element take takeNext) where
  sound {s r b} hb := by
    obtain ⟨⟨a, u⟩, helement, hb⟩ := bind_eq_ok_iff.mp hb
    obtain ⟨ahd, hahead, helement⟩ := bind_eq_ok_iff.mp helement
    have hahead := orFault_eq_ok_iff.mp hahead
    obtain ⟨xs, hxs, htake⟩ := (hnext a).sound hb
    cases ahd with
    | close v =>
      cases helement
      have hend : ahead ']' false (']' :: v) = some (.close v) := ahead_close (.inl rfl) false v
      cases xs with
      | nil =>
        cases hend.symm.trans hxs.nil
        exact ⟨[], itemsText_close hahead, htake⟩
      | cons x xs =>
        obtain ⟨_, _, hitem, -⟩ := hxs.cons
        cases hend.symm.trans hitem
    | item v =>
      obtain ⟨⟨a', u'⟩, hread, helement⟩ := bind_eq_ok_iff.mp helement
      cases helement
      obtain ⟨x, hx, hax⟩ := h.sound hread
      exact ⟨x :: xs, itemsText_item hahead hx hxs, by simp [element, hax, htake]⟩
  complete {s r xs b} hs hr hb := by
    cases xs with
    | nil =>
      have helement : readElement read first s = .ok (none, ']' :: r) := by
        unfold readElement
        rw [hs.nil]
        rfl
      have hend : ItemsText false (']' :: r) [] r :=
        itemsText_close (ahead_close (.inl rfl) false r)
      exact bind_eq_ok_iff.mpr ⟨_, helement, (hnext none).complete hend hr hb⟩
    | cons x xs =>
      obtain ⟨a, ha, hb⟩ := Option.bind_eq_some_iff.mp hb
      obtain ⟨u, v, hahead, hx, hv, hxs⟩ := hs.cons
      have helement : readElement read first s = .ok (some a, v) := by
        unfold readElement
        rw [hahead]
        exact bind_eq_ok_iff.mpr ⟨_, rfl, bind_eq_ok_iff.mpr ⟨_, h.complete hx hv ha, rfl⟩⟩
      exact bind_eq_ok_iff.mpr ⟨_, helement, (hnext (some a)).complete hxs hr hb⟩

theorem takes_endArray (a : α) :
    Takes (ItemsText false) (fun s ↦ do return (a, ← endArray s)) (noElement a) where
  sound {s r a'} h := by
    obtain ⟨r', hend, h⟩ := bind_eq_ok_iff.mp h
    cases h
    unfold endArray at hend
    split at hend
    · rename_i u hu
      cases hend
      obtain ⟨b, hb, hs⟩ := exists_skipBlank s
      refine ⟨[], itemsText_close ?_, rfl⟩
      rw [hs, ahead_blanks hb, hu, ahead_close (.inl rfl)]
    · cases hend
  complete {s r xs a'} hs hr ha := by
    cases xs with
    | nil =>
      cases ha
      obtain ⟨parts, t, rfl, hparts, -, ht⟩ := hs
      cases List.map_eq_nil_iff.mp hparts.symm
      cases ht with
      | close hb =>
        unfold endArray
        rw [skipBlank_append hb, skipBlank_cons rfl]
        rfl
    | cons x xs => cases ha

theorem element_eq_some_iff {take : Tree → Option α} {next : Option α → List Tree → Option β}
    {xs : List Tree} {b : β} : element take next xs = some b ↔
      ∃ a, Given take none xs[0]?.toList a ∧ next a xs.tail = some b := by
  cases xs with
  | nil => simp [element, given_nil_iff]
  | cons x xs =>
    simp only [element, Option.bind_eq_some_iff, List.getElem?_cons_zero, Option.toList_some,
      given_cons_iff, given_nil_iff, List.tail_cons]
    constructor
    · rintro ⟨a, ha, hb⟩
      exact ⟨some a, ⟨trivial, a, ha, rfl⟩, hb⟩
    · rintro ⟨_, ⟨-, a, ha, rfl⟩, hb⟩
      exact ⟨a, ha, hb⟩

theorem noElement_eq_some_iff {xs : List Tree} {a b : α} :
    noElement a xs = some b ↔ xs = [] ∧ a = b := by
  cases xs <;> simp [noElement]

def IsText (s : List Char) (x : Tree) : Prop := ∃ b, IsBlanks b ∧ Starts s x b

theorem IsText.unique {s : List Char} {x x' : Tree} (h : IsText s x) (h' : IsText s x') :
    x = x' := by
  obtain ⟨b, hb, hs⟩ := h
  obtain ⟨b', hb', hs'⟩ := h'
  have hend : ∀ {b : List Char}, IsBlanks b → EndsNumber b := by
    intro b hb
    simpa using hb.endsNumber (u := []) (by simp [EndsNumber])
  have he := hs.lexValue (hend hb) Nat.le.refl
  rw [hs'.lexValue (hend hb') Nat.le.refl] at he
  cases he
  rfl

theorem readRecord_eq_ok_iff {object array : Reader α}
    {takeObject : List (List Piece × Tree) → Option α} {takeArray : List Tree → Option α}
    (ho : Takes (MembersText true) object takeObject) (ha : Takes (ItemsText true) array takeArray)
    {expected s : String} {a : α} :
    readRecord expected object array s = .ok a ↔ ∃ x, IsText s.toList x ∧
      ((∃ ms, x = .object ms ∧ takeObject ms = some a) ∨
        ∃ xs, x = .array xs ∧ takeArray xs = some a) := by
  have done : ∀ {read : Except Fault (α × List Char)},
      (read >>= fun p ↦ if Json.skipBlank p.2 = [] then pure p.1 else throw Fault.illFormed) =
        .ok a ↔ ∃ r, IsBlanks r ∧ read = .ok (a, r) := by
    intro read
    rw [bind_eq_ok_iff]
    constructor
    · rintro ⟨⟨a', r⟩, hread, h⟩
      split at h
      · rename_i hr
        cases h
        exact ⟨r, skipBlank_eq_nil_iff.mp hr, hread⟩
      · cases h
    · rintro ⟨r, hr, hread⟩
      exact ⟨(a, r), hread, if_pos (skipBlank_of_blanks hr)⟩
  unfold readRecord
  constructor
  · intro h
    split at h
    · rename_i u hu
      obtain ⟨r, hr, hread⟩ := done.mp h
      obtain ⟨ms, hms, htake⟩ := ho.sound hread
      exact ⟨.object ms, ⟨r, hr, starts_object hu hms⟩, .inl ⟨ms, rfl, htake⟩⟩
    · rename_i u hu
      obtain ⟨r, hr, hread⟩ := done.mp h
      obtain ⟨xs, hxs, htake⟩ := ha.sound hread
      exact ⟨.array xs, ⟨r, hr, starts_array hu hxs⟩, .inr ⟨xs, rfl, htake⟩⟩
    · obtain ⟨r, -, hread⟩ := done.mp h
      cases hread
  · rintro ⟨x, ⟨b, hb, hx⟩, htake⟩
    have hend : EndsNumber b := by simpa using hb.endsNumber (u := []) (by simp [EndsNumber])
    rcases htake with ⟨ms, rfl, htake⟩ | ⟨xs, rfl, htake⟩
    · obtain ⟨u, hu, hms⟩ := hx.members
      rw [hu]
      exact done.mpr ⟨b, hb, ho.complete hms hend htake⟩
    · obtain ⟨u, hu, hxs⟩ := hx.items
      rw [hu]
      exact done.mpr ⟨b, hb, ha.complete hxs hend htake⟩

end ChangeRelay.Json
