import ChangeRelay.Proofs.Json.Lexer
import ChangeRelay.Proofs.Json.RoundTrip

namespace ChangeRelay.Json

/-- A text that starts with a value, after blanks, and goes on with `r`. -/
def Starts (s : List Char) (x : Tree) (r : List Char) : Prop :=
  ∃ b t, IsBlanks b ∧ s = b ++ (t ++ r) ∧ TreeText t x

theorem starts_of_skipBlank {r s t : List Char} {x : Tree} (hs : skipBlank s = t ++ r)
    (h : TreeText t x) : Starts s x r := by
  obtain ⟨b, hb, hsplit⟩ := exists_skipBlank s
  exact ⟨b, t, hb, hs ▸ hsplit, h⟩

def Listed : Bool → List (List Char) → List Char → Prop
  | true => Divided
  | false => Rest

/-- A text of items up to the closing bracket, after which it goes on with `r`. -/
def ItemsText (first : Bool) (s : List Char) (xs : List Tree) (r : List Char) : Prop :=
  ∃ (parts : List (List Char × Tree)) (t : List Char), s = t ++ ']' :: r ∧
    xs = parts.map Prod.snd ∧ (∀ p ∈ parts, TreeText p.1 p.2) ∧ Listed first (parts.map Prod.fst) t

def MembersText (first : Bool) (s : List Char) (xs : List (List Piece × Tree)) (r : List Char) :
    Prop :=
  ∃ (ms : List Member) (t : List Char), s = t ++ '\x7d' :: r ∧
    xs = (ms.map fun m ↦ (m.pieces, m.value)) ∧ (∀ m ∈ ms, m.IsNamed) ∧
    (∀ m ∈ ms, TreeText m.text m.value) ∧ Listed first (ms.map Member.written) t

def MemberText (s : List Char) (x : List Piece × Tree) (r : List Char) : Prop :=
  ∃ m : Member, m.IsNamed ∧ TreeText m.text m.value ∧ s = m.written ++ r ∧ x = (m.pieces, m.value)

variable {close : Char} {first : Bool} {r s s' t u v : List Char} {ts : List (List Char)} {x : Tree}

theorem ahead_eq_close_iff :
    ahead close first s = some (.close r) ↔ skipBlank s = close :: r := by
  constructor
  · intro h
    unfold ahead at h
    split at h
    · cases h
    · rename_i c u heq
      split_ifs at h with hc hf hcomma
      · cases h
        rw [heq, hc]
      · cases h
      · split at h
        · cases h
        · split_ifs at h
          cases h
  · intro h
    unfold ahead
    rw [h]
    exact if_pos rfl

theorem ahead_eq_first_iff :
    ahead close true s = some (.item u) ↔ skipBlank s = u ∧ ∃ c v, u = c :: v ∧ c ≠ close := by
  unfold ahead
  cases skipBlank s with
  | nil =>
    refine iff_of_false nofun ?_
    rintro ⟨rfl, c, v, h, -⟩
    cases h
  | cons c v =>
    dsimp only
    by_cases hc : c = close
    · rw [if_pos hc]
      refine iff_of_false nofun ?_
      rintro ⟨rfl, _, _, ⟨⟩, hne⟩
      exact hne hc
    · rw [if_neg hc, if_pos rfl, Option.some_inj, Ahead.item.injEq]
      exact ⟨fun h ↦ ⟨h, c, v, h.symm, hc⟩, And.left⟩

theorem listed_close (h : ahead close first s = some (.close r)) :
    ∃ t, s = t ++ close :: r ∧ Listed first [] t := by
  obtain ⟨b, hb, hs⟩ := exists_skipBlank s
  refine ⟨b, ?_, ?_⟩
  · rw [hs, ahead_eq_close_iff.mp h]
  · cases first
    · exact .close hb
    · exact .none hb

theorem listed_item {b : List Char} (h : ahead close first s = some (.item u)) (hb : IsBlanks b)
    (hu : u = b ++ (t ++ (s' ++ close :: r))) (hrest : Rest ts s') :
    ∃ t', s = t' ++ close :: r ∧ Listed first (t :: ts) t' := by
  obtain ⟨b₀, hb₀, hs⟩ := exists_skipBlank s
  unfold ahead at h
  split at h
  · cases h
  · rename_i c v heq
    split_ifs at h with hc hf hcomma
    · cases h
    · cases h
      refine ⟨(b₀ ++ b) ++ (t ++ s'), ?_, ?_⟩
      · rw [hs, heq, hu]
        simp
      · rw [hf]
        exact .some (hb₀.append hb) hrest
    · obtain ⟨b₁, hb₁, hv⟩ := exists_skipBlank v
      split at h
      · cases h
      · rename_i d w hd
        split_ifs at h with hdc
        cases h
        refine ⟨b₀ ++ ',' :: ((b₁ ++ b) ++ (t ++ s')), ?_, ?_⟩
        · rw [hs, heq, hcomma, hv, hd, hu]
          simp
        · rw [Bool.not_eq_true] at hf
          rw [hf]
          exact .more hb₀ (hb₁.append hb) hrest

theorem starts_array {xs : List Tree} (hs : skipBlank s = '[' :: u) (h : ItemsText true u xs r) :
    Starts s (.array xs) r := by
  obtain ⟨parts, t, rfl, rfl, hparts, ht⟩ := h
  exact starts_of_skipBlank (by simpa using hs) (.array hparts ht)

theorem starts_object {ms : List (List Piece × Tree)} (hs : skipBlank s = '\x7b' :: u)
    (h : MembersText true u ms r) : Starts s (.object ms) r := by
  obtain ⟨ms, t, rfl, rfl, hnamed, hms, ht⟩ := h
  exact starts_of_skipBlank (by simpa using hs) (.object hnamed hms ht)

theorem eq_of_afterWord {w : List Char} (h : afterWord w s = some r) : s = w ++ r := by
  induction w generalizing s with
  | nil =>
    cases h
    rfl
  | cons c w ih =>
    cases s with
    | nil => cases h
    | cons d s =>
      simp only [afterWord] at h
      split_ifs at h with hcd
      rw [hcd, ih h]
      rfl

theorem exists_name {ps : List Piece} {v : List Char} (hk : lexName s = some (ps, u))
    (hc : afterColon u = some v) :
    ∃ name before, PiecesText name ps ∧ IsBlanks before ∧
      s = '"' :: (name ++ '"' :: (before ++ ':' :: v)) := by
  unfold lexName at hk
  split at hk
  · rename_i s
    obtain ⟨name, rfl, hname⟩ := piecesText_of_lexString hk
    obtain ⟨before, hb, hu⟩ := exists_skipBlank u
    refine ⟨name, before, hname, hb, ?_⟩
    unfold afterColon at hc
    split at hc
    · rename_i w hw
      cases hc
      rw [← hw, ← hu]
    · cases hc
  · cases hk

theorem itemsText_close (h : ahead ']' first s = some (.close r)) : ItemsText first s [] r := by
  obtain ⟨t, hs, ht⟩ := listed_close h
  exact ⟨[], t, hs, rfl, by simp, ht⟩

theorem itemsText_item {xs : List Tree} (h : ahead ']' first s = some (.item u))
    (hx : Starts u x v) (hxs : ItemsText false v xs r) : ItemsText first s (x :: xs) r := by
  obtain ⟨b, t, hb, hu, ht⟩ := hx
  obtain ⟨parts, t', rfl, rfl, hparts, hrest⟩ := hxs
  obtain ⟨t'', hs, hlisted⟩ := listed_item h hb hu hrest
  exact ⟨(t, x) :: parts, t'', hs, rfl, List.forall_mem_cons.mpr ⟨ht, hparts⟩, hlisted⟩

theorem membersText_close (h : ahead '\x7d' first s = some (.close r)) :
    MembersText first s [] r := by
  obtain ⟨t, hs, ht⟩ := listed_close h
  exact ⟨[], t, hs, rfl, by simp, by simp, ht⟩

theorem membersText_item {m : List Piece × Tree} {ms : List (List Piece × Tree)}
    (h : ahead '\x7d' first s = some (.item u)) (hm : MemberText u m v)
    (hms : MembersText false v ms r) : MembersText first s (m :: ms) r := by
  obtain ⟨m, hnamed, ht, hu, rfl⟩ := hm
  obtain ⟨ms, t', rfl, rfl, hall, hms, hrest⟩ := hms
  obtain ⟨t'', hs, hlisted⟩ :=
    listed_item (b := []) (t := m.written) h (by simp [IsBlanks]) hu hrest
  exact ⟨m :: ms, t'', hs, rfl, List.forall_mem_cons.mpr ⟨hnamed, hall⟩,
    List.forall_mem_cons.mpr ⟨ht, hms⟩, hlisted⟩

theorem memberText_of_lexName {ps : List Piece} {w : List Char} (hk : lexName s = some (ps, u))
    (hc : afterColon u = some v) (hx : Starts v x w) : MemberText s (ps, x) w := by
  obtain ⟨name, before, hname, hbefore, rfl⟩ := exists_name hk hc
  obtain ⟨after, t, hafter, rfl, ht⟩ := hx
  refine ⟨⟨name, ps, before, after, t, x⟩, ⟨hname, hbefore, hafter⟩, ht, ?_, rfl⟩
  simp [Member.written]

def FindsValues (fuel : Nat) : Prop := ∀ s x r, lexValue fuel s = some (x, r) → Starts s x r

def FindsItems (fuel : Nat) : Prop := ∀ first s xs r,
  lexItems fuel first s = some (xs, r) → ItemsText first s xs r

def FindsMembers (fuel : Nat) : Prop := ∀ first s ms r,
  lexMembers fuel first s = some (ms, r) → MembersText first s ms r

variable {fuel : Nat}

theorem findsValues_succ (hitems : FindsItems fuel) (hmembers : FindsMembers fuel) :
    FindsValues (fuel + 1) := by
  intro s x r h
  have word : ∀ {c : Char} {w u : List Char} {x' : Tree}, TreeText (c :: w) x' →
      skipBlank s = c :: u → (afterWord w u).map (x', ·) = some (x, r) → Starts s x r := by
    intro c w u x' ht hu h
    obtain ⟨r', hw, h⟩ := Option.map_eq_some_iff.mp h
    cases h
    rw [eq_of_afterWord hw] at hu
    exact starts_of_skipBlank hu ht
  unfold lexValue at h
  split at h
  · exact word .nullWord (by assumption) h
  · exact word .trueWord (by assumption) h
  · exact word .falseWord (by assumption) h
  · rename_i u hu
    obtain ⟨⟨ps, r'⟩, hps, h⟩ := Option.map_eq_some_iff.mp h
    cases h
    obtain ⟨t, rfl, ht⟩ := piecesText_of_lexString hps
    exact starts_of_skipBlank (by simpa using hu) (.string ht)
  · rename_i u hu
    obtain ⟨⟨xs, r'⟩, hxs, h⟩ := Option.map_eq_some_iff.mp h
    cases h
    exact starts_array hu (hitems _ _ _ _ hxs)
  · rename_i u hu
    obtain ⟨⟨ms, r'⟩, hms, h⟩ := Option.map_eq_some_iff.mp h
    cases h
    exact starts_object hu (hmembers _ _ _ _ hms)
  · obtain ⟨⟨n, r'⟩, hn, h⟩ := Option.map_eq_some_iff.mp h
    cases h
    obtain ⟨t, ht, hnt⟩ := numeralText_of_lexNumber hn
    exact starts_of_skipBlank ht (.number hnt)

theorem findsItems_succ (hvalue : FindsValues fuel) (hitems : FindsItems fuel) :
    FindsItems (fuel + 1) := by
  intro first s xs r h
  rw [lexItems] at h
  split at h
  · cases h
  · cases h
    exact itemsText_close (by assumption)
  · simp only [Option.bind_eq_bind, Option.bind_eq_some_iff] at h
    obtain ⟨⟨x, v⟩, hx, ⟨xs, r'⟩, hxs, h⟩ := h
    cases h
    exact itemsText_item (by assumption) (hvalue _ _ _ hx) (hitems _ _ _ _ hxs)

theorem findsMembers_succ (hvalue : FindsValues fuel) (hmembers : FindsMembers fuel) :
    FindsMembers (fuel + 1) := by
  intro first s ms r h
  rw [lexMembers] at h
  split at h
  · cases h
  · cases h
    exact membersText_close (by assumption)
  · simp only [Option.bind_eq_bind, Option.bind_eq_some_iff] at h
    obtain ⟨⟨ps, u⟩, hk, v, hc, ⟨x, w⟩, hx, ⟨ms, r'⟩, hms, h⟩ := h
    cases h
    exact membersText_item (by assumption) (memberText_of_lexName hk hc (hvalue _ _ _ hx))
      (hmembers _ _ _ _ hms)

theorem finds (fuel : Nat) : FindsValues fuel ∧ FindsItems fuel ∧ FindsMembers fuel := by
  induction fuel with
  | zero =>
    refine ⟨fun s x r h ↦ ?_, fun first s xs r h ↦ ?_, fun first s ms r h ↦ ?_⟩ <;> cases h
  | succ fuel ih =>
    obtain ⟨hvalue, hitems, hmembers⟩ := ih
    exact ⟨findsValues_succ hitems hmembers, findsItems_succ hvalue hitems,
      findsMembers_succ hvalue hmembers⟩

theorem starts_of_lexValue (h : lexValue fuel s = some (x, r)) : Starts s x r :=
  (finds fuel).1 s x r h

theorem IsBlanks.endsNumber {b : List Char} (hb : IsBlanks b) (hu : EndsNumber u) :
    EndsNumber (b ++ u) := by
  cases b with
  | nil => exact hu
  | cons c b =>
    intro d hd
    cases hd
    have hc := hb c (by simp)
    simp only [isBlank, Bool.or_eq_true, decide_eq_true_eq] at hc
    rcases hc with ((rfl | rfl) | rfl) | rfl <;> decide

theorem endsNumber_rest (h : Rest ts t) (hc : close = ']' ∨ close = '\x7d') (r : List Char) :
    EndsNumber (t ++ close :: r) := by
  cases h with
  | close hb =>
    refine hb.endsNumber fun d hd ↦ ?_
    cases hd
    rcases hc with rfl | rfl <;> decide
  | more hb hb' hs =>
    rw [List.append_assoc]
    refine hb.endsNumber fun d hd ↦ ?_
    cases hd
    decide

theorem TreeText.startsItem (h : TreeText t x) : StartsItem t := by
  have start : ∀ (c : Char) (r : List Char), isBlank c = false → c ≠ ']' → c ≠ '\x7d' →
      StartsItem (c :: r) := fun c r hb ha ho ↦ ⟨c, r, rfl, hb, ha, ho⟩
  cases h with
  | number hn =>
    obtain ⟨c, u, rfl, hc⟩ := hn.head
    refine start c u (isBlank_numeral hc) ?_ ?_
    · rintro rfl
      exact absurd hc (by decide)
    · rintro rfl
      exact absurd hc (by decide)
  | _ => exact start _ _ rfl (by decide) (by decide)

theorem Starts.skipBlank (h : Starts s x r) : ∃ t, skipBlank s = t ++ r ∧ TreeText t x := by
  obtain ⟨b, t, hb, rfl, ht⟩ := h
  obtain ⟨c, u, rfl, hc, -⟩ := ht.startsItem
  exact ⟨c :: u, by rw [skipBlank_append hb]; exact skipBlank_cons hc, ht⟩

theorem startsItem_written (m : Member) : StartsItem m.written :=
  ⟨'"', _, rfl, rfl, by decide, by decide⟩

theorem lexValue_blanks {b : List Char} (hb : IsBlanks b) (fuel : Nat) (s : List Char) :
    lexValue fuel (b ++ s) = lexValue fuel s := by
  cases fuel with
  | zero => rfl
  | succ fuel => rw [lexValue, lexValue, skipBlank_append hb]

theorem ahead_blanks {b : List Char} (hb : IsBlanks b) (close : Char) (first : Bool)
    (s : List Char) : ahead close first (b ++ s) = ahead close first s := by
  rw [ahead, ahead, skipBlank_append hb]

theorem ahead_comma {b : List Char} (hb : IsBlanks b) (hc : close = ']' ∨ close = '\x7d')
    (h : StartsItem s) : ahead close false (',' :: (b ++ s)) = some (.item s) := by
  have hlater := ahead_later hc h
  have hcomma : ∀ u, skipBlank (',' :: u) = ',' :: u := fun u ↦ skipBlank_cons rfl
  have hne : ',' ≠ close := by rcases hc with rfl | rfl <;> decide
  unfold ahead at hlater ⊢
  simpa [hcomma, hne, skipBlank_append hb] using hlater

theorem Listed.ahead_nil (h : Listed first [] t) (hc : close = ']' ∨ close = '\x7d')
    (r : List Char) : ahead close first (t ++ close :: r) = some (.close r) := by
  have hb : IsBlanks t := by cases first <;> cases h <;> assumption
  rw [ahead_blanks hb, ahead_close hc]

theorem Listed.ahead_cons (h : Listed first (t :: ts) s) (hc : close = ']' ∨ close = '\x7d')
    (ht : StartsItem t) (r : List Char) :
    ∃ s', Rest ts s' ∧ t.length + s'.length ≤ s.length ∧
      ahead close first (s ++ close :: r) = some (.item (t ++ (s' ++ close :: r))) := by
  cases first with
  | false =>
    cases h with
    | @more b b' _ u _ hb hb' hu =>
      refine ⟨u, hu, by simp only [List.length_append, List.length_cons]; omega, ?_⟩
      simp only [List.append_assoc, List.cons_append]
      rw [ahead_blanks hb, ahead_comma hb' hc (ht.append _)]
  | true =>
    cases h with
    | @some b _ u _ hb hu =>
      refine ⟨u, hu, by simp only [List.length_append]; omega, ?_⟩
      simp only [List.append_assoc]
      rw [ahead_blanks hb, ahead_first hc (ht.append _)]

/-- The tree of a text is found wherever the text stands, with two units of fuel a character. -/
def IsLexed (t : List Char) (x : Tree) : Prop :=
  ∀ (fuel : Nat) (r : List Char), 2 * t.length ≤ fuel → EndsNumber r →
    lexValue fuel (t ++ r) = some (x, r)

theorem StartsItem.length_pos (h : StartsItem t) : 0 < t.length := by
  obtain ⟨c, u, rfl, -⟩ := h
  simp

theorem lexItems_listed {parts : List (List Char × Tree)} (h : ∀ p ∈ parts, TreeText p.1 p.2)
    (hp : ∀ p ∈ parts, IsLexed p.1 p.2) (hs : Listed first (parts.map Prod.fst) s) (fuel : Nat)
    (hf : 2 * s.length + 1 ≤ fuel) (r : List Char) :
    lexItems fuel first (s ++ ']' :: r) = some (parts.map Prod.snd, r) := by
  obtain ⟨f, rfl⟩ : ∃ f, fuel = f + 1 := ⟨fuel - 1, by omega⟩
  induction parts generalizing first s f with
  | nil =>
    rw [lexItems, hs.ahead_nil (.inl rfl)]
    rfl
  | cons p parts ih =>
    have hstart := (h p (by simp)).startsItem
    have hpos := hstart.length_pos
    obtain ⟨s', hrest, hlen, hahead⟩ := hs.ahead_cons (.inl rfl) hstart r
    obtain ⟨g, rfl⟩ : ∃ g, f = g + 1 := ⟨f - 1, by omega⟩
    have hx := hp p (by simp) (g + 1) _ (by omega) (endsNumber_rest hrest (.inl rfl) r)
    have hxs := ih (fun q hq ↦ h q (by simp [hq])) (fun q hq ↦ hp q (by simp [hq]))
      (show Listed false _ _ from hrest) g (by omega)
    rw [lexItems, hahead]
    simp only [hx, hxs, Option.bind_eq_bind, Option.bind_some]
    rfl

theorem lexName_written (m : Member) (h : m.IsNamed) (r : List Char) :
    ∃ u, lexName (m.written ++ r) = some (m.pieces, u) ∧
      afterColon u = some (m.after ++ (m.text ++ r)) := by
  refine ⟨m.before ++ ':' :: (m.after ++ (m.text ++ r)), ?_, ?_⟩
  · have hname := lexString_piecesText h.name (m.before ++ ':' :: (m.after ++ (m.text ++ r)))
    simpa [Member.written, lexName] using hname
  · unfold afterColon
    rw [skipBlank_append h.before, skipBlank_cons rfl]
    rfl

theorem length_text_lt (m : Member) : m.text.length < m.written.length := by
  simp only [Member.written, List.length_cons, List.length_append]
  omega

theorem lexMembers_listed {ms : List Member} (hn : ∀ m ∈ ms, m.IsNamed)
    (hp : ∀ m ∈ ms, IsLexed m.text m.value) (hs : Listed first (ms.map Member.written) s)
    (fuel : Nat) (hf : 2 * s.length + 1 ≤ fuel) (r : List Char) :
    lexMembers fuel first (s ++ '\x7d' :: r) =
      some (ms.map fun m ↦ (m.pieces, m.value), r) := by
  obtain ⟨f, rfl⟩ : ∃ f, fuel = f + 1 := ⟨fuel - 1, by omega⟩
  induction ms generalizing first s f with
  | nil =>
    rw [lexMembers, hs.ahead_nil (.inr rfl)]
    rfl
  | cons m ms ih =>
    have hlt := length_text_lt m
    obtain ⟨s', hrest, hlen, hahead⟩ := hs.ahead_cons (.inr rfl) (startsItem_written m) r
    obtain ⟨g, rfl⟩ : ∃ g, f = g + 1 := ⟨f - 1, by omega⟩
    obtain ⟨u, hname, hcolon⟩ := lexName_written m (hn m (by simp)) (s' ++ '\x7d' :: r)
    have hx := hp m (by simp) (g + 1) _ (by omega) (endsNumber_rest hrest (.inr rfl) r)
    have hms := ih (fun q hq ↦ hn q (by simp [hq])) (fun q hq ↦ hp q (by simp [hq]))
      (show Listed false _ _ from hrest) g (by omega)
    rw [lexMembers, hahead]
    simp only [hname, hcolon, lexValue_blanks (hn m (by simp)).after, hx, hms, Option.bind_eq_bind,
      Option.bind_some]
    rfl

theorem TreeText.isLexed (h : TreeText t x) : IsLexed t x := by
  intro fuel r hf hr
  obtain ⟨f, rfl⟩ : ∃ f, fuel = f + 1 := ⟨fuel - 1, by have := h.startsItem.length_pos; omega⟩
  induction h generalizing f r with
  | nullWord => rfl
  | trueWord => rfl
  | falseWord => rfl
  | @number t n hn =>
    obtain ⟨c, u, rfl, hc⟩ := hn.head
    have hblank : skipBlank (c :: u ++ r) = c :: u ++ r := skipBlank_cons (isBlank_numeral hc)
    rw [lexValue_number, hblank, lexNumber_numeralText hn hr]
    · rfl
    · intro v d hd he
      rw [hblank] at he
      cases he
      have hother : ∀ d ∈ ['n', 't', 'f', '"', '[', '\x7b'], ¬(d = '-' ∨ d.isDigit = true) := by
        simp
      exact hother _ hd hc
  | string h =>
    rw [List.cons_append, List.append_assoc, lexValue_string (skipBlank_cons rfl)]
    simp [lexString_piecesText h]
  | @array parts s h hs ih =>
    have hp : ∀ p ∈ parts, IsLexed p.1 p.2 := by
      intro p hp fuel r hf hr
      obtain ⟨f, rfl⟩ : ∃ f, fuel = f + 1 :=
        ⟨fuel - 1, by have := (h p hp).startsItem.length_pos; omega⟩
      exact ih p hp r hr f hf
    simp only [List.length_cons, List.length_append, List.length_nil] at hf
    rw [List.cons_append, List.append_assoc, lexValue_array (skipBlank_cons rfl),
      List.singleton_append, lexItems_listed h hp (show Listed true _ _ from hs) f (by omega)]
    rfl
  | @object ms s hn h hs ih =>
    have hp : ∀ m ∈ ms, IsLexed m.text m.value := by
      intro m hm fuel r hf hr
      obtain ⟨f, rfl⟩ : ∃ f, fuel = f + 1 :=
        ⟨fuel - 1, by have := (h m hm).startsItem.length_pos; omega⟩
      exact ih m hm r hr f hf
    simp only [List.length_cons, List.length_append, List.length_nil] at hf
    rw [List.cons_append, List.append_assoc, lexValue_object (skipBlank_cons rfl),
      List.singleton_append, lexMembers_listed hn hp (show Listed true _ _ from hs) f (by omega)]
    rfl

theorem Starts.lexValue (h : Starts s x r) (hr : EndsNumber r)
    (hf : 2 * s.length ≤ fuel) : lexValue fuel s = some (x, r) := by
  obtain ⟨b, t, hb, rfl, ht⟩ := h
  simp only [List.length_append] at hf
  rw [lexValue_blanks hb]
  exact ht.isLexed fuel r (by omega) hr

theorem ItemsText.nil (h : ItemsText first s [] r) : ahead ']' first s = some (.close r) := by
  obtain ⟨parts, t, rfl, hparts, -, ht⟩ := h
  cases List.map_eq_nil_iff.mp hparts.symm
  exact ht.ahead_nil (.inl rfl) r

theorem ItemsText.cons {xs : List Tree} (h : ItemsText first s (x :: xs) r) :
    ∃ u v, ahead ']' first s = some (.item u) ∧ Starts u x v ∧ EndsNumber v ∧
      ItemsText false v xs r := by
  obtain ⟨parts, t, rfl, hparts, htext, ht⟩ := h
  obtain ⟨p, parts, rfl, rfl, rfl⟩ := List.map_eq_cons_iff.mp hparts.symm
  have hp := htext p (by simp)
  obtain ⟨s', hrest, -, hahead⟩ := ht.ahead_cons (.inl rfl) hp.startsItem r
  exact ⟨_, s' ++ ']' :: r, hahead, ⟨[], p.1, by simp [IsBlanks], rfl, hp⟩,
    endsNumber_rest hrest (.inl rfl) r, parts, s', rfl, rfl, fun q hq ↦ htext q (by simp [hq]),
    hrest⟩

theorem MembersText.nil (h : MembersText first s [] r) :
    ahead '\x7d' first s = some (.close r) := by
  obtain ⟨ms, t, rfl, hms, -, -, ht⟩ := h
  cases List.map_eq_nil_iff.mp hms.symm
  exact ht.ahead_nil (.inr rfl) r

theorem MembersText.cons {m : List Piece × Tree} {ms : List (List Piece × Tree)}
    (h : MembersText first s (m :: ms) r) :
    ∃ u v, ahead '\x7d' first s = some (.item u) ∧ MemberText u m v ∧ EndsNumber v ∧
      MembersText false v ms r ∧ v.length < s.length := by
  obtain ⟨ms, t, rfl, hms, hnamed, htext, ht⟩ := h
  obtain ⟨m, ms, rfl, rfl, rfl⟩ := List.map_eq_cons_iff.mp hms.symm
  obtain ⟨s', hrest, hlen, hahead⟩ := ht.ahead_cons (.inr rfl) (startsItem_written m) r
  have hpos := (startsItem_written m).length_pos
  refine ⟨_, s' ++ '\x7d' :: r, hahead, ⟨m, hnamed m (by simp), htext m (by simp), rfl, rfl⟩,
    endsNumber_rest hrest (.inr rfl) r, ⟨ms, s', rfl, rfl, fun q hq ↦ hnamed q (by simp [hq]),
      fun q hq ↦ htext q (by simp [hq]), hrest⟩, ?_⟩
  simp only [List.length_append]
  omega

theorem Starts.items {xs : List Tree} (h : Starts s (.array xs) r) :
    ∃ u, Json.skipBlank s = '[' :: u ∧ ItemsText true u xs r := by
  obtain ⟨t, hs, ht⟩ := h.skipBlank
  cases ht with
  | @array parts t hparts ht =>
    exact ⟨t ++ ']' :: r, by simpa using hs, parts, t, rfl, rfl, hparts, ht⟩

theorem Starts.members {ms : List (List Piece × Tree)} (h : Starts s (.object ms) r) :
    ∃ u, Json.skipBlank s = '\x7b' :: u ∧ MembersText true u ms r := by
  obtain ⟨t, hs, ht⟩ := h.skipBlank
  cases ht with
  | @object ms t hnamed hms ht =>
    exact ⟨t ++ '\x7d' :: r, by simpa using hs, ms, t, rfl, rfl, hnamed, hms, ht⟩

end ChangeRelay.Json
