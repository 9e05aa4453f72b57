import ChangeRelay.Proofs.Json.Scalars

namespace ChangeRelay.Json

/-- The values that the reader can give, floating-point numbers apart, of at most `room` levels of
brackets: integers are in range, and members are in ascending order of their names. -/
inductive Plain : Nat → Json → Prop
  | null {room : Nat} : Plain room .null
  | bool {room : Nat} (b : Bool) : Plain room (.bool b)
  | int {room : Nat} {n : Int} (h : FitsWord n) : Plain room (.int n)
  | str {room : Nat} (s : String) : Plain room (.str s)
  | arr {room : Nat} {vs : List Json} (h : ∀ v ∈ vs, Plain room v) : Plain (room + 1) (.arr vs)
  | obj {room : Nat} {ms : List (String × Json)} (ascending : ms.Pairwise fun a b ↦ a.1 < b.1)
      (h : ∀ m ∈ ms, Plain room m.2) : Plain (room + 1) (.obj ms)

theorem skipBlank_cons {c : Char} {s : List Char} (h : isBlank c = false) :
    skipBlank (c :: s) = c :: s :=
  List.dropWhile_cons_of_neg (by simp [h])

def StartsItem (s : List Char) : Prop :=
  ∃ c r, s = c :: r ∧ isBlank c = false ∧ c ≠ ']' ∧ c ≠ '\x7d'

theorem StartsItem.append {s : List Char} (h : StartsItem s) (r : List Char) :
    StartsItem (s ++ r) := by
  obtain ⟨c, t, rfl, hc⟩ := h
  exact ⟨c, t ++ r, rfl, hc⟩

variable {close : Char} {s : List Char}

theorem ahead_first (hc : close = ']' ∨ close = '\x7d') (h : StartsItem s) :
    ahead close true s = some (.item s) := by
  obtain ⟨c, r, rfl, hb, ha, ho⟩ := h
  have hne : c ≠ close := by rcases hc with rfl | rfl <;> assumption
  simp [ahead, skipBlank_cons hb, hne]

theorem ahead_later (hc : close = ']' ∨ close = '\x7d') (h : StartsItem s) :
    ahead close false (',' :: s) = some (.item s) := by
  obtain ⟨c, r, rfl, hb, ha, ho⟩ := h
  have hcomma : skipBlank (',' :: c :: r) = ',' :: c :: r := skipBlank_cons rfl
  rcases hc with rfl | rfl
  · simp [ahead, hcomma, skipBlank_cons hb, ha]
  · simp [ahead, hcomma, skipBlank_cons hb, ho]

theorem ahead_close (hc : close = ']' ∨ close = '\x7d') (first : Bool) (s : List Char) :
    ahead close first (close :: s) = some (.close s) := by
  have hb : isBlank close = false := by rcases hc with rfl | rfl <;> rfl
  simp [ahead, skipBlank_cons hb]

theorem endsNumber_writeItems (vs : List Json) (rest : List Char) :
    EndsNumber (writeItems vs ++ rest) := by
  intro c hc
  cases vs <;> cases hc <;> decide

theorem endsNumber_writeMembers (ms : List (String × Json)) (rest : List Char) :
    EndsNumber (writeMembers ms ++ rest) := by
  intro c hc
  rcases ms with _ | ⟨⟨k, v⟩, ms⟩ <;> cases hc <;> decide

theorem isBlank_numeral {c : Char} (h : c = '-' ∨ c.isDigit = true) : isBlank c = false := by
  cases hb : isBlank c with
  | false => rfl
  | true =>
    simp only [isBlank, Bool.or_eq_true, decide_eq_true_eq] at hb
    rcases hb with ((rfl | rfl) | rfl) | rfl <;> simp at h

theorem startsItem_writeInt (n : Int) : StartsItem (writeInt n) := by
  obtain ⟨c, r, h, hc⟩ := writeInt_head n
  refine ⟨c, r, h, isBlank_numeral hc, ?_, ?_⟩
  · rintro rfl
    exact absurd hc (by decide)
  · rintro rfl
    exact absurd hc (by decide)

theorem startsItem_writeString (s : String) : StartsItem (writeString s) :=
  ⟨'"', _, rfl, rfl, by decide, by decide⟩

theorem Plain.startsItem {room : Nat} {v : Json} (h : Plain room v) : StartsItem (write v) := by
  have hc : ∀ (c : Char) (r : List Char), isBlank c = false → c ≠ ']' → c ≠ '\x7d' →
      StartsItem (c :: r) := fun c r hb ha ho ↦ ⟨c, r, rfl, hb, ha, ho⟩
  cases h with
  | null => exact hc 'n' _ rfl (by decide) (by decide)
  | bool b => cases b <;> exact hc _ _ rfl (by decide) (by decide)
  | @int _ n _ =>
    rw [write]
    exact startsItem_writeInt n
  | str s =>
    rw [write]
    exact startsItem_writeString s
  | @arr _ vs _ => cases vs <;> exact hc '[' _ rfl (by decide) (by decide)
  | @obj _ ms _ _ =>
    rcases ms with _ | ⟨⟨k, v⟩, ms⟩ <;> exact hc '\x7b' _ rfl (by decide) (by decide)

/-- The reader gives the value back from its text, and leaves what comes after it. Two units of fuel
are enough for a character, one for a value and one for the list that it stands in. -/
def ReadsBack (room : Nat) (v : Json) : Prop :=
  ∀ (fuel : Nat) (rest : List Char), 2 * (write v).length ≤ fuel → EndsNumber rest →
    readValue fuel room (write v ++ rest) = some (v, rest)

theorem readsBack_int {room : Nat} {n : Int} (hn : FitsWord n) : ReadsBack room (.int n) := by
  intro fuel rest hf hr
  rw [write] at hf ⊢
  have hread := readNumber_writeInt hn hr
  obtain ⟨c, r, h, hc⟩ := writeInt_head n
  rw [h, List.length_cons] at hf
  rw [h, List.cons_append] at hread ⊢
  obtain ⟨f, rfl⟩ : ∃ f, fuel = f + 1 := ⟨fuel - 1, by omega⟩
  unfold readValue
  rw [skipBlank_cons (isBlank_numeral hc)]
  split
  case h_7 => exact hread
  all_goals
    rename_i heq
    cases heq
    exact absurd hc (by decide)

theorem readsBack_str {room : Nat} (s : String) : ReadsBack room (.str s) := by
  intro fuel rest hf _
  rw [write] at hf ⊢
  obtain ⟨f, rfl⟩ : ∃ f, fuel = f + 1 := by
    rw [writeString, List.cons_append, List.length_cons] at hf
    exact ⟨fuel - 1, by omega⟩
  rw [writeString_append, readValue, skipBlank_cons rfl]
  simp only [readString_escape, Option.map_some]

theorem readItems_cons {fuel room : Nat} {first : Bool} {s rest : List Char} {v : Json}
    {vs : List Json}
    (hs : ahead ']' first s = some (.item (write v ++ (writeItems vs ++ rest))))
    (hv : ReadsBack room v) (hf : 2 * (write v).length ≤ fuel)
    (hvs : readItems fuel room false (writeItems vs ++ rest) = some (vs, rest)) :
    readItems (fuel + 1) room first s = some (v :: vs, rest) := by
  rw [readItems, hs]
  simp only [hv fuel _ hf (endsNumber_writeItems vs rest), Option.bind_eq_bind, Option.bind_some,
    hvs]
  rfl

theorem readItems_writeItems {room : Nat} {vs : List Json} (hp : ∀ v ∈ vs, Plain room v)
    (hv : ∀ v ∈ vs, ReadsBack room v) (fuel : Nat) (rest : List Char)
    (hf : 2 * (writeItems vs).length ≤ fuel) :
    readItems fuel room false (writeItems vs ++ rest) = some (vs, rest) := by
  induction vs generalizing fuel with
  | nil =>
    obtain ⟨f, rfl⟩ : ∃ f, fuel = f + 1 := ⟨fuel - 1, by simp [writeItems] at hf; omega⟩
    rw [writeItems, List.singleton_append, readItems, ahead_close (.inl rfl)]
  | cons v vs ih =>
    simp only [writeItems, List.cons_append, List.length_cons, List.length_append] at hf
    obtain ⟨f, rfl⟩ : ∃ f, fuel = f + 1 := ⟨fuel - 1, by omega⟩
    have hs := (hp v (by simp)).startsItem.append (writeItems vs ++ rest)
    simp only [writeItems, List.cons_append, List.append_assoc]
    exact readItems_cons (ahead_later (.inl rfl) hs) (hv v (by simp)) (by omega)
      (ih (fun w hw ↦ hp w (by simp [hw])) (fun w hw ↦ hv w (by simp [hw])) f (by omega))

theorem readsBack_arr {room : Nat} {vs : List Json} (hp : ∀ v ∈ vs, Plain room v)
    (hv : ∀ v ∈ vs, ReadsBack room v) : ReadsBack (room + 1) (.arr vs) := by
  intro fuel rest hf hr
  cases vs with
  | nil =>
    obtain ⟨f, rfl⟩ : ∃ f, fuel = f + 2 := ⟨fuel - 2, by simp [write] at hf; omega⟩
    have hi : readItems (f + 1) room true (']' :: rest) = some ([], rest) := by
      rw [readItems, ahead_close (.inl rfl)]
    simp only [write, List.cons_append, List.nil_append]
    rw [readValue, skipBlank_cons rfl]
    simp [hi]
  | cons v vs =>
    simp only [write, List.cons_append, List.length_cons, List.length_append] at hf
    obtain ⟨f, rfl⟩ : ∃ f, fuel = f + 2 := ⟨fuel - 2, by omega⟩
    have hs := (hp v (by simp)).startsItem.append (writeItems vs ++ rest)
    have hrest : readItems f room false (writeItems vs ++ rest) = some (vs, rest) :=
      readItems_writeItems (fun w hw ↦ hp w (by simp [hw])) (fun w hw ↦ hv w (by simp [hw])) f rest
        (by omega)
    have hi := readItems_cons (ahead_first (.inl rfl) hs) (hv v (by simp)) (by omega) hrest
    simp only [write, List.cons_append, List.append_assoc]
    rw [readValue, skipBlank_cons rfl]
    simp [hi]

theorem readMembers_cons {fuel room : Nat} {first : Bool} {s rest : List Char} {k : String}
    {v : Json} {ms : List (String × Json)}
    (hs : ahead '\x7d' first s =
      some (.item (writeString k ++ ':' :: (write v ++ (writeMembers ms ++ rest)))))
    (hv : ReadsBack room v) (hf : 2 * (write v).length ≤ fuel)
    (hms : readMembers fuel room false (writeMembers ms ++ rest) = some (ms, rest)) :
    readMembers (fuel + 1) room first s = some ((k, v) :: ms, rest) := by
  have hc : ∀ r, afterColon (':' :: r) = some r := fun r ↦ rfl
  rw [readMembers, hs]
  simp only [readKey_writeString, hc, hv fuel _ hf (endsNumber_writeMembers ms rest),
    Option.bind_eq_bind, Option.bind_some, hms]
  rfl

theorem startsItem_member (k : String) (r : List Char) : StartsItem (writeString k ++ r) :=
  (startsItem_writeString k).append r

theorem readMembers_writeMembers {room : Nat} {ms : List (String × Json)}
    (hv : ∀ m ∈ ms, ReadsBack room m.2) (fuel : Nat) (rest : List Char)
    (hf : 2 * (writeMembers ms).length ≤ fuel) :
    readMembers fuel room false (writeMembers ms ++ rest) = some (ms, rest) := by
  induction ms generalizing fuel with
  | nil =>
    obtain ⟨f, rfl⟩ : ∃ f, fuel = f + 1 := ⟨fuel - 1, by simp [writeMembers] at hf; omega⟩
    rw [writeMembers, List.singleton_append, readMembers, ahead_close (.inr rfl)]
  | cons m ms ih =>
    obtain ⟨k, v⟩ := m
    simp only [writeMembers, List.cons_append, List.length_cons, List.length_append] at hf
    obtain ⟨f, rfl⟩ : ∃ f, fuel = f + 1 := ⟨fuel - 1, by omega⟩
    simp only [writeMembers, List.cons_append, List.append_assoc]
    exact readMembers_cons (ahead_later (.inr rfl) (startsItem_member k _)) (hv (k, v) (by simp))
      (by omega) (ih (fun w hw ↦ hv w (by simp [hw])) f (by omega))

theorem ofMembers_of_ascending {ms : List (String × Json)}
    (h : ms.Pairwise fun a b ↦ a.1 < b.1) : ofMembers ms = .obj ms := by
  have hins : ∀ (acc : List (String × Json)) (k : String) (v : Json), (∀ m ∈ acc, m.1 < k) →
      insert k v acc = acc ++ [(k, v)] := by
    intro acc k v hacc
    induction acc with
    | nil => rfl
    | cons m acc ih =>
      have hk : m.1 < k := hacc m (by simp)
      have hne : k ≠ m.1 := fun he ↦ String.lt_irrefl k (he ▸ hk)
      rw [insert, if_neg (String.lt_asymm hk), if_neg hne, ih fun w hw ↦ hacc w (by simp [hw])]
      rfl
  have hfold : ∀ (acc : List (String × Json)), (acc ++ ms).Pairwise (fun a b ↦ a.1 < b.1) →
      ms.foldl (fun acc m ↦ insert m.1 m.2 acc) acc = acc ++ ms := by
    clear h
    induction ms with
    | nil => simp
    | cons m ms ih =>
      intro acc hp
      have hacc : ∀ w ∈ acc, w.1 < m.1 :=
        fun w hw ↦ (List.pairwise_append.mp hp).2.2 w hw m (by simp)
      rw [List.foldl_cons, hins acc m.1 m.2 hacc, ih _ (by simpa using hp), List.append_assoc]
      rfl
  rw [ofMembers, hfold [] h, List.nil_append]

/-- Written members are read as the object that they make, in whatever order they are. -/
theorem readValue_writeObj {fuel room : Nat} {ms : List (String × Json)} {rest : List Char}
    (hv : ∀ m ∈ ms, ReadsBack room m.2) (hf : 2 * (write (.obj ms)).length ≤ fuel) :
    readValue fuel (room + 1) (write (.obj ms) ++ rest) = some (ofMembers ms, rest) := by
  rcases ms with _ | ⟨⟨k, v⟩, ms⟩
  · obtain ⟨f, rfl⟩ : ∃ f, fuel = f + 2 := ⟨fuel - 2, by simp [write] at hf; omega⟩
    have hi : readMembers (f + 1) room true ('\x7d' :: rest) = some ([], rest) := by
      rw [readMembers, ahead_close (.inr rfl)]
    simp only [write, List.cons_append, List.nil_append]
    rw [readValue, skipBlank_cons rfl]
    simp [hi]
  · simp only [write, List.cons_append, List.length_cons, List.length_append] at hf
    obtain ⟨f, rfl⟩ : ∃ f, fuel = f + 2 := ⟨fuel - 2, by omega⟩
    have hone : ReadsBack room v := hv (k, v) (by simp)
    have hrest : readMembers f room false (writeMembers ms ++ rest) = some (ms, rest) :=
      readMembers_writeMembers (fun w hw ↦ hv w (by simp [hw])) f rest (by omega)
    have hi := readMembers_cons (ahead_first (.inr rfl) (startsItem_member k _)) hone (by omega)
      hrest
    simp only [write, List.cons_append, List.append_assoc]
    rw [readValue, skipBlank_cons rfl]
    simp [hi]

theorem readsBack_obj {room : Nat} {ms : List (String × Json)}
    (ascending : ms.Pairwise fun a b ↦ a.1 < b.1) (hv : ∀ m ∈ ms, ReadsBack room m.2) :
    ReadsBack (room + 1) (.obj ms) := by
  intro fuel rest hf _
  rw [readValue_writeObj hv hf, ofMembers_of_ascending ascending]

theorem Plain.readsBack {room : Nat} {v : Json} (h : Plain room v) : ReadsBack room v := by
  induction h with
  | null =>
    intro fuel rest hf _
    obtain ⟨f, rfl⟩ : ∃ f, fuel = f + 1 := ⟨fuel - 1, by simp [write] at hf; omega⟩
    rfl
  | bool b =>
    intro fuel rest hf _
    cases b <;> obtain ⟨f, rfl⟩ : ∃ f, fuel = f + 1 := ⟨fuel - 1, by simp [write] at hf; omega⟩
    all_goals rfl
  | int hn => exact readsBack_int hn
  | str s => exact readsBack_str s
  | arr h ih => exact readsBack_arr h ih
  | obj ascending _ ih => exact readsBack_obj ascending ih

theorem parse?_compact {v : Json} (h : Plain maxDepth v) : parse? v.compact = some v := by
  have hread := h.readsBack (fuelFor v.write) [] (by unfold fuelFor; omega) (by simp [EndsNumber])
  rw [List.append_nil] at hread
  rw [parse?, compact, String.toList_ofList, hread]
  rfl

def NoControl (s : List Char) : Prop := ∀ c ∈ s, 0x20 ≤ c.toNat

instance (s : List Char) : Decidable (NoControl s) :=
  List.decidableBAll (fun c : Char ↦ 0x20 ≤ c.toNat) s

theorem NoControl.cons {c : Char} {s : List Char} (hc : 0x20 ≤ c.toNat) (hs : NoControl s) :
    NoControl (c :: s) := by
  intro d hd
  rcases List.mem_cons.mp hd with rfl | hd
  · exact hc
  · exact hs d hd

theorem NoControl.append {s t : List Char} (hs : NoControl s) (ht : NoControl t) :
    NoControl (s ++ t) := by
  intro c hc
  rcases List.mem_append.mp hc with hc | hc
  · exact hs c hc
  · exact ht c hc

theorem noControl_escape (c : Char) : NoControl (escape c) := by
  have hx : ∀ n < 0x20, NoControl ['\\', 'u', '0', '0', hexDigit (n / 16), hexDigit n] := by decide
  unfold escape
  split_ifs with _ _ _ _ _ _ _ hc
  any_goals decide
  · exact hx _ hc
  · intro d hd
    rw [List.mem_singleton.mp hd]
    exact Nat.le_of_not_lt hc

theorem noControl_writeString (s : String) : NoControl (writeString s) := by
  have hs : NoControl (s.toList.flatMap escape) := by
    intro d hd
    obtain ⟨c, -, hc⟩ := List.mem_flatMap.mp hd
    exact noControl_escape c d hc
  have hq : NoControl ['"'] := by decide
  exact (hq.append hs).append hq

theorem noControl_writeInt (n : Int) : NoControl (writeInt n) := by
  have hd : ∀ m, NoControl (Nat.toDigits 10 m) := by
    intro m c hc
    have h := Char.isDigit_iff_toNat.mp (Nat.isDigit_of_mem_toDigits (by decide) (by decide) hc)
    exact Nat.le_trans (by decide) h.1
  cases n with
  | ofNat m => exact hd m
  | negSucc m => exact (hd (m + 1)).cons (by decide)

theorem noControl_writeItems {vs : List Json} (hv : ∀ v ∈ vs, NoControl (write v)) :
    NoControl (writeItems vs) := by
  induction vs with
  | nil => decide
  | cons v vs ih =>
    rw [writeItems]
    exact ((hv v (by simp)).cons (by decide)).append (ih fun w hw ↦ hv w (by simp [hw]))

theorem noControl_writeMembers {ms : List (String × Json)} (hv : ∀ m ∈ ms, NoControl (write m.2)) :
    NoControl (writeMembers ms) := by
  induction ms with
  | nil => decide
  | cons m ms ih =>
    obtain ⟨k, v⟩ := m
    have hone : NoControl (write v) := hv (k, v) (by simp)
    rw [writeMembers]
    exact (((noControl_writeString k).cons (by decide)).append (hone.cons (by decide))).append
      (ih fun w hw ↦ hv w (by simp [hw]))

theorem noControl_writeObj {ms : List (String × Json)} (hv : ∀ m ∈ ms, NoControl (write m.2)) :
    NoControl (write (.obj ms)) := by
  rcases ms with _ | ⟨⟨k, v⟩, ms⟩
  · decide
  · have hone : NoControl (write v) := hv (k, v) (by simp)
    rw [write]
    exact (((noControl_writeString k).cons (by decide)).append (hone.cons (by decide))).append
      (noControl_writeMembers fun w hw ↦ hv w (by simp [hw]))

theorem Plain.noControl {room : Nat} {v : Json} (h : Plain room v) : NoControl (write v) := by
  induction h with
  | null => decide
  | bool b => cases b <;> decide
  | @int _ n _ =>
    rw [write]
    exact noControl_writeInt n
  | str s =>
    rw [write]
    exact noControl_writeString s
  | @arr _ vs _ ih =>
    cases vs with
    | nil => decide
    | cons v vs =>
      rw [write]
      exact ((ih v (by simp)).cons (by decide)).append
        (noControl_writeItems fun w hw ↦ ih w (by simp [hw]))
  | @obj _ ms _ _ ih => exact noControl_writeObj ih

end ChangeRelay.Json
