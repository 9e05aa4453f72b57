import ChangeRelay.Proofs.Json.Grammar

namespace ChangeRelay.Json

def lexName : List Char → Option (List Piece × List Char)
  | '"' :: s => lexString s
  | _ => none

mutual

def lexValue : Nat → List Char → Option (Tree × List Char)
  | 0, _ => none
  | fuel + 1, s =>
    match skipBlank s with
    | 'n' :: r => (afterWord ['u', 'l', 'l'] r).map (.null, ·)
    | 't' :: r => (afterWord ['r', 'u', 'e'] r).map (.bool true, ·)
    | 'f' :: r => (afterWord ['a', 'l', 's', 'e'] r).map (.bool false, ·)
    | '"' :: r => (lexString r).map fun p ↦ (.string p.1, p.2)
    | '[' :: r => (lexItems fuel true r).map fun p ↦ (.array p.1, p.2)
    | '\x7b' :: r => (lexMembers fuel true r).map fun p ↦ (.object p.1, p.2)
    | s => (lexNumber s).map fun p ↦ (.number p.1, p.2)

def lexItems : Nat → Bool → List Char → Option (List Tree × List Char)
  | 0, _, _ => none
  | fuel + 1, first, s =>
    match ahead ']' first s with
    | none => none
    | some (.close r) => some ([], r)
    | some (.item r) => do
      let (x, r) ← lexValue fuel r
      let (xs, r) ← lexItems fuel false r
      return (x :: xs, r)

def lexMembers : Nat → Bool → List Char → Option (List (List Piece × Tree) × List Char)
  | 0, _, _ => none
  | fuel + 1, first, s =>
    match ahead '\x7d' first s with
    | none => none
    | some (.close r) => some ([], r)
    | some (.item r) => do
      let (k, r) ← lexName r
      let (x, r) ← lexValue fuel (← afterColon r)
      let (ms, r) ← lexMembers fuel false r
      return ((k, x) :: ms, r)

end

section Starts

variable {fuel : Nat} {r s : List Char}

theorem lexValue_null (h : skipBlank s = 'n' :: r) :
    lexValue (fuel + 1) s = (afterWord ['u', 'l', 'l'] r).map (.null, ·) := by
  rw [lexValue, h]
  rfl

theorem lexValue_true (h : skipBlank s = 't' :: r) :
    lexValue (fuel + 1) s = (afterWord ['r', 'u', 'e'] r).map (.bool true, ·) := by
  rw [lexValue, h]
  rfl

theorem lexValue_false (h : skipBlank s = 'f' :: r) :
    lexValue (fuel + 1) s = (afterWord ['a', 'l', 's', 'e'] r).map (.bool false, ·) := by
  rw [lexValue, h]
  rfl

theorem lexValue_string (h : skipBlank s = '"' :: r) :
    lexValue (fuel + 1) s = (lexString r).map fun p ↦ (.string p.1, p.2) := by
  rw [lexValue, h]
  rfl

theorem lexValue_array (h : skipBlank s = '[' :: r) :
    lexValue (fuel + 1) s = (lexItems fuel true r).map fun p ↦ (.array p.1, p.2) := by
  rw [lexValue, h]
  rfl

theorem lexValue_object (h : skipBlank s = '\x7b' :: r) :
    lexValue (fuel + 1) s = (lexMembers fuel true r).map fun p ↦ (.object p.1, p.2) := by
  rw [lexValue, h]
  rfl

theorem lexValue_number
    (h : ∀ r, ∀ c ∈ ['n', 't', 'f', '"', '[', '\x7b'], skipBlank s ≠ c :: r) :
    lexValue (fuel + 1) s = (lexNumber (skipBlank s)).map fun p ↦ (.number p.1, p.2) := by
  unfold lexValue
  split
  case h_7 => rfl
  all_goals exact absurd (by assumption) (h _ _ (by decide))

end Starts

def textOf? (ps : List Piece) : Option String := (joinPieces ps).map String.ofList

theorem textOf?_plain (name : String) : textOf? (name.toList.map .char) = some name := by
  have join : ∀ s : List Char, joinPieces (s.map .char) = some s := by
    intro s
    induction s with
    | nil => rfl
    | cons c s ih => simp [joinPieces, ih]
  rw [textOf?, join, Option.map_some, String.ofList_toList]

mutual

/-- The value of a tree, if it nests no more than `room` levels of brackets, its surrogates pair and
its numbers fit. -/
def Tree.value? : Nat → Tree → Option Json
  | _, .null => some .null
  | _, .bool b => some (.bool b)
  | _, .number n => n.value?
  | _, .string ps => (textOf? ps).map .str
  | 0, .array _ => none
  | room + 1, .array xs => (values? room xs).map .arr
  | 0, .object _ => none
  | room + 1, .object ms => (members? room ms).map ofMembers

def values? : Nat → List Tree → Option (List Json)
  | _, [] => some []
  | room, x :: xs => do
    let v ← x.value? room
    let vs ← values? room xs
    return v :: vs

def members? : Nat → List (List Piece × Tree) → Option (List (String × Json))
  | _, [] => some []
  | room, (ps, x) :: ms => do
    let k ← textOf? ps
    let v ← x.value? room
    let ms ← members? room ms
    return (k, v) :: ms

end

section Reading

variable {α β γ : Type}

/-- What a lexer found, turned into a value where it has one. -/
def valued (f : α → Option β) (x : Option (α × List Char)) : Option (β × List Char) :=
  x.bind fun p ↦ (f p.1).map (·, p.2)

theorem valued_map (f : β → Option γ) (g : α → β) (x : Option (α × List Char)) :
    valued f (x.map fun p ↦ (g p.1, p.2)) = valued (f ∘ g) x := by
  cases x <;> rfl

theorem map_valued (f : α → Option β) (g : β → γ) (x : Option (α × List Char)) :
    (valued f x).map (fun p ↦ (g p.1, p.2)) = valued (fun a ↦ (f a).map g) x := by
  cases x with
  | none => rfl
  | some p => cases h : f p.1 <;> simp [valued, h]

theorem readString_eq (s : List Char) : readString s = valued textOf? (lexString s) := by
  unfold readString valued textOf?
  cases lexString s with
  | none => rfl
  | some p => cases h : joinPieces p.1 <;> simp [h]

theorem readKey_eq (s : List Char) : readKey s = valued textOf? (lexName s) := by
  by_cases h : ∃ u, s = '"' :: u
  · obtain ⟨u, rfl⟩ := h
    exact readString_eq u
  · have hread : readKey s = none := by
      unfold readKey
      split
      · exact absurd ⟨_, rfl⟩ h
      · rfl
    have hlex : lexName s = none := by
      unfold lexName
      split
      · exact absurd ⟨_, rfl⟩ h
      · rfl
    rw [hread, hlex]
    rfl

theorem readNumber_eq (s : List Char) : readNumber s = valued Numeral.value? (lexNumber s) := by
  unfold readNumber valued
  cases lexNumber s with
  | none => rfl
  | some p => cases h : p.1.value? <;> simp [h]

theorem valued_eq_none {f : α → Option β} (h : ∀ a, f a = none) (x : Option (α × List Char)) :
    valued f x = none := by
  cases x <;> simp [valued, h]

def ReadsValues (fuel : Nat) : Prop := ∀ room s,
  readValue fuel room s = valued (Tree.value? room) (lexValue fuel s)

def ReadsItems (fuel : Nat) : Prop := ∀ room first s,
  readItems fuel room first s = valued (values? room) (lexItems fuel first s)

def ReadsMembers (fuel : Nat) : Prop := ∀ room first s,
  readMembers fuel room first s = valued (members? room) (lexMembers fuel first s)

variable {fuel : Nat}

theorem readsValues_succ (hitems : ReadsItems fuel) (hmembers : ReadsMembers fuel) :
    ReadsValues (fuel + 1) := by
  intro room s
  have word : ∀ {x : Tree} {v : Json} (w s : List Char), x.value? room = some v →
      (afterWord w s).map (v, ·) = valued (Tree.value? room) ((afterWord w s).map (x, ·)) := by
    intro x v w s hx
    cases afterWord w s with
    | none => rfl
    | some r => simp [valued, hx]
  unfold readValue
  split
  · rw [lexValue_null (by assumption)]
    exact word _ _ (by rw [Tree.value?])
  · rw [lexValue_true (by assumption)]
    exact word _ _ (by rw [Tree.value?])
  · rw [lexValue_false (by assumption)]
    exact word _ _ (by rw [Tree.value?])
  · rw [lexValue_string (by assumption), readString_eq, map_valued, valued_map]
    simp only [Function.comp_def, Tree.value?]
  · rw [lexValue_array (by assumption), valued_map]
    cases room with
    | zero => exact (valued_eq_none (fun xs ↦ by rw [Function.comp_apply, Tree.value?]) _).symm
    | succ room =>
      rw [if_neg room.succ_ne_zero, hitems, map_valued]
      simp only [Function.comp_def, Tree.value?, Nat.add_sub_cancel]
  · rw [lexValue_object (by assumption), valued_map]
    cases room with
    | zero => exact (valued_eq_none (fun ms ↦ by rw [Function.comp_apply, Tree.value?]) _).symm
    | succ room =>
      rw [if_neg room.succ_ne_zero, hmembers, map_valued]
      simp only [Function.comp_def, Tree.value?, Nat.add_sub_cancel]
  · rename_i hn ht hf hq ha ho
    rw [lexValue_number fun r ↦ by simpa using ⟨hn r, ht r, hf r, hq r, ha r, ho r⟩,
      readNumber_eq, valued_map]
    simp only [Function.comp_def, Tree.value?]

theorem readsItems_succ (hvalue : ReadsValues fuel) (hitems : ReadsItems fuel) :
    ReadsItems (fuel + 1) := by
  intro room first s
  rw [readItems, lexItems]
  cases ahead ']' first s with
  | none => rfl
  | some a =>
    cases a with
    | close r => simp [valued, values?]
    | item r =>
      simp only [hvalue room, hitems room, Option.bind_eq_bind]
      cases hx : lexValue fuel r with
      | none => rfl
      | some p =>
        obtain ⟨x, r⟩ := p
        cases hv : x.value? room <;> cases hxs : lexItems fuel false r <;>
          simp [valued, values?, hv, hxs, Option.bind_map, Option.map_bind]

theorem readsMembers_succ (hvalue : ReadsValues fuel) (hmembers : ReadsMembers fuel) :
    ReadsMembers (fuel + 1) := by
  intro room first s
  rw [readMembers, lexMembers]
  cases ahead '\x7d' first s with
  | none => rfl
  | some a =>
    cases a with
    | close r => simp [valued, members?]
    | item r =>
      simp only [hvalue room, hmembers room, readKey_eq, Option.bind_eq_bind]
      cases hk : lexName r with
      | none => rfl
      | some p =>
        obtain ⟨ps, r⟩ := p
        cases hc : afterColon r with
        | none => cases ht : textOf? ps <;> simp [valued, hc, ht]
        | some r =>
          cases hx : lexValue fuel r with
          | none => cases ht : textOf? ps <;> simp [valued, hc, ht, hx]
          | some p =>
            obtain ⟨x, r⟩ := p
            cases ht : textOf? ps <;> cases hv : x.value? room <;>
              cases hms : lexMembers fuel false r <;>
              simp [valued, members?, hc, ht, hx, hv, hms, Option.bind_map, Option.map_bind]

theorem reads (fuel : Nat) : ReadsValues fuel ∧ ReadsItems fuel ∧ ReadsMembers fuel := by
  induction fuel with
  | zero => exact ⟨fun _ _ ↦ rfl, fun _ _ _ ↦ rfl, fun _ _ _ ↦ rfl⟩
  | succ fuel ih =>
    obtain ⟨hvalue, hitems, hmembers⟩ := ih
    exact ⟨readsValues_succ hitems hmembers, readsItems_succ hvalue hitems,
      readsMembers_succ hvalue hmembers⟩

theorem readValue_eq (fuel room : Nat) (s : List Char) :
    readValue fuel room s = valued (Tree.value? room) (lexValue fuel s) :=
  (reads fuel).1 room s

def SkipsValues (fuel : Nat) : Prop := ∀ s, skipValue fuel s = (lexValue fuel s).map (·.2)

def SkipsItems (fuel : Nat) : Prop := ∀ first s,
  skipItems fuel first s = (lexItems fuel first s).map (·.2)

def SkipsMembers (fuel : Nat) : Prop := ∀ first s,
  skipMembers fuel first s = (lexMembers fuel first s).map (·.2)

theorem skipsValues_succ (hitems : SkipsItems fuel) (hmembers : SkipsMembers fuel) :
    SkipsValues (fuel + 1) := by
  intro s
  have word : ∀ (x : Tree) (w s : List Char),
      afterWord w s = ((afterWord w s).map (x, ·)).map (·.2) := by
    intro x w s
    cases afterWord w s <;> rfl
  unfold skipValue
  split
  · rw [lexValue_null (by assumption)]
    exact word _ _ _
  · rw [lexValue_true (by assumption)]
    exact word _ _ _
  · rw [lexValue_false (by assumption)]
    exact word _ _ _
  · rw [lexValue_string (by assumption), Option.map_map]
    rfl
  · rw [lexValue_array (by assumption), hitems, Option.map_map]
    rfl
  · rw [lexValue_object (by assumption), hmembers, Option.map_map]
    rfl
  · rename_i hn ht hf hq ha ho
    rw [lexValue_number fun r ↦ by simpa using ⟨hn r, ht r, hf r, hq r, ha r, ho r⟩,
      Option.map_map]
    rfl

theorem skipsItems_succ (hvalue : SkipsValues fuel) (hitems : SkipsItems fuel) :
    SkipsItems (fuel + 1) := by
  intro first s
  rw [skipItems, lexItems]
  cases ahead ']' first s with
  | none => rfl
  | some a =>
    cases a with
    | close r => rfl
    | item r =>
      simp only [hvalue r, Option.bind_eq_bind]
      cases lexValue fuel r with
      | none => rfl
      | some p =>
        simp only [Option.map_some, Option.bind_some, hitems false p.2]
        cases lexItems fuel false p.2 <;> rfl

theorem skipsMembers_succ (hvalue : SkipsValues fuel) (hmembers : SkipsMembers fuel) :
    SkipsMembers (fuel + 1) := by
  intro first s
  rw [skipMembers, lexMembers]
  cases ahead '\x7d' first s with
  | none => rfl
  | some a =>
    cases a with
    | close r => rfl
    | item r =>
      have hname : ∀ k : List Char → Option (List Char),
          (match r with
            | '"' :: r => ((lexString r).map (·.2)).bind k
            | _ => none.bind k) = (lexName r).bind fun p ↦ k p.2 := by
        intro k
        unfold lexName
        split
        · exact Option.bind_map ..
        · rfl
      simp only [Option.bind_eq_bind]
      refine (hname _).trans ?_
      cases lexName r with
      | none => rfl
      | some p =>
        simp only [Option.bind_some]
        cases afterColon p.2 with
        | none => rfl
        | some r =>
          simp only [Option.bind_some, hvalue r]
          cases lexValue fuel r with
          | none => rfl
          | some q =>
            simp only [Option.map_some, Option.bind_some, hmembers false q.2]
            cases lexMembers fuel false q.2 <;> rfl

theorem skips (fuel : Nat) : SkipsValues fuel ∧ SkipsItems fuel ∧ SkipsMembers fuel := by
  induction fuel with
  | zero => exact ⟨fun _ ↦ rfl, fun _ _ ↦ rfl, fun _ _ ↦ rfl⟩
  | succ fuel ih =>
    obtain ⟨hvalue, hitems, hmembers⟩ := ih
    exact ⟨skipsValues_succ hitems hmembers, skipsItems_succ hvalue hitems,
      skipsMembers_succ hvalue hmembers⟩

theorem skipValue_eq (fuel : Nat) (s : List Char) :
    skipValue fuel s = (lexValue fuel s).map (·.2) :=
  (skips fuel).1 s

end Reading

end ChangeRelay.Json
