import ChangeRelay.Event.Payload
import ChangeRelay.Proofs.Json.Fields
import Mathlib

namespace ChangeRelay

open Json

/-- The texts that stand for an operation: its name, and all others for the unknown one. -/
def Operation.IsCalled : Operation → String → Prop
  | .unknown, t => t ∉ [created.name, updated.name, deleted.name]
  | o, t => t = o.name

theorem Operation.ofName_eq_iff {t : String} {o : Operation} : ofName t = o ↔ o.IsCalled t := by
  unfold ofName
  split_ifs with hc hu hd
  · subst hc
    cases o <;> simp [IsCalled, name]
  · subst hu
    cases o <;> simp [IsCalled, name]
  · subst hd
    cases o <;> simp [IsCalled, name]
  · cases o <;> simp [IsCalled, name, hc, hu, hd]

namespace Event

def SaysText (x : Tree) (t : String) : Prop := ∃ ps, x = .string ps ∧ textOf? ps = some t

/-- An operation is said by a string, or by an object with that string as its only name. -/
inductive SaysOperation : Tree → Operation → Prop
  | text {ps : List Piece} {t : String} {o : Operation} (h : textOf? ps = some t)
      (ho : o.IsCalled t) : SaysOperation (.string ps) o
  | name {ps : List Piece} {t : String} {o : Operation} (h : textOf? ps = some t)
      (ho : o.IsCalled t) : SaysOperation (.object [(ps, .null)]) o

def SaysTime (x : Tree) (n : Int) : Prop :=
  ∃ m : Numeral, x = .number m ∧ isInt64 n = true ∧ m.IsInteger n

def Once {α : Type} (means : Tree → α → Prop) (name : String) (ms : List (List Piece × Tree))
    (a : α) : Prop :=
  ∃ x, named name ms = [x] ∧ means x a

/-- The members of an object that say an event; those of other names may be any and any number. -/
structure InMembers (ms : List (List Piece × Tree)) (e : Event) : Prop where
  names : ∀ m ∈ ms, (textOf? m.1).isSome
  entityId : Once SaysText "entityId" ms e.entityId
  entityType : Once SaysText "entityType" ms e.entityType
  operation : Once SaysOperation "operation" ms e.operation
  timestamp : Once SaysTime "timestamp" ms e.timestamp

inductive Says : Tree → Event → Prop
  | object {ms : List (List Piece × Tree)} {e : Event} (h : InMembers ms e) : Says (.object ms) e
  | array {x y z w : Tree} {e : Event} (entityId : SaysText x e.entityId)
      (entityType : SaysText y e.entityType) (operation : SaysOperation z e.operation)
      (timestamp : SaysTime w e.timestamp) : Says (.array [x, y, z, w]) e

theorem asText?_eq_some_iff {x : Tree} {t : String} : x.asText? = some t ↔ SaysText x t := by
  cases x <;> simp [Tree.asText?, SaysText]

def asOperation? : Tree → Option Operation
  | .string ps => (textOf? ps).map .ofName
  | .object [(ps, .null)] => (textOf? ps).map .ofName
  | _ => none

theorem asOperation?_eq_some_iff {x : Tree} {o : Operation} :
    asOperation? x = some o ↔ SaysOperation x o := by
  constructor
  · intro h
    unfold asOperation? at h
    split at h
    · obtain ⟨t, ht, ho⟩ := Option.map_eq_some_iff.mp h
      exact .text ht (Operation.ofName_eq_iff.mp ho)
    · obtain ⟨t, ht, ho⟩ := Option.map_eq_some_iff.mp h
      exact .name ht (Operation.ofName_eq_iff.mp ho)
    · cases h
  · rintro (⟨ht, ho⟩ | ⟨ht, ho⟩)
    · simp [asOperation?, ht, Operation.ofName_eq_iff.mpr ho]
    · simp [asOperation?, ht, Operation.ofName_eq_iff.mpr ho]

theorem readOperation_of_text {s r : List Char} (h : skipBlank s = '"' :: r) :
    readOperation s = do let (t, r) ← readText s; return (.ofName t, r) := by
  unfold readOperation readText
  rw [h]
  rfl

/-- In an object the name is read, and nothing but the value null is let pass. -/
theorem readOperation_of_object {s u r : List Char} {o : Operation}
    (h : skipBlank s = '\x7b' :: u) : readOperation s = .ok (o, r) ↔ ∃ t v w y,
      readKey (skipBlank u) = some (t, v) ∧ afterColon v = some w ∧
        skipBlank w = ['n', 'u', 'l', 'l'] ++ y ∧ skipBlank y = '\x7d' :: r ∧ .ofName t = o := by
  unfold readOperation
  rw [h]
  simp only [bind_eq_ok_iff, orFault_eq_ok_iff, Prod.exists]
  refine exists_congr fun t ↦ exists_congr fun v ↦ ?_
  constructor
  · rintro ⟨hk, w, hc, h⟩
    split at h
    · rename_i z hz
      obtain ⟨y, hy, h⟩ := bind_eq_ok_iff.mp h
      split at h
      · rename_i r' hr
        injection h with h
        obtain ⟨rfl, rfl⟩ := Prod.mk.inj h
        rw [eq_of_afterWord (orFault_eq_ok_iff.mp hy)] at hz
        exact ⟨w, y, hk, hc, hz, hr, rfl⟩
      · cases h
    · cases h
  · rintro ⟨w, y, hk, hc, hw, hr, rfl⟩
    refine ⟨hk, w, hc, ?_⟩
    rw [hw]
    refine bind_eq_ok_iff.mpr ⟨y, rfl, ?_⟩
    rw [hr]
    rfl

theorem takes_operation : Takes Starts readOperation asOperation? where
  sound {s r o} h := by
    have hread := h
    unfold readOperation at h
    split at h
    · rename_i u hu
      rw [readOperation_of_text hu] at hread
      obtain ⟨⟨t, r'⟩, ht, hread⟩ := bind_eq_ok_iff.mp hread
      cases hread
      obtain ⟨x, hx, hxt⟩ := takes_text.sound ht
      obtain ⟨ps, rfl, hps⟩ := asText?_eq_some_iff.mp hxt
      exact ⟨.string ps, hx, by simp [asOperation?, hps]⟩
    · rename_i u hu
      obtain ⟨t, v, w, y, hk, hc, hw, hr, rfl⟩ := (readOperation_of_object hu).mp hread
      obtain ⟨b, hb, hv⟩ := afterColon_eq_some_iff.mp hc
      have hvalue : ValueText v .null y := ⟨b, w, hb, hv, starts_of_skipBlank hw .nullWord⟩
      obtain ⟨ps, hps, hmember⟩ := memberText_of_readKey hk hvalue
      have hend : MembersText false y [] r := membersText_close (ahead_eq_close_iff.mpr hr)
      have hfirst := ahead_eq_first_iff.mpr ⟨rfl, exists_head_of_readKey hk⟩
      exact ⟨.object [(ps, .null)], starts_object hu (membersText_item hfirst hmember hend),
        by simp [asOperation?, hps]⟩
    · cases h
  complete {s r x o} h hr ho := by
    rcases asOperation?_eq_some_iff.mp ho with ⟨ht, hcalled⟩ | ⟨ht, hcalled⟩
    · obtain ⟨u, hs, hu⟩ := h.skipBlank
      cases hu
      rw [readOperation_of_text hs, ← Operation.ofName_eq_iff.mpr hcalled]
      exact bind_eq_ok_iff.mpr ⟨_, takes_text.complete h hr ht, rfl⟩
    · obtain ⟨u, hs, hms⟩ := h.members
      obtain ⟨u', v, hahead, hmember, -, hrest, -⟩ := hms.cons
      obtain ⟨w, hkey, b, y, hb, rfl, hy⟩ := hmember.readKey ht
      obtain ⟨n, hy, hn⟩ := hy.skipBlank
      cases hn
      rw [← (ahead_eq_first_iff.mp hahead).1] at hkey
      exact (readOperation_of_object hs).mpr ⟨_, _, y, v, hkey,
        afterColon_eq_some_iff.mpr ⟨b, hb, rfl⟩, hy, ahead_eq_close_iff.mp hrest.nil,
        Operation.ofName_eq_iff.mpr hcalled⟩

def Draft.step (d : Draft) (name : String) : Tree → Option Draft :=
  if name = "entityId" then
    fillFrom d.entityId Tree.asText? fun t ↦ { d with entityId := some t }
  else if name = "entityType" then
    fillFrom d.entityType Tree.asText? fun t ↦ { d with entityType := some t }
  else if name = "operation" then
    fillFrom d.operation asOperation? fun o ↦ { d with operation := some o }
  else if name = "timestamp" then
    fillFrom d.timestamp Tree.asInt64? fun n ↦ { d with timestamp := some n }
  else fun _ ↦ some d

theorem takes_member (d : Draft) (name : String) :
    Takes ValueText (d.member name) (d.step name) := by
  unfold Draft.member Draft.step
  split_ifs
  · exact takes_text.fill _ _ _
  · exact takes_text.fill _ _ _
  · exact takes_operation.fill _ _ _
  · exact takes_int64.fill _ _ _
  · exact takes_ignore d

theorem foldMembers_eq_some_iff {ms : List (List Piece × Tree)} {d d' : Draft} :
    foldMembers Draft.step d ms = some d' ↔ (∀ m ∈ ms, (textOf? m.1).isSome) ∧
      Given Tree.asText? d.entityId (named "entityId" ms) d'.entityId ∧
      Given Tree.asText? d.entityType (named "entityType" ms) d'.entityType ∧
      Given asOperation? d.operation (named "operation" ms) d'.operation ∧
      Given Tree.asInt64? d.timestamp (named "timestamp" ms) d'.timestamp := by
  induction ms generalizing d with
  | nil =>
    obtain ⟨i, t, o, n⟩ := d
    obtain ⟨i', t', o', n'⟩ := d'
    simp [foldMembers, named, given_nil_iff]
  | cons m ms ih =>
    obtain ⟨ps, x⟩ := m
    cases hk : textOf? ps with
    | none => simp [foldMembers, hk]
    | some k =>
      have hname : ∀ name, named name ((ps, x) :: ms) =
          if k = name then x :: named name ms else named name ms := fun name ↦ named_cons hk
      simp only [foldMembers, hk, Option.bind_eq_bind, Option.bind_some, Option.bind_eq_some_iff,
        ih, hname, List.forall_mem_cons, Option.isSome_some, true_and]
      unfold Draft.step
      -- the field of that name takes the value if it is empty, and the others stay as they are
      by_cases hi : k = "entityId"
      · subst hi
        simp only [if_true, exists_fillFrom_iff, given_cons_iff, String.reduceEq, if_false]
        grind
      by_cases ht : k = "entityType"
      · subst ht
        simp only [if_true, exists_fillFrom_iff, given_cons_iff, String.reduceEq, if_false]
        grind
      by_cases ho : k = "operation"
      · subst ho
        simp only [if_true, exists_fillFrom_iff, given_cons_iff, String.reduceEq, if_false]
        grind
      by_cases hn : k = "timestamp"
      · subst hn
        simp only [if_true, exists_fillFrom_iff, given_cons_iff, String.reduceEq, if_false]
        grind
      simp [hi, ht, ho, hn]

def ofMembers (ms : List (List Piece × Tree)) : Option Event :=
  (foldMembers Draft.step .empty ms).bind fun d ↦ d.finish.toOption

theorem takes_object : Takes (MembersText true) readObject ofMembers :=
  (takes_readObject takes_member Draft.empty).finish Draft.finish

theorem finish_eq_some_iff {d : Draft} {e : Event} : d.finish.toOption = some e ↔
    d.entityId = some e.entityId ∧ d.entityType = some e.entityType ∧
      d.operation = some e.operation ∧ d.timestamp = some e.timestamp := by
  obtain ⟨i, t, o, n⟩ := d
  obtain ⟨i', t', o', n'⟩ := e
  cases i <;> cases t <;> cases o <;> cases n <;>
    simp [Draft.finish, require, Except.toOption, bind, Except.bind, pure, Except.pure]

theorem ofMembers_eq_some_iff {ms : List (List Piece × Tree)} {e : Event} :
    ofMembers ms = some e ↔ InMembers ms e := by
  simp only [ofMembers, Option.bind_eq_some_iff, foldMembers_eq_some_iff, finish_eq_some_iff]
  constructor
  · rintro ⟨⟨i, t, o, n⟩, ⟨hnames, hi, ht, ho, hn⟩, rfl, rfl, rfl, rfl⟩
    refine ⟨hnames, ?_, ?_, ?_, ?_⟩
    · simpa only [Once, ← asText?_eq_some_iff] using given_some_iff.mp hi
    · simpa only [Once, ← asText?_eq_some_iff] using given_some_iff.mp ht
    · simpa only [Once, ← asOperation?_eq_some_iff] using given_some_iff.mp ho
    · simpa only [Once, SaysTime, ← Tree.asInt64?_eq_some_iff] using given_some_iff.mp hn
  · rintro ⟨hnames, hi, ht, ho, hn⟩
    simp only [Once, SaysTime, ← asText?_eq_some_iff, ← asOperation?_eq_some_iff,
      ← Tree.asInt64?_eq_some_iff, ← given_some_iff] at hi ht ho hn
    exact ⟨⟨_, _, _, _⟩, ⟨hnames, hi, ht, ho, hn⟩, rfl, rfl, rfl, rfl⟩

variable {α β : Type}

def part (take : Tree → Option α) (next : α → List Tree → Option β) : List Tree → Option β :=
  element take fun a xs ↦ a.bind fun a ↦ next a xs

def orShort (i : Nat) (next : α → Reader β) : Option α → Reader β
  | some a => next a
  | none => fun _ ↦ .error (.mismatch (.wrongLength i "struct MutationEvent with 4 elements"))

theorem readPart_bind (i : Nat) (read : Reader α) (next : α → Reader β) (s : List Char) :
    (readPart i read s >>= fun p ↦ next p.1 p.2) =
      readElement read (i = 0) s >>= fun p ↦ orShort i next p.1 p.2 := by
  unfold readPart
  cases readElement read (i = 0) s with
  | error f => rfl
  | ok p =>
    obtain ⟨a, r⟩ := p
    cases a <;> rfl

theorem takes_part {read : Reader α} {take : Tree → Option α} {next : α → Reader β}
    {takeNext : α → List Tree → Option β} {first : Bool} (i : Nat) (hi : decide (i = 0) = first)
    (h : Takes Starts read take) (hnext : ∀ a, Takes (ItemsText false) (next a) (takeNext a)) :
    Takes (ItemsText first) (fun s ↦ readPart i read s >>= fun p ↦ next p.1 p.2)
      (part take takeNext) := by
  have hgo : ∀ a, Takes (ItemsText false) (orShort i next a) fun xs ↦
      a.bind fun a ↦ takeNext a xs := by
    intro a
    cases a with
    | some a => exact hnext a
    | none => exact ⟨fun h ↦ (by cases h), fun _ _ h ↦ (by cases h)⟩
  simp only [readPart_bind, hi]
  exact takes_element first h hgo

def ofElements : List Tree → Option Event :=
  part Tree.asText? fun i ↦ part Tree.asText? fun t ↦ part asOperation? fun o ↦
    part Tree.asInt64? fun n ↦ noElement ⟨i, t, o, n⟩

theorem takes_array : Takes (ItemsText true) readArray ofElements :=
  takes_part 0 rfl takes_text fun i ↦ takes_part 1 rfl takes_text fun t ↦
    takes_part 2 rfl takes_operation fun o ↦ takes_part 3 rfl takes_int64 fun n ↦
      takes_endArray (⟨i, t, o, n⟩ : Event)

theorem part_eq_some_iff {take : Tree → Option α} {next : α → List Tree → Option β} {xs : List Tree}
    {b : β} : part take next xs = some b ↔
      ∃ x ys a, xs = x :: ys ∧ take x = some a ∧ next a ys = some b := by
  cases xs with
  | nil => simp [part, element]
  | cons x ys => simp [part, element, Option.bind_eq_some_iff]

theorem ofElements_eq_some_iff {xs : List Tree} {e : Event} :
    ofElements xs = some e ↔ Says (.array xs) e := by
  simp only [ofElements, part_eq_some_iff, noElement_eq_some_iff]
  constructor
  · rintro ⟨x, _, i, rfl, hi, y, _, t, rfl, ht, z, _, o, rfl, ho, w, _, n, rfl, hn, rfl, rfl⟩
    exact .array (asText?_eq_some_iff.mp hi) (asText?_eq_some_iff.mp ht)
      (asOperation?_eq_some_iff.mp ho) (Tree.asInt64?_eq_some_iff.mp hn)
  · intro h
    cases h with
    | array hi ht ho hn =>
      exact ⟨_, _, _, rfl, asText?_eq_some_iff.mpr hi, _, _, _, rfl, asText?_eq_some_iff.mpr ht,
        _, _, _, rfl, asOperation?_eq_some_iff.mpr ho, _, _, _, rfl,
        Tree.asInt64?_eq_some_iff.mpr hn, rfl, rfl⟩

variable {s : String} {e : Event}

theorem ofPayload_eq_ok_iff : ofPayload s = .ok e ↔ ∃ x, IsText s.toList x ∧ Says x e := by
  rw [ofPayload, readRecord_eq_ok_iff takes_object takes_array]
  refine exists_congr fun x ↦ and_congr_right fun _ ↦ ?_
  constructor
  · rintro (⟨ms, rfl, h⟩ | ⟨xs, rfl, h⟩)
    · exact .object (ofMembers_eq_some_iff.mp h)
    · exact ofElements_eq_some_iff.mp h
  · intro h
    cases h with
    | object h => exact .inl ⟨_, rfl, ofMembers_eq_some_iff.mpr h⟩
    | array hi ht ho hn =>
      exact .inr ⟨_, rfl, ofElements_eq_some_iff.mpr (.array hi ht ho hn)⟩

theorem exists_fault {x : Tree} (hx : IsText s.toList x) (h : ∀ e, ¬Says x e) :
    ∃ f, ofPayload s = .error f := by
  cases hs : ofPayload s with
  | error f => exact ⟨f, rfl⟩
  | ok e =>
    obtain ⟨x', hx', he⟩ := ofPayload_eq_ok_iff.mp hs
    exact absurd (hx'.unique hx ▸ he) (h e)

def fieldNames : List String := ["entityId", "entityType", "operation", "timestamp"]

theorem InMembers.length_named {ms : List (List Piece × Tree)} (h : InMembers ms e) :
    ∀ name ∈ fieldNames, (named name ms).length = 1 := by
  have once : ∀ {α : Type} {means : Tree → α → Prop} {name : String} {a : α},
      Once means name ms a → (named name ms).length = 1 := by
    rintro _ _ _ _ ⟨x, hx, -⟩
    rw [hx]
    rfl
  simp only [fieldNames, List.forall_mem_cons]
  exact ⟨once h.entityId, once h.entityType, once h.operation, once h.timestamp, by simp⟩

/-- A text is read as an event exactly if it is an object in which each of the four members stands
once and says its part of the event, wherever they stand and whatever other members are there, or an
array of the four values. So one of them missing or given twice is refused, and so is a shorter or
longer array. -/
theorem layouts (s : String) :
    (∀ e, ofPayload s = .ok e ↔ ∃ x, IsText s.toList x ∧ Says x e) ∧
    (∀ ms, IsText s.toList (.object ms) → ∀ name ∈ fieldNames, (named name ms).length ≠ 1 →
      ∃ f, ofPayload s = .error f) ∧
    ∀ xs, IsText s.toList (.array xs) → xs.length ≠ 4 → ∃ f, ofPayload s = .error f := by
  refine ⟨fun e ↦ ofPayload_eq_ok_iff, fun ms hms name hname hlen ↦ ?_, fun xs hxs hlen ↦ ?_⟩
  · refine exists_fault hms fun e he ↦ ?_
    cases he with
    | object h => exact hlen (h.length_named name hname)
  · refine exists_fault hxs fun e he ↦ ?_
    cases he with
    | array => exact hlen rfl

def word (t : String) : List Piece := t.toList.map .char

def reorderedText : String :=
  "\x7b\"more\":[\x7b\"entityId\":1\x7d], \"timestamp\":5,\"entityI\\u0064\":\"a\",\n" ++
    "\"operation\" : \"renamed\",\"more\":null,\"entityType\":\"b\"\x7d "

def reordered : List (List Piece × Tree) :=
  [(word "more", .array [.object [(word "entityId", .number ⟨false, ['1'], none, none⟩)]]),
    (word "timestamp", .number ⟨false, ['5'], none, none⟩),
    (word "entityI" ++ [.unit 0x64], .string (word "a")),
    (word "operation", .string (word "renamed")), (word "more", .null),
    (word "entityType", .string (word "b"))]

def twiceText : String := "\x7b\"entityId\":\"a\",\"entityI\\u0064\":\"a\"\x7d"

def twice : List (List Piece × Tree) :=
  [(word "entityId", .string (word "a")), (word "entityI" ++ [.unit 0x64], .string (word "a"))]

def shortText : String := "[\"a\",\"b\",\"created\"]"

def short : List Tree := [.string (word "a"), .string (word "b"), .string (word "created")]

theorem isText_reordered : IsText reorderedText.toList (.object reordered) := by
  have h : lexValue 10 reorderedText.toList = some (.object reordered, [' ']) := by cbv
  exact ⟨[' '], by simp [IsBlanks, isBlank], starts_of_lexValue h⟩

theorem inMembers_reordered : InMembers reordered ⟨"a", "b", .unknown, 5⟩ where
  names := by decide +kernel
  entityId := ⟨_, rfl, _, rfl, rfl⟩
  entityType := ⟨_, rfl, _, rfl, rfl⟩
  operation := ⟨_, rfl, .text (t := "renamed") rfl (by simp [Operation.IsCalled, Operation.name])⟩
  timestamp := ⟨_, rfl, _, rfl, rfl, rfl, rfl, rfl, by decide⟩

/-- Blanks, escapes, another order and two more members change nothing about the event; a member
given twice does, also with another spelling, and so does an element that is missing. -/
theorem layouts_reordered : ofPayload reorderedText = .ok ⟨"a", "b", .unknown, 5⟩ ∧
    (∃ f, ofPayload twiceText = .error f) ∧ ∃ f, ofPayload shortText = .error f := by
  have htwice : lexValue 10 twiceText.toList = some (.object twice, []) := by cbv
  have hshort : lexValue 10 shortText.toList = some (.array short, []) := by cbv
  have hb : IsBlanks [] := by simp [IsBlanks]
  refine ⟨?_, ?_, ?_⟩
  · exact ((layouts _).1 _).mpr ⟨_, isText_reordered, .object inMembers_reordered⟩
  · exact (layouts _).2.1 _ ⟨[], hb, starts_of_lexValue htwice⟩ "entityId" (by decide)
      (by decide +kernel)
  · exact (layouts _).2.2 _ ⟨[], hb, starts_of_lexValue hshort⟩ (by decide)

end Event

end ChangeRelay
