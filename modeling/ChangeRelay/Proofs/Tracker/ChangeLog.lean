import ChangeRelay.Proofs.Event.Kind
import ChangeRelay.Proofs.Json.Shape
import ChangeRelay.Tracker.Change

namespace ChangeRelay.Tracker

open Json

namespace Change

def Field.names : Field → List String
  | kind => ["type", "Type", "operation"]
  | entityId => ["issue_id", "IssueID", "entity_id", "id"]
  | entityType => ["entity_type", "EntityType"]
  | timestamp => ["timestamp", "Timestamp"]

theorem Field.ofName?_eq_some_iff {name : String} {f : Field} :
    ofName? name = some f ↔ name ∈ f.names := by
  cases f <;> simp only [ofName?, names] <;> grind

def values (f : Field) (ms : List (String × Json)) : List Json :=
  (ms.filter fun m ↦ f.names.contains m.1).map Prod.snd

theorem values_cons_of_some {f : Field} {m : String × Json} {ms : List (String × Json)}
    (h : Field.ofName? m.1 = some f) (g : Field) :
    values g (m :: ms) = if g = f then m.2 :: values g ms else values g ms := by
  have hg : m.1 ∈ g.names ↔ g = f := by
    rw [← Field.ofName?_eq_some_iff, h, Option.some.injEq, eq_comm]
  by_cases he : g = f
  · subst he
    simp [values, hg]
  · simp [values, hg, he]

theorem values_cons_of_none {m : String × Json} {ms : List (String × Json)}
    (h : Field.ofName? m.1 = none) (g : Field) : values g (m :: ms) = values g ms := by
  have hg : m.1 ∉ g.names := by
    rw [← Field.ofName?_eq_some_iff, h]
    exact Option.some_ne_none g ∘ Eq.symm
  simp [values, hg]

/-- How the values given to a field, read by `read`, change what the field holds: not at all if
there are none; and an empty field takes the only one. -/
inductive Fills {α : Type} (read : Json → Except Mismatch α) (old : Option α) :
    List Json → Option α → Prop
  | keep : Fills read old [] old
  | fill {v : Json} {a : α} (empty : old = none) (value : read v = .ok a) :
    Fills read old [v] (some a)

theorem fills_nil_iff {α : Type} {read : Json → Except Mismatch α} {old new : Option α} :
    Fills read old [] new ↔ old = new :=
  ⟨fun h ↦ by cases h; rfl, fun h ↦ h ▸ .keep⟩

theorem fills_cons_iff {α : Type} {read : Json → Except Mismatch α} {old new : Option α} {v : Json}
    {vs : List Json} :
    Fills read old (v :: vs) new ↔
      old = none ∧ ∃ a, read v = .ok a ∧ Fills read (some a) vs new := by
  constructor
  · rintro ⟨⟩
    exact ⟨‹_›, _, ‹_›, .keep⟩
  · rintro ⟨ho, a, hv, h⟩
    cases h with
    | keep => exact .fill ho hv
    | fill he _ => cases he

theorem foldlM_member_eq_ok_iff {ms : List (String × Json)} {d d' : Draft} :
    ms.foldlM Draft.member d = .ok d' ↔
      Fills asText d.kind (values .kind ms) d'.kind ∧
      Fills asText d.entityId (values .entityId ms) d'.entityId ∧
      Fills asTextOrNull d.entityType (values .entityType ms) d'.entityType ∧
      Fills asTimestamp d.timestamp (values .timestamp ms) d'.timestamp := by
  induction ms generalizing d with
  | nil =>
    obtain ⟨k, i, t, n⟩ := d
    obtain ⟨k', i', t', n'⟩ := d'
    simp [values, fills_nil_iff, pure, Except.pure]
  | cons m ms ih =>
    rw [List.foldlM_cons, bind_eq_ok_iff]
    simp only [ih]
    unfold Draft.member
    cases hf : Field.ofName? m.1 with
    | none => simp [values_cons_of_none hf]
    | some f =>
      -- `f` takes the value if it is empty, and the other fields stay as they are
      simp only [values_cons_of_some hf]
      cases f <;> simp [fills_cons_iff, store_eq_ok_iff] <;> grind

theorem fills_none_iff {α : Type} {read : Json → Except Mismatch α} {vs : List Json}
    {new : Option α} :
    Fills read none vs new ↔
      vs = [] ∧ new = none ∨ ∃ v a, vs = [v] ∧ read v = .ok a ∧ new = some a := by
  constructor
  · rintro (_ | ⟨_, hv⟩)
    · exact .inl ⟨rfl, rfl⟩
    · exact .inr ⟨_, _, rfl, hv, rfl⟩
  · rintro (⟨rfl, rfl⟩ | ⟨v, a, rfl, hv, rfl⟩)
    · exact .keep
    · exact .fill rfl hv

theorem fills_one_iff {α : Type} {read : Json → Except Mismatch α} {v : Json} {new : Option α} :
    Fills read none [v] new ↔ ∃ a, read v = .ok a ∧ new = some a := by
  simp [fills_none_iff]

end Change

inductive Kind : List Json → String → Prop
  | absent : Kind [] ""
  | given (s : String) : Kind [.str s] s

inductive EntityType : List Json → String → Prop
  | absent : EntityType [] "issue"
  | null : EntityType [.null] "issue"
  | empty : EntityType [.str ""] "issue"
  | given (s : String) (h : s ≠ "") : EntityType [.str s] s

/-- A moment in milliseconds from the Unix epoch: as a number of 64 bits, or as the text of an
instant, of which the part below a millisecond is cut off towards the past. -/
inductive Moment : Json → Int → Prop
  | millis (n : Int) (least : -9223372036854775808 ≤ n) (greatest : n ≤ 9223372036854775807) :
    Moment (.int n) n
  | text {s : String} {i : Time.Instant} (h : Time.Instant.ofText? s = some i) :
    Moment (.str s) (i.nanoseconds / 1_000_000)

theorem asTimestamp_eq_ok_iff {v : Json} {n : Int} :
    Change.asTimestamp v = .ok n ↔ Moment v n := by
  constructor
  · intro h
    unfold Change.asTimestamp at h
    split at h
    · split at h
      · rename_i hm
        cases h
        exact .millis _ (isInt64_iff.mp hm).1 (isInt64_iff.mp hm).2
      · cases h
    · split at h
      · rename_i hi
        cases h
        exact .text hi
      · cases h
    · cases h
  · rintro (⟨_, hl, hg⟩ | ⟨hi⟩)
    · simp [Change.asTimestamp, isInt64_iff.mpr ⟨hl, hg⟩]
    · simp [Change.asTimestamp, hi, Time.Instant.millis]

/-- The records of a change log, and the events they stand for: an object that gives a value to each
field under one of its names at the most, or the array of the four fields in order. -/
inductive Record : Json → Event → Prop
  | named {ms : List (String × Json)} {kind id type : String} {o : Operation} {time : Json}
      {n : Int} (hk : Kind (Change.values .kind ms) kind)
      (hi : Change.values .entityId ms = [.str id])
      (ht : EntityType (Change.values .entityType ms) type)
      (hn : Change.values .timestamp ms = [time]) (hm : Moment time n) (ho : o.Means kind) :
      Record (.obj ms) ⟨id, type, o, n⟩
  | listed {kind id type : String} {o : Operation} {typeName time : Json} {n : Int}
      (ht : EntityType [typeName] type) (hm : Moment time n) (ho : o.Means kind) :
      Record (.arr [.str kind, .str id, typeName, time]) ⟨id, type, o, n⟩

theorem kind_iff {vs : List Json} {kind : String} :
    Kind vs kind ↔ ∃ o, Change.Fills asText none vs o ∧ o.getD "" = kind := by
  simp only [Change.fills_none_iff, asText_eq_ok_iff]
  constructor
  · rintro (_ | _)
    · exact ⟨none, .inl ⟨rfl, rfl⟩, rfl⟩
    · exact ⟨some kind, .inr ⟨_, _, rfl, rfl, rfl⟩, rfl⟩
  · rintro ⟨_, ⟨rfl, rfl⟩ | ⟨_, s, rfl, rfl, rfl⟩, rfl⟩
    · exact .absent
    · exact .given s

theorem entityType_iff {vs : List Json} {type : String} :
    EntityType vs type ↔ ∃ o, Change.Fills asTextOrNull none vs o ∧
      (if (o.getD none).getD "" = "" then "issue" else (o.getD none).getD "") = type := by
  simp only [Change.fills_none_iff, asTextOrNull_eq_ok_iff]
  constructor
  · rintro (_ | _ | _ | ⟨_, hs⟩)
    · exact ⟨none, .inl ⟨rfl, rfl⟩, rfl⟩
    · exact ⟨some none, .inr ⟨_, _, rfl, .inl ⟨rfl, rfl⟩, rfl⟩, rfl⟩
    · exact ⟨some (some ""), .inr ⟨_, _, rfl, .inr ⟨_, rfl, rfl⟩, rfl⟩, rfl⟩
    · exact ⟨some (some type), .inr ⟨_, _, rfl, .inr ⟨_, rfl, rfl⟩, rfl⟩, if_neg hs⟩
  · rintro ⟨_, ⟨rfl, rfl⟩ | ⟨_, _, rfl, ⟨rfl, rfl⟩ | ⟨s, rfl, rfl⟩, rfl⟩, rfl⟩
    · exact .absent
    · exact .null
    · by_cases hs : s = ""
      · subst hs
        exact .empty
      · simp only [Option.getD_some, hs, if_false]
        exact .given s hs

theorem ofMembers_eq_ok_iff {ms : List (String × Json)} {c : Change} :
    Change.ofMembers ms = .ok c ↔
      (∃ k, Change.Fills asText none (Change.values .kind ms) k ∧ k.getD "" = c.kind) ∧
      Change.values .entityId ms = [.str c.entityId] ∧
      (∃ t, Change.Fills asTextOrNull none (Change.values .entityType ms) t ∧
        t.getD none = c.entityType) ∧
      ∃ v, Change.values .timestamp ms = [v] ∧ Moment v c.timestamp := by
  simp only [Change.ofMembers, bind_eq_ok_iff, needed_eq_ok_iff, Change.foldlM_member_eq_ok_iff,
    Change.Draft.empty]
  constructor
  · rintro ⟨⟨k, i, t, n⟩, ⟨hk, hi, ht, hn⟩, id, rfl, time, rfl, h⟩
    cases h
    simp only [Change.fills_none_iff, asText_eq_ok_iff, asTimestamp_eq_ok_iff] at hi hn
    refine ⟨⟨k, hk, rfl⟩, ?_, ⟨t, ht, rfl⟩, ?_⟩
    · simpa using hi
    · simpa using hn
  · obtain ⟨kind, id, type, n⟩ := c
    rintro ⟨⟨k, hk, rfl⟩, hi, ⟨t, ht, rfl⟩, v, hv, hn⟩
    refine ⟨⟨k, some id, t, some n⟩, ⟨hk, ?_, ht, ?_⟩, id, rfl, n, rfl, rfl⟩
    · rw [hi]
      exact .fill rfl rfl
    · rw [hv]
      exact .fill rfl (asTimestamp_eq_ok_iff.mpr hn)

theorem record_obj_iff {ms : List (String × Json)} {e : Event} :
    Record (.obj ms) e ↔ ∃ c, Change.ofMembers ms = .ok c ∧ c.event = e := by
  simp only [ofMembers_eq_ok_iff]
  constructor
  · rintro ⟨hk, hi, ht, hn, hm, ho⟩
    obtain ⟨t, hf, rfl⟩ := entityType_iff.mp ht
    refine ⟨⟨_, _, t.getD none, _⟩, ⟨kind_iff.mp hk, hi, ⟨t, hf, rfl⟩, _, hn, hm⟩, ?_⟩
    rw [Change.event, Operation.ofKind_eq_iff.mpr ho]
  · rintro ⟨c, ⟨hk, hi, ⟨t, ht, hc⟩, v, hn, hm⟩, rfl⟩
    refine .named (kind_iff.mpr hk) hi (entityType_iff.mpr ⟨t, ht, ?_⟩) hn hm
      (Operation.ofKind_eq_iff.mp rfl)
    rw [hc]

theorem ofItems_cons {a b w v : Json} {r : List Json} {c : Change} :
    Change.ofItems (a :: b :: w :: v :: r) = .ok c ↔
      a = .str c.kind ∧ b = .str c.entityId ∧ asTextOrNull w = .ok c.entityType ∧
      Moment v c.timestamp ∧ r = [] := by
  have h : Change.ofItems (a :: b :: w :: v :: r) = (asText a).map some >>= fun kind ↦
      asText b >>= fun id ↦ asTextOrNull w >>= fun type ↦ Change.asTimestamp v >>= fun n ↦
      atMost 4 (a :: b :: w :: v :: r) >>= fun _ ↦ .ok ⟨kind.getD "", id, type, n⟩ := rfl
  simp only [h, bind_eq_ok_iff, map_eq_ok_iff, asText_eq_ok_iff, asTimestamp_eq_ok_iff,
    atMost_eq_ok_iff]
  constructor
  · rintro ⟨_, ⟨kind, rfl, rfl⟩, id, rfl, type, ht, n, hn, _, hl, ⟨⟩⟩
    rw [List.length_cons, List.length_cons, List.length_cons, List.length_cons] at hl
    exact ⟨rfl, rfl, ht, hn, List.length_eq_zero_iff.mp (by omega)⟩
  · rintro ⟨rfl, rfl, ht, hn, rfl⟩
    exact ⟨_, ⟨_, rfl, rfl⟩, _, rfl, _, ht, _, hn, (), Nat.le_refl 4, rfl⟩

theorem length_of_ofItems {xs : List Json} {c : Change} (h : Change.ofItems xs = .ok c) :
    4 ≤ xs.length := by
  match xs with
  | [] => cases h
  | [_] | [_, _] | [_, _, _] =>
    simp [Change.ofItems, bind_eq_ok_iff, throw, throwThe, MonadExceptOf.throw] at h
  | _ :: _ :: _ :: _ :: _ => simp

theorem record_arr_iff {xs : List Json} {e : Event} :
    Record (.arr xs) e ↔ ∃ c, Change.ofItems xs = .ok c ∧ c.event = e := by
  constructor
  · rintro (_ | ⟨ht, hm, ho⟩)
    obtain ⟨o, hf, rfl⟩ := entityType_iff.mp ht
    obtain ⟨t, hw, rfl⟩ := Change.fills_one_iff.mp hf
    refine ⟨⟨_, _, t, _⟩, ofItems_cons.mpr ⟨rfl, rfl, hw, hm, rfl⟩, ?_⟩
    rw [Change.event, Operation.ofKind_eq_iff.mpr ho]
    rfl
  · rintro ⟨c, hc, rfl⟩
    match xs, length_of_ofItems hc with
    | _ :: _ :: w :: _ :: _, _ =>
      obtain ⟨rfl, rfl, hw, hm, rfl⟩ := ofItems_cons.mp hc
      have hf : Change.Fills asTextOrNull none [w] (some c.entityType) := .fill rfl hw
      exact .listed (entityType_iff.mpr ⟨_, hf, rfl⟩) hm (Operation.ofKind_eq_iff.mp rfl)

theorem record_iff {v : Json} {e : Event} :
    Record v e ↔ ∃ c, Change.ofJson v = .ok c ∧ c.event = e := by
  cases v with
  | obj ms => exact record_obj_iff
  | arr xs => exact record_arr_iff
  | _ =>
    constructor
    · rintro ⟨⟩
    · rintro ⟨_, ⟨⟩, _⟩

inductive Batch : Json → List Json → Prop
  | null : Batch .null []
  | bare (rs : List Json) : Batch (.arr rs) rs
  | wrappedNull {ms : List (String × Json)} (h : ms.lookup "events" = some .null) :
    Batch (.obj ms) []
  | wrapped {ms : List (String × Json)} {rs : List Json} (h : ms.lookup "events" = some (.arr rs)) :
    Batch (.obj ms) rs

theorem records_eq_ok_iff {v : Json} {rs : List Json} : records v = .ok rs ↔ Batch v rs := by
  cases v with
  | null =>
    constructor
    · rintro ⟨⟩
      exact .null
    · rintro ⟨⟩
      rfl
  | arr xs =>
    constructor
    · rintro ⟨⟩
      exact .bare _
    · rintro ⟨⟩
      rfl
  | obj ms =>
    simp only [records]
    cases hl : ms.lookup "events" with
    | none =>
      constructor
      · rintro ⟨⟩
      · rintro (_ | _ | h | h) <;> cases hl.symm.trans h
    | some w =>
      constructor
      · intro h
        cases w <;> cases h
        · exact .wrappedNull hl
        · exact .wrapped hl
      · rintro (_ | _ | h | h) <;> cases hl.symm.trans h <;> rfl
  | _ =>
    constructor
    · rintro ⟨⟩
    · rintro ⟨⟩

theorem events_eq_ok_iff {v : Json} {es : List Event} :
    events v = .ok es ↔ ∃ rs, Batch v rs ∧ List.Forall₂ Record rs es := by
  have hr : ∀ {rs cs}, List.Forall₂ (fun r c ↦ Change.ofJson r = .ok c) rs cs →
      List.Forall₂ Record rs (cs.map Change.event) := by
    intro rs cs h
    rw [List.forall₂_map_right_iff]
    exact h.imp fun r c hc ↦ record_iff.mpr ⟨c, hc, rfl⟩
  simp only [events, bind_eq_ok_iff, mapM_eq_ok_iff, records_eq_ok_iff]
  constructor
  · rintro ⟨rs, hb, cs, hc, ⟨⟩⟩
    exact ⟨rs, hb, hr hc⟩
  · rintro ⟨rs, hb, h⟩
    have hc : ∃ cs, List.Forall₂ (fun r c ↦ Change.ofJson r = .ok c) rs cs ∧
        cs.map Change.event = es := by
      clear hb
      induction h with
      | nil => exact ⟨[], .nil, rfl⟩
      | cons hre _ ih =>
        obtain ⟨c, hc, rfl⟩ := record_iff.mp hre
        obtain ⟨cs, hcs, rfl⟩ := ih
        exact ⟨c :: cs, .cons hc hcs, rfl⟩
    obtain ⟨cs, hc, rfl⟩ := hc
    exact ⟨rs, hb, cs, hc, rfl⟩

theorem Record.unique {r : Json} {e e' : Event} (h : Record r e) (h' : Record r e') : e = e' := by
  obtain ⟨c, hc, rfl⟩ := record_iff.mp h
  obtain ⟨c', hc', rfl⟩ := record_iff.mp h'
  cases hc.symm.trans hc'
  rfl

theorem Batch.unique {v : Json} {rs rs' : List Json} (h : Batch v rs) (h' : Batch v rs') :
    rs = rs' :=
  Except.ok.inj ((records_eq_ok_iff.mpr h).symm.trans (records_eq_ok_iff.mpr h'))

/-- Exactly the batches of records are translated, record by record and in their order; a value that
is no batch, or a batch with a bad record anywhere, is refused as a whole. -/
theorem events_translated (v : Json) :
    (∀ es, events v = .ok es ↔ ∃ rs, Batch v rs ∧ List.Forall₂ Record rs es) ∧
    ((∃ es, events v = .ok es) ↔ ∃ rs, Batch v rs ∧ ∀ r ∈ rs, ∃ e, Record r e) ∧
    (∀ rs es, Batch v rs → events v = .ok es → es.length = rs.length ∧
      ∀ (i : Nat) (hr : i < rs.length) (he : i < es.length) (e : Event),
        Record rs[i] e ↔ e = es[i]) ∧
    ∀ rs, Batch v rs → ∀ r ∈ rs, (∀ e, ¬Record r e) → ∃ m, events v = .error m := by
  have hiff : (∃ es, events v = .ok es) ↔ ∃ rs, Batch v rs ∧ ∀ r ∈ rs, ∃ e, Record r e := by
    simp only [events_eq_ok_iff, ← exists_forall₂_iff]
    constructor
    · rintro ⟨es, rs, hb, h⟩
      exact ⟨rs, hb, es, h⟩
    · rintro ⟨rs, hb, es, h⟩
      exact ⟨es, rs, hb, h⟩
  refine ⟨fun es ↦ events_eq_ok_iff, hiff, ?_, ?_⟩
  · intro rs es hb h
    obtain ⟨rs', hb', hf⟩ := events_eq_ok_iff.mp h
    rw [hb'.unique hb] at hf
    refine ⟨hf.length_eq.symm, fun i hr he e ↦ ?_⟩
    have hi : Record rs[i] es[i] := hf.get hr he
    exact ⟨fun h ↦ h.unique hi, fun h ↦ h ▸ hi⟩
  · intro rs hb r hr hbad
    cases h : events v with
    | error m => exact ⟨m, rfl⟩
    | ok es =>
      obtain ⟨rs', hb', hall⟩ := hiff.mp ⟨es, h⟩
      rw [hb'.unique hb] at hall
      obtain ⟨e, he⟩ := hall r hr
      exact absurd he (hbad e)

theorem events_translated_wrapped :
    let deletion := obj [("EntityType", null), ("Timestamp", str "2026-01-15T02:00:00.25-08:00"),
      ("colour", bool true), ("id", str "bd-7"), ("operation", str " DELETE ")]
    let listed := arr [str "commented", str "bd-8", str "epic", int (-1)]
    events (obj [("events", arr [deletion, listed])]) =
        .ok [⟨"bd-7", "issue", .deleted, 1768471200250⟩, ⟨"bd-8", "epic", .unknown, -1⟩] ∧
      ∃ m, events (arr [deletion, obj [("id", str "bd-9")], listed]) = .error m := by
  have hn : Moment (str "2026-01-15T02:00:00.25-08:00") 1768471200250 :=
    .text (i := ⟨1768471200250000000⟩) (by decide +kernel)
  have hd : Operation.deleted.Means " DELETE " := Operation.ofKind_eq_iff.mp (by decide +kernel)
  have hu : Operation.unknown.Means "commented" := Operation.ofKind_eq_iff.mp (by decide +kernel)
  refine ⟨((events_translated _).1 _).mpr ⟨_, .wrapped rfl, .cons ?_ (.cons ?_ .nil)⟩,
    (events_translated _).2.2.2 _ (.bare _) (obj [("id", str "bd-9")]) (by simp) ?_⟩
  · exact .named (.given _) rfl .null rfl hn hd
  · exact .listed (.given "epic" (by decide)) (.millis (-1) (by decide) (by decide)) hu
  · rintro e (⟨_, _, _, hm⟩ | _)
    cases hm

end ChangeRelay.Tracker
