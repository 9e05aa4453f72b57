import ChangeRelay.Proofs.Json.RoundTrip
import ChangeRelay.Proofs.Text.Utf8
import ChangeRelay.Tracker.Reply

namespace ChangeRelay

namespace Json

def parseWithin? (room : Nat) (s : String) : Option Json :=
  match readValue (fuelFor s.toList) room s.toList with
  | some (v, r) => if skipBlank r = [] then some v else none
  | none => none

theorem Plain.mono {room room' : Nat} {v : Json} (h : Plain room v) (hle : room ≤ room') :
    Plain room' v := by
  induction h generalizing room' with
  | null => exact .null
  | bool b => exact .bool b
  | int hn => exact .int hn
  | str s => exact .str s
  | arr _ ih =>
    obtain ⟨n, rfl⟩ := Nat.exists_eq_add_one_of_ne_zero (n := room') (by omega)
    exact .arr fun v hv ↦ ih v hv (by omega)
  | obj ascending _ ih =>
    obtain ⟨n, rfl⟩ := Nat.exists_eq_add_one_of_ne_zero (n := room') (by omega)
    exact .obj ascending fun m hm ↦ ih m hm (by omega)

theorem parseWithin?_writeObj {room : Nat} {ms : List (String × Json)}
    (h : ∀ m ∈ ms, Plain room m.2) :
    parseWithin? (room + 1) (String.ofList (write (.obj ms))) = some (ofMembers ms) := by
  have hf : 2 * (write (.obj ms)).length ≤ fuelFor (write (.obj ms)) := by
    unfold fuelFor
    omega
  have hread : readValue (fuelFor (write (.obj ms))) (room + 1) (write (.obj ms) ++ []) = _ :=
    readValue_writeObj (fun m hm ↦ (h m hm).readsBack) hf
  rw [List.append_nil] at hread
  rw [parseWithin?, String.toList_ofList, hread]
  rfl

end Json

namespace Text.Utf8

theorem mem_encode_iff {a : UInt8} {cs : List Char} (ha : a.toNat < 0x80) :
    a ∈ encode cs ↔ ∃ c ∈ cs, c.toNat = a.toNat := by
  rw [encode, List.mem_flatMap]
  exact exists_congr fun c ↦ and_congr_right fun _ ↦ mem_utf8EncodeChar_iff ha

end Text.Utf8

namespace Tracker

open Json

namespace Reply

theorem firstLine_append {body : List UInt8} (h : newline ∉ body) (rest : List UInt8) :
    firstLine (body ++ newline :: rest) = body ++ [newline] := by
  have hbody : ∀ a ∈ body, decide (a ≠ newline) = true := by
    intro a ha
    exact decide_eq_true fun he ↦ h (he ▸ ha)
  rw [firstLine, List.takeWhile_append_of_pos hbody, List.dropWhile_append_of_pos hbody]
  simp

end Reply

namespace Request

variable {r : Request} {room : Nat}

/-- The value that a reader of a request finds in it: an object of the members given and of no
others. -/
structure IsRead (r : Request) (v : Json) : Prop where
  operation : v.get? "operation" = some (.str r.operation)
  args : v.get? "args" = some r.args
  database : v.get? "expected_db" = r.database.map .str
  only : ∀ k, (v.get? k).isSome → k = "operation" ∨ k = "args" ∨ k = "expected_db"

/-- The octets of a request are one line. Its text is read as the request by any reader that goes
one level deeper than its arguments; what comes after the line has no part in it. -/
structure Framed (room : Nat) (r : Request) : Prop where
  line : ∃ body, r.octets = body ++ [Reply.newline] ∧ Reply.newline ∉ body ∧
    ∃ text v, Text.Utf8.decode body = .ok text ∧ r.IsRead v ∧
      ∀ levels, room < levels → parseWithin? levels (String.ofList text) = some v
  apart : ∀ (room' : Nat) (r' : Request) (rest rest' : List UInt8), Plain room' r'.args →
    r.octets ++ rest = r'.octets ++ rest' → r = r' ∧ rest = rest'

theorem IsRead.unique {r' : Request} {v : Json} (h : r.IsRead v) (h' : r'.IsRead v) : r = r' := by
  have ho := h.operation.symm.trans h'.operation
  have ha := h.args.symm.trans h'.args
  have hd := h.database.symm.trans h'.database
  obtain ⟨o, a, d⟩ := r
  obtain ⟨o', a', d'⟩ := r'
  simp only [Option.some.injEq, Json.str.injEq] at ho ha
  cases d <;> cases d' <;> simp_all

theorem ofMembers_members (r : Request) : ofMembers r.members =
    .obj (("args", r.args) :: ((r.database.map fun d ↦ ("expected_db", .str d)).toList ++
      [("operation", .str r.operation)])) := by
  have ha : "args" < "operation" := by decide
  have hd : ¬"expected_db" < "args" := by decide
  have ho : "expected_db" < "operation" := by decide
  obtain ⟨o, a, d⟩ := r
  cases d <;> simp [ofMembers, members, Json.insert, ha, hd, ho]

theorem isRead_members (r : Request) : r.IsRead (ofMembers r.members) := by
  have only : ∀ {ms : List (String × Json)} {k : String}, ((Json.obj ms).get? k).isSome →
      k ∈ ms.map Prod.fst := by
    intro ms k h
    obtain ⟨m, hm, he⟩ := List.lookup_isSome_iff.mp h
    exact List.mem_map.mpr ⟨m, hm, (eq_of_beq he).symm⟩
  rw [ofMembers_members]
  obtain ⟨o, a, d⟩ := r
  cases d with
  | none =>
    refine ⟨rfl, rfl, rfl, fun k hk ↦ ?_⟩
    have hk : k = "args" ∨ k = "operation" := by simpa using only hk
    rcases hk with h | h <;> simp [h]
  | some d =>
    refine ⟨rfl, rfl, rfl, fun k hk ↦ ?_⟩
    have hk : k = "args" ∨ k = "expected_db" ∨ k = "operation" := by simpa using only hk
    rcases hk with h | h | h <;> simp [h]

theorem plain_members (h : Plain room r.args) : ∀ m ∈ r.members, Plain room m.2 := by
  obtain ⟨o, a, d⟩ := r
  cases d <;> simp [members, h, Plain.str]

theorem newline_not_mem (h : Plain room r.args) :
    Reply.newline ∉ Text.Utf8.encode (write (.obj r.members)) := by
  intro hmem
  obtain ⟨c, hc, hcode⟩ := (Text.Utf8.mem_encode_iff (by decide)).mp hmem
  have hno : 0x20 ≤ c.toNat :=
    noControl_writeObj (fun m hm ↦ (plain_members h m hm).noControl) c hc
  rw [hcode] at hno
  exact absurd hno (by decide)

theorem octets_eq (r : Request) :
    r.octets = Text.Utf8.encode (write (.obj r.members)) ++ [Reply.newline] := by
  rw [octets, line, Text.Utf8.encode_append]
  rfl

theorem parse_members (h : Plain room r.args) {levels : Nat} (hl : room < levels) :
    parseWithin? levels (String.ofList (write (.obj r.members))) = some (ofMembers r.members) := by
  obtain ⟨n, rfl⟩ := Nat.exists_eq_add_one_of_ne_zero (n := levels) (by omega)
  exact parseWithin?_writeObj fun m hm ↦ (plain_members h m hm).mono (by omega)

/-- Strings of any characters in the operation, its arguments and the path of the database do not
end the line early, nor change what it asks of which database. -/
theorem framed (h : Plain room r.args) : r.Framed room := by
  refine ⟨⟨_, octets_eq r, newline_not_mem h, write (.obj r.members), ofMembers r.members,
    Text.Utf8.decode_eq_ok_iff.mpr rfl, isRead_members r, fun levels hl ↦ parse_members h hl⟩, ?_⟩
  intro room' r' rest rest' h' he
  rw [octets_eq r, octets_eq r', List.append_assoc, List.append_assoc] at he
  have hline := congrArg Reply.firstLine he
  rw [List.singleton_append, List.singleton_append, Reply.firstLine_append (newline_not_mem h),
    Reply.firstLine_append (newline_not_mem h')] at hline
  have htext := Text.Utf8.encode_injective (List.append_cancel_right hline)
  have hread := parse_members h (show room < max room room' + 1 by omega)
  rw [htext, parse_members h' (by omega), Option.some_inj] at hread
  have hr : r = r' := (isRead_members r).unique (hread ▸ isRead_members r')
  rw [htext] at he
  exact ⟨hr, by simpa using he⟩

def awkward : Request where
  operation := "show\n"
  args := .obj [("\"\x7d\n", .arr [.str "\\\r\x00\x1f é\u2028", .int (-1)]), ("id", .str "\n\x7b")]
  database := some "/tmp/\"a\nb\".db"

theorem framed_awkward : Plain 2 awkward.args ∧ awkward.Framed 2 := by
  have hlist : Plain 1 (.arr [.str "\\\r\x00\x1f é\u2028", .int (-1)]) :=
    .arr (List.forall_mem_cons.mpr
      ⟨.str _, List.forall_mem_singleton.mpr (.int ⟨by decide, by decide⟩)⟩)
  have h : Plain 2 awkward.args :=
    .obj (by decide) (List.forall_mem_cons.mpr ⟨hlist, List.forall_mem_singleton.mpr (.str _)⟩)
  exact ⟨h, framed h⟩

end Request

end Tracker

end ChangeRelay
