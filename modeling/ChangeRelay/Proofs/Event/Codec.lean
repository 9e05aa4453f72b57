import ChangeRelay.Event.Payload
import ChangeRelay.Proofs.Json.Records

namespace ChangeRelay.Event

open Json

theorem plain_toJson {e : Event} (h : isInt64 e.timestamp = true) : Plain maxDepth e.toJson := by
  obtain ⟨hlo, hhi⟩ := isInt64_iff.mp h
  have hn : ["entityId", "entityType", "operation", "timestamp"].Pairwise (· < ·) := by decide
  have hm : ∀ m ∈ [("entityId", str e.entityId), ("entityType", str e.entityType),
      ("operation", str e.operation.name), ("timestamp", int e.timestamp)], Plain 126 m.2 := by
    simp only [List.forall_mem_cons]
    exact ⟨.str _, .str _, .str _, .int ⟨hlo, by omega⟩, by simp⟩
  exact .obj (List.pairwise_map.mp hn) hm

theorem readOperation_writeString (o : Operation) (rest : List Char) :
    readOperation (writeString o.name ++ rest) = .ok (o, rest) := by
  unfold readOperation
  rw [skipBlank_writeString]
  simp only [readString_escape, orFault, bind, Except.bind, Operation.ofName_name]
  rfl

namespace Draft

variable (d : Draft)

theorem member_entityId :
    d.member "entityId" =
      fill "entityId" d.entityId readText fun t ↦ { d with entityId := some t } := if_pos rfl

theorem member_entityType :
    d.member "entityType" =
      fill "entityType" d.entityType readText fun t ↦ { d with entityType := some t } := by
  simp [member]

theorem member_operation :
    d.member "operation" =
      fill "operation" d.operation readOperation fun o ↦ { d with operation := some o } := by
  simp [member]

theorem member_timestamp :
    d.member "timestamp" =
      fill "timestamp" d.timestamp readInt64 fun n ↦ { d with timestamp := some n } := by
  simp [member]

end Draft

theorem toList_payload (e : Event) :
    e.payload.toList = '\x7b' :: (writeString "entityId" ++ ':' :: (writeString e.entityId ++
      ',' :: (writeString "entityType" ++ ':' :: (writeString e.entityType ++
      ',' :: (writeString "operation" ++ ':' :: (writeString e.operation.name ++
      ',' :: (writeString "timestamp" ++ ':' :: (writeInt e.timestamp ++ ['\x7d'])))))))) := by
  simp [payload, compact, toJson, write, writeMembers]

theorem readObject_payload {e : Event} (h : isInt64 e.timestamp = true) {fuel : Nat}
    (hf : 5 ≤ fuel) :
    Json.readObject Draft.member fuel true .empty e.payload.toList.tail =
      .ok (⟨some e.entityId, some e.entityType, some e.operation, some e.timestamp⟩, []) := by
  obtain ⟨f, rfl⟩ : ∃ f, fuel = f + 5 := ⟨fuel - 5, by omega⟩
  have hs (k : String) (r : List Char) :
      ahead '\x7d' false (',' :: (writeString k ++ r)) = some (.item (writeString k ++ r)) :=
    ahead_later (.inr rfl) (startsItem_member k r)
  have hn : readInt64 (writeInt e.timestamp ++ ['\x7d']) = .ok (e.timestamp, ['\x7d']) :=
    readInt64_writeInt h (endsNumber_writeMembers [] [])
  rw [toList_payload, List.tail_cons]
  rw [readObject_fill (ahead_first (.inr rfl) (startsItem_member _ _))
      (Draft.member_entityId .empty) (readText_writeString _ _),
    readObject_fill (hs _ _) (Draft.member_entityType _) (readText_writeString _ _),
    readObject_fill (hs _ _) (Draft.member_operation _) (readOperation_writeString _ _),
    readObject_fill (hs _ _) (Draft.member_timestamp _) hn,
    readObject_close (ahead_close (.inr rfl) _ _)]

theorem ofPayload_payload {e : Event} (h : isInt64 e.timestamp = true) :
    ofPayload e.payload = .ok e := by
  have hlist := toList_payload e
  have hlen : 5 ≤ fuelFor e.payload.toList.tail := by
    rw [hlist, List.tail_cons]
    have : (writeString "entityId").length = 10 := by decide
    simp only [fuelFor, List.length_append, this]
    omega
  have hd := readObject_payload h hlen
  have hobj : readObject e.payload.toList.tail = .ok (e, []) := by
    rw [readObject, hd]
    rfl
  rw [ofPayload, readRecord]
  rw [hlist] at hobj ⊢
  rw [skipBlank_cons rfl]
  rw [List.tail_cons] at hobj
  simp only [hobj, bind, Except.bind]
  rfl

theorem payload_injective {e e' : Event} (h : isInt64 e.timestamp = true)
    (h' : isInt64 e'.timestamp = true) (he : e.payload = e'.payload) : e = e' :=
  Except.ok.inj ((ofPayload_payload h).symm.trans (he ▸ ofPayload_payload h'))

def Draft.InRange (d : Draft) : Prop := ∀ n ∈ d.timestamp, isInt64 n = true

theorem Draft.InRange.member {d d' : Draft} (hd : d.InRange) {k : String} {s r : List Char}
    (h : d.member k s = .ok (d', r)) : d'.InRange := by
  unfold Draft.member at h
  split_ifs at h
  · exact fill_keeps h fun _ _ _ ↦ hd
  · exact fill_keeps h fun _ _ _ ↦ hd
  · exact fill_keeps h fun _ _ _ ↦ hd
  · refine fill_keeps h fun n t hn ↦ ?_
    rintro _ ⟨⟩
    exact isInt64_of_readInt64 hn
  · rw [ignore_eq h]
    exact hd

theorem isInt64_of_readObject {e : Event} {s r : List Char} (h : readObject s = .ok (e, r)) :
    isInt64 e.timestamp = true := by
  obtain ⟨⟨d, t⟩, hd, h⟩ := bind_eq_ok_iff.mp h
  have hempty : Draft.empty.InRange := by simp [Draft.InRange, Draft.empty]
  have hrange : d.InRange := readObject_keeps (fun _ _ _ _ _ hp hm ↦ hp.member hm) hempty hd
  obtain ⟨e', he, h⟩ := bind_eq_ok_iff.mp h
  cases h
  unfold Draft.finish at he
  simp only [bind_eq_ok_iff, require_eq_ok_iff] at he
  obtain ⟨_, -, _, -, _, -, n, hn, h⟩ := he
  cases h
  exact hrange n hn

theorem isInt64_of_readArray {e : Event} {s r : List Char} (h : readArray s = .ok (e, r)) :
    isInt64 e.timestamp = true := by
  unfold readArray at h
  simp only [bind_eq_ok_iff] at h
  obtain ⟨_, -, _, -, _, -, ⟨n, t⟩, hn, _, -, h⟩ := h
  cases h
  obtain ⟨⟨o, t'⟩, ho, hn⟩ := bind_eq_ok_iff.mp hn
  cases o with
  | none => cases hn
  | some n' =>
    cases hn
    obtain ⟨u, hu⟩ := readElement_eq_ok ho
    exact isInt64_of_readInt64 hu

theorem isInt64_of_ofPayload {s : String} {e : Event} (h : ofPayload s = .ok e) :
    isInt64 e.timestamp = true := by
  obtain ⟨t, r, h | h⟩ := readRecord_eq_ok h
  · exact isInt64_of_readObject h
  · exact isInt64_of_readArray h

/-- Reads a text as an event and writes the event's payload. -/
def recode (text : String) : Except Fault String := (ofPayload text).map payload

/-- A payload has no control character in it, is an object of the four members to a reader of JSON,
and gives the event back; so it belongs to one event only, and recoding twice does no more than
recoding once. -/
theorem payload_codec :
    (∀ e : Event, isInt64 e.timestamp = true →
      NoControl e.payload.toList ∧
      Json.parse? e.payload = some (.obj [("entityId", .str e.entityId),
        ("entityType", .str e.entityType), ("operation", .str e.operation.name),
        ("timestamp", .int e.timestamp)]) ∧
      ofPayload e.payload = .ok e) ∧
    (∀ e e' : Event, isInt64 e.timestamp = true → isInt64 e'.timestamp = true →
      e.payload = e'.payload → e = e') ∧
    ∀ s t : String, recode s = .ok t → recode t = .ok t := by
  refine ⟨fun e h ↦ ⟨?_, parse?_compact (plain_toJson h), ofPayload_payload h⟩,
    fun e e' h h' ↦ payload_injective h h', ?_⟩
  · rw [payload, compact, String.toList_ofList]
    exact (plain_toJson h).noControl
  · intro s t hs
    obtain ⟨e, he, rfl⟩ := map_eq_ok_iff.mp hs
    exact map_eq_ok_iff.mpr ⟨e, ofPayload_payload (isInt64_of_ofPayload he), rfl⟩

theorem payload_codec_extremes :
    let least : Event := ⟨"bd-\"7\"\\\n\x01\x7f", "\x1fépic", .unknown, -9223372036854775808⟩
    let greatest : Event := ⟨"", "issue", .deleted, 9223372036854775807⟩
    let listed : Event := ⟨"", "", .unknown, 5⟩
    NoControl least.payload.toList ∧ ofPayload least.payload = .ok least ∧
      ofPayload greatest.payload = .ok greatest ∧ least.payload ≠ greatest.payload ∧
      recode listed.payload = .ok listed.payload := by
  have hl : isInt64 (-9223372036854775808) = true := by decide
  have hg : isInt64 9223372036854775807 = true := by decide
  have hs : recode "[\"\",\"\",\"x\",5]" = .ok (payload ⟨"", "", .unknown, 5⟩) := by rfl
  exact ⟨(payload_codec.1 _ hl).1, (payload_codec.1 _ hl).2.2, (payload_codec.1 _ hg).2.2,
    fun h ↦ absurd (payload_codec.2.1 _ _ hl hg h) (by decide), payload_codec.2.2 _ _ hs⟩

end ChangeRelay.Event
