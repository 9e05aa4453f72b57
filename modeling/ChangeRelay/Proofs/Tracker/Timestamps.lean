import ChangeRelay.Proofs.Time.Written
import ChangeRelay.Proofs.Tracker.ChangeLog

namespace ChangeRelay.Tracker

open Json

def stampMember (time : Json) (m : String × Json) : String × Json :=
  if m.1 ∈ Change.Field.timestamp.names then (m.1, time) else m

def stamped (time : Json) : Json → Json
  | .obj ms => .obj (ms.map (stampMember time))
  | .arr xs => .arr (xs.set 3 time)
  | v => v

def stampedAll (time : Json) (rs : List Json) : Json := .arr (rs.map (stamped time))

/-- How texts of the instant count in the records of a change log. -/
structure Agrees (i : Time.Instant) : Prop where
  fits : isInt64 (i.nanoseconds / 1_000_000) = true
  written : ∀ offset : Int, -1440 < offset → offset < 1440 → ∃ s : String, i.Written offset s.toList
  text : ∀ {offset : Int} {s : String}, i.Written offset s.toList →
    ∀ {rs : List Json} {es : List Event}, events (.arr rs) = .ok es →
      events (stampedAll (.str s) rs) =
        .ok (es.map fun e ↦ { e with timestamp := i.nanoseconds / 1_000_000 })
  number : ∀ {offset : Int} {s : String}, i.Written offset s.toList → ∀ rs,
    events (stampedAll (.str s) rs) = events (stampedAll (.int (i.nanoseconds / 1_000_000)) rs)
  offsets : ∀ {offset offset' : Int} {s s' : String}, i.Written offset s.toList →
    i.Written offset' s'.toList → ∀ rs, events (stampedAll (.str s) rs) =
      events (stampedAll (.str s') rs)
  order : ∀ {j : Time.Instant} {offset offset' : Int} {s s' : String}, j.InYears (-262142) 262141 →
    i.nanoseconds ≤ j.nanoseconds → i.Written offset s.toList → j.Written offset' s'.toList →
      ∀ {rs rs' : List Json} {es es' : List Event}, events (stampedAll (.str s) rs) = .ok es →
        events (stampedAll (.str s') rs') = .ok es' →
          ∀ e ∈ es, ∀ e' ∈ es', e.timestamp ≤ e'.timestamp

variable {time time' v : Json} {n : Int}

theorem stampMember_fst (time : Json) (m : String × Json) : (stampMember time m).1 = m.1 := by
  unfold stampMember
  split_ifs <;> rfl

theorem member_stampMember (h : Change.asTimestamp time = Change.asTimestamp time')
    (d : Change.Draft) (m : String × Json) :
    d.member (stampMember time m) = d.member (stampMember time' m) := by
  unfold stampMember
  split_ifs with hm
  · have hf := Change.Field.ofName?_eq_some_iff.mpr hm
    simp only [Change.Draft.member, hf, h]
  · rfl

theorem ofJson_stamped (h : Change.asTimestamp time = Change.asTimestamp time') (r : Json) :
    Change.ofJson (stamped time r) = Change.ofJson (stamped time' r) := by
  cases r with
  | obj ms =>
    have hfold : ∀ d, (ms.map (stampMember time)).foldlM Change.Draft.member d =
        (ms.map (stampMember time')).foldlM Change.Draft.member d := by
      intro d
      simp only [List.foldlM_map, member_stampMember h]
    simp only [stamped, Change.ofJson, Change.ofMembers, hfold]
  | arr xs =>
    match xs with
    | [] | [_] | [_, _] | [_, _, _] => rfl
    | a :: b :: c :: d :: xs =>
      have hset : ∀ v, (a :: b :: c :: d :: xs).set 3 v = a :: b :: c :: v :: xs := fun _ ↦ rfl
      have hlength : ∀ v, atMost 4 (a :: b :: c :: v :: xs) = atMost 4 (a :: b :: c :: d :: xs) :=
        fun _ ↦ rfl
      simp only [stamped, hset, Change.ofJson, Change.ofItems, hlength, textAt,
        List.getElem?_cons_zero, List.getElem?_cons_succ, h]
  | _ => rfl

theorem values_stampMember (f : Change.Field) (ms : List (String × Json)) :
    Change.values f (ms.map (stampMember time)) =
      (Change.values f ms).map fun v ↦ if f = .timestamp then time else v := by
  induction ms with
  | nil => rfl
  | cons m ms ih =>
    rw [List.map_cons]
    cases hg : Change.Field.ofName? m.1 with
    | none =>
      have hg' : Change.Field.ofName? (stampMember time m).1 = none := by rwa [stampMember_fst]
      rw [Change.values_cons_of_none hg, Change.values_cons_of_none hg', ih]
    | some g =>
      have hg' : Change.Field.ofName? (stampMember time m).1 = some g := by rwa [stampMember_fst]
      have hsnd : (stampMember time m).2 = if g = .timestamp then time else m.2 := by
        have hmem : m.1 ∈ Change.Field.timestamp.names ↔ g = .timestamp := by
          rw [← Change.Field.ofName?_eq_some_iff, hg, Option.some_inj]
        unfold stampMember
        by_cases h : g = .timestamp <;> simp [hmem, h]
      rw [Change.values_cons_of_some hg, Change.values_cons_of_some hg', ih, hsnd]
      by_cases hf : f = g
      · rw [if_pos hf, if_pos hf, List.map_cons, hf]
      · rw [if_neg hf, if_neg hf]

/-- A record stays one with another timestamp, and its event changes in that alone. -/
theorem Record.stamped {r : Json} {e : Event} (h : Record r e) (hm : Moment time n) :
    Record (stamped time r) { e with timestamp := n } := by
  cases h with
  | @named ms kind id type o old _ hk hi ht hn _ ho =>
    have hother : ∀ {f}, f ≠ Change.Field.timestamp →
        Change.values f (ms.map (stampMember time)) = Change.values f ms := by
      intro f hf
      simp [values_stampMember, hf]
    have htime : Change.values .timestamp (ms.map (stampMember time)) = [time] := by
      rw [values_stampMember, hn]
      rfl
    exact .named (by rwa [hother (by decide)]) (by rwa [hother (by decide)])
      (by rwa [hother (by decide)]) htime hm ho
  | listed ht _ ho => exact .listed ht hm ho

theorem Moment.unique {n' : Int} (h : Moment time n) (h' : Moment time n') : n = n' :=
  Except.ok.inj ((asTimestamp_eq_ok_iff.mpr h).symm.trans (asTimestamp_eq_ok_iff.mpr h'))

theorem Record.timestamp_of_stamped {r : Json} {e : Event} (h : Record (Tracker.stamped time r) e)
    (hm : Moment time n) : e.timestamp = n := by
  cases r with
  | obj ms =>
    generalize hstamp : Tracker.stamped time (.obj ms) = v at h
    cases h with
    | @named ms' _ _ _ _ time' _ _ _ _ hn hm' _ =>
      have hms : ms.map (stampMember time) = ms' := Json.obj.inj hstamp
      have hmem : time' ∈ Change.values .timestamp (ms.map (stampMember time)) := by simp [hms, hn]
      rw [values_stampMember] at hmem
      obtain ⟨_, -, htime⟩ := List.mem_map.mp hmem
      exact hm'.unique (htime ▸ hm)
    | listed => cases hstamp
  | arr xs =>
    generalize hstamp : Tracker.stamped time (.arr xs) = v at h
    cases h with
    | named => cases hstamp
    | @listed _ _ _ _ _ time' _ _ hm' _ =>
      have hxs : xs.set 3 time = _ := Json.arr.inj hstamp
      have hlen := congrArg List.length hxs
      have htime := congrArg (·[3]?) hxs
      rw [List.length_set] at hlen
      simp [hlen] at htime
      exact hm'.unique (htime ▸ hm)
  | _ => cases h

theorem events_arr_iff {rs : List Json} {es : List Event} :
    events (.arr rs) = .ok es ↔ List.Forall₂ Record rs es := by
  rw [events_eq_ok_iff]
  constructor
  · rintro ⟨rs', hb, h⟩
    rwa [(Batch.bare rs).unique hb]
  · intro h
    exact ⟨rs, .bare rs, h⟩

theorem events_stampedAll {rs : List Json} {es : List Event} (h : events (.arr rs) = .ok es)
    (hm : Moment time n) :
    events (stampedAll time rs) = .ok (es.map fun e ↦ { e with timestamp := n }) := by
  rw [stampedAll, events_arr_iff, List.forall₂_map_left_iff, List.forall₂_map_right_iff]
  exact (events_arr_iff.mp h).imp fun r e hr ↦ hr.stamped hm

theorem events_stampedAll_congr (h : Change.asTimestamp time = Change.asTimestamp time')
    (rs : List Json) : events (stampedAll time rs) = events (stampedAll time' rs) := by
  have heq : ∀ xs, events (.arr xs) =
      xs.mapM Change.ofJson >>= fun cs ↦ .ok (cs.map Change.event) := fun _ ↦ rfl
  have hmap : (rs.map (stamped time)).mapM Change.ofJson =
      (rs.map (stamped time')).mapM Change.ofJson := by
    simp only [List.mapM_map, Function.comp_def, ofJson_stamped h]
  rw [stampedAll, stampedAll, heq, heq, hmap]

theorem timestamp_of_mem {rs : List Json} {es : List Event} {e : Event}
    (h : events (stampedAll time rs) = .ok es) (hm : Moment time n) (he : e ∈ es) :
    e.timestamp = n := by
  rw [stampedAll, events_arr_iff, List.forall₂_map_left_iff] at h
  induction h with
  | nil => cases he
  | cons hr _ ih =>
    cases he with
    | head => exact hr.timestamp_of_stamped hm
    | tail _ he => exact ih he

theorem moment_of_written {i : Time.Instant} {offset : Int} {s : String}
    (h : i.Written offset s.toList) (hi : i.InYears (-262142) 262141) :
    Moment (.str s) (i.nanoseconds / 1_000_000) := by
  have hread := Time.Instant.ofText?_written h hi
  rw [String.ofList_toList] at hread
  exact .text hread

theorem isInt64_millis {i : Time.Instant} (hi : i.InYears (-262142) 262141) :
    isInt64 (i.nanoseconds / 1_000_000) = true := by
  have hbounds := hi.bounds
  have hfirst : Time.daysBeforeYear (-262142) = -96464927 := by decide
  have hlast : Time.daysBeforeYear 262142 = 95025872 := by decide
  rw [isInt64_iff]
  omega

/-- For every instant and every offset there are texts, and all of them count as the number of
milliseconds from the epoch, rounded towards the past. -/
theorem timestamps_agree {i : Time.Instant} (hi : i.InYears (-262142) 262141) : Agrees i := by
  have hfits := isInt64_millis hi
  have hnumber : Moment (.int (i.nanoseconds / 1_000_000)) (i.nanoseconds / 1_000_000) := by
    obtain ⟨hlo, hhi⟩ := isInt64_iff.mp hfits
    exact .millis _ hlo hhi
  have htext : ∀ {offset : Int} {s : String}, i.Written offset s.toList →
      Change.asTimestamp (.str s) = Change.asTimestamp (.int (i.nanoseconds / 1_000_000)) := by
    intro offset s h
    rw [asTimestamp_eq_ok_iff.mpr (moment_of_written h hi), asTimestamp_eq_ok_iff.mpr hnumber]
  refine ⟨hfits, ?_, ?_, ?_, ?_, ?_⟩
  · intro offset hlo hhi
    obtain ⟨t, ht⟩ := Time.Instant.exists_written hi hlo hhi
    exact ⟨String.ofList t, by rwa [String.toList_ofList]⟩
  · intro offset s h rs es hes
    exact events_stampedAll hes (moment_of_written h hi)
  · intro offset s h rs
    exact events_stampedAll_congr (htext h) rs
  · intro offset offset' s s' h h' rs
    exact events_stampedAll_congr ((htext h).trans (htext h').symm) rs
  · intro j offset offset' s s' hj hle h h' rs rs' es es' hes hes' e he e' he'
    rw [timestamp_of_mem hes (moment_of_written h hi) he,
      timestamp_of_mem hes' (moment_of_written h' hj) he']
    exact Int.ediv_le_ediv (by decide) hle

theorem timestamps_agree_before : Time.Instant.InYears (-262142) 262141 ⟨-1⟩ ∧
    Time.Instant.Written ⟨-1⟩ 840 "1970-01-01T13:59:59.999999999+14:00".toList ∧
    events (.arr [.arr [.str "update", .str "bd-1", .null,
      .str "1970-01-01T13:59:59.999999999+14:00"]]) = .ok [⟨"bd-1", "issue", .updated, -1⟩] := by
  have hlast : Time.Date.Counts ⟨1969, 12, 31⟩ (-1) :=
    .previous ⟨by decide, by decide, by decide, by decide⟩ .epoch
  have hi : Time.Instant.InYears (-262142) 262141 ⟨-1⟩ := ⟨_, hlast, by decide, by decide⟩
  have hw : Time.Instant.Written ⟨-1⟩ 840 "1970-01-01T13:59:59.999999999+14:00".toList := by
    have hf : Time.FractionText 999_999_999 ('.' :: Text.digits 9 999_999_999) :=
      .present (by decide) (by decide) rfl
    have hz : Time.ZoneText 840 ('+' :: (Text.digits 2 14 ++ ':' :: Text.digits 2 0)) :=
      @Time.ZoneText.east 14 0 (by decide) (by decide)
    have hy : Time.YearText 1970 (Text.digits 4 1970) := .plain (by decide)
    have hhour : (13 : Nat) < 24 := by decide
    have hlast : (59 : Nat) < 60 := by decide
    exact .mk .epoch hhour hlast hlast hy (.inl rfl) hf hz (by decide)
  have h := timestamps_agree hi
  have hbatch : events (.arr [.arr [.str "update", .str "bd-1", .null, .int 0]]) =
      .ok [⟨"bd-1", "issue", .updated, 0⟩] :=
    events_arr_iff.mpr (.cons (.listed .null (.millis 0 (by decide) (by decide))
      (Operation.ofKind_eq_iff.mp (by decide +kernel))) .nil)
  exact ⟨hi, hw, h.text hw hbatch⟩

end ChangeRelay.Tracker
