import ChangeRelay.Proofs.Broadcast.Isolation
import ChangeRelay.Proofs.Broadcast.Reentry
import ChangeRelay.Proofs.Greatest

namespace ChangeRelay

open Relation (ReflTransGen)

namespace Write

variable (w : Write) (timeout : Nat)

def inTime : Bool := w.success && w.delay.any (· ≤ timeout)

def span : Nat := min (w.delay.getD timeout) timeout

theorem within_eq : w.within timeout = (w.span timeout, w.inTime timeout) := by
  obtain ⟨delay, success⟩ := w
  cases delay with
  | none => simp [within, span, inTime]
  | some d =>
    by_cases hd : d ≤ timeout
    · simp [within, span, inTime, hd]
    · simp [within, span, inTime, hd, Nat.le_of_not_le hd]

theorem span_le : w.span timeout ≤ timeout := Nat.min_le_right _ _

end Write

namespace Client

variable (k : Client) (timeout : Nat) (payload : String)

def write : Write := k.outlet k.attempts payload

def attempted : Client := { k with attempts := k.attempts ++ [payload] }

def served : Client :=
  { k.attempted payload with
    received := if (k.write payload).inTime timeout then k.received ++ [payload] else k.received }

end Client

namespace Audience

def takes (a : Audience) (timeout : Nat) (payload : String) (c : ClientNumber) : Bool :=
  (a.client? c).any fun k ↦ (k.write payload).inTime timeout

/-- The members whose tokens were not fired. -/
def awake (a : Audience) : List ClientNumber :=
  a.roster.members.filter fun c ↦ !a.roster.isDismissed c

theorem mem_awake {a : Audience} {c : ClientNumber} :
    c ∈ a.awake ↔ c ∈ a.roster.members ∧ c ∉ a.roster.dismissed := by
  simp [awake, Roster.isDismissed_iff, ← Bool.not_eq_true]

/-- A dispatch begins at `now`, and the attempts it makes end at these moments. -/
def moments (a : Audience) (timeout now : Nat) (payload : String) : Set Nat :=
  insert now {t | ∃ c ∈ a.awake, ∃ k, a.client? c = some k ∧
    now + (k.write payload).span timeout = t}

structure Orderly (a : Audience) : Prop where
  ascending : a.roster.members.Pairwise (· < ·)
  known : ∀ c ∈ a.roster.members, a.client? c ≠ none

end Audience

/-- The accounts of a dispatch that began at `now`: the audience before and after it, the summary,
and when it ended. -/
structure Accounted (a : Audience) (timeout now : Nat) (payload : String) (b : Audience)
    (summary : DispatchSummary) (finish : Nat) : Prop where
  clients : ∀ c, b.client? c =
    if c ∈ a.awake then (a.client? c).map (·.served timeout payload) else a.client? c
  delivered : summary.delivered = a.awake.countP (a.takes timeout payload)
  evicted : summary.evicted = a.awake.filter fun c ↦ !a.takes timeout payload c
  ascending : summary.evicted.Pairwise (· < ·)
  total : summary.delivered + summary.evicted.length = a.awake.length
  members : b.roster.members =
    a.roster.members.filter fun c ↦ a.roster.isDismissed c || a.takes timeout payload c
  dismissed : ∀ c, c ∈ b.roster.dismissed ↔ c ∈ a.roster.dismissed ∨ c ∈ summary.evicted
  fired : ∀ c ∈ a.awake, c ∈ b.roster.dismissed ↔ c ∈ summary.evicted
  ends : IsGreatest (a.moments timeout now payload) finish
  bounded : finish ≤ now + timeout

namespace Dispatch

/-- A dispatch of `payload` that began at `now` with the audience `a`, of which some deliveries have
begun and some have ended. -/
structure Midway (a : Audience) (timeout now : Nat) (payload : String) (b : Audience)
    (d : Dispatch) : Prop where
  carries : d.payload = payload
  recipients : d.recipients = a.roster.members
  everyone : ∃ passed, (passed ++ d.everyone).Perm a.roster.members ∧
    ∀ c ∈ passed, c ∈ a.roster.dismissed
  awake : ∀ c, (∃ leg ∈ d.begun, leg.client = c) ∨ (∃ s, (c, s) ∈ d.ended) →
    c ∉ a.roster.dismissed
  untouched : ∀ c, c ∉ a.awake ∨ c ∈ d.waiting → b.client? c = a.client? c
  begun : ∀ leg ∈ d.begun, ∃ k, a.client? leg.client = some k ∧
    b.client? leg.client = some (k.attempted payload) ∧
    leg.due = now + (k.write payload).span timeout ∧
    leg.success = (k.write payload).inTime timeout
  ended : ∀ c success, (c, success) ∈ d.ended → ∃ k, a.client? c = some k ∧
    b.client? c = some (k.served timeout payload) ∧ success = (k.write payload).inTime timeout
  members : b.roster.members = a.roster.members.filter fun c ↦ (c, false) ∉ d.ended
  dismissed : ∀ c, c ∈ b.roster.dismissed ↔ c ∈ a.roster.dismissed ∨ (c, false) ∈ d.ended

variable {a b : Audience} {d : Dispatch} {timeout now : Nat} {payload : String} {leg : Leg}

theorem start_of_known {c : ClientNumber} {cs : List ClientNumber} {k : Client}
    (hw : d.waiting = c :: cs) (hk : b.client? c = some k) (hc : c ∉ b.roster.dismissed) :
    d.start b timeout now =
      (b.modify c (·.attempted d.payload),
        { d with
          waiting := cs
          begun := d.begun ++ [⟨c, now + (k.write d.payload).span timeout,
            (k.write d.payload).inTime timeout⟩] }) := by
  have hwithin := (k.outlet k.attempts d.payload).within_eq timeout
  simp only [start, hw, hk, Roster.isDismissed_iff, hc, if_false, hwithin]
  rfl

theorem start_of_fired {c : ClientNumber} {cs : List ClientNumber} (hw : d.waiting = c :: cs)
    (hc : c ∈ b.roster.dismissed) : d.start b timeout now = (b, { d with waiting := cs }) := by
  simp only [start, hw, (Roster.isDismissed_iff _ _).mpr hc, if_true]
  split <;> rfl

theorem midway_begin (a : Audience) (timeout now : Nat) (payload : String) :
    Midway a timeout now payload a (begin a payload) where
  carries := rfl
  recipients := rfl
  everyone := ⟨[], by rw [everyone_begin, List.nil_append], fun c h ↦ by cases h⟩
  awake c h := by
    obtain ⟨_, h, _⟩ | ⟨_, h⟩ := h <;> cases h
  untouched _ _ := rfl
  begun _ h := by cases h
  ended _ _ h := by cases h
  members := by simp [begin]
  dismissed _ := by simp [begin]

theorem Midway.nodup (h : Midway a timeout now payload b d) (ha : a.Orderly) :
    d.everyone.Nodup := by
  obtain ⟨passed, hperm, _⟩ := h.everyone
  exact (List.nodup_append.mp (hperm.nodup_iff.mpr ha.ascending.nodup)).2.1

theorem Midway.mem_members (h : Midway a timeout now payload b d) {c : ClientNumber}
    (hc : c ∈ d.everyone) : c ∈ a.roster.members := by
  obtain ⟨passed, hperm, _⟩ := h.everyone
  exact hperm.mem_iff.mp (List.mem_append_right passed hc)

theorem Midway.mem_awake (h : Midway a timeout now payload b d) {c : ClientNumber}
    (hc : (∃ leg ∈ d.begun, leg.client = c) ∨ ∃ s, (c, s) ∈ d.ended) : c ∈ a.awake :=
  Audience.mem_awake.mpr ⟨h.mem_members (mem_everyone.mpr (.inr hc)), h.awake c hc⟩

theorem Midway.mem_everyone_of_awake (h : Midway a timeout now payload b d) {c : ClientNumber}
    (hc : c ∈ a.awake) : c ∈ d.everyone := by
  obtain ⟨hm, hd⟩ := Audience.mem_awake.mp hc
  obtain ⟨passed, hperm, hpassed⟩ := h.everyone
  exact (List.mem_append.mp (hperm.mem_iff.mpr hm)).resolve_left fun hp ↦ hd (hpassed c hp)

theorem Midway.fired_iff (h : Midway a timeout now payload b d) (ha : a.Orderly) {c : ClientNumber}
    (hw : c ∈ d.waiting) : c ∈ b.roster.dismissed ↔ c ∈ a.roster.dismissed := by
  rw [h.dismissed]
  exact or_iff_left (not_ended_of_waiting (h.nodup ha) hw false)

theorem Midway.pass (h : Midway a timeout now payload b d) {c : ClientNumber}
    {cs : List ClientNumber} (hw : d.waiting = c :: cs) (hc : c ∈ a.roster.dismissed) :
    Midway a timeout now payload b { d with waiting := cs } := by
  refine ⟨h.carries, h.recipients, ?_, h.awake, ?_, h.begun, h.ended, h.members, h.dismissed⟩
  · obtain ⟨passed, hperm, hpassed⟩ := h.everyone
    refine ⟨passed ++ [c], ?_, ?_⟩
    · simpa [Dispatch.everyone, hw] using hperm
    · intro e he
      rcases List.mem_append.mp he with he | he
      · exact hpassed e he
      · exact List.mem_singleton.mp he ▸ hc
  · exact fun e he ↦ h.untouched e (he.imp_right fun he ↦ hw ▸ List.mem_cons_of_mem c he)

theorem ne_of_start (hn : d.everyone.Nodup) {c e : ClientNumber} {cs : List ClientNumber}
    (hw : d.waiting = c :: cs)
    (he : e ∈ cs ∨ (∃ leg ∈ d.begun, leg.client = e) ∨ ∃ s, (e, s) ∈ d.ended) : e ≠ c := by
  rintro rfl
  have hev : d.everyone = e :: (cs ++ d.begun.map (·.client) ++ d.ended.map (·.1)) := by
    simp [Dispatch.everyone, hw]
  rw [hev] at hn
  apply (List.nodup_cons.mp hn).1
  simpa [or_assoc] using he

theorem Midway.attempt (h : Midway a timeout now payload b d) (ha : a.Orderly) {c : ClientNumber}
    {cs : List ClientNumber} (hw : d.waiting = c :: cs) (hc : c ∉ a.roster.dismissed) :
    Midway a timeout now payload (d.start b timeout now).1 (d.start b timeout now).2 := by
  have hwait : c ∈ d.waiting := hw ▸ List.mem_cons_self
  have hm := h.mem_members (mem_everyone.mpr (.inl hwait))
  obtain ⟨k, hk⟩ := Option.ne_none_iff_exists'.mp (ha.known c hm)
  have hb : b.client? c = some k := (h.untouched c (.inr hwait)).trans hk
  rw [start_of_known hw hb (mt (h.fired_iff ha hwait).mp hc), h.carries]
  have hn := h.nodup ha
  have hperm := d.everyone_start
    ⟨c, now + (k.write payload).span timeout, (k.write payload).inTime timeout⟩ hw
  have hothers {e : ClientNumber} (he : e ∈ cs ∨ (∃ leg ∈ d.begun, leg.client = e) ∨
      ∃ s, (e, s) ∈ d.ended) : e ≠ c := ne_of_start hn hw he
  refine ⟨rfl, h.recipients, ?_, ?_, ?_, ?_, ?_, ?_, ?_⟩
  · obtain ⟨passed, hall, hpassed⟩ := h.everyone
    exact ⟨passed, (hperm.append_left passed).trans hall, hpassed⟩
  · rintro e (⟨leg, hl, rfl⟩ | he)
    · rcases List.mem_append.mp hl with hl | hl
      · exact h.awake _ (.inl ⟨leg, hl, rfl⟩)
      · rwa [List.mem_singleton.mp hl]
    · exact h.awake e (.inr he)
  · intro e he
    have hne : e ≠ c := by
      rcases he with he | he
      · exact fun hec ↦ he (hec ▸ Audience.mem_awake.mpr ⟨hm, hc⟩)
      · exact hothers (.inl he)
    rw [Audience.client?_modify, if_neg hne]
    exact h.untouched e (he.imp_right fun he ↦ hw ▸ List.mem_cons_of_mem c he)
  · intro leg hl
    rw [Audience.client?_modify]
    rcases List.mem_append.mp hl with hl | hl
    · rw [if_neg (hothers (.inr (.inl ⟨leg, hl, rfl⟩)))]
      exact h.begun leg hl
    · rw [List.mem_singleton.mp hl, if_pos rfl, hb]
      exact ⟨k, hk, rfl, rfl, rfl⟩
  · intro e s he
    rw [Audience.client?_modify, if_neg (hothers (.inr (.inr ⟨s, he⟩)))]
    exact h.ended e s he
  · simpa using h.members
  · simpa using h.dismissed

theorem Midway.start (h : Midway a timeout now payload b d) (ha : a.Orderly)
    (more : d.waiting ≠ []) :
    Midway a timeout now payload (d.start b timeout now).1 (d.start b timeout now).2 := by
  obtain ⟨c, cs, hw⟩ := List.exists_cons_of_ne_nil more
  have hwait : c ∈ d.waiting := hw ▸ List.mem_cons_self
  by_cases hc : c ∈ a.roster.dismissed
  · rw [start_of_fired hw ((h.fired_iff ha hwait).mpr hc)]
    exact h.pass hw hc
  · exact h.attempt ha hw hc

theorem client?_settle (d : Dispatch) (b : Audience) (leg : Leg) (c : ClientNumber) :
    (d.settle b leg).1.client? c = (b.client? c).map fun k ↦
      if c = leg.client ∧ leg.success = true then { k with received := k.received ++ [d.payload] }
      else k := by
  cases hsucc : leg.success with
  | true =>
    rw [d.settle_of_success b hsucc, Audience.client?_modify]
    by_cases hc : c = leg.client <;> simp [hc]
  | false =>
    rw [d.settle_of_failure b hsucc]
    simp [Audience.client?]

theorem ne_of_settle (hn : d.everyone.Nodup) (hl : leg ∈ d.begun) {c : ClientNumber}
    (hc : c ∈ d.waiting ∨ (∃ leg' ∈ d.begun.filter (· ≠ leg), leg'.client = c) ∨
      ∃ s, (c, s) ∈ d.ended) : c ≠ leg.client := by
  rintro rfl
  rcases hc with hc | ⟨leg', hl', hc⟩ | ⟨s, hc⟩
  · have hd := (List.nodup_append.mp (List.nodup_append.mp hn).1).2.2
    exact hd _ hc _ (List.mem_map_of_mem hl) rfl
  · have hnodup := (d.everyone_settle hn hl leg.success).nodup_iff.mpr hn
    exact not_ended_of_begun hnodup hl' leg.success
      (List.mem_append_right _ (hc ▸ List.mem_singleton_self _))
  · exact not_ended_of_begun hn hl s hc

theorem Midway.everyone_settle (h : Midway a timeout now payload b d) (ha : a.Orderly)
    (hl : leg ∈ d.begun) : ∃ passed,
      (passed ++ (d.settle b leg).2.everyone).Perm a.roster.members ∧
      ∀ c ∈ passed, c ∈ a.roster.dismissed := by
  obtain ⟨passed, hall, hpassed⟩ := h.everyone
  have hperm := d.everyone_settle (h.nodup ha) hl leg.success
  exact ⟨passed, (hperm.append_left passed).trans hall, hpassed⟩

theorem Midway.served_settle (h : Midway a timeout now payload b d) (hl : leg ∈ d.begun) :
    ∃ k, a.client? leg.client = some k ∧
      (d.settle b leg).1.client? leg.client = some (k.served timeout payload) ∧
      leg.success = (k.write payload).inTime timeout := by
  obtain ⟨k, hk, hb, _, hs⟩ := h.begun leg hl
  refine ⟨k, hk, ?_, hs⟩
  rw [client?_settle, hb, Option.map_some, hs, h.carries, Client.served]
  split <;> simp_all [Client.attempted]

theorem Midway.members_settle (h : Midway a timeout now payload b d) :
    (d.settle b leg).1.roster.members =
      a.roster.members.filter fun c ↦ (c, false) ∉ (d.settle b leg).2.ended := by
  cases hsucc : leg.success with
  | true =>
    rw [d.settle_of_success b hsucc]
    simpa using h.members
  | false =>
    rw [d.settle_of_failure b hsucc, Roster.leave_members, h.members, List.filter_filter]
    apply List.filter_congr
    intro c _
    by_cases hc : c = leg.client <;> simp [hc]

theorem Midway.dismissed_settle (h : Midway a timeout now payload b d) (ha : a.Orderly)
    (hl : leg ∈ d.begun) (c : ClientNumber) :
    c ∈ (d.settle b leg).1.roster.dismissed ↔
      c ∈ a.roster.dismissed ∨ (c, false) ∈ (d.settle b leg).2.ended := by
  cases hsucc : leg.success with
  | true =>
    rw [d.settle_of_success b hsucc]
    simpa using h.dismissed c
  | false =>
    -- the client is still in, so that its token is fired now
    have hin : leg.client ∈ b.roster.members := by
      rw [h.members, List.mem_filter]
      exact ⟨h.mem_members (mem_everyone.mpr (.inr (.inl ⟨leg, hl, rfl⟩))),
        by simpa using not_ended_of_begun (h.nodup ha) hl false⟩
    rw [d.settle_of_failure b hsucc, Roster.mem_dismissed_leave, h.dismissed]
    simp only [hin, and_true, List.mem_append, List.mem_singleton, Prod.mk.injEq]
    tauto

theorem Midway.settle (h : Midway a timeout now payload b d) (ha : a.Orderly)
    (hl : leg ∈ d.begun) :
    Midway a timeout now payload (d.settle b leg).1 (d.settle b leg).2 := by
  have hn := h.nodup ha
  have hawake := h.mem_awake (.inl ⟨leg, hl, rfl⟩)
  have hsame {c : ClientNumber} (hc : c ≠ leg.client) :
      (d.settle b leg).1.client? c = b.client? c := by
    simp [client?_settle, hc]
  refine ⟨h.carries, h.recipients, h.everyone_settle ha hl, ?_, ?_, ?_, ?_, h.members_settle,
    h.dismissed_settle ha hl⟩
  · rintro c (⟨leg', hl', rfl⟩ | ⟨s, hs⟩)
    · exact h.awake _ (.inl ⟨leg', (List.mem_filter.mp hl').1, rfl⟩)
    · rcases List.mem_append.mp hs with hs | hs
      · exact h.awake c (.inr ⟨s, hs⟩)
      · obtain ⟨rfl, _⟩ := Prod.mk.inj (List.mem_singleton.mp hs)
        exact (Audience.mem_awake.mp hawake).2
  · intro c hc
    have hne : c ≠ leg.client :=
      hc.elim (fun hc he ↦ hc (he ▸ hawake)) fun hc ↦ ne_of_settle hn hl (.inl hc)
    rw [hsame hne]
    exact h.untouched c hc
  · intro leg' hl'
    rw [hsame (ne_of_settle hn hl (.inr (.inl ⟨leg', hl', rfl⟩)))]
    exact h.begun leg' (List.mem_filter.mp hl').1
  · intro c s hs
    rcases List.mem_append.mp hs with hs | hs
    · rw [hsame (ne_of_settle hn hl (.inr (.inr ⟨s, hs⟩)))]
      exact h.ended c s hs
    · obtain ⟨rfl, rfl⟩ := Prod.mk.inj (List.mem_singleton.mp hs)
      exact h.served_settle hl

theorem isOver_iff : d.isOver = true ↔ d.waiting = [] ∧ d.begun = [] := by
  simp [isOver, List.isEmpty_iff]

theorem Midway.ended_iff (h : Midway a timeout now payload b d) (hover : d.isOver = true)
    (c : ClientNumber) (success : Bool) : (c, success) ∈ d.ended ↔
      c ∈ a.awake ∧ success = a.takes timeout payload c := by
  obtain ⟨hw, hb⟩ := isOver_iff.mp hover
  have htakes {s : Bool} (hs : (c, s) ∈ d.ended) : s = a.takes timeout payload c := by
    obtain ⟨k, hk, _, hs⟩ := h.ended c s hs
    rw [Audience.takes, hk, hs]
    rfl
  constructor
  · intro hc
    exact ⟨h.mem_awake (.inr ⟨success, hc⟩), htakes hc⟩
  · rintro ⟨hc, rfl⟩
    have hev := h.mem_everyone_of_awake hc
    rw [mem_everyone, hw, hb] at hev
    obtain ⟨s, hs⟩ : ∃ s, (c, s) ∈ d.ended := by simpa using hev
    exact htakes hs ▸ hs

theorem Midway.perm_awake (h : Midway a timeout now payload b d) (hover : d.isOver = true) :
    (d.ended.map (·.1)).Perm a.awake := by
  obtain ⟨hw, hb⟩ := isOver_iff.mp hover
  obtain ⟨passed, hall, hpassed⟩ := h.everyone
  have hlive := hall.filter fun c ↦ !a.roster.isDismissed c
  have hnone : passed.filter (fun c ↦ !a.roster.isDismissed c) = [] :=
    List.filter_eq_nil_iff.mpr fun c hc ↦ by
      simp [(Roster.isDismissed_iff _ _).mpr (hpassed c hc)]
  have hsome : (d.ended.map (·.1)).filter (fun c ↦ !a.roster.isDismissed c) =
      d.ended.map (·.1) := by
    refine List.filter_eq_self.mpr fun c hc ↦ ?_
    obtain ⟨⟨c, s⟩, hs, rfl⟩ := List.mem_map.mp hc
    simpa [Roster.isDismissed_iff, ← Bool.not_eq_true] using h.awake c (.inr ⟨s, hs⟩)
  rwa [Dispatch.everyone, hw, hb, List.map_nil, List.nil_append, List.nil_append,
    List.filter_append, hnone, hsome, List.nil_append] at hlive

theorem Midway.delivered_eq (h : Midway a timeout now payload b d) (hover : d.isOver = true) :
    d.report.delivered = a.awake.countP (a.takes timeout payload) := by
  rw [← (h.perm_awake hover).countP_eq, List.countP_map]
  apply List.countP_congr
  rintro ⟨c, s⟩ hs
  rw [((h.ended_iff hover c s).mp hs).2]
  rfl

theorem Midway.evicted_eq (h : Midway a timeout now payload b d) (ha : a.Orderly)
    (hover : d.isOver = true) :
    d.report.evicted = a.awake.filter fun c ↦ !a.takes timeout payload c := by
  rw [report, h.recipients, Audience.awake, List.filter_filter]
  apply List.filter_congr
  intro c hc
  have hiff : c ∈ d.report.evicted ↔ (c, false) ∈ d.ended :=
    mem_evicted_iff (h.nodup ha) (h.recipients ▸ hc)
  rw [report, List.mem_filter, h.recipients, h.ended_iff hover, Audience.mem_awake] at hiff
  simp only [hc, true_and, decide_eq_true_eq, ← Roster.isDismissed_iff] at hiff
  rw [Bool.eq_iff_iff, decide_eq_true_iff, hiff]
  cases a.roster.isDismissed c <;> cases a.takes timeout payload c <;> decide

theorem Midway.accounted (h : Midway a timeout now payload b d) (ha : a.Orderly)
    (hover : d.isOver = true) {finish : Nat}
    (hends : IsGreatest (a.moments timeout now payload) finish) :
    Accounted a timeout now payload b d.report finish := by
  have hend := h.ended_iff hover
  have hdelivered := h.delivered_eq hover
  have hevicted := h.evicted_eq ha hover
  have hfalse (c : ClientNumber) : c ∈ d.report.evicted ↔ (c, false) ∈ d.ended := by
    rw [hevicted, hend, List.mem_filter, Bool.not_eq_true', @eq_comm _ false]
  refine ⟨?_, hdelivered, hevicted, ?_, ?_, ?_, ?_, ?_, hends, ?_⟩
  · intro c
    split
    · rename_i hc
      obtain ⟨k, hk, hb, _⟩ := h.ended c _ ((hend c _).mpr ⟨hc, rfl⟩)
      rw [hb, hk]
      rfl
    · rename_i hc
      exact h.untouched c (.inl hc)
  · rw [hevicted]
    exact (ha.ascending.filter _).filter _
  · rw [hdelivered, hevicted, List.countP_eq_length_filter]
    exact (List.length_eq_length_filter_add _).symm
  · rw [h.members]
    apply List.filter_congr
    intro c hc
    rw [Bool.eq_iff_iff, decide_eq_true_iff, hend, Audience.mem_awake, ← Roster.isDismissed_iff]
    cases a.roster.isDismissed c <;> cases a.takes timeout payload c <;> simp [hc]
  · intro c
    rw [h.dismissed, hfalse]
  · intro c hc
    rw [h.dismissed, hfalse]
    exact or_iff_right (Audience.mem_awake.mp hc).2
  · obtain rfl | ⟨c, _, k, _, rfl⟩ := hends.1
    · exact Nat.le_add_right _ _
    · exact Nat.add_le_add_left (Write.span_le _ _) _

structure Moment where
  now : Nat
  audience : Audience
  dispatch : Dispatch

/-- What happens next in a dispatch that nobody interferes with. All deliveries begin at the first
moment; each ends when it is due, in any order with others that are; and time goes on no further
than to where the next one is. -/
inductive Proceeds (timeout : Nat) : Moment → Moment → Prop
  | start (s : Moment) (more : s.dispatch.waiting ≠ []) :
      Proceeds timeout s ⟨s.now, (s.dispatch.start s.audience timeout s.now).1,
        (s.dispatch.start s.audience timeout s.now).2⟩
  | settle (s : Moment) (leg : Leg) (underway : leg ∈ s.dispatch.begun) (due : leg.due ≤ s.now) :
      Proceeds timeout s ⟨s.now, (s.dispatch.settle s.audience leg).1,
        (s.dispatch.settle s.audience leg).2⟩
  | wait (s : Moment) (t : Nat) (begun : s.dispatch.waiting = []) (busy : s.dispatch.begun ≠ [])
      (later : s.now < t) (next : ∀ leg ∈ s.dispatch.begun, t ≤ leg.due) :
      Proceeds timeout s { s with now := t }

structure Timely (a : Audience) (timeout now : Nat) (payload : String) (s : Moment) : Prop where
  midway : Midway a timeout now payload s.audience s.dispatch
  first : s.dispatch.waiting ≠ [] → s.now = now
  later : now ≤ s.now
  ahead : ∀ leg ∈ s.dispatch.begun, s.now ≤ leg.due
  past : ∀ c success, (c, success) ∈ s.dispatch.ended → ∀ k, a.client? c = some k →
    now + (k.write payload).span timeout ≤ s.now
  attained : s.dispatch.begun = [] → s.now ∈ a.moments timeout now payload

variable {s s' : Moment}

theorem Midway.moment_of_begun (h : Midway a timeout now payload b d) (hl : leg ∈ d.begun) :
    leg.due ∈ a.moments timeout now payload := by
  obtain ⟨k, hk, _, hdue, _⟩ := h.begun leg hl
  exact .inr ⟨leg.client, h.mem_awake (.inl ⟨leg, hl, rfl⟩), k, hk, hdue.symm⟩

theorem start_ended (a : Audience) (timeout now : Nat) (d : Dispatch) :
    (d.start a timeout now).2.ended = d.ended := by
  unfold start
  split
  · rfl
  · split
    · rfl
    · split <;> rfl

theorem Timely.start (h : Timely a timeout now payload s) (ha : a.Orderly)
    (more : s.dispatch.waiting ≠ []) :
    Timely a timeout now payload ⟨s.now, (s.dispatch.start s.audience timeout s.now).1,
      (s.dispatch.start s.audience timeout s.now).2⟩ := by
  have hnow := h.first more
  have hmid := h.midway.start ha more
  rw [← hnow] at hmid ⊢
  have hbegun := hmid.begun
  refine ⟨hmid, fun _ ↦ rfl, Nat.le_refl _, ?_, ?_, ?_⟩
  · intro leg hl
    obtain ⟨_, _, _, hdue, _⟩ := hbegun leg hl
    exact hdue ▸ Nat.le_add_right _ _
  · intro c success hc k hk
    rw [start_ended] at hc
    exact hnow ▸ h.past c success hc k hk
  · intro _
    exact .inl rfl

theorem Timely.settle (h : Timely a timeout now payload s) (ha : a.Orderly)
    (hl : leg ∈ s.dispatch.begun) (due : leg.due ≤ s.now) :
    Timely a timeout now payload ⟨s.now, (s.dispatch.settle s.audience leg).1,
      (s.dispatch.settle s.audience leg).2⟩ := by
  have hdue : leg.due = s.now := Nat.le_antisymm due (h.ahead leg hl)
  refine ⟨h.midway.settle ha hl, h.first, h.later, ?_, ?_, ?_⟩
  · intro leg' hl'
    exact h.ahead leg' (List.mem_filter.mp hl').1
  · intro c success hc k hk
    rcases List.mem_append.mp hc with hc | hc
    · exact h.past c success hc k hk
    · obtain ⟨rfl, _⟩ := Prod.mk.inj (List.mem_singleton.mp hc)
      obtain ⟨k', hk', _, hspan, _⟩ := h.midway.begun leg hl
      cases hk.symm.trans hk'
      exact hspan ▸ due
  · intro _
    exact hdue ▸ h.midway.moment_of_begun hl

theorem Timely.proceeds (h : Timely a timeout now payload s) (ha : a.Orderly)
    (hs : Proceeds timeout s s') : Timely a timeout now payload s' := by
  cases hs with
  | start more => exact h.start ha more
  | settle leg underway due => exact h.settle ha underway due
  | wait t begun busy later next =>
    refine ⟨h.midway, fun hw ↦ absurd begun hw, h.later.trans later.le, next, ?_,
      fun hb ↦ absurd hb busy⟩
    intro c success hc k hk
    exact (h.past c success hc k hk).trans later.le

theorem Timely.run (h : Timely a timeout now payload s) (ha : a.Orderly)
    (hr : ReflTransGen (Proceeds timeout) s s') : Timely a timeout now payload s' := by
  induction hr with
  | refl => exact h
  | tail _ hs ih => exact ih.proceeds ha hs

theorem Timely.le (h : Timely a timeout now payload s) : s.now ≤ now + timeout := by
  cases hb : s.dispatch.begun with
  | nil =>
    obtain hnow | ⟨_, _, k, _, hnow⟩ := h.attained hb
    · exact hnow ▸ Nat.le_add_right _ _
    · exact hnow ▸ Nat.add_le_add_left (Write.span_le _ _) _
  | cons leg legs =>
    have hl : leg ∈ s.dispatch.begun := hb ▸ List.mem_cons_self
    obtain ⟨k, _, _, hdue, _⟩ := h.midway.begun leg hl
    have hle : leg.due ≤ now + timeout := hdue ▸ Nat.add_le_add_left (Write.span_le _ _) _
    exact (h.ahead leg hl).trans hle

theorem length_begun_start (a : Audience) (timeout now : Nat) (d : Dispatch) :
    (d.start a timeout now).2.begun.length ≤ d.begun.length + 1 := by
  unfold start
  split
  · exact Nat.le_succ _
  · split
    · exact Nat.le_succ _
    · split
      · exact Nat.le_succ _
      · simp

theorem exists_next (d : Dispatch) (busy : d.begun ≠ []) :
    ∃ leg ∈ d.begun, ∀ leg' ∈ d.begun, leg.due ≤ leg'.due := by
  cases hm : (d.begun.map (·.due)).min? with
  | none => exact absurd (List.map_eq_nil_iff.mp (List.min?_eq_none_iff.mp hm)) busy
  | some m =>
    obtain ⟨hmem, hlb⟩ := List.min?_eq_some_iff.mp hm
    obtain ⟨leg, hl, rfl⟩ := List.mem_map.mp hmem
    exact ⟨leg, hl, fun leg' hl' ↦ hlb _ (List.mem_map_of_mem hl')⟩

theorem Timely.ends (h : Timely a timeout now payload s) (ha : a.Orderly) :
    ∃ s', ReflTransGen (Proceeds timeout) s s' ∧ s'.dispatch.isOver = true := by
  -- beginning a delivery is half of what is left of it, ending it the other half
  obtain ⟨n, hn⟩ : ∃ n, 2 * s.dispatch.waiting.length + s.dispatch.begun.length = n := ⟨_, rfl⟩
  induction n using Nat.strongRecOn generalizing s with
  | ind n ih =>
    by_cases hw : s.dispatch.waiting = []
    · by_cases hb : s.dispatch.begun = []
      · exact ⟨s, .refl, isOver_iff.mpr ⟨hw, hb⟩⟩
      · obtain ⟨leg, hl, hfirst⟩ := s.dispatch.exists_next hb
        obtain ⟨t, hwait, ht, hdue⟩ : ∃ t, ReflTransGen (Proceeds timeout) s { s with now := t } ∧
            Timely a timeout now payload { s with now := t } ∧ leg.due ≤ t := by
          by_cases hdue : leg.due ≤ s.now
          · exact ⟨s.now, .refl, h, hdue⟩
          · have hs : Proceeds timeout s { s with now := leg.due } :=
              .wait s leg.due hw hb (Nat.lt_of_not_le hdue) hfirst
            exact ⟨leg.due, .single hs, h.proceeds ha hs, Nat.le_refl _⟩
        have hs : Proceeds timeout { s with now := t } _ := .settle _ leg hl hdue
        have hless : (s.dispatch.begun.filter (· ≠ leg)).length < s.dispatch.begun.length :=
          List.length_filter_lt_length_iff_exists.mpr ⟨leg, hl, by simp⟩
        obtain ⟨s', hr, hover⟩ := ih _ (by
          rw [← hn]
          exact Nat.add_lt_add_left hless _) (ht.proceeds ha hs) rfl
        exact ⟨s', (hwait.tail hs).trans hr, hover⟩
    · have hs : Proceeds timeout s _ := .start s hw
      have hlen := s.dispatch.length_begun_start s.audience timeout s.now
      have hpos := List.length_pos_iff.mpr hw
      obtain ⟨s', hr, hover⟩ := ih _ (by
        dsimp only
        rw [start_waiting, List.length_tail]
        omega) (h.proceeds ha hs) rfl
      exact ⟨s', hr.head hs, hover⟩

theorem startAll_ended (a : Audience) (timeout now n : Nat) (d : Dispatch) :
    (startAll a timeout now n d).2.ended = d.ended := by
  induction n generalizing a d with
  | zero => rfl
  | succ n ih => rw [startAll, ih, start_ended]

theorem Midway.startAll (h : Midway a timeout now payload b d) (ha : a.Orderly) (n : Nat)
    (hn : n ≤ d.waiting.length) :
    Midway a timeout now payload (startAll b timeout now n d).1 (startAll b timeout now n d).2 := by
  induction n generalizing b d with
  | zero => exact h
  | succ n ih =>
    have more : d.waiting ≠ [] := by
      intro hw
      rw [hw, List.length_nil] at hn
      omega
    apply ih (h.start ha more)
    rw [start_waiting, List.length_tail]
    omega

theorem Midway.settleAll (h : Midway a timeout now payload b d) (ha : a.Orderly) {legs : List Leg}
    (hn : legs.Nodup) (hl : ∀ leg ∈ legs, leg ∈ d.begun) :
    let o := legs.foldl (fun (b, d) leg ↦ d.settle b leg) (b, d)
    Midway a timeout now payload o.1 o.2 ∧ o.2.waiting = d.waiting ∧
      o.2.begun = d.begun.filter (· ∉ legs) := by
  induction legs generalizing b d with
  | nil => exact ⟨h, rfl, (List.filter_eq_self.mpr (by simp)).symm⟩
  | cons leg legs ih =>
    obtain ⟨hleg, hn⟩ := List.nodup_cons.mp hn
    have hmid := h.settle ha (hl leg List.mem_cons_self)
    have hrest : ∀ leg' ∈ legs, leg' ∈ d.begun.filter (· ≠ leg) := by
      intro leg' hl'
      have hne : leg' ≠ leg := fun he ↦ hleg (he ▸ hl')
      simpa [hne] using hl leg' (List.mem_cons_of_mem leg hl')
    obtain ⟨hmid', hw, hb⟩ := ih hmid hn hrest
    refine ⟨hmid', hw, hb.trans ?_⟩
    change (d.begun.filter (· ≠ leg)).filter (· ∉ legs) = _
    rw [List.filter_filter]
    apply List.filter_congr
    intro leg' _
    simp [Bool.and_comm]

theorem due_isGreatest (d : Dispatch) (now : Nat) :
    IsGreatest (insert now {t | ∃ leg ∈ d.begun, leg.due = t}) (d.due now) :=
  isGreatest_foldl_max (·.due) now d.begun

theorem Midway.isGreatest_due (h : Midway a timeout now payload b d) (hw : d.waiting = [])
    (he : d.ended = []) : IsGreatest (a.moments timeout now payload) (d.due now) := by
  obtain ⟨hmem, hub⟩ := d.due_isGreatest now
  constructor
  · rcases hmem with hd | ⟨leg, hl, hd⟩
    · exact .inl hd
    · exact hd ▸ h.moment_of_begun hl
  · rintro t (rfl | ⟨c, hc, k, hk, rfl⟩)
    · exact hub (.inl rfl)
    · have hev := h.mem_everyone_of_awake hc
      rw [mem_everyone, hw, he] at hev
      obtain ⟨leg, hl, rfl⟩ : ∃ leg ∈ d.begun, leg.client = c := by simpa using hev
      obtain ⟨k', hk', _, hdue, _⟩ := h.begun leg hl
      cases hk.symm.trans hk'
      exact hub (.inr ⟨leg, hl, hdue⟩)

end Dispatch

open Dispatch

theorem Audience.accounted_dispatch (a : Audience) (ha : a.Orderly) (timeout now : Nat)
    (payload : String) :
    Accounted a timeout now payload (a.dispatch timeout now payload).1
      (a.dispatch timeout now payload).2.1 (a.dispatch timeout now payload).2.2 := by
  have hmid := (midway_begin a timeout now payload).startAll ha _ (Nat.le_refl _)
  have hw := (begin a payload).startAll_waiting a timeout now (begin a payload).waiting.length
  have he := startAll_ended a timeout now (begin a payload).waiting.length (begin a payload)
  rw [List.drop_length] at hw
  have hbegun : ((startAll a timeout now (begin a payload).waiting.length
      (begin a payload)).2.begun).Nodup :=
    (List.nodup_append.mp (List.nodup_append.mp (hmid.nodup ha)).1).2.1.of_map
  obtain ⟨hmid', hw', hb'⟩ := hmid.settleAll ha hbegun fun _ hl ↦ hl
  have hover := isOver_iff.mpr ⟨hw'.trans hw, hb'.trans (List.filter_eq_nil_iff.mpr (by simp))⟩
  exact hmid'.accounted ha hover (hmid.isGreatest_due hw he)

theorem Ledger.Reachable.made_pos {x : Ledger} (h : x.Reachable) : ∀ c ∈ x.made, 0 < c := by
  induction h with
  | refl => exact fun c hc ↦ by cases hc
  | @tail x y _ hs ih =>
    have hcreate : ∀ c ∈ x.create.made, 0 < c := by
      intro c hc
      rcases List.mem_append.mp hc with hc | hc
      · exact ih c hc
      · exact List.mem_singleton.mp hc ▸ Nat.succ_pos _
    cases hs with
    | call k known =>
      cases k with
      | create => exact hcreate
      | enroll => exact hcreate
      | join | leave | clear | retire => exact ih

theorem Ledger.Reachable.orderly {x : Ledger} (h : x.Reachable) {clients : List Client}
    (hc : clients.length = x.roster.created) : Audience.Orderly ⟨x.roster, clients⟩ where
  ascending := h.inv.ascending
  known c hm := by
    have hmade := h.inv.joined c (h.inv.members c hm)
    have hne : c ≠ 0 := (h.made_pos c hmade).ne'
    have hlt : c - 1 < clients.length :=
      hc ▸ Nat.lt_of_lt_of_le (Nat.sub_one_lt hne) (h.inv.made c hmade)
    simp [Audience.client?, hne, hlt]

theorem Ledger.Reachable.awake_eq {x : Ledger} (h : x.Reachable) (clients : List Client) :
    Audience.awake ⟨x.roster, clients⟩ = x.roster.members := by
  refine List.filter_eq_self.mpr fun c hc ↦ ?_
  simpa [Roster.isDismissed_iff, ← Bool.not_eq_true] using h.inv.unfired c hc

end ChangeRelay
