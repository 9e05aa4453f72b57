import ChangeRelay.Proofs.Broadcast.Ledger
import ChangeRelay.Proofs.Visit.Lines
import ChangeRelay.Visit.Timeline

namespace ChangeRelay

namespace Roster

variable {r r' r'' : Roster} {c d : ClientNumber}

def call (r : Roster) : Call → Roster
  | .create => r.create.1
  | .enroll => r.enroll.1
  | .join c => (r.join c).1
  | .leave c => (r.leave c).1
  | .clear => r.clear.1
  | .retire => r.retire.1

def Call.dismisses (c : ClientNumber) : Call → Bool
  | .leave d => d = c
  | .clear | .retire => true
  | .create | .enroll | .join _ => false

/-- All the numbers in use were given out. -/
def Numbered (r : Roster) : Prop := ∀ c, c ∈ r.members ∨ c ∈ r.dismissed → c ≤ r.created

theorem Numbered.fresh (h : r.Numbered) :
    r.created + 1 ∉ r.members ∧ r.created + 1 ∉ r.dismissed := by
  constructor
  · exact fun hm ↦ Nat.not_succ_le_self _ (h _ (.inl hm))
  · exact fun hd ↦ Nat.not_succ_le_self _ (h _ (.inr hd))

theorem numbered_empty : Numbered empty := by
  intro c hc
  simp [empty] at hc

structure Has (r : Roster) (c : ClientNumber) : Prop where
  member : c ∈ r.members
  unfired : c ∉ r.dismissed
  unsealed : r.sealed = false

structure Lost (r : Roster) (c : ClientNumber) : Prop where
  removed : c ∉ r.members
  fired : c ∈ r.dismissed

/-- Two rosters differ in one client at most. -/
structure Agrees (c : ClientNumber) (r r' : Roster) : Prop where
  created : r.created = r'.created
  unsealed : r.sealed = r'.sealed
  members : ∀ d ≠ c, (d ∈ r.members ↔ d ∈ r'.members)
  dismissed : ∀ d ≠ c, (d ∈ r.dismissed ↔ d ∈ r'.dismissed)

theorem Numbered.join (h : r.Numbered) (hc : c ≤ r.created) : (r.join c).1.Numbered := by
  intro d hd
  rw [mem_members_join, mem_dismissed_join] at hd
  rw [join_created]
  rcases hd with (hd | ⟨rfl, -⟩) | (hd | ⟨rfl, -⟩)
  · exact h d (.inl hd)
  · exact hc
  · exact h d (.inr hd)
  · exact hc

theorem Numbered.call (h : r.Numbered) (k : Call) (known : ∀ c, k = .join c → c ≤ r.created) :
    (r.call k).Numbered := by
  have hcreate : r.create.1.Numbered := fun c hc ↦ Nat.le_succ_of_le (h c hc)
  cases k with
  | create => exact hcreate
  | enroll => exact hcreate.join (Nat.le_refl _)
  | join c => exact h.join (known c rfl)
  | leave c =>
    intro d hd
    simp only [Roster.call, leave_members, List.mem_filter, mem_dismissed_leave] at hd
    rw [Roster.call, leave_created]
    rcases hd with ⟨hd, -⟩ | hd | ⟨rfl, hd⟩
    · exact h d (.inl hd)
    · exact h d (.inr hd)
    · exact h d (.inl hd)
  | clear =>
    intro d hd
    simp only [Roster.call, clear_members, List.not_mem_nil, false_or, mem_dismissed_clear] at hd
    exact (h d hd).trans_eq (clear_created _).symm
  | retire =>
    intro d hd
    simp only [Roster.call, retire_members, List.not_mem_nil, false_or, mem_dismissed_retire] at hd
    exact (h d hd).trans_eq (retire_created _).symm

theorem Has.join (h : r.Has c) (d : ClientNumber) : (r.join d).1.Has c where
  member := (mem_members_join ..).mpr (.inl h.member)
  unfired := by
    rw [mem_dismissed_join, h.unsealed]
    simp [h.unfired]
  unsealed := (join_sealed ..).trans h.unsealed

theorem Has.lost_leave (h : r.Has c) : (r.leave c).1.Lost c where
  removed := by simp [leave_members]
  fired := (mem_dismissed_leave ..).mpr (.inr ⟨rfl, h.member⟩)

theorem Has.call (h : r.Has c) {k : Call} (hk : k.dismisses c = false) : (r.call k).Has c := by
  cases k with
  | create => exact ⟨h.member, h.unfired, h.unsealed⟩
  | enroll =>
    have hcreate : r.create.1.Has c := ⟨h.member, h.unfired, h.unsealed⟩
    exact hcreate.join _
  | join d => exact h.join d
  | leave d =>
    have hne : d ≠ c := of_decide_eq_false hk
    refine ⟨?_, ?_, (leave_sealed ..).trans h.unsealed⟩
    · simp [Roster.call, leave_members, h.member, hne.symm]
    · simp [Roster.call, mem_dismissed_leave, h.unfired, hne.symm]
  | clear | retire => cases hk

theorem Has.lost_call (h : r.Has c) {k : Call} (hk : k.dismisses c = true) :
    (r.call k).Lost c := by
  cases k with
  | create | enroll | join => cases hk
  | leave d =>
    obtain rfl : d = c := of_decide_eq_true hk
    exact h.lost_leave
  | clear =>
    refine ⟨?_, (mem_dismissed_clear ..).mpr (.inl h.member)⟩
    simp [Roster.call, clear_members]
  | retire =>
    refine ⟨?_, (mem_dismissed_retire ..).mpr (.inl h.member)⟩
    simp [Roster.call, retire_members]

theorem Lost.join (h : r.Lost c) (d : ClientNumber) : (r.join d).1.Lost c where
  removed := by
    rw [mem_members_join]
    rintro (hm | ⟨rfl, hd, -⟩)
    · exact h.removed hm
    · exact hd h.fired
  fired := (mem_dismissed_join ..).mpr (.inl h.fired)

theorem Lost.leave (h : r.Lost c) (d : ClientNumber) : (r.leave d).1.Lost c where
  removed := by simp [leave_members, h.removed]
  fired := (mem_dismissed_leave ..).mpr (.inl h.fired)

theorem Lost.call (h : r.Lost c) (k : Call) : (r.call k).Lost c := by
  cases k with
  | create => exact ⟨h.removed, h.fired⟩
  | enroll =>
    have hcreate : r.create.1.Lost c := ⟨h.removed, h.fired⟩
    exact hcreate.join _
  | join d => exact h.join d
  | leave d => exact h.leave d
  | clear =>
    refine ⟨?_, (mem_dismissed_clear ..).mpr (.inr h.fired)⟩
    simp [Roster.call, clear_members]
  | retire =>
    refine ⟨?_, (mem_dismissed_retire ..).mpr (.inr h.fired)⟩
    simp [Roster.call, retire_members]

theorem Agrees.refl (c : ClientNumber) (r : Roster) : Agrees c r r :=
  ⟨rfl, rfl, fun _ _ ↦ .rfl, fun _ _ ↦ .rfl⟩

theorem Agrees.trans (h : Agrees c r r') (h' : Agrees c r' r'') : Agrees c r r'' where
  created := h.created.trans h'.created
  unsealed := h.unsealed.trans h'.unsealed
  members d hd := (h.members d hd).trans (h'.members d hd)
  dismissed d hd := (h.dismissed d hd).trans (h'.dismissed d hd)

theorem agrees_join (c : ClientNumber) (r : Roster) : Agrees c (r.join c).1 r where
  created := join_created ..
  unsealed := join_sealed ..
  members d hd := by simp [mem_members_join, hd]
  dismissed d hd := by simp [mem_dismissed_join, hd]

theorem agrees_leave (c : ClientNumber) (r : Roster) : Agrees c (r.leave c).1 r where
  created := leave_created ..
  unsealed := leave_sealed ..
  members d hd := by simp [leave_members, hd]
  dismissed d hd := by simp [mem_dismissed_leave, hd]

theorem Agrees.join (h : Agrees c r r') (d : ClientNumber) :
    Agrees c (r.join d).1 (r'.join d).1 where
  created := by rw [join_created, join_created, h.created]
  unsealed := by rw [join_sealed, join_sealed, h.unsealed]
  members e he := by
    rw [mem_members_join, mem_members_join, h.members e he, h.unsealed]
    refine or_congr_right (and_congr_right ?_)
    rintro rfl
    rw [h.dismissed e he]
  dismissed e he := by
    rw [mem_dismissed_join, mem_dismissed_join, h.dismissed e he, h.unsealed]

theorem Agrees.leave (h : Agrees c r r') (d : ClientNumber) :
    Agrees c (r.leave d).1 (r'.leave d).1 where
  created := by rw [leave_created, leave_created, h.created]
  unsealed := by rw [leave_sealed, leave_sealed, h.unsealed]
  members e he := by
    rw [leave_members, leave_members, List.mem_filter, List.mem_filter, h.members e he]
  dismissed e he := by
    rw [mem_dismissed_leave, mem_dismissed_leave, h.dismissed e he]
    refine or_congr_right (and_congr_right ?_)
    rintro rfl
    exact h.members e he

theorem Agrees.call (h : Agrees c r r') (k : Call) : Agrees c (r.call k) (r'.call k) := by
  have hcreate : Agrees c r.create.1 r'.create.1 :=
    ⟨congrArg (· + 1) h.created, h.unsealed, h.members, h.dismissed⟩
  have htaken (d : ClientNumber) (hd : d ≠ c) :
      d ∈ r.members ∨ d ∈ r.dismissed ↔ d ∈ r'.members ∨ d ∈ r'.dismissed :=
    or_congr (h.members d hd) (h.dismissed d hd)
  cases k with
  | create => exact hcreate
  | enroll =>
    have hjoin := hcreate.join (r.created + 1)
    simpa only [Roster.call, enroll, create, h.created] using hjoin
  | join d => exact h.join d
  | leave d => exact h.leave d
  | clear =>
    refine ⟨?_, ?_, fun d hd ↦ ?_, fun d hd ↦ ?_⟩
    · exact (clear_created _).trans (h.created.trans (clear_created _).symm)
    · exact (clear_sealed _).trans (h.unsealed.trans (clear_sealed _).symm)
    · simp only [Roster.call, clear_members]
    · simp only [Roster.call, mem_dismissed_clear, htaken d hd]
  | retire =>
    refine ⟨?_, ?_, fun d hd ↦ ?_, fun d hd ↦ ?_⟩
    · exact (retire_created _).trans (h.created.trans (retire_created _).symm)
    · exact (retire_sealed _).trans (retire_sealed _).symm
    · simp only [Roster.call, retire_members]
    · simp only [Roster.call, mem_dismissed_retire, htaken d hd]

end Roster

theorem Ledger.call_roster (x : Ledger) (k : Roster.Call) :
    (x.call k).roster = x.roster.call k := by
  cases k <;> rfl

theorem Ledger.Reachable.numbered {x : Ledger} (h : x.Reachable) : x.roster.Numbered := by
  induction h with
  | refl => exact Roster.numbered_empty
  | tail hx hs ih =>
    cases hs with
    | call k known =>
      rw [Ledger.call_roster]
      exact ih.call k fun c hc ↦ (Ledger.Reachable.inv hx).made c (known c hc)

namespace Timeline

/-- The arrival that ends a connection: nothing before it does. -/
def FirstEnding (line : Timeline) (e : Ending) : Prop :=
  ∃ before a later, line = before ++ (e.time, a) :: later ∧ a.reason? = some e.reason ∧
    (∀ x ∈ before, x.2.reason? = none) ∧
    e.read = (before ++ [(e.time, a)]).countP (·.2.isFrame)

theorem frames_cons (read t : Nat) (a : Arrival) (line : Timeline) :
    (if a.isFrame then read + 1 else read) + line.countP (·.2.isFrame) =
      read + ((t, a) :: line).countP (·.2.isFrame) := by
  rw [List.countP_cons]
  split <;> omega

theorem ending?_spec (read : Nat) (line : Timeline) :
    match ending? read line with
    | none => ∀ x ∈ line, x.2.reason? = none
    | some e => ∃ before a later, line = before ++ (e.time, a) :: later ∧
        a.reason? = some e.reason ∧ (∀ x ∈ before, x.2.reason? = none) ∧
        e.read = read + (before ++ [(e.time, a)]).countP (·.2.isFrame) := by
  induction line generalizing read with
  | nil => simp [ending?]
  | cons x line ih =>
    obtain ⟨t, a⟩ := x
    cases ha : a.reason? with
    | some reason =>
      simp only [ending?, ha]
      exact ⟨[], a, line, rfl, ha, by simp, frames_cons read t a []⟩
    | none =>
      have hrest := ih (if a.isFrame then read + 1 else read)
      simp only [ending?, ha]
      cases he : ending? (if a.isFrame then read + 1 else read) line with
      | none =>
        rw [he] at hrest
        exact List.forall_mem_cons.mpr ⟨ha, hrest⟩
      | some e =>
        rw [he] at hrest
        obtain ⟨before, b, later, rfl, hb, hbefore, hread⟩ := hrest
        refine ⟨(t, a) :: before, b, later, rfl, hb, List.forall_mem_cons.mpr ⟨ha, hbefore⟩, ?_⟩
        rw [hread, frames_cons read t]
        rfl

end Timeline

/-- What happens around a connection: something comes from the other side, the server ends, or
somebody else uses the roster. -/
inductive Occurrence where
  | frame (f : Frame)
  | streamEnd
  | shutdown
  | call (k : Roster.Call)

namespace Occurrence

def arrival? (c : ClientNumber) : Occurrence → Option Arrival
  | frame f => some (.frame f)
  | streamEnd => some .streamEnd
  | shutdown => some .shutdown
  | call k => if k.dismisses c then some .evicted else none

def effect (r : Roster) : Occurrence → Roster
  | call k => r.call k
  | _ => r

/-- What a connection takes notice of when the roster is `r`: of others, only that its token was
fired. -/
def noticed? (r : Roster) (c : ClientNumber) : Occurrence → Option Arrival
  | frame f => some (.frame f)
  | streamEnd => some .streamEnd
  | shutdown => some .shutdown
  | call _ => if r.isDismissed c then some .evicted else none

end Occurrence

namespace Visit

def meet (closing : Option Nat) (s : Roster × Visit) (x : Nat × Occurrence) : Roster × Visit :=
  let r := x.2.effect s.1
  let v := s.2.settle x.1
  match x.2.noticed? r v.client with
  | some a => v.arrive r x.1 closing a
  | none => (r, v)

def live (closing : Option Nat) (s : Roster × Visit) (os : List (Nat × Occurrence)) (now : Nat) :
    Roster × Visit :=
  let s := os.foldl (meet closing) s
  (s.1, s.2.settle now)

/-- What the client `c` takes notice of while it is in. -/
def timeline (c : ClientNumber) (os : List (Nat × Occurrence)) : Timeline :=
  os.filterMap fun x ↦ (x.2.arrival? c).map (x.1, ·)

def farewell (closing : Option Nat) : Nat := min (closing.getD closeLimit) closeLimit

structure Watched (c : ClientNumber) (read : Nat) (s : Roster × Visit) : Prop where
  visit : s.2 = ⟨c, .opened, read, 0⟩
  has : s.1.Has c

structure Parted (c : ClientNumber) (closing : Option Nat) (e : Timeline.Ending) (now : Nat)
    (s : Roster × Visit) : Prop where
  visit : ∀ u, now ≤ u → s.2.settle u =
    ⟨c, if e.time + farewell closing ≤ u then .closed e.reason
      else .closing e.reason (e.time + farewell closing), e.read, 1⟩
  lost : s.1.Lost c

section

variable {c : ClientNumber} {read t now now' : Nat} {r : Roster} {v : Visit} {s : Roster × Visit}
  {closing : Option Nat} {e : Timeline.Ending} {o : Occurrence} {x : Nat × Occurrence}
  {os : List (Nat × Occurrence)}

theorem noticed?_effect (h : r.Has c) : o.noticed? (o.effect r) c = o.arrival? c := by
  cases o with
  | frame | streamEnd | shutdown => rfl
  | call k =>
    have hiff : (r.call k).isDismissed c = true ↔ k.dismisses c = true := by
      rw [Roster.isDismissed_iff]
      cases hk : k.dismisses c with
      | true => exact iff_of_true (h.lost_call hk).fired rfl
      | false => exact iff_of_false (h.call hk).unfired Bool.false_ne_true
    simp only [Occurrence.noticed?, Occurrence.effect, Occurrence.arrival?, hiff]

theorem has_effect (h : r.Has c) (ho : ∀ a, o.arrival? c = some a → a.reason? = none) :
    (o.effect r).Has c := by
  cases o with
  | frame | streamEnd | shutdown => exact h
  | call k =>
    apply h.call
    by_contra hk
    have hevicted := ho .evicted (if_pos (Bool.eq_true_of_not_eq_false hk))
    cases hevicted

theorem lost_leave_effect (h : r.Has c) (o : Occurrence) : ((o.effect r).leave c).1.Lost c := by
  cases o with
  | frame | streamEnd | shutdown => exact h.lost_leave
  | call k =>
    cases hk : k.dismisses c with
    | true => exact (h.lost_call hk).leave c
    | false => exact (h.call hk).lost_leave

theorem lost_effect (h : r.Lost c) (o : Occurrence) : (o.effect r).Lost c := by
  cases o with
  | frame | streamEnd | shutdown => exact h
  | call k => exact h.call k

theorem arrive_opened (n closes : Nat) (a : Arrival) :
    arrive ⟨c, .opened, n, closes⟩ r t closing a =
      match a.reason? with
      | none => (r, ⟨c, .opened, if a.isFrame then n + 1 else n, closes⟩)
      | some reason => ((r.leave c).1, ⟨c, .closing reason (t + farewell closing),
          if a.isFrame then n + 1 else n, closes + 1⟩) := by
  have hopen : isOpen ⟨c, .opened, n, closes⟩ = true := rfl
  simp only [arrive, hopen, if_true]
  cases a.isFrame <;> cases a.reason? <;> rfl

theorem settle_closing (reason : Departure) (due n : Nat) (closes : Nat) :
    settle ⟨c, .closing reason due, n, closes⟩ t =
      ⟨c, if due ≤ t then .closed reason else .closing reason due, n, closes⟩ := by
  simp only [settle]
  split <;> rfl

theorem Watched.meet (h : Watched c read s) (closing : Option Nat) (x : Nat × Occurrence) :
    match x.2.arrival? c with
    | none => Watched c read (meet closing s x)
    | some a =>
      match a.reason? with
      | none => Watched c (if a.isFrame then read + 1 else read) (meet closing s x)
      | some reason =>
        Parted c closing ⟨reason, x.1, if a.isFrame then read + 1 else read⟩ x.1
          (meet closing s x) := by
  obtain ⟨r, v⟩ := s
  obtain ⟨t, o⟩ := x
  obtain rfl : v = ⟨c, .opened, read, 0⟩ := h.visit
  have hhas : r.Has c := h.has
  have hmeet : Visit.meet closing (r, ⟨c, .opened, read, 0⟩) (t, o) =
      match o.arrival? c with
      | some a => arrive ⟨c, .opened, read, 0⟩ (o.effect r) t closing a
      | none => (o.effect r, ⟨c, .opened, read, 0⟩) := by
    rw [← noticed?_effect hhas]
    rfl
  dsimp only
  cases ha : o.arrival? c with
  | none =>
    rw [hmeet, ha]
    exact ⟨rfl, has_effect hhas (by simp [ha])⟩
  | some a =>
    rw [hmeet, ha]
    dsimp only
    rw [arrive_opened]
    cases hreason : a.reason? with
    | none =>
      refine ⟨rfl, has_effect hhas fun b hb ↦ ?_⟩
      cases ha.symm.trans hb
      exact hreason
    | some reason => exact ⟨fun u _ ↦ settle_closing .., lost_leave_effect hhas o⟩

theorem Parted.mono (h : Parted c closing e now s) (hle : now ≤ now') :
    Parted c closing e now' s := ⟨fun u hu ↦ h.visit u (hle.trans hu), h.lost⟩

theorem Parted.meet (h : Parted c closing e now s) (hx : now ≤ x.1) :
    Parted c closing e x.1 (meet closing s x) := by
  have hv := h.visit x.1 hx
  have hshut : (s.2.settle x.1).isOpen = false := by
    rw [hv]
    simp only [isOpen]
    split <;> rfl
  have hmeet : Visit.meet closing s x = (x.2.effect s.1, s.2.settle x.1) := by
    unfold Visit.meet
    dsimp only
    split
    · exact if_neg (Bool.eq_false_iff.mp hshut)
    · rfl
  rw [hmeet]
  refine ⟨fun u hu ↦ ?_, lost_effect h.lost x.2⟩
  dsimp only
  rw [hv]
  by_cases hdue : e.time + farewell closing ≤ x.1
  · rw [if_pos hdue, if_pos (hdue.trans hu)]
    rfl
  · rw [if_neg hdue, settle_closing]

theorem Parted.foldl (h : Parted c closing e now s)
    (ordered : (now :: os.map (·.1)).Pairwise (· ≤ ·))
    (last : ∀ t ∈ now :: os.map (·.1), t ≤ now') :
    Parted c closing e now' (os.foldl (Visit.meet closing) s) := by
  induction os generalizing now s with
  | nil => exact h.mono (last now List.mem_cons_self)
  | cons x os ih =>
    obtain ⟨hfirst, hrest⟩ := List.pairwise_cons.mp ordered
    exact ih (h.meet (hfirst x.1 List.mem_cons_self)) hrest
      fun t ht ↦ last t (List.mem_cons_of_mem _ ht)

theorem timeline_cons (c : ClientNumber) (x : Nat × Occurrence) (os : List (Nat × Occurrence)) :
    timeline c (x :: os) = ((x.2.arrival? c).map (x.1, ·)).toList ++ timeline c os := by
  rw [timeline, List.filterMap_cons]
  cases x.2.arrival? c <;> rfl

theorem Watched.foldl (h : Watched c read s) (closing : Option Nat)
    (ordered : (os.map (·.1)).Pairwise (· ≤ ·))
    (last : ∀ t ∈ os.map (·.1), t ≤ now) :
    match Timeline.ending? read (timeline c os) with
    | none =>
      Watched c (read + (timeline c os).countP (·.2.isFrame)) (os.foldl (Visit.meet closing) s)
    | some e => Parted c closing e now (os.foldl (Visit.meet closing) s) := by
  induction os generalizing read s with
  | nil => exact h
  | cons x os ih =>
    have hmeet := h.meet closing x
    have hrest := ordered.tail
    have hlast : ∀ t ∈ os.map (·.1), t ≤ now := fun t ht ↦ last t (List.mem_cons_of_mem _ ht)
    rw [List.foldl_cons, timeline_cons]
    cases ha : x.2.arrival? c with
    | none =>
      rw [ha] at hmeet
      exact ih hmeet hrest hlast
    | some a =>
      rw [ha] at hmeet
      change match Timeline.ending? read ((x.1, a) :: timeline c os) with
        | none => Watched c (read + ((x.1, a) :: timeline c os).countP (·.2.isFrame)) _
        | some e => Parted c closing e now _
      rw [← Timeline.frames_cons]
      cases hreason : a.reason? with
      | none =>
        simp only [hreason] at hmeet
        simp only [Timeline.ending?, hreason]
        exact ih hmeet hrest hlast
      | some reason =>
        simp only [hreason] at hmeet
        simp only [Timeline.ending?, hreason]
        exact hmeet.foldl ordered last

theorem agrees_effect {r' : Roster} (h : Roster.Agrees c r r') (o : Occurrence) :
    Roster.Agrees c (o.effect r) (o.effect r') := by
  cases o with
  | frame | streamEnd | shutdown => exact h
  | call k => exact h.call k

theorem agrees_arrive (v : Visit) (r : Roster) (t : Nat) (closing : Option Nat) (a : Arrival) :
    Roster.Agrees v.client (v.arrive r t closing a).1 r ∧
      (v.arrive r t closing a).2.client = v.client := by
  cases hopen : v.isOpen with
  | true =>
    obtain ⟨w, hw, -, ⟨-, he⟩ | ⟨reason, -, he⟩⟩ := v.arrive_cases r t closing a hopen
    · rw [he]
      exact ⟨.refl _ r, hw⟩
    · rw [he, ← hw]
      exact ⟨r.agrees_leave w.client, rfl⟩
  | false =>
    have hshut : v.arrive r t closing a = (r, v) := if_neg (Bool.eq_false_iff.mp hopen)
    rw [hshut]
    exact ⟨.refl _ r, rfl⟩

/-- Whatever the connection does, to the others the roster is what they make of it themselves. -/
theorem agrees_meet (closing : Option Nat) {r' : Roster} (h : Roster.Agrees c s.1 r')
    (hc : s.2.client = c) (x : Nat × Occurrence) :
    Roster.Agrees c (Visit.meet closing s x).1 (x.2.effect r') ∧
      (Visit.meet closing s x).2.client = c := by
  have heffect := agrees_effect h x.2
  have hclient : (s.2.settle x.1).client = c := settle_client.trans hc
  unfold Visit.meet
  dsimp only
  split
  · rename_i a _
    obtain ⟨harrive, hsame⟩ := (s.2.settle x.1).agrees_arrive (x.2.effect s.1) x.1 closing a
    rw [hclient] at harrive hsame
    exact ⟨harrive.trans heffect, hsame⟩
  · exact ⟨heffect, hclient⟩

theorem agrees_foldl {r' : Roster} (h : Roster.Agrees c s.1 r') (hc : s.2.client = c) :
    Roster.Agrees c (os.foldl (Visit.meet closing) s).1 (os.foldl (fun r x ↦ x.2.effect r) r') := by
  induction os generalizing s r' with
  | nil => exact h
  | cons x os ih =>
    obtain ⟨hmeet, hclient⟩ := agrees_meet closing h hc x
    exact ih hmeet hclient

end

section

variable {r : Roster} {now : Nat} {closing : Option Nat}

theorem enter_join (r : Roster) (now : Nat) (closing : Option Nat) :
    (∃ r', r.create.1.join (r.created + 1) = (r', true) ∧
      enter r now closing = (r', ⟨r.created + 1, .opened, 0, 0⟩)) ∨
    ∃ r', r.create.1.join (r.created + 1) = (r', false) ∧
      enter r now closing = leave ⟨r.created + 1, .opened, 0, 0⟩ r' now closing .shutdown := by
  unfold enter
  generalize hcreate : r.create = created
  obtain ⟨r₁, id⟩ := created
  have hid : r.created + 1 = id := congrArg Prod.snd hcreate
  subst hid
  dsimp only
  rcases r₁.join (r.created + 1) with ⟨r', joined⟩
  cases joined with
  | true => exact .inl ⟨r', rfl, rfl⟩
  | false => exact .inr ⟨r', rfl, rfl⟩

theorem agrees_enter : Roster.Agrees (r.created + 1) (enter r now closing).1 r.create.1 := by
  have hagrees := r.create.1.agrees_join (r.created + 1)
  rcases enter_join r now closing with ⟨r', hjoin, henter⟩ | ⟨r', hjoin, henter⟩
  · rw [hjoin] at hagrees
    rw [henter]
    exact hagrees
  · rw [hjoin] at hagrees
    rw [henter]
    exact (r'.agrees_leave _).trans hagrees

theorem watched_enter (numbered : r.Numbered) (h : r.sealed = false) :
    Watched (r.created + 1) 0 (enter r now closing) := by
  obtain ⟨hm, hd⟩ := numbered.fresh
  rcases r.create.1.join_cases (r.created + 1) with ⟨hout, -⟩ | ⟨-, hs, -⟩ | ⟨-, -, -, hin⟩
  · exact (hout.elim hd fun hout ↦ hm hout.2).elim
  · cases h.symm.trans hs
  · rcases enter_join r now closing with ⟨r', hjoin, henter⟩ | ⟨r', hjoin, -⟩
    · cases hin.symm.trans hjoin
      rw [henter]
      exact ⟨rfl, (Roster.mem_place ..).mpr (.inl rfl), hd, h⟩
    · cases hin.symm.trans hjoin

theorem parted_enter (numbered : r.Numbered) (h : r.sealed = true) :
    Parted (r.created + 1) closing ⟨.shutdown, now, 0⟩ now (enter r now closing) := by
  obtain ⟨-, hd⟩ := numbered.fresh
  rcases r.create.1.join_cases (r.created + 1) with ⟨hout, -⟩ | ⟨-, -, hin⟩ | ⟨-, hs, -, -⟩
  · exact (hout.elim hd fun hout ↦ by cases h.symm.trans hout.1).elim
  · rcases enter_join r now closing with ⟨r', hjoin, -⟩ | ⟨r', hjoin, henter⟩
    · cases hin.symm.trans hjoin
    · cases hin.symm.trans hjoin
      rw [henter]
      refine ⟨fun u _ ↦ settle_closing .., ?_, ?_⟩
      · simp [leave, Roster.leave_members]
      · simp [leave, Roster.mem_dismissed_leave]
  · cases h.symm.trans hs

end

/-- The client of a connection is out, and its token fired. The close frame was tried once, and when
it was sent or given up the connection is over. -/
structure Ended (c : ClientNumber) (closing : Option Nat) (e : Timeline.Ending) (now : Nat)
    (s : Roster × Visit) : Prop where
  visit : s.2 = ⟨c, if e.time + farewell closing ≤ now then .closed e.reason
    else .closing e.reason (e.time + farewell closing), e.read, 1⟩
  inTime : e.time + 2000 ≤ now → s.2.reason? = some e.reason
  lost : s.1.Lost c

theorem Parted.ended {c : ClientNumber} {closing : Option Nat} {e : Timeline.Ending} {now : Nat}
    {s : Roster × Visit} (h : Parted c closing e now s) :
    Ended c closing e now (s.1, s.2.settle now) := by
  have hvisit := h.visit now (Nat.le_refl now)
  refine ⟨hvisit, fun hlate ↦ ?_, h.lost⟩
  have hlimit : farewell closing ≤ 2000 := Nat.min_le_right ..
  dsimp only
  rw [hvisit, if_pos (by omega)]
  rfl

theorem Parted.isOpen_eq_false {c : ClientNumber} {closing : Option Nat} {e : Timeline.Ending}
    {now : Nat} {s : Roster × Visit} (h : Parted c closing e now s) : s.2.isOpen = false := by
  refine decide_eq_false fun hopened ↦ ?_
  have hsame : s.2.settle now = s.2 := by simp only [Visit.settle, hopened]
  have hphase := congrArg Visit.phase (hsame.symm.trans (h.visit now (Nat.le_refl now)))
  rw [hopened] at hphase
  split at hphase <;> cases hphase

theorem Watched.settle {c : ClientNumber} {read now : Nat} {s : Roster × Visit}
    (h : Watched c read s) : Watched c read (s.1, s.2.settle now) := by
  refine ⟨?_, h.has⟩
  rw [h.visit]
  rfl

/-- Its client is made and let in, unless the roster is sealed: then it ends at once, with nothing
read. Otherwise the first thing that ends it, a close frame, the end of the stream, a read error,
its client being taken out by somebody else or the end of the server, gives the reason, whatever
comes before and after it. From then on its client is out and its token fired; the close frame is
tried once and the connection is over at the latest 2 s later. For all other clients the roster is
what the calls of the others make of it. -/
theorem lifecycle {r : Roster} (numbered : r.Numbered) {began : Nat} (closing : Option Nat)
    {os : List (Nat × Occurrence)} {now : Nat}
    (ordered : (began :: os.map (·.1)).Pairwise (· ≤ ·))
    (last : ∀ t ∈ began :: os.map (·.1), t ≤ now) :
    let c := r.created + 1
    let s := live closing (enter r began closing) os now
    ((enter r began closing).2.isOpen = true ↔ r.sealed = false) ∧
      Roster.Agrees c s.1 (os.foldl (fun r x ↦ x.2.effect r) r.create.1) ∧
      (r.sealed = true ∧ Ended c closing ⟨.shutdown, began, 0⟩ now s ∨
        r.sealed = false ∧ (∀ x ∈ timeline c os, x.2.reason? = none) ∧
          Watched c ((timeline c os).countP (·.2.isFrame)) s ∨
        r.sealed = false ∧ ∃ e, (timeline c os).FirstEnding e ∧ Ended c closing e now s) := by
  intro c s
  have hclient : (enter r began closing).2.client = c := (enter_spec ..).2.1
  have hagrees : Roster.Agrees c s.1 (os.foldl (fun r x ↦ x.2.effect r) r.create.1) :=
    agrees_foldl agrees_enter hclient
  cases hsealed : r.sealed with
  | true =>
    have hparted : Parted c closing ⟨.shutdown, began, 0⟩ began (enter r began closing) :=
      parted_enter numbered hsealed
    refine ⟨?_, hagrees, .inl ⟨rfl, (hparted.foldl ordered last).ended⟩⟩
    rw [hparted.isOpen_eq_false]
    exact iff_of_false Bool.false_ne_true Bool.true_eq_false_eq_False
  | false =>
    have hwatched : Watched c 0 (enter r began closing) := watched_enter numbered hsealed
    have hopen : (enter r began closing).2.isOpen = true := by
      rw [hwatched.visit]
      rfl
    refine ⟨iff_of_true hopen rfl, hagrees, .inr ?_⟩
    have hfoldl := hwatched.foldl closing ordered.tail
      fun t ht ↦ last t (List.mem_cons_of_mem _ ht)
    have hspec := Timeline.ending?_spec 0 (timeline c os)
    cases he : Timeline.ending? 0 (timeline c os) with
    | none =>
      rw [he] at hfoldl hspec
      rw [Nat.zero_add] at hfoldl
      exact .inl ⟨rfl, hspec, hfoldl.settle⟩
    | some e =>
      rw [he] at hfoldl hspec
      obtain ⟨before, a, later, hline, ha, hbefore, hread⟩ := hspec
      rw [Nat.zero_add] at hread
      exact .inr ⟨rfl, e, ⟨before, a, later, hline, ha, hbefore, hread⟩, hfoldl.ended⟩

/-- A roster with one client, and a connection whose client is cleared away after a frame. -/
def clearing : List (Nat × Occurrence) := [(5, .frame .text), (7, .call .clear), (9, .shutdown)]

theorem lifecycle_clearing :
    Roster.Numbered ⟨1, [1], [], false⟩ ∧
      (0 :: clearing.map (·.1)).Pairwise (· ≤ ·) ∧ (∀ t ∈ 0 :: clearing.map (·.1), t ≤ 10) ∧
      ∃ e, (timeline 2 clearing).FirstEnding e ∧
        Ended 2 none e 10 (live none (enter ⟨1, [1], [], false⟩ 0 none) clearing 10) := by
  have hledger : Ledger.Reachable (.call .empty .enroll) := .single (.call _ _ nofun)
  have hnumbered : Roster.Numbered ⟨1, [1], [], false⟩ := hledger.numbered
  have hordered : (0 :: clearing.map (·.1)).Pairwise (· ≤ ·) := by decide
  have hlast : ∀ t ∈ 0 :: clearing.map (·.1), t ≤ 10 := by decide
  obtain ⟨-, -, h⟩ := lifecycle hnumbered none hordered hlast
  refine ⟨hnumbered, hordered, hlast, ?_⟩
  rcases h with ⟨hsealed, -⟩ | ⟨-, hnone, -⟩ | ⟨-, hended⟩
  · cases hsealed
  · cases hnone (7, .evicted) (by decide)
  · exact hended

end Visit

end ChangeRelay
