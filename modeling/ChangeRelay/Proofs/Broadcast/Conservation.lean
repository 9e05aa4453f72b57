import ChangeRelay.Proofs.Broadcast.Turns

namespace ChangeRelay

namespace Conduit

open Relation (ReflTransGen)

variable {capacity timeout : Nat} {x y : Conduit} {w : String}

structure Ended (x y : Conduit) : Prop where
  phase : y.phase = x.phase
  accepted : y.accepted = x.accepted
  sent : x.sent <+: y.sent

theorem Ended.refl (x : Conduit) : Ended x x := ⟨rfl, rfl, List.prefix_rfl⟩

theorem Ended.trans {z : Conduit} (h : Ended x y) (h' : Ended y z) : Ended x z :=
  ⟨h'.phase.trans h.phase, h'.accepted.trans h.accepted, h.sent.trans h'.sent⟩

theorem Ended.isGone (h : Ended x y) (hx : x.IsGone) : y.IsGone := by
  obtain ⟨e, he⟩ := hx
  exact ⟨e, h.phase.trans he⟩

theorem send_of_gone (h : Places capacity x) (hx : x.IsGone) (w : String) :
    x.send w = { x with sent := x.sent ++ [w], refused := x.refused ++ [w] } := by
  have hc := h.isOpen.mpr hx
  rcases x.send_cases w with ⟨ho, _⟩ | ⟨ho, _⟩ | ⟨_, he⟩
  · rw [hc] at ho
    cases ho
  · rw [hc] at ho
    cases ho
  · exact he

theorem Step.ended (h : Places capacity x) (hx : x.IsGone) (hs : Step timeout x y) : Ended x y := by
  have hc := h.isOpen.mpr hx
  obtain ⟨e, he⟩ := hx
  cases hs with
  | send w held =>
    rw [send_of_gone h ⟨e, he⟩]
    exact ⟨rfl, rfl, List.prefix_append _ _⟩
  | fulfil w waits isOpen =>
    rw [hc] at isOpen
    cases isOpen
  | turnAway | revoke | release | cancel | fanout => exact ⟨rfl, rfl, List.prefix_rfl⟩
  | launch hp | drop hp | stop hp | listen hp | rest hp | desert hp | take hp | begin hp
  | finish hp =>
    rw [he] at hp
    cases hp

theorem ended_run (h : Places capacity x) (hx : x.IsGone) (hr : ReflTransGen (Step timeout) x y) :
    Places capacity y ∧ Ended x y := by
  induction hr with
  | refl => exact ⟨h, .refl x⟩
  | tail _ hs ih => exact ⟨ih.1.step hs, ih.2.trans (hs.ended ih.1 (ih.2.isGone hx))⟩

/-- What can be said when the relay is gone: of what was accepted, how much was dispatched and to
whom, and what becomes of those who send. -/
structure Final (timeout : Nat) (x : Conduit) : Prop where
  dispatched : x.fanout.past.map (·.payload) = x.accepted.take x.dispatched
  deserted : x.phase = .gone .deserted → x.dispatched = x.accepted.length
  received : ∀ c k, x.fanout.audience.client? c = some k → x.fanout.joined c = some 0 →
    x.fanout.left c = none → k.received = x.accepted.take x.dispatched
  refuses : ∀ w, x.send w = { x with sent := x.sent ++ [w], refused := x.refused ++ [w] }
  frees : ∀ w, w ∈ x.blocked ∨ w ∈ x.promised →
    ∃ y, Step timeout x y ∧ y.refused = x.refused ++ [w]
  accepted : ∀ y, ReflTransGen (Step timeout) x y → y.accepted = x.accepted
  refused : ∀ y, ReflTransGen (Step timeout) x y → y.blocked = [] → y.promised = [] →
    ∃ later, y.sent = x.sent ++ later ∧
      y.refused.Perm (x.refused ++ x.blocked ++ x.promised ++ later)

structure Conserved (capacity timeout : Nat) (x : Conduit) : Prop where
  whole : x.accepted = x.fanout.past.map (·.payload) ++ x.inHand ++ x.queue.payloads ++ x.lost
  bounded : x.queue.payloads.length ≤ max capacity 1
  living : ¬x.IsGone → x.lost = [] ∧ x.refused = []
  sent : x.sent.Perm (x.accepted ++ x.blocked ++ x.promised ++ x.refused)
  blocked : ¬x.IsGone → x.blocked ≠ [] →
    x.queue.payloads.length + x.promised.length = max capacity 1
  counted : x.dispatched = x.fanout.past.length
  snapshots : ∀ i d, x.fanout.past[i]? = some d →
    d.isOver = true ∧ Fanout.Tells x.fanout.joined x.fanout.left i d
  final : x.IsGone → Final timeout x

theorem Flow.empty_handed (h : Flow x) (hx : x.IsGone) : x.inHand = [] := by
  obtain ⟨e, he⟩ := hx
  have hidle : x.fanout.current = none := h.idle (by simp [he])
  simp [inHand, he, hidle]

theorem Flow.whole_of_gone (h : Flow x) (hp : Places capacity x) (hx : x.IsGone) :
    x.accepted = x.fanout.past.map (·.payload) ++ x.lost := by
  have hq := h.closed (hp.isOpen.mpr hx)
  rw [h.whole, h.empty_handed hx, hq, List.append_nil, List.append_nil]

theorem Flow.dispatched_of_gone (h : Flow x) (hp : Places capacity x) (hx : x.IsGone) :
    x.fanout.past.map (·.payload) = x.accepted.take x.dispatched := by
  rw [h.whole_of_gone hp hx, h.counted, List.take_left' (List.length_map _)]

theorem Flow.received_of_gone (h : Flow x) (hp : Places capacity x) (hx : x.IsGone)
    {c : ClientNumber} {k : Client} (hk : x.fanout.audience.client? c = some k)
    (hj : x.fanout.joined c = some 0) (hl : x.fanout.left c = none) :
    k.received = x.accepted.take x.dispatched := by
  obtain ⟨e, he⟩ := hx
  have hidle : x.fanout.current = none := h.idle (by simp [he])
  have hpay : x.fanout.payloads = x.fanout.past.map (·.payload) := by
    simp [Fanout.payloads, Fanout.dispatches, hidle]
  obtain ⟨n, hn⟩ := h.fanout.served hk hj
  have hrec : k.received = x.fanout.payloads.take n := hn.received
  rw [hrec, ← h.dispatched_of_gone hp ⟨e, he⟩, hpay, List.take_of_length_le]
  rw [List.length_map]
  exact hn.past_le hl

theorem Flow.final (h : Flow x) (hp : Places capacity x) (hx : x.IsGone) : Final timeout x where
  dispatched := h.dispatched_of_gone hp hx
  deserted hd := by
    have hw := h.whole_of_gone hp hx
    rw [h.deserted hd, List.append_nil] at hw
    rw [hw, List.length_map, h.counted]
  received c k hk hj hl := h.received_of_gone hp hx hk hj hl
  refuses := send_of_gone hp hx
  frees w hw := by
    have hc := hp.isOpen.mpr hx
    rcases hw with hw | hw
    · exact ⟨_, .turnAway x w hw hc, rfl⟩
    · exact ⟨_, .revoke x w hw hc, rfl⟩
  accepted y hr := (ended_run hp hx hr).2.accepted
  refused y hr hblocked hpromised := by
    have hended := (ended_run hp hx hr).2
    obtain ⟨later, hlater⟩ := hended.sent
    refine ⟨later, hlater.symm, ?_⟩
    rw [List.perm_iff_count]
    intro v
    have hxv := h.sent v
    have hyv := (inv_run hp h hr).2.sent v
    rw [← hlater, hended.accepted, hblocked, hpromised] at hyv
    simp only [List.count_append, List.count_nil] at hyv ⊢
    omega

theorem Reachable.conserved (h : Reachable capacity timeout x) : Conserved capacity timeout x := by
  obtain ⟨hp, hf⟩ := h.inv
  have hopen (hg : ¬x.IsGone) : x.queue.isOpen = true := by
    rw [← Bool.not_eq_false, hp.isOpen]
    exact hg
  refine ⟨hf.whole, ?_, ?_, ?_, ?_, hf.counted, ?_, hf.final hp⟩
  · have hfits := hp.fits
    rw [hp.capacity] at hfits
    omega
  · intro hg
    exact (hf.isOpen (hopen hg)).symm
  · rw [List.perm_iff_count]
    intro v
    simp only [List.count_append, hf.sent v]
  · intro hg hb
    have ho := hopen hg
    have hfull := Queue.hasRoom_eq_false.mp (hp.full ho hb)
    have hfits := hp.fits
    rw [hp.promised ho, hp.capacity] at hfull hfits
    omega
  · intro i d hi
    refine ⟨hf.fanout.allOver d (List.mem_of_getElem? hi), ?_⟩
    exact hf.fanout.tells i d (Fanout.getElem?_dispatches.mpr (.inl hi))

/-- Nothing is lost on the way, whoever takes the next step. And so it is with a relay, whatever
happens to it. -/
theorem nothing_lost (capacity timeout : Nat) :
    (∀ x, Reachable capacity timeout x → Conserved capacity timeout x) ∧
    ∀ (f : Fanout) (r : Relay), Fanout.Reachable timeout f → f.dispatches = [] →
      ReflTransGen Relay.Happens { Relay.new capacity timeout with audience := f.audience } r →
      ∃ x, Reachable capacity timeout x ∧ Shows timeout x r ∧ Conserved capacity timeout x := by
  refine ⟨fun x h ↦ h.conserved, ?_⟩
  intro f r hf h₀ hr
  obtain ⟨x, hx, hshows⟩ := shows_run hf h₀ hr
  exact ⟨x, hx, hshows, hx.conserved⟩

def couple : Fanout := (((Fanout.empty.create .steady).enter 1).create .steady).enter 2

theorem couple_reachable : Fanout.Reachable 5 couple := by
  have h₁ : Fanout.Reachable 5 (Fanout.empty.create .steady) := .tail .refl (.create _ _)
  have h₂ := h₁.tail (.enter _ 1 (by decide) rfl)
  have h₃ := h₂.tail (.create _ .steady)
  exact h₃.tail (.enter _ 2 (by decide) rfl)

/-- The first payload goes to both, while the second fills the queue and the third waits. Then the
relay is cancelled. -/
def cut : Conduit where
  queue := ⟨1, [], 0, false⟩
  blocked := []
  promised := []
  sent := ["a", "b", "c", "d"]
  accepted := ["a", "b"]
  refused := ["c", "d"]
  lost := ["b"]
  fanout := (((((couple.begin "a").start 5 0).start 5 0).settle ⟨1, 0, true⟩).settle
    ⟨2, 0, true⟩).finish
  phase := .gone .cancelled
  dispatched := 1
  cancelled := true
  released := false

theorem cut_reachable : Reachable 0 5 cut := by
  have h₁ : Reachable 0 5 { new 0 with fanout := couple } := reachable_before couple_reachable rfl
  have h₂ := ((h₁.tail (.send _ "a" rfl)).tail (.launch _ rfl)).tail (.listen _ rfl rfl)
  have h₃ := (h₂.tail (.take _ rfl rfl)).tail (.begin _ rfl)
  have h₄ := (h₃.tail (.send _ "b" rfl)).tail (.send _ "c" rfl)
  have h₅ := h₄.tail (.fanout _ (.start _ 0 rfl (by decide)) rfl rfl)
  have h₆ := h₅.tail (.fanout _ (.start _ 0 rfl (by decide)) rfl rfl)
  have h₇ := h₆.tail (.fanout _ (.settle _ ⟨1, 0, true⟩ rfl (by decide)) rfl rfl)
  have h₈ := h₇.tail (.fanout _ (.settle _ ⟨2, 0, true⟩ rfl (by decide)) rfl rfl)
  have h₉ := ((h₈.tail (.cancel _)).tail (.finish _ rfl rfl rfl)).tail (.stop _ rfl rfl)
  exact (h₉.trans (turnAway_all rfl rfl)).tail (.send _ "d" rfl)

def atWork : Relay :=
  ({ Relay.new 0 5 with audience := couple.audience }.addProducer ["a", "b", "c"]).start.advance 10

theorem atWork_happens :
    ReflTransGen Relay.Happens { Relay.new 0 5 with audience := couple.audience } atWork :=
  ((ReflTransGen.single (.addProducer _ ["a", "b", "c"] rfl)).tail (.start _ rfl)).trans
    (Relay.happens_advanceSteps _ _ _ _)

theorem nothing_lost_cut :
    Reachable 0 5 cut ∧ Conserved 0 5 cut ∧
      (∀ c k, cut.fanout.audience.client? c = some k → cut.fanout.joined c = some 0 →
        cut.fanout.left c = none → k.received = ["a"]) ∧
      ∃ x, Reachable 0 5 x ∧ Shows 5 x atWork ∧ x.dispatched = 3 := by
  have hlaw := nothing_lost 0 5
  have hcut := hlaw.1 cut cut_reachable
  obtain ⟨x, hx, hshows, _⟩ := hlaw.2 couple atWork couple_reachable rfl atWork_happens
  have hthree : atWork.dispatched = 3 := by decide
  exact ⟨cut_reachable, hcut, (hcut.final ⟨.cancelled, rfl⟩).received, x, hx, hshows,
    hshows.dispatched.trans hthree⟩

end Conduit

end ChangeRelay
