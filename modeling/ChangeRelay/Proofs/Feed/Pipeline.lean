import ChangeRelay.Proofs.Broadcast.Schedule
import ChangeRelay.Proofs.Feed.Rounds

namespace ChangeRelay

open Relation (ReflTransGen)

/-- Two relays that differ in nothing but the time and whose turn it is. -/
structure Relay.Alike (r r' : Relay) : Prop where
  audience : r'.audience = r.audience
  queue : r'.queue = r.queue
  stage : r'.stage = r.stage
  timeout : r'.timeout = r.timeout
  waiting : r'.waiting = r.waiting

theorem Relay.alike_wake (r : Relay) : r.Alike r.wake := by
  unfold wake
  split <;> exact ⟨rfl, rfl, rfl, rfl, rfl⟩

theorem Relay.alike_notify (r : Relay) : r.Alike r.notify := by
  unfold notify
  split
  · exact r.alike_wake
  · exact ⟨rfl, rfl, rfl, rfl, rfl⟩

theorem Relay.promisePlace_of_nobody {r : Relay} (h : r.waiting = []) : r.promisePlace = r := by
  simp [promisePlace, h]

theorem Relay.exists_take? {r : Relay} {w : String} {ws : List String}
    (h : r.queue.payloads = w :: ws) : ∃ r', r.take? = some r' := by
  simp [take?, Queue.take?, h]

theorem Relay.send_of_offer {r : Relay} {w : String} {q : Queue}
    (h : r.queue.offer w = .accepted q) :
    r.send w = (notify { r with queue := q }, .accepted q) := by
  simp only [send, h]

inductive Relay.Moves : Relay → Relay → Prop
  | take {r r' : Relay} (idle : r.stage = .waiting) (taken : r.take? = some r') : Moves r r'
  | endLeg {r : Relay} {d : Dispatch} {leg : Leg} (busy : r.stage = .busy d)
      (underway : leg ∈ d.begun) : Moves r (r.endLeg d leg)
  | complete {r : Relay} {d : Dispatch} (busy : r.stage = .busy d) (allOver : d.isOver = true) :
      Moves r r.complete
  | wait {r r' : Relay} (alike : r.Alike r') : Moves r r'

def Relay.serving (capacity timeout : Nat) (a : Audience) : Relay :=
  { Relay.new capacity timeout with audience := a }.start

namespace Feed

def unsent (p : Feed) : List String :=
  match p.phase with
  | .sending es _ _ => es.map (·.payload)
  | _ => []

def Answer.payloads (a : Answer) : List String :=
  match a.result with
  | .ok es => es.map (·.payload)
  | .error _ => []

theorem phase_of_next? {p : Feed} {w : String} (h : p.next? = some w) :
    ∃ e es n m, p.phase = .sending (e :: es) n m ∧ w = e.payload := by
  unfold next? at h
  split at h
  · rename_i e es n m hp
    cases h
    exact ⟨e, es, n, m, hp, rfl⟩
  · cases h

namespace Run

/-- One step of the feed or of the relay. A payload that finds no room waits. -/
inductive Step : Run → Run → Prop
  | ask {r : Run} (idle : r.feed.phase = .idle) :
      Step r { r with
        feed := r.feed.ask.1
        calls := r.calls ++ [(r.relay.now, r.feed.ask.2)] }
  | receive {r : Run} (calling : r.feed.phase = .calling) :
      Step r { r with
        feed := (r.feed.receive (r.answers.head?.getD .nothing).result).1
        answers := r.answers.tail }
  | send {r : Run} {w : String} {relay : Relay} {q : Queue} (next : r.feed.next? = some w)
      (taken : r.relay.send w = (relay, .accepted q)) :
      Step r { r with relay := relay, feed := r.feed.accepted }
  | refuse {r : Run} {w : String} {relay : Relay} (next : r.feed.next? = some w)
      (gone : r.relay.send w = (relay, .closed)) : Step r { r with feed := r.feed.turnedAway.1 }
  | finish {r : Run} {n m : Nat} (sent : r.feed.phase = .sending [] n m) :
      Step r { r with feed := r.feed.finish.1 }
  | relay {r : Run} {relay : Relay} (moves : r.relay.Moves relay) : Step r { r with relay := relay }

/-- How the state of a run hangs together with the dispatches so far. -/
structure Flow (timeout : Nat) (script : List String) (r : Run) (f : Fanout) : Prop where
  inv : f.Inv
  shows : f.Shows r.relay
  timeout : r.relay.timeout = timeout
  working : r.relay.stage = .waiting ∨ ∃ d, r.relay.stage = .busy d
  nobody : r.relay.waiting = []
  capacity : 0 < r.relay.queue.capacity
  promised : r.relay.queue.promised = 0
  isOpen : r.relay.queue.isOpen = true
  going : r.feed.phase ≠ .stopped
  whole : f.payloads ++ r.relay.queue.payloads ++ r.feed.unsent ++
    r.answers.flatMap Answer.payloads = script

variable {timeout : Nat} {script : List String} {r r' : Run} {f : Fanout}

theorem Flow.start {f : Fanout} (hf : f.Inv) (h₀ : f.dispatches = []) (watermark : Watermark)
    (capacity timeout : Nat) (answers : List Answer) :
    Flow timeout (answers.flatMap Answer.payloads)
      (start watermark (.serving capacity timeout f.audience) answers) f := by
  have hcur : f.current = none := by
    cases hcur : f.current with
    | none => rfl
    | some d => simp [Fanout.dispatches, hcur] at h₀
  refine ⟨hf, ⟨rfl, hcur, ?_⟩, rfl, .inl rfl, rfl, ?_, rfl, rfl, ?_, ?_⟩
  · intro d hd
    rw [hcur] at hd
    cases hd
  · exact Nat.lt_of_lt_of_le Nat.zero_lt_one (Nat.le_max_right capacity 1)
  · exact fun h ↦ by cases h
  · rw [Fanout.payloads, h₀]
    rfl

theorem Flow.alike {relay : Relay} (h : Flow timeout script r f) (alike : r.relay.Alike relay) :
    Flow timeout script { r with relay := relay } f where
  inv := h.inv
  shows := ⟨h.shows.audience.trans alike.audience.symm,
    h.shows.current.trans (by rw [alike.stage]), h.shows.begun⟩
  timeout := alike.timeout.trans h.timeout
  working := alike.stage ▸ h.working
  nobody := alike.waiting.trans h.nobody
  capacity := alike.queue ▸ h.capacity
  promised := alike.queue ▸ h.promised
  isOpen := alike.queue ▸ h.isOpen
  going := h.going
  whole := by rw [← h.whole, alike.queue]

theorem Flow.relay {relay : Relay} (h : Flow timeout script r f) (hm : r.relay.Moves relay) :
    ∃ g, ReflTransGen (Fanout.Delivers timeout) f g ∧
      Flow timeout script { r with relay := relay } g := by
  have h' := h
  obtain ⟨hinv, hshows, ht, hwork, hnobody, hcap, hprom, hopen, hgo, hwhole⟩ := h'
  cases hm with
  | take idle taken =>
    obtain ⟨g, payload, hrun, hg, hpay, hq⟩ := hshows.take idle taken
    obtain ⟨_, q, hqt, hr⟩ := Relay.take?_eq_some taken
    rw [Relay.promisePlace_of_nobody (r := { r.relay with
      queue := q, patience := r.relay.patience - 2 }) hnobody] at hr
    obtain ⟨ws, _, rfl⟩ := Queue.take?_eq_some.mp hqt
    subst hr
    subst ht
    refine ⟨g, hrun, hinv.delivers hrun, hg, rfl, .inr ⟨_, rfl⟩, hnobody, hcap, hprom, hopen, hgo,
      ?_⟩
    rw [← hwhole, hpay, hq]
    simp
  | endLeg busy underway =>
    obtain ⟨g, hd, hg, hpay⟩ := hshows.endLeg busy underway
    subst ht
    refine ⟨g, .single hd, hinv.step hd.step, hg, rfl, .inr ⟨_, rfl⟩, hnobody, hcap, hprom, hopen,
      hgo, ?_⟩
    rw [← hwhole, hpay]
    rfl
  | complete busy allOver =>
    obtain ⟨g, hd, hg, hpay⟩ := hshows.complete busy allOver
    subst ht
    refine ⟨g, .single hd, hinv.step hd.step, hg, rfl, .inl rfl, hnobody, hcap, hprom, hopen,
      hgo, ?_⟩
    rw [← hwhole, hpay]
    rfl
  | wait alike => exact ⟨f, .refl, h.alike alike⟩

theorem Flow.feed (h : Flow timeout script r f) {p : Feed} {as : List Answer}
    {cs : List (Nat × Int)} (going : p.phase ≠ .stopped)
    (hw : p.unsent ++ as.flatMap Answer.payloads =
      r.feed.unsent ++ r.answers.flatMap Answer.payloads) :
    Flow timeout script { r with feed := p, answers := as, calls := cs } f := by
  refine ⟨h.inv, h.shows, h.timeout, h.working, h.nobody, h.capacity, h.promised, h.isOpen, going,
    ?_⟩
  rw [← h.whole, List.append_assoc _ r.feed.unsent, ← hw, ← List.append_assoc]

theorem Flow.send (h : Flow timeout script r f) {w : String} {relay : Relay} {q : Queue}
    (next : r.feed.next? = some w) (taken : r.relay.send w = (relay, .accepted q)) :
    Flow timeout script { r with relay := relay, feed := r.feed.accepted } f := by
  obtain ⟨hoffer, rfl⟩ := Relay.send_of_accepted taken
  obtain ⟨hopen, _, rfl⟩ := Queue.offer_eq_accepted.mp hoffer
  obtain ⟨e, es, n, m, hp, rfl⟩ := phase_of_next? next
  obtain ⟨_, _, he, _, ha⟩ := eq_cons_of_next? hp next
  cases he
  have hq : Flow timeout script
      { r with
        relay := { r.relay with
          queue := { r.relay.queue with payloads := r.relay.queue.payloads ++ [e.payload] } }
        feed := r.feed.accepted } f := by
    refine ⟨h.inv, ⟨h.shows.audience, h.shows.current, h.shows.begun⟩, h.timeout, h.working,
      h.nobody, h.capacity, h.promised, h.isOpen, ?_, ?_⟩
    · intro hn
      rw [ha] at hn
      cases hn
    · rw [← h.whole, ha]
      simp [unsent, hp]
  exact hq.alike (Relay.alike_notify _)

theorem Flow.step (h : Flow timeout script r f) (hs : Step r r') :
    ∃ g, ReflTransGen (Fanout.Delivers timeout) f g ∧ Flow timeout script r' g := by
  cases hs with
  | ask idle =>
    refine ⟨f, .refl, h.feed (fun hn ↦ by cases hn) ?_⟩
    simp [unsent, Feed.ask, idle]
  | receive calling =>
    refine ⟨f, .refl, h.feed ?_ ?_⟩
    · cases (r.answers.head?.getD .nothing).result <;> exact fun hn ↦ by cases hn
    · cases has : r.answers with
      | nil => simp [unsent, Feed.receive, Answer.nothing, calling]
      | cons a as =>
        cases ha : a.result <;> simp [unsent, Feed.receive, Answer.payloads, calling, ha]
  | send next taken => exact ⟨f, .refl, h.send next taken⟩
  | refuse next gone =>
    have hc := Queue.offer_eq_closed.mp (Relay.send_of_closed gone)
    rw [h.isOpen] at hc
    cases hc
  | @finish n m sent =>
    refine ⟨f, .refl, h.feed ?_ ?_⟩
    · simp [Feed.finish, sent]
    · simp [Feed.finish, unsent, sent]
  | relay moves => exact h.relay moves

theorem Flow.run (h : Flow timeout script r f) (hr : ReflTransGen Step r r') :
    ∃ g, ReflTransGen (Fanout.Delivers timeout) f g ∧ Flow timeout script r' g := by
  induction hr with
  | refl => exact ⟨f, .refl, h⟩
  | tail _ hs ih =>
    obtain ⟨g, hg, hflow⟩ := ih
    obtain ⟨g', hg', hflow'⟩ := hflow.step hs
    exact ⟨g', hg.trans hg', hflow'⟩

structure Drained (r : Run) : Prop where
  answers : r.answers = []
  idle : r.feed.phase = .idle
  queue : r.relay.queue.payloads = []
  stage : r.relay.stage = .waiting

theorem Flow.received (h : Flow timeout script r f) {c : ClientNumber} (hc : f.Steady timeout c) :
    ∃ k, r.relay.audience.client? c = some k ∧ k.received <+: script ∧
      (Drained r → k.received = script) := by
  obtain ⟨k, hk, hpre, hall⟩ := hc.received h.inv
  refine ⟨k, h.shows.audience ▸ hk, hpre.trans ?_, ?_⟩
  · rw [← h.whole, List.append_assoc, List.append_assoc]
    exact List.prefix_append _ _
  · intro hd
    have hcur : f.current = none := by
      rw [h.shows.current, hd.stage]
      rfl
    have hleft : r.feed.unsent = [] := by simp [unsent, hd.idle]
    rw [hall hcur, ← h.whole, hd.queue, hd.answers, hleft]
    simp

theorem Flow.rests (h : Flow timeout script r f) :
    ∃ relay g, ReflTransGen Step r { r with relay := relay } ∧
      Flow timeout script { r with relay := relay } g ∧ relay.stage = .waiting ∧
      relay.queue = r.relay.queue := by
  rcases h.working with hw | ⟨d, hbusy⟩
  · exact ⟨r.relay, f, .refl, h, hw, rfl⟩
  · -- Each step ends one of the deliveries that are underway.
    obtain ⟨n, hn⟩ : ∃ n, d.begun.length = n := ⟨_, rfl⟩
    induction n using Nat.strongRecOn generalizing r f d with
    | ind n ih =>
      have hwait : d.waiting = [] := h.shows.begun d (by rw [h.shows.current, hbusy]; rfl)
      cases hb : d.begun with
      | nil =>
        have hm := Relay.Moves.complete hbusy (by simp [Dispatch.isOver, hwait, hb])
        obtain ⟨g, _, hg⟩ := h.relay hm
        exact ⟨_, g, .single (.relay hm), hg, rfl, rfl⟩
      | cons leg legs =>
        have hl : leg ∈ d.begun := hb ▸ List.mem_cons_self
        have hm := Relay.Moves.endLeg hbusy hl
        obtain ⟨g, _, hg⟩ := h.relay hm
        have hless : (d.settle r.relay.audience leg).2.begun.length < n := by
          rw [← hn]
          exact List.length_filter_lt_length_iff_exists.mpr ⟨leg, hl, by simp⟩
        obtain ⟨relay, g', hrun, hg', hstage, hq⟩ := ih _ hless hg _ rfl rfl
        exact ⟨relay, g', hrun.head (.relay hm), hg', hstage, hq⟩

theorem Flow.empties (h : Flow timeout script r f) :
    ∃ relay g, ReflTransGen Step r { r with relay := relay } ∧
      Flow timeout script { r with relay := relay } g ∧ relay.stage = .waiting ∧
      relay.queue.payloads = [] := by
  obtain ⟨ws, hws⟩ : ∃ ws, r.relay.queue.payloads = ws := ⟨_, rfl⟩
  induction ws generalizing r f with
  | nil =>
    obtain ⟨relay, g, hrun, hg, hstage, hq⟩ := h.rests
    exact ⟨relay, g, hrun, hg, hstage, by rw [hq, hws]⟩
  | cons w ws ih =>
    obtain ⟨relay, g, hrun, hg, hstage, hq⟩ := h.rests
    obtain ⟨relay', ht⟩ := Relay.exists_take? (hq ▸ hws : relay.queue.payloads = w :: ws)
    have hm := Relay.Moves.take hstage ht
    obtain ⟨_, payload, _, _, _, hpay⟩ := hg.shows.take hstage ht
    have hws' : relay'.queue.payloads = ws := by
      have hcons := hpay.symm.trans (hq ▸ hws)
      exact (List.cons.inj hcons).2
    obtain ⟨g', _, hg'⟩ := hg.relay hm
    obtain ⟨relay'', g'', hrun', hg'', hstage', hq'⟩ := ih hg' hws'
    exact ⟨relay'', g'', (hrun.tail (.relay hm)).trans hrun', hg'', hstage', hq'⟩

/-- What is left of an answer is sent, since the queue can be emptied before each payload. -/
theorem Flow.sends (h : Flow timeout script r f) {es : List Event} {n m : Nat}
    (hp : r.feed.phase = .sending es n m) :
    ∃ r' g, ReflTransGen Step r r' ∧ Flow timeout script r' g ∧ r'.answers = r.answers ∧
      r'.feed.phase = .idle := by
  induction es generalizing r f m with
  | nil =>
    have hs : Step r { r with feed := r.feed.finish.1 } := .finish hp
    obtain ⟨g, _, hg⟩ := h.step hs
    exact ⟨_, g, .single hs, hg, rfl, by simp [Feed.finish, hp]⟩
  | cons e es ih =>
    obtain ⟨relay, g, hrun, hg, _, hq⟩ := h.empties
    have hnext : r.feed.next? = some e.payload := by simp [next?, hp]
    have hroom : relay.queue.hasRoom = true := by
      have hprom : relay.queue.promised = 0 := hg.promised
      simp only [Queue.hasRoom, hq, hprom, List.length_nil, decide_eq_true_eq]
      exact hg.capacity
    obtain ⟨q, hoffer⟩ : ∃ q, relay.queue.offer e.payload = .accepted q :=
      ⟨_, Queue.offer_eq_accepted.mpr ⟨hg.isOpen, hroom, rfl⟩⟩
    have hs := Step.send (r := { r with relay := relay }) hnext (Relay.send_of_offer hoffer)
    obtain ⟨g', _, hg'⟩ := hg.step hs
    have hp' : r.feed.accepted.phase = .sending es n (m + 1) := by simp [accepted, hp]
    obtain ⟨r', g'', hrun', hg'', ha, hidle⟩ := ih hg' hp'
    exact ⟨r', g'', (hrun.tail hs).trans hrun', hg'', ha, hidle⟩

theorem Flow.receives (h : Flow timeout script r f) (hp : r.feed.phase = .calling) :
    ∃ r' g, ReflTransGen Step r r' ∧ Flow timeout script r' g ∧ r'.answers = r.answers.tail ∧
      r'.feed.phase = .idle := by
  have hs := Step.receive hp
  obtain ⟨g, _, hg⟩ := h.step hs
  cases ha : (r.answers.head?.getD .nothing).result with
  | error e =>
    refine ⟨_, g, .single hs, hg, rfl, ?_⟩
    rw [ha]
    rfl
  | ok es =>
    have hsending : (r.feed.receive (r.answers.head?.getD .nothing).result).1.phase =
        .sending es es.length 0 := by
      rw [ha]
      rfl
    obtain ⟨r', g', hrun, hg', has, hidle⟩ := hg.sends hsending
    exact ⟨r', g', hrun.head hs, hg', has, hidle⟩

theorem Flow.rounds (h : Flow timeout script r f) (hp : r.feed.phase = .idle) :
    ∃ r' g, ReflTransGen Step r r' ∧ Flow timeout script r' g ∧ r'.answers = [] ∧
      r'.feed.phase = .idle := by
  obtain ⟨as, has⟩ : ∃ as, r.answers = as := ⟨_, rfl⟩
  induction as generalizing r f with
  | nil => exact ⟨r, f, .refl, h, has, hp⟩
  | cons a as ih =>
    have hs := Step.ask hp
    obtain ⟨g, _, hg⟩ := h.step hs
    obtain ⟨r₁, g₁, hrun₁, hg₁, ha₁, hidle₁⟩ := hg.receives rfl
    obtain ⟨r₂, g₂, hrun₂, hg₂, ha₂, hidle₂⟩ := ih hg₁ hidle₁ (by rw [ha₁, has]; rfl)
    exact ⟨r₂, g₂, (hrun₁.head hs).trans hrun₂, hg₂, ha₂, hidle₂⟩

/-- Whatever happened before, nothing stands in the way of draining the run. -/
theorem Flow.drains (h : Flow timeout script r f) : ∃ r', ReflTransGen Step r r' ∧ Drained r' := by
  have hidle : ∃ r₁ g, ReflTransGen Step r r₁ ∧ Flow timeout script r₁ g ∧
      r₁.feed.phase = .idle := by
    cases hp : r.feed.phase with
    | idle => exact ⟨r, f, .refl, h, hp⟩
    | calling =>
      obtain ⟨r₁, g, hrun, hg, _, hidle⟩ := h.receives hp
      exact ⟨r₁, g, hrun, hg, hidle⟩
    | sending es n m =>
      obtain ⟨r₁, g, hrun, hg, _, hidle⟩ := h.sends hp
      exact ⟨r₁, g, hrun, hg, hidle⟩
    | stopped => exact absurd hp h.going
  obtain ⟨r₁, g₁, hrun₁, hg₁, hidle₁⟩ := hidle
  obtain ⟨r₂, g₂, hrun₂, hg₂, ha₂, hidle₂⟩ := hg₁.rounds hidle₁
  obtain ⟨relay, g₃, hrun₃, _, hstage, hq⟩ := hg₂.empties
  exact ⟨_, (hrun₁.trans hrun₂).trans hrun₃, ha₂, hidle₂, hq, hstage⟩

end Run

end Feed

end ChangeRelay
