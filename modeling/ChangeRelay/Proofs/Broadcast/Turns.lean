import ChangeRelay.Proofs.Broadcast.Conduit

namespace ChangeRelay

open Relation (ReflTransGen)

/-- What somebody comes with to the place that was promised. -/
def Party.pledge? : Party → Option (Option String)
  | producer ⟨ws, true⟩ => some ws.head?
  | _ => none

/-- One thing that happens: somebody has a turn, or something is done with the relay from outside by
those who may do it. -/
inductive Relay.Happens : Relay → Relay → Prop
  | step {r r' : Relay} (h : r.step? = some r') : Happens r r'
  | start (r : Relay) (unstarted : r.stage = .unstarted) : Happens r r.start
  | drop (r : Relay) (unstarted : r.stage = .unstarted) : Happens r r.stop
  | cancel (r : Relay) : Happens r r.cancel
  | release (r : Relay) : Happens r r.release
  | send (r : Relay) (payload : String) (held : r.senderHeld = true) : Happens r (r.send payload).1
  | addProducer (r : Relay) (payloads : List String) (held : r.senderHeld = true) :
      Happens r (r.addProducer payloads)
  | wait (r : Relay) (t : Nat) : Happens r { r with now := t }
  | wake (r : Relay) : Happens r r.wake

namespace Relay

variable {r : Relay}

theorem isDeserted_iff : r.isDeserted = true ↔
    r.senderHeld = false ∧ r.waiting = [] ∧ ∀ t ∈ r.turns, t = .relay := by
  simp [isDeserted, and_assoc]

theorem take?_eq_none (ht : r.take? = none) : r.queue.payloads = [] := by
  unfold take? Queue.take? at ht
  cases hq : r.queue.payloads with
  | nil => rfl
  | cons w ws => simp [hq] at ht

end Relay

namespace Conduit

inductive Phase.Shows : Phase → Stage → Prop
  | unstarted : Shows .unstarted .unstarted
  | waiting : Shows .waiting .waiting
  | busy (d : Dispatch) : Shows .busy (.busy d)
  | gone (e : Ending) : Shows (.gone e) .gone

theorem Phase.Shows.eq_unstarted {p : Phase} (h : p.Shows .unstarted) : p = .unstarted := by
  cases h
  rfl

theorem Phase.Shows.eq_waiting {p : Phase} (h : p.Shows .waiting) : p = .waiting := by
  cases h
  rfl

theorem Phase.Shows.eq_busy {p : Phase} {d : Dispatch} (h : p.Shows (.busy d)) : p = .busy := by
  cases h
  rfl

/-- A conduit that shows what a relay is at, and who waits for a place or was promised one. That the
relay was cancelled, or that nobody can send any more, it may learn when the relay does. -/
structure Shows (timeout : Nat) (x : Conduit) (r : Relay) : Prop where
  timeout : r.timeout = timeout
  queue : x.queue = r.queue
  fanout : x.fanout.Shows r
  phase : x.phase.Shows r.stage
  dispatched : x.dispatched = r.dispatched
  blocked : x.blocked.map some = r.waiting.map (·.remaining.head?)
  promised : x.promised.map some = r.turns.filterMap Party.pledge?
  cancelled : x.cancelled = true → x.IsGone
  released : x.released = true → r.isDeserted = true

variable {capacity timeout : Nat} {x : Conduit} {r r' : Relay} {p : Producer} {ts : List Party}

theorem Shows.turn (h : Shows timeout x r) (hp : ts.filterMap Party.pledge? =
      r.turns.filterMap Party.pledge?) (hd : ∀ t ∈ ts, t = .relay ∨ t ∈ r.turns)
    (now patience : Nat) (cancelAt : Option Nat) :
    Shows timeout x
      { r with turns := ts, now := now, patience := patience, cancelAt := cancelAt } := by
  refine ⟨h.timeout, h.queue, ⟨h.fanout.audience, h.fanout.current, h.fanout.begun⟩, h.phase,
    h.dispatched, h.blocked, h.promised.trans hp.symm, h.cancelled, ?_⟩
  intro hr
  obtain ⟨hs, hw, ht⟩ := Relay.isDeserted_iff.mp (h.released hr)
  refine Relay.isDeserted_iff.mpr ⟨hs, hw, ?_⟩
  intro t hm
  exact (hd t hm).elim id (ht t)

theorem Shows.wake (h : Shows timeout x r) : Shows timeout x r.wake := by
  unfold Relay.wake
  split
  · exact h
  · refine h.turn (by simp [Party.pledge?]) ?_ _ _ _
    intro t ht
    rcases List.mem_append.mp ht with ht | ht
    · exact .inr ht
    · exact .inl (List.mem_singleton.mp ht)

theorem Shows.notify (h : Shows timeout x r) : Shows timeout x r.notify := by
  unfold Relay.notify
  split
  · exact h.wake
  · exact h

theorem Shows.pass {t : Party} (h : Shows timeout x r) (ht : r.turns = t :: ts)
    (hp : t.pledge? = none) : Shows timeout x r.pass := by
  refine h.turn (by simp [ht, hp]) ?_ _ _ _
  exact fun s hs ↦ .inr (List.mem_of_mem_tail hs)

theorem Shows.postpone {t : Party} (h : Shows timeout x r) (ht : r.turns = t :: ts)
    (hp : t.pledge? = none) : Shows timeout x r.postpone := by
  refine h.turn (by simp [ht, hp]) ?_ _ _ _
  intro s hs
  rw [ht] at hs ⊢
  rcases List.mem_append.mp hs with hs | hs
  · exact .inr (List.mem_of_mem_tail hs)
  · rw [List.mem_singleton.mp hs]
    exact .inr List.mem_cons_self

theorem Shows.leave {t : Party} (h : Shows timeout x r) (ht : r.turns = t :: ts)
    (hp : t.pledge? = none) : Shows timeout x r.leave := by
  unfold Relay.leave
  dsimp only
  split
  · exact (h.pass ht hp).notify
  · exact h.pass ht hp

theorem Shows.held (h : Shows timeout x r) (ht : r.turns = .producer p :: ts) :
    x.released = false := by
  cases hr : x.released with
  | false => rfl
  | true =>
    obtain ⟨_, _, hall⟩ := Relay.isDeserted_iff.mp (h.released hr)
    cases hall (.producer p) (ht ▸ List.mem_cons_self)

structure Keeps (x y : Conduit) : Prop where
  fanout : y.fanout = x.fanout
  phase : y.phase = x.phase
  dispatched : y.dispatched = x.dispatched
  cancelled : y.cancelled = x.cancelled
  released : y.released = x.released

theorem keeps_send (x : Conduit) (w : String) : Keeps x (x.send w) := by
  unfold send
  split <;> exact ⟨rfl, rfl, rfl, rfl, rfl⟩

theorem Shows.answer {y : Conduit} {q : Queue} {ps : List Producer} (h : Shows timeout x r)
    (keeps : Keeps x y) (held : x.released = false) (queue : y.queue = q)
    (blocked : y.blocked.map some = ps.map (·.remaining.head?))
    (promised : y.promised.map some = ts.filterMap Party.pledge?) (patience produced : Nat) :
    Shows timeout y
      { r with
        queue := q
        turns := ts
        waiting := ps
        patience := patience
        produced := produced } where
  timeout := h.timeout
  queue := queue
  fanout := keeps.fanout ▸ ⟨h.fanout.audience, h.fanout.current, h.fanout.begun⟩
  phase := keeps.phase ▸ h.phase
  dispatched := keeps.dispatched.trans h.dispatched
  blocked := blocked
  promised := promised
  cancelled hc := by
    rw [IsGone, keeps.phase]
    exact h.cancelled (keeps.cancelled ▸ hc)
  released hr := by
    rw [keeps.released, held] at hr
    cases hr

theorem Shows.produce_promised {ws : List String} (h : Shows timeout x r)
    (ht : r.turns = .producer ⟨ws, true⟩ :: ts) :
    ∃ y, Step timeout x y ∧ Shows timeout y (r.produce ⟨ws, true⟩) := by
  have hp := h.promised
  rw [ht, List.filterMap_cons] at hp
  obtain ⟨w, vs, hx, hw, hvs⟩ := List.map_eq_cons_iff.mp hp
  obtain ⟨us, rfl⟩ : ∃ us, ws = w :: us := List.head?_eq_some_iff.mp hw.symm
  have hmem : w ∈ x.promised := hx ▸ List.mem_cons_self
  have herase : x.promised.erase w = vs := by rw [hx, List.erase_cons_head]
  have htail : (x.promised.erase w).map some = ts.filterMap Party.pledge? := herase ▸ hvs
  simp only [Relay.produce]
  cases ho : r.queue.isOpen with
  | false =>
    have hkeeps : Keeps x (x.revoke w) := ⟨rfl, rfl, rfl, rfl, rfl⟩
    have hpass : Shows timeout (x.revoke w) r.pass := by
      refine h.answer hkeeps (h.held ht) h.queue h.blocked ?_ _ _
      rw [ht]
      exact htail
    refine ⟨_, .revoke x w hmem (h.queue ▸ ho), ?_⟩
    simp only [Bool.not_false, if_true, Relay.leave]
    split
    · exact hpass.notify
    · exact hpass
  | true =>
    have hkeeps : Keeps x (x.fulfil w) := ⟨rfl, rfl, rfl, rfl, rfl⟩
    refine ⟨_, .fulfil x w hmem (h.queue ▸ ho), Shows.notify ?_⟩
    refine h.answer hkeeps (h.held ht) (congrArg (·.fulfil w) h.queue) h.blocked ?_ _ _
    rw [ht]
    exact htail

theorem Shows.produce_unpromised {ws : List String} (h : Shows timeout x r)
    (ht : r.turns = .producer ⟨ws, false⟩ :: ts) :
    ∃ y, ReflTransGen (Step timeout) x y ∧ Shows timeout y (r.produce ⟨ws, false⟩) := by
  have hheld := h.held ht
  have hp := h.promised
  rw [ht] at hp
  cases ws with
  | nil => exact ⟨x, .refl, h.leave ht rfl⟩
  | cons w ws =>
    have hsend : Step timeout x (x.send w) := .send x w hheld
    have hkeeps := x.keeps_send w
    cases ho : r.queue.offer w with
    | accepted q =>
      have hopen := (Queue.offer_eq_accepted.mp ho).1
      have he : x.send w =
          { x with queue := q, sent := x.sent ++ [w], accepted := x.accepted ++ [w] } := by
        simp [send, h.queue, ho]
      simp only [Relay.produce, hopen, ho, Bool.not_true, Bool.false_eq_true, if_false]
      split
      · exact ⟨x, .refl, h.postpone ht rfl⟩
      · refine ⟨_, .single hsend, Shows.notify ?_⟩
        refine h.answer hkeeps hheld (by rw [he]) ?_ ?_ _ _
        · rw [he]
          exact h.blocked
        · rw [he, ht]
          exact hp
    | full =>
      have hopen : r.queue.isOpen = true := by
        by_contra hn
        rw [Bool.not_eq_true] at hn
        rw [Queue.offer_eq_closed.mpr hn] at ho
        cases ho
      have he : x.send w = { x with sent := x.sent ++ [w], blocked := x.blocked ++ [w] } := by
        simp [send, h.queue, ho]
      simp only [Relay.produce, hopen, ho, Bool.not_true, Bool.false_eq_true, if_false]
      split
      · exact ⟨x, .refl, h.postpone ht rfl⟩
      · refine ⟨_, .single hsend, ?_⟩
        refine h.answer hkeeps hheld (by rw [he]; exact h.queue) ?_ ?_ _ _
        · rw [he, List.map_append, List.map_append, h.blocked]
          rfl
        · rw [he, Relay.pass, ht]
          exact hp
    | closed =>
      have hclosed := Queue.offer_eq_closed.mp ho
      have he : x.send w = { x with sent := x.sent ++ [w], refused := x.refused ++ [w] } := by
        simp [send, h.queue, ho]
      have hsame : Shows timeout (x.send w) r := by
        rw [he]
        exact ⟨h.timeout, h.queue, h.fanout, h.phase, h.dispatched, h.blocked, h.promised,
          h.cancelled, h.released⟩
      simp only [Relay.produce, hclosed, Bool.not_false, if_true]
      exact ⟨_, .single hsend, hsame.leave ht rfl⟩

theorem Shows.produce (h : Shows timeout x r) (ht : r.turns = .producer p :: ts) :
    ∃ y, ReflTransGen (Step timeout) x y ∧ Shows timeout y (r.produce p) := by
  obtain ⟨ws, promised⟩ := p
  cases promised with
  | true =>
    obtain ⟨y, hs, hy⟩ := h.produce_promised ht
    exact ⟨y, .single hs, hy⟩
  | false => exact h.produce_unpromised ht

theorem turnAway_all {ws : List String} (hc : x.queue.isOpen = false) (hb : x.blocked = ws) :
    ReflTransGen (Step timeout) x { x with blocked := [], refused := x.refused ++ ws } := by
  induction ws generalizing x with
  | nil =>
    rw [List.append_nil, ← hb]
  | cons w ws ih =>
    have hb' : (x.turnAway w).blocked = ws := by rw [turnAway, hb, List.erase_cons_head]
    have hrun := ih (x := x.turnAway w) hc hb'
    have he : ({ x.turnAway w with
        blocked := [], refused := (x.turnAway w).refused ++ ws } : Conduit) =
        { x with blocked := [], refused := x.refused ++ w :: ws } := by
      simp [turnAway]
    rw [he] at hrun
    exact hrun.head (.turnAway x w (hb ▸ List.mem_cons_self) hc)

theorem Shows.stop (h : Shows timeout x r) (idle : x.fanout.current = none) (e : Ending)
    (cancelled released : Bool) (hr : released = true → r.isDeserted = true) :
    ∃ y, ReflTransGen (Step timeout)
        (Conduit.stop { x with cancelled := cancelled, released := released } e) y ∧
      Shows timeout y r.stop := by
  refine ⟨_, turnAway_all rfl rfl, ?_⟩
  refine ⟨h.timeout, congrArg Queue.close h.queue, ⟨h.fanout.audience, idle, ?_⟩, .gone e,
    h.dispatched, rfl, h.promised, fun _ ↦ ⟨e, rfl⟩, ?_⟩
  · intro d hd
    cases idle.symm.trans hd
  · intro hreleased
    obtain ⟨hs, _, ht⟩ := Relay.isDeserted_iff.mp (hr hreleased)
    exact Relay.isDeserted_iff.mpr ⟨hs, rfl, ht⟩

theorem fanout_run {f g : Fanout} (hr : ReflTransGen (Fanout.Continues timeout) f g)
    (hx : x.fanout = f) : ReflTransGen (Step timeout) x { x with fanout := g } := by
  induction hr with
  | refl => rw [← hx]
  | tail _ hc ih => exact ih.tail (.fanout _ hc.delivers.step hc.past hc.current)

theorem Shows.going (h : Shows timeout x r) (hp : x.phase = .waiting) : x.cancelled = false := by
  rw [← Bool.not_eq_true]
  intro hc
  obtain ⟨e, he⟩ := h.cancelled hc
  rw [hp] at he
  cases he

theorem keeps_take (x : Conduit) (w : String) (q : Queue) :
    Keeps { x with phase := .holding w } (x.take w q) := by
  unfold take promise
  split <;> exact ⟨rfl, rfl, rfl, rfl, rfl⟩

theorem Shows.promise (h : Shows timeout x r) (phase : Phase) (w : String) (q : Queue)
    (patience : Nat) {y : Conduit} {s : Relay} (hy : y = { x with phase := phase }.take w q)
    (hs : s = { r with queue := q, patience := patience }.promisePlace) :
    y.queue = s.queue ∧ y.blocked.map some = s.waiting.map (·.remaining.head?) ∧
      y.promised.map some = s.turns.filterMap Party.pledge? := by
  have hb := h.blocked
  unfold Conduit.take Conduit.promise at hy
  unfold Relay.promisePlace at hs
  cases hw : r.waiting with
  | nil =>
    rw [hw, List.map_nil, List.map_eq_nil_iff] at hb
    simp only [hb] at hy
    simp only [hw] at hs
    subst hy hs
    exact ⟨rfl, rfl, h.promised⟩
  | cons p ps =>
    rw [hw, List.map_cons] at hb
    obtain ⟨v, vs, hx, hv, hvs⟩ := List.map_eq_cons_iff.mp hb
    simp only [hx] at hy
    simp only [hw] at hs
    subst hy hs
    refine ⟨rfl, hvs, ?_⟩
    rw [List.map_append, List.filterMap_append, h.promised, List.map_singleton, hv]
    rfl

theorem Shows.take (h : Shows timeout x r) (hp : x.phase = .waiting) (idle : r.stage = .waiting)
    (ht : r.take? = some r') : ∃ y, ReflTransGen (Step timeout) x y ∧ Shows timeout y r' := by
  obtain ⟨w, q, g, hq, hrun, hg⟩ := h.fanout.take_begun idle ht
  obtain ⟨w', q', hq', hr⟩ := Relay.take?_eq_some ht
  cases hq.symm.trans hq'
  rw [h.timeout] at hrun
  have htaken : x.queue.take? = some (w, q) := h.queue ▸ hq
  generalize hz : { x with phase := .listening }.take w q = z
  have hkeeps := keeps_take { x with phase := .listening } w q
  rw [hz] at hkeeps
  have hlisten : Step timeout x { x with phase := .listening } := .listen x hp (h.going hp)
  have htake : Step timeout { x with phase := .listening } z := hz ▸ .take _ rfl htaken
  have hbegin : Step timeout z { z with phase := .busy, fanout := x.fanout.begin w } :=
    hkeeps.fanout ▸ .begin z hkeeps.phase
  refine ⟨_,
    (((ReflTransGen.single hlisten).tail htake).tail hbegin).trans (fanout_run hrun rfl), ?_⟩
  generalize hs : { r with queue := q, patience := r.patience - 2 }.promisePlace = s at hr
  obtain ⟨hqueue, hblocked, hpromised⟩ := h.promise .listening w q (r.patience - 2) hz.symm hs.symm
  have hsame : s.timeout = r.timeout ∧ s.dispatched = r.dispatched := by
    rw [← hs, Relay.promisePlace]
    split <;> exact ⟨rfl, rfl⟩
  dsimp only at hr
  subst hr
  refine ⟨hsame.1.trans h.timeout, hqueue, hg, .busy _, ?_, hblocked, hpromised, ?_, ?_⟩
  · exact (hkeeps.dispatched.trans h.dispatched).trans hsame.2.symm
  · intro hc
    cases (h.going hp).symm.trans (hkeeps.cancelled.symm.trans hc)
  · intro hreleased
    obtain ⟨hheld, hw, hturns⟩ :=
      Relay.isDeserted_iff.mp (h.released (hkeeps.released.symm.trans hreleased))
    rw [← hs, Relay.promisePlace]
    simp only [hw]
    exact Relay.isDeserted_iff.mpr ⟨hheld, rfl, hturns⟩

theorem Shows.desert (h : Shows timeout x r) (hp : x.phase = .waiting) (idle : r.stage = .waiting)
    (ht : r.take? = none) (hd : r.isDeserted = true) :
    ∃ y, ReflTransGen (Step timeout) x y ∧ Shows timeout y r.stop := by
  have hcur : x.fanout.current = none := by rw [h.fanout.current, idle]; rfl
  obtain ⟨_, hw, hturns⟩ := Relay.isDeserted_iff.mp hd
  have hblocked : x.blocked = [] := by
    have hb := h.blocked
    rwa [hw, List.map_nil, List.map_eq_nil_iff] at hb
  have hpromised : x.promised = [] := by
    have hnone : r.turns.filterMap Party.pledge? = [] := by
      rw [List.filterMap_eq_nil_iff]
      intro t ht
      rw [hturns t ht]
      rfl
    have hx := h.promised
    rwa [hnone, List.map_eq_nil_iff] at hx
  obtain ⟨y, hrun, hy⟩ := h.stop hcur .deserted x.cancelled true fun _ ↦ hd
  have hempty : x.queue.payloads = [] := by
    rw [h.queue]
    exact Relay.take?_eq_none ht
  have hrelease : Step timeout x { x with released := true } := .release x hblocked hpromised
  have hlisten : Step timeout { x with released := true }
      { x with released := true, phase := .listening } := .listen _ hp (h.going hp)
  have hdesert : Step timeout { x with released := true, phase := .listening }
      (Conduit.stop { x with released := true } .deserted) := .desert _ rfl hempty rfl
  exact ⟨y, ((hrun.head hdesert).head hlisten).head hrelease, hy⟩

theorem Shows.work_waiting (h : Shows timeout x r) (ht : r.turns = .relay :: ts)
    (idle : r.stage = .waiting) :
    ∃ y, ReflTransGen (Step timeout) x y ∧ Shows timeout y r.work := by
  have hcur : x.fanout.current = none := by rw [h.fanout.current, idle]; rfl
  have hp : x.phase = .waiting := Phase.Shows.eq_waiting (idle ▸ h.phase)
  simp only [Relay.work, idle]
  split
  · exact ⟨x, .refl, h.postpone ht rfl⟩
  · split
    · obtain ⟨y, hrun, hy⟩ := h.stop hcur .cancelled true x.released h.released
      have hcancel : Step timeout x { x with cancelled := true } := .cancel x
      have hstop : Step timeout { x with cancelled := true }
          (Conduit.stop { x with cancelled := true } .cancelled) := .stop _ hp rfl
      exact ⟨y, (hrun.head hstop).head hcancel, hy.pass ht rfl⟩
    · split
      · rename_i hr
        exact h.take hp idle hr
      · rename_i hr
        split
        · rename_i hd
          obtain ⟨y, hrun, hy⟩ := h.desert hp idle hr hd
          exact ⟨y, hrun, hy.pass ht rfl⟩
        · exact ⟨x, .refl, h.pass ht rfl⟩

theorem Shows.work_busy {d : Dispatch} (h : Shows timeout x r) (ht : r.turns = .relay :: ts)
    (busy : r.stage = .busy d) :
    ∃ y, ReflTransGen (Step timeout) x y ∧ Shows timeout y r.work := by
  have hcur : x.fanout.current = some d := by rw [h.fanout.current, busy]; rfl
  have hp : x.phase = .busy := Phase.Shows.eq_busy (busy ▸ h.phase)
  have hgoing (hc : x.cancelled = true) : False := by
    obtain ⟨e, he⟩ := h.cancelled hc
    cases hp.symm.trans he
  simp only [Relay.work, busy]
  split
  · rename_i leg hleg
    have hc : Fanout.Continues timeout x.fanout (x.fanout.settle leg) :=
      Fanout.continues_settle hcur (List.mem_of_find?_eq_some hleg)
    refine ⟨_, .single (.fanout x hc.delivers.step hc.past hc.current), ?_⟩
    exact ⟨h.timeout, h.queue, h.fanout.settle busy leg, hp ▸ .busy _, h.dispatched, h.blocked,
      h.promised, fun hc ↦ (hgoing hc).elim, h.released⟩
  · split
    · rename_i hover
      refine ⟨_, .single (.finish x hp hcur hover), ?_⟩
      exact ⟨h.timeout, h.queue, h.fanout.finish, .waiting, congrArg (· + 1) h.dispatched,
        h.blocked, h.promised, fun hc ↦ (hgoing hc).elim, h.released⟩
    · exact ⟨x, .refl, h.pass ht rfl⟩

theorem Shows.step? (h : Shows timeout x r) (hs : r.step? = some r') :
    ∃ y, ReflTransGen (Step timeout) x y ∧ Shows timeout y r' := by
  unfold Relay.step? at hs
  split at hs
  · cases hs
  · rename_i ht
    cases hs
    cases hstage : r.stage with
    | waiting => exact h.work_waiting ht hstage
    | busy d => exact h.work_busy ht hstage
    | unstarted | gone =>
      simp only [Relay.work, hstage]
      exact ⟨x, .refl, h.pass ht rfl⟩
  · rename_i p _ ht
    cases hs
    exact h.produce ht

theorem Shows.unreleased (h : Shows timeout x r) (held : r.senderHeld = true) :
    x.released = false := by
  rw [← Bool.not_eq_true]
  intro hr
  cases held.symm.trans (Relay.isDeserted_iff.mp (h.released hr)).1

theorem Shows.send (h : Shows timeout x r) (held : r.senderHeld = true) (w : String) :
    ∃ y, ReflTransGen (Step timeout) x y ∧ Shows timeout y (r.send w).1 := by
  have hheld := h.unreleased held
  have hsend : Step timeout x (x.send w) := .send x w hheld
  unfold Relay.send
  cases ho : r.queue.offer w with
  | accepted q =>
    refine ⟨_, .single hsend, Shows.notify ?_⟩
    have he : x.send w =
        { x with queue := q, sent := x.sent ++ [w], accepted := x.accepted ++ [w] } := by
      simp [Conduit.send, h.queue, ho]
    refine h.answer (x.keeps_send w) hheld (by rw [he]) ?_ ?_ _ _
    · rw [he]
      exact h.blocked
    · rw [he]
      exact h.promised
  | full => exact ⟨x, .refl, h⟩
  | closed => exact ⟨x, .refl, h⟩

theorem Shows.start (h : Shows timeout x r) (unstarted : r.stage = .unstarted) :
    Step timeout x { x with phase := .waiting } ∧
      Shows timeout { x with phase := .waiting } r.start := by
  have hp : x.phase = .unstarted := Phase.Shows.eq_unstarted (unstarted ▸ h.phase)
  have hcur : x.fanout.current = none := by rw [h.fanout.current, unstarted]; rfl
  refine ⟨.launch x hp, Shows.wake ?_⟩
  refine ⟨h.timeout, h.queue, ⟨h.fanout.audience, hcur, h.fanout.begun⟩, .waiting, h.dispatched,
    h.blocked, h.promised, ?_, h.released⟩
  intro hc
  obtain ⟨e, he⟩ := h.cancelled hc
  cases hp.symm.trans he

theorem Shows.release (h : Shows timeout x r) : Shows timeout x r.release := by
  apply Shows.notify
  refine ⟨h.timeout, h.queue, ⟨h.fanout.audience, h.fanout.current, h.fanout.begun⟩, h.phase,
    h.dispatched, h.blocked, h.promised, h.cancelled, ?_⟩
  intro hr
  exact Relay.isDeserted_iff.mpr ⟨rfl, (Relay.isDeserted_iff.mp (h.released hr)).2⟩

theorem Shows.addProducer (h : Shows timeout x r) (held : r.senderHeld = true)
    (ws : List String) : Shows timeout x (r.addProducer ws) := by
  refine ⟨h.timeout, h.queue, ⟨h.fanout.audience, h.fanout.current, h.fanout.begun⟩, h.phase,
    h.dispatched, h.blocked, ?_, h.cancelled, ?_⟩
  · rw [h.promised, Relay.addProducer, List.filterMap_append]
    exact (List.append_nil _).symm
  · intro hr
    cases (h.unreleased held).symm.trans hr

theorem Shows.happens (h : Shows timeout x r) (hr : r.Happens r') :
    ∃ y, ReflTransGen (Step timeout) x y ∧ Shows timeout y r' := by
  cases hr with
  | step hs => exact h.step? hs
  | start unstarted => exact ⟨_, .single (h.start unstarted).1, (h.start unstarted).2⟩
  | drop unstarted =>
    have hp : x.phase = .unstarted := Phase.Shows.eq_unstarted (unstarted ▸ h.phase)
    have hcur : x.fanout.current = none := by rw [h.fanout.current, unstarted]; rfl
    obtain ⟨y, hrun, hy⟩ := h.stop hcur .dropped x.cancelled x.released h.released
    exact ⟨y, hrun.head (.drop x hp), hy⟩
  | cancel => exact ⟨x, .refl, Shows.wake (h.turn rfl (fun _ ht ↦ .inr ht) _ _ _)⟩
  | release => exact ⟨x, .refl, h.release⟩
  | send payload held => exact h.send held payload
  | addProducer payloads held => exact ⟨x, .refl, h.addProducer held payloads⟩
  | wait t => exact ⟨x, .refl, h.turn rfl (fun _ ht ↦ .inr ht) _ _ _⟩
  | wake => exact ⟨x, .refl, h.wake⟩

theorem Shows.run (h : Shows timeout x r) (hr : ReflTransGen Relay.Happens r r') :
    ∃ y, ReflTransGen (Step timeout) x y ∧ Shows timeout y r' := by
  induction hr with
  | refl => exact ⟨x, .refl, h⟩
  | tail _ hs ih =>
    obtain ⟨y, hxy, hy⟩ := ih
    obtain ⟨z, hyz, hz⟩ := hy.happens hs
    exact ⟨z, hxy.trans hyz, hz⟩

/-- Before the first dispatch anybody may come and go. -/
theorem reachable_before {f : Fanout} (hf : Fanout.Reachable timeout f) (h₀ : f.dispatches = []) :
    Reachable capacity timeout { new capacity with fanout := f } := by
  induction hf with
  | refl => exact .refl
  | @tail g f _ hs ih =>
    have hnone {f : Fanout} (h : f.dispatches = []) : f.past = [] ∧ f.current = none := by
      simpa [Fanout.dispatches] using h
    have hg : g.dispatches = [] := by
      have hle := hs.length_le
      rw [h₀, List.length_nil, Nat.le_zero, List.length_eq_zero_iff] at hle
      exact hle
    obtain ⟨hgp, hgc⟩ := hnone hg
    obtain ⟨hfp, hfc⟩ := hnone h₀
    exact (ih hg).tail (.fanout _ hs (hfp.trans hgp.symm) (by rw [hfc]; exact hgc ▸ rfl))

/-- Whatever happens to a relay, a conduit shows it. -/
theorem shows_run {f : Fanout} (hf : Fanout.Reachable timeout f) (h₀ : f.dispatches = [])
    (hr : ReflTransGen Relay.Happens { Relay.new capacity timeout with audience := f.audience } r) :
    ∃ y, Reachable capacity timeout y ∧ Shows timeout y r := by
  have hcur : f.current = none := by
    have hd : f.past = [] ∧ f.current = none := by simpa [Fanout.dispatches] using h₀
    exact hd.2
  have hx : Shows timeout { new capacity with fanout := f }
      { Relay.new capacity timeout with audience := f.audience } := by
    refine ⟨rfl, rfl, ⟨rfl, hcur, ?_⟩, .unstarted, rfl, rfl, rfl, ?_, ?_⟩
    · intro d hd
      cases hcur.symm.trans hd
    · intro hc
      cases hc
    · intro hr
      cases hr
  obtain ⟨y, hxy, hy⟩ := hx.run hr
  exact ⟨y, (reachable_before hf h₀).trans hxy, hy⟩

end Conduit

namespace Relay

theorem happens_advanceSteps (done : Relay → Bool) (limit n : Nat) (r : Relay) :
    ReflTransGen Happens r (advanceSteps done limit n r) := by
  induction n generalizing r with
  | zero => exact .refl
  | succ n ih =>
    rw [advanceSteps]
    split
    · rename_i r' hs
      exact (ih r').head (.step hs)
    · split
      · exact .refl
      · split
        · rename_i t _
          split
          · exact ((ih _).head (.wake _)).head (.wait r _)
          · exact .single (.wait r _)
        · exact .single (.wait r _)

end Relay

end ChangeRelay
