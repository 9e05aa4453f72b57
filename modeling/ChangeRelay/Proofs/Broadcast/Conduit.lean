import ChangeRelay.Proofs.Broadcast.Schedule

namespace ChangeRelay

open Relation (ReflTransGen)

inductive Conduit.Ending where
  | cancelled
  | deserted
  | dropped
  deriving DecidableEq

/-- What the relay is at. It looks whether it was cancelled before it listens for a payload, and has
the payload in its hand before it looks at the roster. -/
inductive Conduit.Phase where
  | unstarted
  | waiting
  | listening
  | holding (payload : String)
  | busy
  | gone (e : Conduit.Ending)
  deriving DecidableEq

/-- The queue, the sends that wait for a place or have been promised one, the relay, and the
history: what was sent, what was accepted and refused, each in its order, and what was in the queue
when the relay ended. -/
structure Conduit where
  queue : Queue
  blocked : List String
  promised : List String
  sent : List String
  accepted : List String
  refused : List String
  lost : List String
  fanout : Fanout
  phase : Conduit.Phase
  dispatched : Nat
  cancelled : Bool
  released : Bool

namespace Conduit

def new (capacity : Nat) : Conduit :=
  ⟨.new capacity, [], [], [], [], [], [], .empty, .unstarted, 0, false, false⟩

def IsGone (x : Conduit) : Prop := ∃ e, x.phase = .gone e

/-- The payload that was taken out of the queue and whose dispatch is not over. -/
def inHand (x : Conduit) : List String :=
  match x.phase with
  | .holding w => [w]
  | _ => (x.fanout.current.map (·.payload)).toList

def send (x : Conduit) (w : String) : Conduit :=
  match x.queue.offer w with
  | .accepted q => { x with queue := q, sent := x.sent ++ [w], accepted := x.accepted ++ [w] }
  | .full => { x with sent := x.sent ++ [w], blocked := x.blocked ++ [w] }
  | .closed => { x with sent := x.sent ++ [w], refused := x.refused ++ [w] }

def fulfil (x : Conduit) (w : String) : Conduit :=
  { x with
    queue := x.queue.fulfil w
    promised := x.promised.erase w
    accepted := x.accepted ++ [w] }

def turnAway (x : Conduit) (w : String) : Conduit :=
  { x with blocked := x.blocked.erase w, refused := x.refused ++ [w] }

def revoke (x : Conduit) (w : String) : Conduit :=
  { x with promised := x.promised.erase w, refused := x.refused ++ [w] }

def promise (x : Conduit) : Conduit :=
  match x.blocked with
  | [] => x
  | w :: ws => { x with queue := x.queue.promise, blocked := ws, promised := x.promised ++ [w] }

def take (x : Conduit) (w : String) (q : Queue) : Conduit :=
  promise { x with queue := q, phase := .holding w }

def stop (x : Conduit) (e : Ending) : Conduit :=
  { x with queue := x.queue.close, phase := .gone e, lost := x.queue.payloads }

@[simp] theorem stop_phase (x : Conduit) (e : Ending) : (x.stop e).phase = .gone e := rfl

/-- One step of somebody. Those who can send give that up together, when none of their sends waits
any more. -/
inductive Step (timeout : Nat) : Conduit → Conduit → Prop
  | send (x : Conduit) (w : String) (held : x.released = false) : Step timeout x (x.send w)
  | fulfil (x : Conduit) (w : String) (waits : w ∈ x.promised) (isOpen : x.queue.isOpen = true) :
      Step timeout x (x.fulfil w)
  | turnAway (x : Conduit) (w : String) (waits : w ∈ x.blocked) (closed : x.queue.isOpen = false) :
      Step timeout x (x.turnAway w)
  | revoke (x : Conduit) (w : String) (waits : w ∈ x.promised) (closed : x.queue.isOpen = false) :
      Step timeout x (x.revoke w)
  | release (x : Conduit) (unblocked : x.blocked = []) (unpromised : x.promised = []) :
      Step timeout x { x with released := true }
  | cancel (x : Conduit) : Step timeout x { x with cancelled := true }
  | launch (x : Conduit) (unstarted : x.phase = .unstarted) :
      Step timeout x { x with phase := .waiting }
  | drop (x : Conduit) (unstarted : x.phase = .unstarted) : Step timeout x (x.stop .dropped)
  | stop (x : Conduit) (waiting : x.phase = .waiting) (cancelled : x.cancelled = true) :
      Step timeout x (x.stop .cancelled)
  | listen (x : Conduit) (waiting : x.phase = .waiting) (going : x.cancelled = false) :
      Step timeout x { x with phase := .listening }
  | rest (x : Conduit) (listening : x.phase = .listening) :
      Step timeout x { x with phase := .waiting }
  | desert (x : Conduit) (listening : x.phase = .listening) (empty : x.queue.payloads = [])
      (released : x.released = true) : Step timeout x (x.stop .deserted)
  | take (x : Conduit) {w : String} {q : Queue} (listening : x.phase = .listening)
      (taken : x.queue.take? = some (w, q)) : Step timeout x (x.take w q)
  | begin (x : Conduit) {w : String} (holding : x.phase = .holding w) :
      Step timeout x { x with phase := .busy, fanout := x.fanout.begin w }
  | fanout (x : Conduit) {g : Fanout} (step : Fanout.Step timeout x.fanout g)
      (past : g.past = x.fanout.past)
      (current : g.current.map (·.payload) = x.fanout.current.map (·.payload)) :
      Step timeout x { x with fanout := g }
  | finish (x : Conduit) {d : Dispatch} (busy : x.phase = .busy)
      (current : x.fanout.current = some d) (isOver : d.isOver = true) :
      Step timeout x
        { x with phase := .waiting, fanout := x.fanout.finish, dispatched := x.dispatched + 1 }

def Reachable (capacity timeout : Nat) : Conduit → Prop :=
  ReflTransGen (Step timeout) (new capacity)

variable {capacity timeout : Nat} {x y : Conduit} {w : String}

/-- Of the places in the queue none is given to two, and none stays free while somebody waits. -/
structure Places (capacity : Nat) (x : Conduit) : Prop where
  capacity : x.queue.capacity = max capacity 1
  fits : x.queue.payloads.length + x.queue.promised ≤ x.queue.capacity
  promised : x.queue.isOpen = true → x.queue.promised = x.promised.length
  full : x.queue.isOpen = true → x.blocked ≠ [] → x.queue.hasRoom = false
  isOpen : x.queue.isOpen = false ↔ x.IsGone

structure Flow (x : Conduit) : Prop where
  fanout : x.fanout.Inv
  whole : x.accepted = x.fanout.past.map (·.payload) ++ x.inHand ++ x.queue.payloads ++ x.lost
  sent : ∀ v, x.sent.count v =
    x.accepted.count v + x.blocked.count v + x.promised.count v + x.refused.count v
  counted : x.dispatched = x.fanout.past.length
  idle : x.phase ≠ .busy → x.fanout.current = none
  isOpen : x.queue.isOpen = true → x.refused = [] ∧ x.lost = []
  closed : x.queue.isOpen = false → x.queue.payloads = []
  deserted : x.phase = .gone .deserted → x.lost = []

theorem send_cases (x : Conduit) (w : String) :
    x.queue.isOpen = true ∧ x.queue.hasRoom = true ∧ x.send w =
      { x with
        queue := { x.queue with payloads := x.queue.payloads ++ [w] }
        sent := x.sent ++ [w]
        accepted := x.accepted ++ [w] } ∨
    x.queue.isOpen = true ∧ x.queue.hasRoom = false ∧ x.send w =
      { x with sent := x.sent ++ [w], blocked := x.blocked ++ [w] } ∨
    x.queue.isOpen = false ∧ x.send w =
      { x with sent := x.sent ++ [w], refused := x.refused ++ [w] } := by
  unfold send Queue.offer
  cases ho : x.queue.isOpen <;> cases x.queue.hasRoom <;> simp [ho]

theorem take_cases {q : Queue} (ht : x.queue.take? = some (w, q)) :
    ∃ ws, x.queue.payloads = w :: ws ∧
      (x.blocked = [] ∧ x.take w q =
        { x with queue := { x.queue with payloads := ws }, phase := .holding w } ∨
      ∃ v vs, x.blocked = v :: vs ∧ x.take w q =
        { x with
          queue := { x.queue with payloads := ws, promised := x.queue.promised + 1 }
          blocked := vs
          promised := x.promised ++ [v]
          phase := .holding w }) := by
  obtain ⟨ws, hws, rfl⟩ := Queue.take?_eq_some.mp ht
  refine ⟨ws, hws, ?_⟩
  unfold take promise
  cases hb : x.blocked with
  | nil => exact .inl ⟨rfl, by simp [← hb]⟩
  | cons v vs => exact .inr ⟨v, vs, rfl, rfl⟩

theorem places_new (capacity : Nat) : Places capacity (new capacity) where
  capacity := rfl
  fits := Nat.zero_le _
  promised _ := rfl
  full _ h := absurd rfl h
  isOpen := ⟨nofun, nofun⟩

theorem Places.same (h : Places capacity x) (hq : y.queue = x.queue) (hb : y.blocked = x.blocked)
    (hp : y.promised = x.promised) (hgone : y.IsGone ↔ x.IsGone) : Places capacity y where
  capacity := hq ▸ h.capacity
  fits := hq ▸ h.fits
  promised := by
    rw [hq, hp]
    exact h.promised
  full := by
    rw [hq, hb]
    exact h.full
  isOpen := by
    rw [hq, hgone]
    exact h.isOpen

theorem Places.send (h : Places capacity x) (w : String) : Places capacity (x.send w) := by
  rcases x.send_cases w with ⟨ho, hroom, he⟩ | ⟨ho, hroom, he⟩ | ⟨hc, he⟩
  -- while there is room nobody waits
  · have hb : x.blocked = [] := by
      by_contra hne
      rw [h.full ho hne] at hroom
      cases hroom
    have hlt := Queue.hasRoom_iff.mp hroom
    rw [he]
    refine ⟨h.capacity, ?_, h.promised, fun _ hne ↦ absurd hb hne, h.isOpen⟩
    simp only [List.length_append, List.length_singleton]
    omega
  · rw [he]
    exact ⟨h.capacity, h.fits, h.promised, fun _ _ ↦ hroom, h.isOpen⟩
  · rw [he]
    exact h.same rfl rfl rfl .rfl

theorem Places.fulfil (h : Places capacity x) (hw : w ∈ x.promised) (ho : x.queue.isOpen = true) :
    Places capacity (x.fulfil w) := by
  have hprom := h.promised ho
  have hpos := List.length_pos_of_mem hw
  have hfits := h.fits
  have hlen : (x.queue.fulfil w).payloads.length + (x.queue.fulfil w).promised =
      x.queue.payloads.length + x.queue.promised := by
    simp only [Queue.fulfil, List.length_append, List.length_singleton]
    omega
  refine ⟨h.capacity, hlen ▸ h.fits, ?_, ?_, h.isOpen⟩
  · intro _
    simp only [Conduit.fulfil, Queue.fulfil, List.length_erase_of_mem hw]
    omega
  · intro _ hb
    have hfull := Queue.hasRoom_eq_false.mp (h.full ho hb)
    exact Queue.hasRoom_eq_false.mpr (hlen ▸ hfull)

theorem Places.isOpen_of (h : Places capacity x) (hp : ∀ e, x.phase ≠ .gone e) :
    x.queue.isOpen = true := by
  cases ho : x.queue.isOpen with
  | true => rfl
  | false =>
    obtain ⟨e, he⟩ := h.isOpen.mp ho
    exact absurd he (hp e)

theorem Places.take {q : Queue} (h : Places capacity x) (hl : x.phase = .listening)
    (ht : x.queue.take? = some (w, q)) : Places capacity (x.take w q) := by
  have ho : x.queue.isOpen = true := h.isOpen_of (by simp [hl])
  have hgone : x.queue.isOpen = false ↔ ∃ e, Phase.holding w = .gone e := by simp [ho]
  have hfits := h.fits
  obtain ⟨ws, hws, ⟨hb, he⟩ | ⟨v, vs, hb, he⟩⟩ := take_cases ht
  · rw [hws, List.length_cons] at hfits
    rw [he]
    refine ⟨h.capacity, ?_, h.promised, fun _ hne ↦ absurd hb hne, hgone⟩
    dsimp only
    omega
  -- the place of the payload is promised at once, so the queue is as full as before
  · have hfull := Queue.hasRoom_eq_false.mp (h.full ho (by simp [hb]))
    rw [hws, List.length_cons] at hfits hfull
    rw [he]
    refine ⟨h.capacity, ?_, ?_, ?_, hgone⟩
    · dsimp only
      omega
    · intro _
      rw [List.length_append, List.length_singleton, h.promised ho]
    · intro _ _
      rw [Queue.hasRoom_eq_false]
      dsimp only
      omega

theorem Places.stop (h : Places capacity x) (e : Ending) : Places capacity (x.stop e) where
  capacity := h.capacity
  fits := Nat.zero_le _
  promised := nofun
  full := nofun
  isOpen := ⟨fun _ ↦ ⟨e, rfl⟩, fun _ ↦ rfl⟩

theorem Places.turnAway (h : Places capacity x) (hc : x.queue.isOpen = false)
    (hq : y.queue = x.queue) (hp : y.phase = x.phase) : Places capacity y where
  capacity := hq ▸ h.capacity
  fits := hq ▸ h.fits
  promised ho := by
    rw [hq, hc] at ho
    cases ho
  full ho := by
    rw [hq, hc] at ho
    cases ho
  isOpen := by
    rw [hq, h.isOpen, IsGone, IsGone, hp]

theorem Places.step (h : Places capacity x) (hs : Step timeout x y) : Places capacity y := by
  cases hs with
  | send w held => exact h.send w
  | fulfil w waits isOpen => exact h.fulfil waits isOpen
  | turnAway w waits closed => exact h.turnAway closed rfl rfl
  | revoke w waits closed => exact h.turnAway closed rfl rfl
  | release unblocked unpromised => exact h.same rfl rfl rfl .rfl
  | cancel => exact h.same rfl rfl rfl .rfl
  | launch unstarted => exact h.same rfl rfl rfl (by simp [IsGone, unstarted])
  | drop unstarted => exact h.stop _
  | stop waiting cancelled => exact h.stop _
  | listen waiting going => exact h.same rfl rfl rfl (by simp [IsGone, waiting])
  | rest listening => exact h.same rfl rfl rfl (by simp [IsGone, listening])
  | desert listening empty released => exact h.stop _
  | take listening taken => exact h.take listening taken
  | begin holding => exact h.same rfl rfl rfl (by simp [IsGone, holding])
  | fanout step past current => exact h.same rfl rfl rfl .rfl
  | finish busy current isOver => exact h.same rfl rfl rfl (by simp [IsGone, busy])

theorem flow_new (capacity : Nat) : Flow (new capacity) where
  fanout := Fanout.inv_empty
  whole := rfl
  sent _ := rfl
  counted := rfl
  idle _ := rfl
  isOpen _ := ⟨rfl, rfl⟩
  closed := nofun
  deserted := nofun

theorem count_of_mem {l : List String} (h : w ∈ l) (v : String) :
    l.count v = (l.erase w).count v + [w].count v := by
  have hp := (List.perm_cons_erase h).count_eq v
  rw [hp, List.count_cons, List.count_singleton]

theorem Flow.accept (h : Flow x) (ho : x.queue.isOpen = true) (w : String) :
    x.accepted ++ [w] =
      x.fanout.past.map (·.payload) ++ x.inHand ++ (x.queue.payloads ++ [w]) ++ x.lost := by
  rw [h.whole, (h.isOpen ho).2]
  simp

theorem Flow.send (h : Flow x) (w : String) : Flow (x.send w) := by
  rcases x.send_cases w with ⟨ho, _, he⟩ | ⟨ho, _, he⟩ | ⟨hc, he⟩
  · rw [he]
    refine ⟨h.fanout, h.accept ho w, ?_, h.counted, h.idle, h.isOpen, ?_, h.deserted⟩
    · intro v
      simp only [List.count_append, h.sent v]
      omega
    · intro hc
      rw [ho] at hc
      cases hc
  · rw [he]
    refine ⟨h.fanout, h.whole, ?_, h.counted, h.idle, h.isOpen, h.closed, h.deserted⟩
    intro v
    simp only [List.count_append, h.sent v]
    omega
  · rw [he]
    refine ⟨h.fanout, h.whole, ?_, h.counted, h.idle, ?_, h.closed, h.deserted⟩
    · intro v
      simp only [List.count_append, h.sent v]
      omega
    · intro ho
      rw [hc] at ho
      cases ho

theorem Flow.fulfil (h : Flow x) (hw : w ∈ x.promised) (ho : x.queue.isOpen = true) :
    Flow (x.fulfil w) := by
  refine ⟨h.fanout, h.accept ho w, ?_, h.counted, h.idle, h.isOpen, ?_, h.deserted⟩
  · intro v
    have hp := count_of_mem hw v
    simp only [Conduit.fulfil, List.count_append, h.sent v]
    omega
  · intro hc
    have hc : x.queue.isOpen = false := hc
    rw [ho] at hc
    cases hc

theorem Flow.refuse {blocked promised : List String} (h : Flow x) (hc : x.queue.isOpen = false)
    (hw : ∀ v, x.blocked.count v + x.promised.count v =
      blocked.count v + promised.count v + [w].count v) :
    Flow { x with blocked := blocked, promised := promised, refused := x.refused ++ [w] } := by
  refine ⟨h.fanout, h.whole, ?_, h.counted, h.idle, ?_, h.closed, h.deserted⟩
  · intro v
    have hv := hw v
    simp only [List.count_append, h.sent v]
    omega
  · intro ho
    rw [hc] at ho
    cases ho

theorem Flow.take {q : Queue} (h : Flow x) (ho : x.queue.isOpen = true)
    (hl : x.phase = .listening) (ht : x.queue.take? = some (w, q)) : Flow (x.take w q) := by
  have hidle : x.fanout.current = none := h.idle (by simp [hl])
  have hnone : x.inHand = [] := by simp [inHand, hl, hidle]
  have hw := h.whole
  obtain ⟨ws, hws, ⟨hb, he⟩ | ⟨v, vs, hb, he⟩⟩ := take_cases ht
  · rw [he]
    refine ⟨h.fanout, ?_, h.sent, h.counted, fun _ ↦ hidle, h.isOpen, ?_, nofun⟩
    · rw [hw, hnone, hws]
      simp [inHand]
    · intro hc
      rw [ho] at hc
      cases hc
  · rw [he]
    refine ⟨h.fanout, ?_, ?_, h.counted, fun _ ↦ hidle, h.isOpen, ?_, nofun⟩
    · rw [hw, hnone, hws]
      simp [inHand]
    · intro u
      rw [h.sent u, hb]
      simp only [List.count_append, List.count_cons, List.count_nil]
      omega
    · intro hc
      rw [ho] at hc
      cases hc

theorem Flow.stop (h : Flow x) {e : Ending} (ho : x.queue.isOpen = true)
    (hidle : x.fanout.current = none) (hnone : x.inHand = [])
    (he : e = .deserted → x.queue.payloads = []) : Flow (x.stop e) where
  fanout := h.fanout
  whole := by
    have hlost : x.lost = [] := (h.isOpen ho).2
    change x.accepted = _ ++ inHand (x.stop e) ++ [] ++ x.queue.payloads
    rw [h.whole, hnone, hlost]
    simp [inHand, Conduit.stop, hidle]
  sent := h.sent
  counted := h.counted
  idle _ := hidle
  isOpen := nofun
  closed _ := rfl
  deserted hp := he (by cases hp; rfl)

theorem Flow.turn {p : Phase} (h : Flow x) (hx : x.phase ≠ .busy) (hnone : x.inHand = [])
    (hp : p = .waiting ∨ p = .listening) : Flow { x with phase := p } := by
  have hidle := h.idle hx
  refine ⟨h.fanout, ?_, h.sent, h.counted, fun _ ↦ hidle, h.isOpen, h.closed, ?_⟩
  · rw [h.whole, hnone]
    rcases hp with rfl | rfl <;> simp [inHand, hidle]
  · rcases hp with rfl | rfl <;> exact nofun

theorem Flow.begin (h : Flow x) (hp : x.phase = .holding w) :
    Flow { x with phase := .busy, fanout := x.fanout.begin w } := by
  refine ⟨h.fanout.begin w (h.idle (by simp [hp])), ?_, h.sent, h.counted, fun hn ↦ absurd rfl hn,
    h.isOpen, h.closed, nofun⟩
  rw [h.whole]
  simp [inHand, hp, Fanout.begin, Dispatch.begin]

theorem Flow.fanout_step {g : Fanout} (h : Flow x) (hs : Fanout.Step timeout x.fanout g)
    (hpast : g.past = x.fanout.past)
    (hcur : g.current.map (·.payload) = x.fanout.current.map (·.payload)) :
    Flow { x with fanout := g } := by
  refine ⟨h.fanout.step hs, ?_, h.sent, ?_, ?_, h.isOpen, h.closed, h.deserted⟩
  · rw [h.whole]
    simp only [inHand, hpast, hcur]
  · rw [h.counted, hpast]
  · intro hp
    rw [h.idle hp, Option.map_none, Option.map_eq_none_iff] at hcur
    exact hcur

theorem Flow.finish {d : Dispatch} (h : Flow x) (hp : x.phase = .busy)
    (hcur : x.fanout.current = some d) (hover : d.isOver = true) :
    Flow { x with
      phase := .waiting
      fanout := x.fanout.finish
      dispatched := x.dispatched + 1 } := by
  have hpast : x.fanout.finish.past = x.fanout.past ++ [d] := by
    simp [Fanout.finish, Fanout.dispatches, hcur]
  refine ⟨h.fanout.finish hcur hover, ?_, h.sent, ?_, fun _ ↦ rfl, h.isOpen, h.closed, ?_⟩
  · rw [h.whole, hpast]
    simp [inHand, hp, hcur, Fanout.finish]
  · rw [hpast, h.counted, List.length_append, List.length_singleton]
  · intro hd
    cases hd

theorem Flow.step (h : Flow x) (hx : Places capacity x) (hs : Step timeout x y) : Flow y := by
  have hempty {p : Phase} (hp : x.phase = p) (hb : p ≠ .busy) (hw : ∀ w, p ≠ .holding w) :
      x.inHand = [] := by
    have hidle := h.idle (hp ▸ hb)
    unfold inHand
    split
    · rename_i w hw'
      exact absurd (hp.symm.trans hw') (hw w)
    · rw [hidle]
      rfl
  cases hs with
  | send w held => exact h.send w
  | fulfil w waits isOpen => exact h.fulfil waits isOpen
  | turnAway w waits closed =>
    apply h.refuse closed
    intro v
    have hp := count_of_mem waits v
    omega
  | revoke w waits closed =>
    apply h.refuse closed
    intro v
    have hp := count_of_mem waits v
    omega
  | release unblocked unpromised =>
    exact ⟨h.fanout, h.whole, h.sent, h.counted, h.idle, h.isOpen, h.closed, h.deserted⟩
  | cancel => exact ⟨h.fanout, h.whole, h.sent, h.counted, h.idle, h.isOpen, h.closed, h.deserted⟩
  | launch unstarted =>
    exact h.turn (by simp [unstarted]) (hempty unstarted nofun nofun) (.inl rfl)
  | drop unstarted =>
    exact h.stop (hx.isOpen_of (by simp [unstarted])) (h.idle (by simp [unstarted]))
      (hempty unstarted nofun nofun) nofun
  | stop waiting cancelled =>
    exact h.stop (hx.isOpen_of (by simp [waiting])) (h.idle (by simp [waiting]))
      (hempty waiting nofun nofun) nofun
  | listen waiting going => exact h.turn (by simp [waiting]) (hempty waiting nofun nofun) (.inr rfl)
  | rest listening =>
    exact h.turn (by simp [listening]) (hempty listening nofun nofun) (.inl rfl)
  | desert listening empty released =>
    exact h.stop (hx.isOpen_of (by simp [listening])) (h.idle (by simp [listening]))
      (hempty listening nofun nofun) fun _ ↦ empty
  | take listening taken => exact h.take (hx.isOpen_of (by simp [listening])) listening taken
  | begin holding => exact h.begin holding
  | fanout step past current => exact h.fanout_step step past current
  | finish busy current isOver => exact h.finish busy current isOver

theorem inv_run (hp : Places capacity x) (hf : Flow x) (hr : ReflTransGen (Step timeout) x y) :
    Places capacity y ∧ Flow y := by
  induction hr with
  | refl => exact ⟨hp, hf⟩
  | tail _ hs ih => exact ⟨ih.1.step hs, ih.2.step ih.1 hs⟩

theorem Reachable.inv (h : Reachable capacity timeout x) : Places capacity x ∧ Flow x :=
  inv_run (places_new capacity) (flow_new capacity) h

end Conduit

end ChangeRelay
