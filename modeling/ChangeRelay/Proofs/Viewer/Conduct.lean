import ChangeRelay.Proofs.Viewer.Alternation
import ChangeRelay.Viewer.Run
import Mathlib.Logic.Relation

namespace ChangeRelay.Follower

def Wake.input? : Wake → Option Link.Input
  | .reconnectTimer => some .reconnectTimer
  | .frame (some .text) | .frame (some .binary) => some .message
  | .frame (some .ping) | .frame (some .pong) => none
  | .frame (some .close) | .frame (some .error) | .frame none => some .closed
  | .fallbackTick => some .fallbackTimer

/-- Nobody is woken by a timer that is not set, nor by a connection that is not held. -/
def Wake.CanWake (w : Follower) : Wake → Prop
  | .reconnectTimer => w.reconnectAt ≠ none
  | .frame _ => w.connected = true
  | .fallbackTick => w.ticker ≠ none

inductive Place where
  | working
  | dialing
  | reading
  | waiting
  | ended
  deriving DecidableEq

/-- What a follower took up, and what happened to it. -/
inductive Happening where
  | started
  | did (a : Link.Action)
  | opened (success : Bool)
  | read (shownAs : Option LinkStatus)
  | woke (k : Wake)
  deriving DecidableEq

namespace Happening

def input? : Happening → Option Link.Input
  | started => some .start
  | opened true => some .connectSucceeded
  | opened false => some .connectFailed
  | woke k => k.input?
  | did _ | read _ => none

def action? : Happening → Option Link.Action
  | did a => some a
  | _ => none

end Happening

structure Course where
  follower : Follower
  place : Place
  log : List Happening

def next (w : Follower) (as : List Link.Action) : Follower := { w with pending := as }

namespace Course

def start (config : Link.Config) : Course := ⟨.start config, .working, [.started]⟩

inductive Step : Course → Course → Prop
  | timer (x : Course) (now : Nat) {a : Link.Action} {as : List Link.Action}
      (working : x.place = .working) (due : x.follower.pending = a :: as)
      (ne : a ≠ .openConnection) (ne' : a ≠ .refresh) :
      Step x ⟨(x.follower.next as).setTimer now a, .working, x.log ++ [.did a]⟩
  | dial (x : Course) {as : List Link.Action} (working : x.place = .working)
      (due : x.follower.pending = .openConnection :: as) :
      Step x ⟨x.follower.next as, .dialing, x.log ++ [.did .openConnection]⟩
  | opened (x : Course) (success : Bool) (dialing : x.place = .dialing) :
      Step x ⟨x.follower.opened success, .working, x.log ++ [.opened success]⟩
  | look (x : Course) {as : List Link.Action} (working : x.place = .working)
      (due : x.follower.pending = .refresh :: as) :
      Step x ⟨x.follower.next as, .reading, x.log ++ [.did .refresh]⟩
  | display (x : Course) (result : Except Tracker.Failure Board) (reading : x.place = .reading) :
      Step x ⟨x.follower.refreshed result, .working,
        x.log ++ [.read (result.toOption.map fun _ ↦ x.follower.link.state)]⟩
  | rest (x : Course) (working : x.place = .working) (done : x.follower.pending = []) :
      Step x { x with place := .waiting }
  | wake (x : Course) (now : Nat) (k : Wake) (waiting : x.place = .waiting)
      (can : k.CanWake x.follower) :
      Step x ⟨x.follower.wake now k, .working, x.log ++ [.woke k]⟩
  | stop (x : Course) (stoppable : x.place = .dialing ∨ x.place = .waiting) :
      Step x { x with place := .ended }

def Reachable (config : Link.Config) : Course → Prop :=
  Relation.ReflTransGen Step (start config)

def inputs (x : Course) : List Link.Input := x.log.filterMap Happening.input?

def done (x : Course) : List Link.Action := x.log.filterMap Happening.action?

end Course

section Operations

variable (w : Follower) (now : Nat)

@[simp] theorem next_next (as bs : List Link.Action) : (w.next as).next bs = w.next bs := rfl

@[simp] theorem next_link (as : List Link.Action) : (w.next as).link = w.link := rfl

@[simp] theorem next_pending (as : List Link.Action) : (w.next as).pending = as := rfl

@[simp] theorem next_connected (as : List Link.Action) : (w.next as).connected = w.connected := rfl

theorem wake_feeds (k : Wake) :
    (w.wake now k).link = w.link.after k.input?.toList ∧
      (w.wake now k).pending = w.pending ++ w.link.actions k.input?.toList := by
  unfold wake Wake.input?
  split <;> simp [feed, Link.after, Link.actions]

theorem opened_feeds (success : Bool) :
    (w.opened success).link = w.link.after (Happening.opened success).input?.toList ∧
      (w.opened success).pending =
        w.pending ++ w.link.actions (Happening.opened success).input?.toList := by
  cases success <;> simp [opened, feed, Happening.input?, Link.after, Link.actions]

def timers : Bool × Bool := (w.reconnectAt.isSome, w.ticker.isSome)

end Operations

def turn : Bool × Bool → Link.Action → Bool × Bool
  | (_, ticking), .scheduleReconnect _ => (true, ticking)
  | (armed, _), .startFallback _ => (armed, true)
  | (armed, _), .stopFallback => (armed, false)
  | t, .openConnection | t, .refresh => t

theorem timers_setTimer (w : Follower) (now : Nat) (a : Link.Action) :
    (w.setTimer now a).timers = turn w.timers a := by cases a <;> rfl

end ChangeRelay.Follower

namespace ChangeRelay.Link

theorem after_append (l : Link) (is js : List Input) :
    l.after (is ++ js) = (l.after is).after js := List.foldl_append

theorem actions_append (l : Link) (is js : List Input) :
    l.actions (is ++ js) = l.actions is ++ (l.after is).actions js := by
  induction is generalizing l with
  | nil => rfl
  | cons i is ih =>
    rw [List.cons_append, actions, actions, ih, List.append_assoc]
    rfl

variable {l : Link}

theorem Sound.step_reconnectTimer (down : l.state = .disconnected) (started : l.started = true) :
    l.step .reconnectTimer = ({ l with state := .connecting }, [.openConnection]) := by
  simp [step, down, started]

theorem Sound.polling_of_connecting (h : l.Sound) (opening : l.state = .connecting) :
    l.polling = true := by
  rw [h.polling, opening]
  exact ⟨h.started_of_ne (by simp [opening]), nofun⟩

theorem Sound.step_connectSucceeded (h : l.Sound) (opening : l.state = .connecting) :
    l.step .connectSucceeded =
      ({ l with state := .connected, polling := false }, [.stopFallback, .refresh]) := by
  simp [step, connect, opening, h.polling_of_connecting opening]

theorem Sound.step_connectFailed (h : l.Sound) (opening : l.state = .connecting) :
    l.step .connectFailed =
      ({ l with state := .disconnected, polling := true },
        [.scheduleReconnect l.config.reconnectDelay]) := by
  simp [step, disconnect, opening, h.polling_of_connecting opening]

theorem Sound.step_closed (h : l.Sound) (up : l.state = .connected) :
    l.step .closed =
      ({ l with state := .disconnected, polling := true },
        [.scheduleReconnect l.config.reconnectDelay, .startFallback l.config.fallbackInterval,
          .refresh]) := by
  have hp : l.polling = false := by simpa [up] using h.polling
  simp [step, disconnect, up, hp]

theorem step_message (up : l.state = .connected) : l.step .message = (l, [.refresh]) := by
  simp [step, up]

theorem Sound.step_fallbackTimer (h : l.Sound) (polling : l.polling = true) :
    l.step .fallbackTimer = (l, [.refresh]) := by
  simp [step, polling, (h.polling.mp polling).2]

end ChangeRelay.Link

namespace ChangeRelay.Follower.Course

variable {config : Link.Config} {x y : Course}

/-- The link is where all that happened takes a new one, and what it asked for is done, or is still
to be done, in its order. -/
structure Refines (config : Link.Config) (x : Course) : Prop where
  link : x.follower.link = (Link.new config).after x.inputs
  actions : x.done ++ x.follower.pending = (Link.new config).actions x.inputs

theorem refines_start : Refines config (start config) := ⟨rfl, rfl⟩

theorem inputs_concat (w : Follower) (p : Place) (log : List Happening) (e : Happening) :
    inputs ⟨w, p, log ++ [e]⟩ = log.filterMap Happening.input? ++ e.input?.toList := by
  rw [inputs, List.filterMap_append, List.append_cancel_left_eq, List.filterMap_cons]
  cases e.input? <;> rfl

theorem done_concat (w : Follower) (p : Place) (log : List Happening) (e : Happening) :
    done ⟨w, p, log ++ [e]⟩ = log.filterMap Happening.action? ++ e.action?.toList := by
  rw [done, List.filterMap_append, List.append_cancel_left_eq, List.filterMap_cons]
  cases e.action? <;> rfl

theorem Refines.take (h : Refines config x) {a : Link.Action} {as : List Link.Action}
    (due : x.follower.pending = a :: as) {w : Follower} (p : Place)
    (link : w.link = x.follower.link) (pending : w.pending = as) :
    Refines config ⟨w, p, x.log ++ [.did a]⟩ := by
  refine ⟨?_, ?_⟩
  · rw [inputs_concat, link, h.link]
    exact congrArg _ (List.append_nil _).symm
  · have hd := h.actions
    rw [due, ← List.singleton_append, ← List.append_assoc] at hd
    rw [inputs_concat, done_concat, pending]
    exact hd.trans (congrArg _ (List.append_nil _).symm)

theorem Refines.feed (h : Refines config x) {e : Happening} (ne : e.action? = none) {w : Follower}
    (p : Place) (link : w.link = x.follower.link.after e.input?.toList)
    (pending : w.pending = x.follower.pending ++ x.follower.link.actions e.input?.toList) :
    Refines config ⟨w, p, x.log ++ [e]⟩ := by
  refine ⟨?_, ?_⟩
  · rw [inputs_concat, Link.after_append, link, h.link]
    rfl
  · rw [inputs_concat, done_concat, Link.actions_append, ne, pending, Option.toList_none,
      List.append_nil, ← List.append_assoc, h.link]
    exact congrArg (· ++ _) h.actions

theorem Refines.step (h : Refines config x) (hs : Step x y) : Refines config y := by
  cases hs with
  | timer now working due ne ne' => exact h.take due _ (by simp) (by simp)
  | dial working due => exact h.take due _ rfl rfl
  | look working due => exact h.take due _ rfl rfl
  | opened success dialing =>
    obtain ⟨hl, hp⟩ := opened_feeds x.follower success
    exact h.feed rfl _ hl hp
  | wake now k waiting can =>
    obtain ⟨hl, hp⟩ := wake_feeds x.follower now k
    exact h.feed rfl _ hl hp
  | display result reading =>
    exact h.feed rfl _ rfl (by simp [refreshed, Happening.input?, Link.actions])
  | rest working done => exact ⟨h.link, h.actions⟩
  | stop stoppable => exact ⟨h.link, h.actions⟩

structure Inv (config : Link.Config) (x : Course) : Prop where
  refines : Refines config x
  begun : .start ∈ x.inputs
  connected : x.follower.connected = true ↔ x.follower.link.state = .connected
  timers : x.follower.pending.foldl turn x.follower.timers =
    (decide (x.follower.link.state = .disconnected), x.follower.link.polling)
  opening : x.place ≠ .ended → (x.follower.link.state = .connecting ↔
    x.place = .dialing ∨ .openConnection ∈ x.follower.pending)
  /-- Only the last of the pending actions takes time. -/
  last : ∀ a ∈ x.follower.pending.dropLast, a ≠ .openConnection ∧ a ≠ .refresh
  idle : x.place ≠ .working → x.follower.pending = []

theorem Inv.sound (h : Inv config x) : x.follower.link.Sound := by
  rw [h.refines.link]
  exact (Link.traced_run config x.inputs).sound

theorem Inv.running (h : Inv config x) : x.follower.link.started = true := by
  rw [h.refines.link]
  exact (Link.traced_run config x.inputs).started.mpr h.begun

theorem Inv.begun_concat (h : Inv config x) (w : Follower) (p : Place) (e : Happening) :
    .start ∈ inputs ⟨w, p, x.log ++ [e]⟩ := by
  rw [inputs_concat]
  exact List.mem_append_left _ h.begun

theorem Inv.last_tail (h : Inv config x) {a : Link.Action} {as : List Link.Action}
    (due : x.follower.pending = a :: as) :
    (∀ b ∈ as.dropLast, b ≠ .openConnection ∧ b ≠ .refresh) ∧
      (a = .openConnection ∨ a = .refresh → as = []) := by
  have hlast := h.last
  rw [due] at hlast
  cases as with
  | nil => exact ⟨nofun, fun _ ↦ rfl⟩
  | cons b bs =>
    refine ⟨fun c hc ↦ hlast c (List.mem_cons_of_mem a hc), fun ha ↦ ?_⟩
    obtain ⟨hopen, hrefresh⟩ := hlast a List.mem_cons_self
    exact (ha.elim hopen hrefresh).elim

theorem Inv.state_of_dialing (h : Inv config x) (dialing : x.place = .dialing) :
    x.follower.link.state = .connecting ∧ x.follower.pending = [] :=
  ⟨(h.opening (by simp [dialing])).mpr (.inl dialing), h.idle (by simp [dialing])⟩

theorem Inv.connecting_ne (h : Inv config x) (waiting : x.place = .waiting) :
    x.follower.link.state ≠ .connecting := by
  rw [Ne, h.opening (by simp [waiting]), waiting, h.idle (by simp [waiting])]
  simp

theorem Inv.timers_of_idle (h : Inv config x) (idle : x.follower.pending = []) :
    (x.follower.reconnectAt ≠ none ↔ x.follower.link.state = .disconnected) ∧
      (x.follower.ticker ≠ none ↔ x.follower.link.polling = true) := by
  have ht := h.timers
  rw [idle, List.foldl_nil, Follower.timers, Prod.mk.injEq] at ht
  rw [← Option.isSome_iff_ne_none, ← Option.isSome_iff_ne_none, ht.1, ht.2, decide_eq_true_iff]
  exact ⟨Iff.rfl, Iff.rfl⟩

theorem inv_start : Inv config (start config) where
  refines := refines_start
  begun := List.mem_cons_self
  connected := by
    simp [start, Follower.start, Follower.feed, Link.step, Link.disconnect, Link.new]
  timers := rfl
  opening := by
    simp [start, Follower.start, Follower.feed, Link.step, Link.disconnect, Link.new]
  last := by
    simp [start, Follower.start, Follower.feed, Link.step, Link.disconnect, Link.new]
  idle h := absurd rfl h

theorem Inv.timer (h : Inv config x) (now : Nat) {a : Link.Action} {as : List Link.Action}
    (working : x.place = .working) (due : x.follower.pending = a :: as)
    (ne : a ≠ .openConnection) (ne' : a ≠ .refresh) :
    Inv config ⟨(x.follower.next as).setTimer now a, .working, x.log ++ [.did a]⟩ where
  refines := h.refines.step (.timer x now working due ne ne')
  begun := h.begun_concat ..
  connected := by
    rw [setTimer_connected, setTimer_link]
    exact h.connected
  timers := by
    have ht := h.timers
    rw [due, List.foldl_cons] at ht
    rw [timers_setTimer, setTimer_pending, setTimer_link]
    exact ht
  opening := by
    intro _
    have ho := h.opening (by simp [working])
    rw [working, due, List.mem_cons, or_iff_right ne.symm] at ho
    rw [setTimer_pending, setTimer_link]
    exact ho
  last := by
    rw [setTimer_pending]
    exact (h.last_tail due).1
  idle h := absurd rfl h

theorem Inv.dial (h : Inv config x) {as : List Link.Action} (working : x.place = .working)
    (due : x.follower.pending = .openConnection :: as) :
    Inv config ⟨x.follower.next as, .dialing, x.log ++ [.did .openConnection]⟩ where
  refines := h.refines.step (.dial x working due)
  begun := h.begun_concat ..
  connected := h.connected
  timers := by
    have ht := h.timers
    rw [due, List.foldl_cons] at ht
    exact ht
  opening := by simp [h.opening, working, due]
  last := (h.last_tail due).1
  idle _ := (h.last_tail due).2 (.inl rfl)

theorem Inv.look (h : Inv config x) {as : List Link.Action} (working : x.place = .working)
    (due : x.follower.pending = .refresh :: as) :
    Inv config ⟨x.follower.next as, .reading, x.log ++ [.did .refresh]⟩ where
  refines := h.refines.step (.look x working due)
  begun := h.begun_concat ..
  connected := h.connected
  timers := by
    have ht := h.timers
    rw [due, List.foldl_cons] at ht
    exact ht
  opening := by
    have hnil := (h.last_tail due).2 (.inr rfl)
    simp [h.opening, working, due, hnil]
  last := (h.last_tail due).1
  idle _ := (h.last_tail due).2 (.inr rfl)

theorem Inv.opened (h : Inv config x) (success : Bool) (dialing : x.place = .dialing) :
    Inv config ⟨x.follower.opened success, .working, x.log ++ [.opened success]⟩ := by
  have hrefines := h.refines.step (.opened x success dialing)
  obtain ⟨hstate, hidle⟩ := h.state_of_dialing dialing
  have hpolling := h.sound.polling_of_connecting hstate
  have hconn : x.follower.connected ≠ true := by simp [h.connected, hstate]
  have ht := h.timers
  rw [hidle, List.foldl_nil, hstate, hpolling, Follower.timers, Prod.mk.injEq] at ht
  cases success with
  | true =>
    have hw : x.follower.opened true =
        { x.follower with
          link := { x.follower.link with state := .connected, polling := false }
          pending := [.stopFallback, .refresh]
          connected := true } := by
      simp [Follower.opened, Follower.feed, h.sound.step_connectSucceeded hstate, hidle]
    rw [hw] at hrefines ⊢
    exact ⟨hrefines, h.begun_concat .., by simp, by simp [turn, Follower.timers, ht], by simp,
      by simp, fun h ↦ absurd rfl h⟩
  | false =>
    have hw : x.follower.opened false =
        { x.follower with
          link := { x.follower.link with state := .disconnected, polling := true }
          pending := [.scheduleReconnect x.follower.link.config.reconnectDelay] } := by
      simp [Follower.opened, Follower.feed, h.sound.step_connectFailed hstate, hidle]
    rw [hw] at hrefines ⊢
    exact ⟨hrefines, h.begun_concat .., by simp [hconn], by simp [turn, Follower.timers, ht],
      by simp, by simp, fun h ↦ absurd rfl h⟩

/-- All that can come of a wake. -/
inductive Woken (w : Follower) : Wake → Follower → Prop
  | retries (armed : w.reconnectAt ≠ none) (down : w.link.state = .disconnected) :
      Woken w .reconnectTimer
        { w with
          link := { w.link with state := .connecting }
          pending := [.openConnection]
          reconnectAt := none }
  | reads {f : Frame} (message : f = .text ∨ f = .binary) (up : w.link.state = .connected) :
      Woken w (.frame (some f)) { w with pending := [.refresh] }
  | ignores {f : Frame} (control : f = .ping ∨ f = .pong) : Woken w (.frame (some f)) w
  | loses {f : Option Frame} (final : f = some .close ∨ f = some .error ∨ f = none)
      (up : w.link.state = .connected) :
      Woken w (.frame f)
        { w with
          link := { w.link with state := .disconnected, polling := true }
          pending := [.scheduleReconnect w.link.config.reconnectDelay,
            .startFallback w.link.config.fallbackInterval, .refresh]
          connected := false }
  | ticks {t : Time.Ticker} (down : w.link.state = .disconnected) :
      Woken w .fallbackTick { w with pending := [.refresh], ticker := some t }

theorem Inv.woken (h : Inv config x) (waiting : x.place = .waiting) (now : Nat) {k : Wake}
    (can : k.CanWake x.follower) : Woken x.follower k (x.follower.wake now k) := by
  have hidle := h.idle (by simp [waiting])
  obtain ⟨harmed, hticking⟩ := h.timers_of_idle hidle
  rcases k with _ | f | _
  · have hdown := harmed.mp can
    have hw := Woken.retries can hdown
    have hstep := Link.Sound.step_reconnectTimer hdown h.running
    simpa [Follower.wake, Follower.feed, hidle, hstep] using hw
  · have hup := h.connected.mp can
    have hmessage {f : Frame} (message : f = .text ∨ f = .binary) :
        Woken x.follower (.frame (some f)) (x.follower.feed .message) := by
      simpa [Follower.feed, hidle, Link.step_message hup] using Woken.reads message hup
    have hclosed (final : f = some .close ∨ f = some .error ∨ f = none) :
        Woken x.follower (.frame f)
          (Follower.feed { x.follower with connected := false } .closed) := by
      have hw := Woken.loses (w := x.follower) final hup
      simpa [Follower.feed, hidle, h.sound.step_closed hup] using hw
    match f with
    | some .text => exact hmessage (.inl rfl)
    | some .binary => exact hmessage (.inr rfl)
    | some .ping => exact .ignores (.inl rfl)
    | some .pong => exact .ignores (.inr rfl)
    | some .close => exact hclosed (.inl rfl)
    | some .error => exact hclosed (.inr (.inl rfl))
    | none => exact hclosed (.inr (.inr rfl))
  · have hp := hticking.mp can
    obtain ⟨t, ht⟩ := Option.ne_none_iff_exists'.mp can
    have hdown : x.follower.link.state = .disconnected := by
      have hne := h.connecting_ne waiting
      have hup := (h.sound.polling.mp hp).2
      cases hs : x.follower.link.state <;> simp_all
    have hw := Woken.ticks (w := x.follower) (t := t.take now) hdown
    simpa [Follower.wake, Follower.feed, hidle, ht, h.sound.step_fallbackTimer hp] using hw

theorem Inv.wake (h : Inv config x) (waiting : x.place = .waiting) (now : Nat) {k : Wake}
    (can : k.CanWake x.follower) :
    Inv config ⟨x.follower.wake now k, .working, x.log ++ [.woke k]⟩ := by
  have hrefines := h.refines.step (.wake x now k waiting can)
  have hidle := h.idle (by simp [waiting])
  have ht := h.timers
  have hwoken := h.woken waiting now can
  rw [hidle, List.foldl_nil, Follower.timers, Prod.mk.injEq] at ht
  generalize x.follower.wake now k = w at hrefines hwoken ⊢
  cases hwoken with
  | retries armed down =>
    have hconn : x.follower.connected ≠ true := by simp [h.connected, down]
    exact ⟨hrefines, h.begun_concat .., by simp [hconn], by simp [turn, Follower.timers, ht],
      by simp, by simp, fun h ↦ absurd rfl h⟩
  | reads message up =>
    exact ⟨hrefines, h.begun_concat .., h.connected, by simp [turn, Follower.timers, ht],
      by simp [up], by simp, fun h ↦ absurd rfl h⟩
  | ignores control =>
    have hne := h.connecting_ne waiting
    exact ⟨hrefines, h.begun_concat .., h.connected, h.timers, by simp [hne, hidle], h.last,
      fun h ↦ absurd rfl h⟩
  | loses final up =>
    exact ⟨hrefines, h.begun_concat .., by simp, by simp [turn, Follower.timers], by simp,
      by simp, fun h ↦ absurd rfl h⟩
  | ticks down =>
    have hp : x.follower.link.polling = true := by
      rw [h.sound.polling]
      exact ⟨h.running, by simp [down]⟩
    exact ⟨hrefines, h.begun_concat .., h.connected, by simp [turn, Follower.timers, ht, hp],
      by simp [down], by simp, fun h ↦ absurd rfl h⟩

theorem Inv.step (h : Inv config x) (hs : Step x y) : Inv config y := by
  have hrefines := h.refines.step hs
  cases hs with
  | timer now working due ne ne' => exact h.timer now working due ne ne'
  | dial working due => exact h.dial working due
  | opened success dialing => exact h.opened success dialing
  | look working due => exact h.look working due
  | display result reading =>
    have hidle := h.idle (by simp [reading])
    have hne : x.follower.link.state ≠ .connecting := by simp [h.opening, reading, hidle]
    exact ⟨hrefines, h.begun_concat .., h.connected, h.timers, by simp [refreshed, hne, hidle],
      h.last, fun h ↦ absurd rfl h⟩
  | rest working done =>
    exact ⟨hrefines, h.begun, h.connected, h.timers, by simp [h.opening, working], h.last,
      fun _ ↦ done⟩
  | wake now k waiting can => exact h.wake waiting now can
  | stop stoppable =>
    have hidle := h.idle (by rcases stoppable with h | h <;> simp [h])
    exact ⟨hrefines, h.begun, h.connected, h.timers, fun h ↦ absurd rfl h, h.last, fun _ ↦ hidle⟩

theorem Reachable.inv (h : Reachable config x) : Inv config x := by
  induction h with
  | refl => exact inv_start
  | tail _ hs ih => exact ih.step hs

/-- A follower whose timers and whose connection are as its link has them. -/
structure Tuned (config : Link.Config) (x : Course) : Prop where
  refines : x.follower.link = (Link.new config).after x.inputs ∧
    x.done = (Link.new config).actions x.inputs
  pending : x.follower.pending = []
  state : x.follower.link.state = .disconnected ∨ x.follower.link.state = .connected
  connected : x.follower.connected = true ↔ x.follower.link.state = .connected
  armed : x.follower.reconnectAt ≠ none ↔ x.follower.link.state = .disconnected
  ticking : x.follower.ticker ≠ none ↔ x.follower.link.polling = true
  polling : x.follower.link.polling = true ↔ x.follower.link.state = .disconnected

/-- Whenever it waits, it has done all that its link asked for, its link is not in between, it holds
a connection just if the link is up, and both of its timers run just if the link is down. -/
theorem tuned_when_waiting (h : Reachable config x) (waiting : x.place = .waiting) :
    Tuned config x := by
  have hi := h.inv
  have hidle := hi.idle (by simp [waiting])
  have hne := hi.connecting_ne waiting
  obtain ⟨harmed, hticking⟩ := hi.timers_of_idle hidle
  have hactions := hi.refines.actions
  rw [hidle, List.append_nil] at hactions
  have hstate : x.follower.link.state = .disconnected ∨ x.follower.link.state = .connected := by
    cases hs : x.follower.link.state with
    | disconnected => exact .inl rfl
    | connecting => exact absurd hs hne
    | connected => exact .inr rfl
  refine ⟨⟨hi.refines.link, hactions⟩, hidle, hstate, hi.connected, harmed, hticking, ?_⟩
  rw [hi.sound.polling, and_iff_right hi.running]
  rcases hstate with hs | hs <;> simp [hs]

def blank : Board := ⟨.arr [], .arr [], .obj [], .arr []⟩

/-- A follower that has connected, got a message and lost its connection again. Its first refresh
failed. -/
def returned : Course where
  follower := ⟨⟨(Link.new .default).config, .disconnected, true, true⟩, [], some 14000,
    some ⟨39000, 30000⟩, false, ⟨some blank, 3⟩⟩
  place := .waiting
  log := [.started, .did (.scheduleReconnect 5_000_000_000), .did (.startFallback 30_000_000_000),
    .did .refresh, .read none, .woke .reconnectTimer, .did .openConnection, .opened true,
    .did .stopFallback, .did .refresh, .read (some .connected), .woke (.frame (some .text)),
    .did .refresh, .read (some .connected), .woke (.frame none),
    .did (.scheduleReconnect 5_000_000_000), .did (.startFallback 30_000_000_000), .did .refresh,
    .read (some .disconnected)]

theorem returned_reachable : Reachable .default returned := by
  have h₁ : Reachable .default _ := .tail .refl (.timer _ 0 rfl rfl nofun nofun)
  have h₂ := (h₁.tail (.timer _ 0 rfl rfl nofun nofun)).tail (.look _ rfl rfl)
  have h₃ := (h₂.tail (.display _ (.error .emptyResponse) rfl)).tail (.rest _ rfl rfl)
  have h₄ := (h₃.tail (.wake _ 5000 .reconnectTimer rfl nofun)).tail (.dial _ rfl rfl)
  have h₅ := (h₄.tail (.opened _ true rfl)).tail (.timer _ 5000 rfl rfl nofun nofun)
  have h₆ := (h₅.tail (.look _ rfl rfl)).tail (.display _ (.ok blank) rfl)
  have h₇ := (h₆.tail (.rest _ rfl rfl)).tail (.wake _ 8000 (.frame (some .text)) rfl rfl)
  have h₈ := (h₇.tail (.look _ rfl rfl)).tail (.display _ (.ok blank) rfl)
  have h₉ := (h₈.tail (.rest _ rfl rfl)).tail (.wake _ 9000 (.frame none) rfl rfl)
  have h₁₀ := h₉.tail (.timer _ 9000 rfl rfl nofun nofun)
  have h₁₁ := (h₁₀.tail (.timer _ 9000 rfl rfl nofun nofun)).tail (.look _ rfl rfl)
  exact (h₁₁.tail (.display _ (.ok blank) rfl)).tail (.rest _ rfl rfl)

theorem tuned_when_returned :
    Reachable .default returned ∧ returned.place = .waiting ∧ Tuned .default returned :=
  ⟨returned_reachable, rfl, tuned_when_waiting returned_reachable rfl⟩

end ChangeRelay.Follower.Course
