import ChangeRelay.Proofs.Broadcast.Turns
import ChangeRelay.Proofs.Feed.Pipeline

namespace ChangeRelay

open Relation (ReflTransGen)

namespace Conduit

/-- What the relay does itself, at a time. To look at the token, and to take a payload, are two
steps. -/
inductive Works (timeout now : Nat) : Conduit → Conduit → Prop
  | stop (x : Conduit) (waiting : x.phase = .waiting) (cancelled : x.cancelled = true) :
      Works timeout now x (x.stop .cancelled)
  | listen (x : Conduit) (waiting : x.phase = .waiting) (going : x.cancelled = false) :
      Works timeout now x { x with phase := .listening }
  | rest (x : Conduit) (listening : x.phase = .listening) :
      Works timeout now x { x with phase := .waiting }
  | desert (x : Conduit) (listening : x.phase = .listening) (empty : x.queue.payloads = [])
      (released : x.released = true) : Works timeout now x (x.stop .deserted)
  | take (x : Conduit) {w : String} {q : Queue} (listening : x.phase = .listening)
      (taken : x.queue.take? = some (w, q)) : Works timeout now x (x.take w q)
  | begin (x : Conduit) {w : String} (holding : x.phase = .holding w) :
      Works timeout now x { x with phase := .busy, fanout := x.fanout.begin w }
  | start (x : Conduit) {d : Dispatch} (current : x.fanout.current = some d)
      (more : d.waiting ≠ []) : Works timeout now x { x with fanout := x.fanout.start timeout now }
  | settle (x : Conduit) {d : Dispatch} {leg : Leg} (current : x.fanout.current = some d)
      (underway : leg ∈ d.begun) (due : leg.due ≤ now) :
      Works timeout now x { x with fanout := x.fanout.settle leg }
  | finish (x : Conduit) {d : Dispatch} (busy : x.phase = .busy)
      (current : x.fanout.current = some d) (isOver : d.isOver = true) :
      Works timeout now x
        { x with phase := .waiting, fanout := x.fanout.finish, dispatched := x.dispatched + 1 }

def taken (x : Conduit) : List String := x.fanout.past.map (·.payload) ++ x.inHand

structure InService (x : Conduit) : Prop where
  started : x.phase ≠ .unstarted
  busy_iff : x.phase = .busy ↔ x.fanout.current.isSome = true

variable {timeout now : Nat} {x y : Conduit} {w : String}

theorem Works.step (h : Works timeout now x y) : Step timeout x y := by
  cases h with
  | stop waiting cancelled => exact .stop x waiting cancelled
  | listen waiting going => exact .listen x waiting going
  | rest listening => exact .rest x listening
  | desert listening empty released => exact .desert x listening empty released
  | take listening taken => exact .take x listening taken
  | begin holding => exact .begin x holding
  | start current more =>
    have hc : Fanout.Continues timeout _ _ := Fanout.continues_start now current more
    exact .fanout x hc.delivers.step hc.past hc.current
  | settle current underway due =>
    have hc : Fanout.Continues timeout _ _ := Fanout.continues_settle current underway
    exact .fanout x hc.delivers.step hc.past hc.current
  | finish busy current isOver => exact .finish x busy current isOver

theorem InService.current_of (h : x.InService) {p : Phase} (hp : x.phase = p) (hb : p ≠ .busy) :
    x.fanout.current = none := by
  rw [← Option.not_isSome_iff_eq_none, ← h.busy_iff, hp]
  exact hb

theorem InService.keeps (h : x.InService) (hk : Keeps x y) : y.InService where
  started := hk.phase ▸ h.started
  busy_iff := by
    rw [hk.phase, hk.fanout]
    exact h.busy_iff

theorem InService.turn (h : x.InService) {p p' : Phase} (hp : x.phase = p) (hb : p ≠ .busy)
    (hf : y.fanout = x.fanout) (hp' : y.phase = p') (hs : p' ≠ .unstarted) (hb' : p' ≠ .busy) :
    y.InService where
  started := hp' ▸ hs
  busy_iff := by simp [hp', hb', hf, h.current_of hp hb]

theorem InService.step (h : x.InService) (hs : Step timeout x y) : y.InService := by
  cases hs with
  | send w => exact h.keeps (x.keeps_send w)
  | fulfil | turnAway | revoke => exact h.keeps ⟨rfl, rfl, rfl, rfl, rfl⟩
  | release | cancel => exact ⟨h.started, h.busy_iff⟩
  | launch unstarted | drop unstarted => exact absurd unstarted h.started
  | stop waiting | listen waiting => exact h.turn waiting (by simp) rfl rfl (by simp) (by simp)
  | rest listening | desert listening =>
    exact h.turn listening (by simp) rfl rfl (by simp) (by simp)
  | @take w q listening =>
    have hk := keeps_take x w q
    exact h.turn listening (by simp) hk.fanout hk.phase (by simp) (by simp)
  | begin holding => exact ⟨by simp, by simp [Fanout.begin]⟩
  | fanout step past current =>
    refine ⟨h.started, h.busy_iff.trans ?_⟩
    rw [← Option.isSome_map (f := (·.payload)), ← current, Option.isSome_map]
  | finish => exact ⟨by simp, by simp [Fanout.finish]⟩

theorem Works.line (h : Works timeout now x y) :
    y.blocked = x.blocked ∧ y.promised = x.promised ∨
      ∃ v vs, x.blocked = v :: vs ∧ y.blocked = vs ∧ y.promised = x.promised ++ [v] := by
  cases h with
  | take listening taken =>
    obtain ⟨ws, -, ⟨-, he⟩ | ⟨v, vs, hb, he⟩⟩ := take_cases taken
    · exact .inl (by simp [he])
    · exact .inr ⟨v, vs, hb, by simp [he]⟩
  | stop | listen | rest | desert | begin | start | settle | finish => exact .inl ⟨rfl, rfl⟩

theorem Works.released (h : Works timeout now x y) : y.released = x.released := by
  cases h with
  | @take w q => exact (keeps_take x w q).released
  | stop | listen | rest | desert | begin | start | settle | finish => rfl

theorem Works.cancelled (h : Works timeout now x y) : y.cancelled = x.cancelled := by
  cases h with
  | @take w q => exact (keeps_take x w q).cancelled
  | stop | listen | rest | desert | begin | start | settle | finish => rfl

end Conduit

/-- What was begun before and later: nothing more, or one more by the turn that was in progress and
is over. -/
def LastTurn {α : Type} (turn turn' : Prop) (xs ys : List α) : Prop :=
  ys = xs ∧ (turn' → turn) ∨ turn ∧ ¬turn' ∧ ∃ x, ys = xs ++ [x]

theorem LastTurn.trans {α : Type} {turn turn' turn'' : Prop} {xs ys zs : List α}
    (h : LastTurn turn turn' xs ys) (h' : LastTurn turn' turn'' ys zs) :
    LastTurn turn turn'' xs zs := by
  rcases h with ⟨rfl, ht⟩ | ⟨ht, hn, x, rfl⟩
  · rcases h' with ⟨rfl, ht'⟩ | ⟨ht', hn, hx⟩
    · exact .inl ⟨rfl, ht ∘ ht'⟩
    · exact .inr ⟨ht ht', hn, hx⟩
  · rcases h' with ⟨rfl, ht'⟩ | ⟨ht', -⟩
    · exact .inr ⟨ht, hn ∘ ht', x, rfl⟩
    · exact absurd ht' hn

namespace Feed

def Answer.events (a : Answer) : List Event :=
  match a.result with
  | .ok es => es
  | .error _ => []

/-- A feed and the relay that it supplies. A feed that is poised has found the token unfired, and
goes to its timer with that; one that is queued waits for a place for its next payload. -/
structure Supply where
  now : Nat
  feed : Feed
  poised : Bool
  queued : Bool
  answers : List Answer
  calls : List (Nat × Int)
  conduit : Conduit

namespace Supply

def start (watermark : Watermark) (capacity : Nat) (a : Audience) (answers : List Answer) :
    Supply where
  now := 0
  feed := Feed.new watermark
  poised := false
  queued := false
  answers := answers
  calls := []
  conduit := { Conduit.new capacity with
    phase := .waiting
    fanout := { Fanout.empty with audience := a } }

def answerDue (x : Supply) : Nat :=
  (x.calls.getLast?.map (·.1)).getD 0 + (x.answers.head?.getD .nothing).delay

def leave (x : Supply) : Supply :=
  { x with
    feed := x.feed.turnedAway.1
    queued := false
    conduit := { x.conduit with released := true } }

def later (x : Supply) (t : Nat) : Supply := { x with now := max x.now t }

/-- One step of the feed. Between two rounds it looks at the token, and then at its timer; within a
round it does not look. -/
inductive Feeds : Supply → Supply → Prop
  | quit (x : Supply) (idle : x.feed.phase = .idle) (unpoised : x.poised = false)
      (fired : x.conduit.cancelled = true) : Feeds x x.leave
  | look (x : Supply) (idle : x.feed.phase = .idle) (unpoised : x.poised = false)
      (unfired : x.conduit.cancelled = false) : Feeds x { x with poised := true }
  | rest (x : Supply) (poised : x.poised = true) : Feeds x { x with poised := false }
  | ask (x : Supply) (poised : x.poised = true) :
      Feeds x { x with
        feed := x.feed.ask.1
        poised := false
        calls := x.calls ++ [(x.now, x.feed.ask.2)] }
  | receive (x : Supply) (calling : x.feed.phase = .calling) (due : x.answerDue ≤ x.now) :
      Feeds x { x with
        feed := (x.feed.receive (x.answers.head?.getD .nothing).result).1
        answers := x.answers.tail }
  | send (x : Supply) {w : String} {q : Queue} (next : x.feed.next? = some w)
      (unqueued : x.queued = false) (offer : x.conduit.queue.offer w = .accepted q) :
      Feeds x { x with feed := x.feed.accepted, conduit := x.conduit.send w }
  | wait (x : Supply) {w : String} (next : x.feed.next? = some w) (unqueued : x.queued = false)
      (offer : x.conduit.queue.offer w = .full) :
      Feeds x { x with queued := true, conduit := x.conduit.send w }
  | refuse (x : Supply) {w : String} (next : x.feed.next? = some w) (unqueued : x.queued = false)
      (offer : x.conduit.queue.offer w = .closed) :
      Feeds x (leave { x with conduit := x.conduit.send w })
  | fulfil (x : Supply) {w : String} (next : x.feed.next? = some w) (queued : x.queued = true)
      (waits : w ∈ x.conduit.promised) (isOpen : x.conduit.queue.isOpen = true) :
      Feeds x { x with feed := x.feed.accepted, queued := false, conduit := x.conduit.fulfil w }
  | turnAway (x : Supply) {w : String} (next : x.feed.next? = some w) (queued : x.queued = true)
      (waits : w ∈ x.conduit.blocked) (closed : x.conduit.queue.isOpen = false) :
      Feeds x (leave { x with conduit := x.conduit.turnAway w })
  | revoke (x : Supply) {w : String} (next : x.feed.next? = some w) (queued : x.queued = true)
      (waits : w ∈ x.conduit.promised) (closed : x.conduit.queue.isOpen = false) :
      Feeds x (leave { x with conduit := x.conduit.revoke w })
  | finish (x : Supply) {n m : Nat} (sent : x.feed.phase = .sending [] n m) :
      Feeds x { x with feed := x.feed.finish.1 }

def Relays (timeout : Nat) (x y : Supply) : Prop :=
  ∃ c, x.conduit.Works timeout x.now c ∧ y = { x with conduit := c }

/-- What happens besides: the token is fired, time goes on, and clients come, leave and break. -/
inductive Others (timeout : Nat) : Supply → Supply → Prop
  | fire (x : Supply) : Others timeout x { x with conduit := { x.conduit with cancelled := true } }
  | wait (x : Supply) (t : Nat) : Others timeout x (x.later t)
  | clients (x : Supply) {g : Fanout} (step : Fanout.Step timeout x.conduit.fanout g)
      (past : g.past = x.conduit.fanout.past) (current : g.current = x.conduit.fanout.current) :
      Others timeout x { x with conduit := { x.conduit with fanout := g } }

def Acts (timeout : Nat) (x y : Supply) : Prop := Feeds x y ∨ Relays timeout x y

def Goes (timeout : Nat) (x y : Supply) : Prop := Acts timeout x y ∨ Others timeout x y

variable {capacity timeout : Nat} {watermark : Watermark} {answers : List Answer}
  {x y z : Supply} {w : String}

def Line (x : Supply) : Prop :=
  x.queued = false ∧ x.conduit.blocked = [] ∧ x.conduit.promised = [] ∨
    x.queued = true ∧ ∃ w, x.feed.next? = some w ∧
      (x.conduit.blocked = [w] ∧ x.conduit.promised = [] ∨
        x.conduit.blocked = [] ∧ x.conduit.promised = [w])

/-- What the feed is at, and what it holds of the queue. -/
structure Tied (x : Supply) : Prop where
  held : x.conduit.released = true → x.feed.phase = .stopped
  idle : x.poised = true → x.feed.phase = .idle
  line : x.Line

structure Coupled (capacity : Nat) (x : Supply) : Prop where
  places : x.conduit.Places capacity
  inService : x.conduit.InService
  tied : x.Tied

theorem Line.unqueued (h : x.Line) (hn : x.feed.next? = none ∨ x.queued = false) :
    x.queued = false ∧ x.conduit.blocked = [] ∧ x.conduit.promised = [] := by
  rcases h with h | ⟨hq, w, hw, -⟩
  · exact h
  · rcases hn with hn | hn
    · cases hn.symm.trans hw
    · cases hn.symm.trans hq

theorem Line.queued (h : x.Line) (hq : x.queued = true) (hw : x.feed.next? = some w) :
    x.conduit.blocked = [w] ∧ x.conduit.promised = [] ∨
      x.conduit.blocked = [] ∧ x.conduit.promised = [w] := by
  rcases h with ⟨hn, -⟩ | ⟨-, v, hv, h⟩
  · cases hn.symm.trans hq
  · cases hv.symm.trans hw
    exact h

theorem phase_ne_of_next? (h : x.feed.next? = some w) :
    x.feed.phase ≠ .idle ∧ x.feed.phase ≠ .stopped := by
  obtain ⟨e, es, n, m, hp, -⟩ := phase_of_next? h
  simp [hp]

theorem Tied.unreleased (h : x.Tied) (hn : x.feed.phase ≠ .stopped) :
    x.conduit.released = false := by
  rw [← Bool.not_eq_true]
  exact fun hr ↦ hn (h.held hr)

theorem Tied.unpoised (h : x.Tied) (hn : x.feed.phase ≠ .idle) : x.poised = false := by
  rw [← Bool.not_eq_true]
  exact fun hp ↦ hn (h.idle hp)

theorem Tied.erase_blocked (h : x.Tied) (hw : x.feed.next? = some w) (hq : x.queued = true)
    (hm : w ∈ x.conduit.blocked) :
    x.conduit.blocked.erase w = [] ∧ x.conduit.promised = [] := by
  rcases h.line.queued hq hw with ⟨hb, hp⟩ | ⟨hb, -⟩
  · simp [hb, hp]
  · simp [hb] at hm

theorem Tied.erase_promised (h : x.Tied) (hw : x.feed.next? = some w) (hq : x.queued = true)
    (hm : w ∈ x.conduit.promised) :
    x.conduit.blocked = [] ∧ x.conduit.promised.erase w = [] := by
  rcases h.line.queued hq hw with ⟨-, hp⟩ | ⟨hb, hp⟩
  · simp [hp] at hm
  · simp [hb, hp]

theorem send_of_accepted {c : Conduit} {q : Queue} (h : c.queue.offer w = .accepted q) :
    c.send w = { c with queue := q, sent := c.sent ++ [w], accepted := c.accepted ++ [w] } := by
  simp [Conduit.send, h]

theorem send_of_full {c : Conduit} (h : c.queue.offer w = .full) :
    c.send w = { c with sent := c.sent ++ [w], blocked := c.blocked ++ [w] } := by
  simp [Conduit.send, h]

theorem send_of_closed {c : Conduit} (h : c.queue.offer w = .closed) :
    c.send w = { c with sent := c.sent ++ [w], refused := c.refused ++ [w] } := by
  simp [Conduit.send, h]

theorem leave_conduit {c : Conduit} (hs : x.conduit.Step timeout c) (hb : c.blocked = [])
    (hp : c.promised = []) :
    ReflTransGen (Conduit.Step timeout) x.conduit (leave { x with conduit := c }).conduit :=
  (ReflTransGen.single hs).tail (.release c hb hp)

theorem Feeds.conduit (hs : Feeds x y) (h : x.Tied) :
    ReflTransGen (Conduit.Step timeout) x.conduit y.conduit := by
  cases hs with
  | look | rest | ask | receive | finish => exact .refl
  | quit idle =>
    obtain ⟨-, hb, hp⟩ := h.line.unqueued (.inl (by simp [next?, idle]))
    exact .single (.release _ hb hp)
  | send next | wait next =>
    exact .single (.send _ _ (h.unreleased (phase_ne_of_next? next).2))
  | fulfil next queued waits isOpen => exact .single (.fulfil _ _ waits isOpen)
  | refuse next unqueued offer =>
    obtain ⟨-, hb, hp⟩ := h.line.unqueued (.inr unqueued)
    have he := send_of_closed offer
    have hheld := h.unreleased (phase_ne_of_next? next).2
    exact leave_conduit (.send _ _ hheld) (by rw [he, hb]) (by rw [he, hp])
  | turnAway next queued waits closed =>
    obtain ⟨hb, hp⟩ := h.erase_blocked next queued waits
    exact leave_conduit (.turnAway _ _ waits closed) hb hp
  | revoke next queued waits closed =>
    obtain ⟨hb, hp⟩ := h.erase_promised next queued waits
    exact leave_conduit (.revoke _ _ waits closed) hb hp

theorem Goes.conduit (hs : Goes timeout x y) (h : x.Tied) :
    ReflTransGen (Conduit.Step timeout) x.conduit y.conduit := by
  rcases hs with (hs | ⟨c, hw, rfl⟩) | hs
  · exact hs.conduit h
  · exact .single hw.step
  · cases hs with
    | fire => exact .single (.cancel _)
    | wait => exact .refl
    | clients step past current => exact .single (.fanout _ step past (by rw [current]))

theorem tied_leave {c : Conduit} (hp : x.poised = false) (hb : c.blocked = [])
    (hpromised : c.promised = []) : Tied (leave { x with conduit := c }) where
  held _ := rfl
  idle h := by cases hp.symm.trans h
  line := .inl ⟨rfl, hb, hpromised⟩

theorem Tied.within (h : x.Tied) (hs : x.feed.phase ≠ .stopped)
    (hr : y.conduit.released = x.conduit.released) (hp : y.poised = false)
    (hl : y.queued = false ∧ y.conduit.blocked = [] ∧ y.conduit.promised = []) : y.Tied where
  held hy := by cases (h.unreleased hs).symm.trans (hr ▸ hy)
  idle hy := by cases hp.symm.trans hy
  line := .inl hl

theorem Tied.feeds (h : x.Tied) (hs : Feeds x y) : y.Tied := by
  cases hs with
  | quit idle unpoised =>
    obtain ⟨-, hb, hp⟩ := h.line.unqueued (.inl (by simp [next?, idle]))
    exact tied_leave unpoised hb hp
  | look idle => exact ⟨h.held, fun _ ↦ idle, h.line⟩
  | rest => exact ⟨h.held, by simp, h.line⟩
  | ask poised =>
    have idle := h.idle poised
    exact h.within (by simp [idle]) rfl rfl (h.line.unqueued (.inl (by simp [next?, idle])))
  | receive calling =>
    exact h.within (by simp [calling]) rfl (h.unpoised (by simp [calling]))
      (h.line.unqueued (.inl (by simp [next?, calling])))
  | finish sent =>
    exact h.within (by simp [sent]) rfl (h.unpoised (by simp [sent]))
      (h.line.unqueued (.inl (by simp [next?, sent])))
  | send next unqueued offer =>
    obtain ⟨hidle, hstopped⟩ := phase_ne_of_next? next
    rw [send_of_accepted offer]
    exact h.within hstopped rfl (h.unpoised hidle) (h.line.unqueued (.inr unqueued))
  | wait next unqueued offer =>
    obtain ⟨-, hb, hp⟩ := h.line.unqueued (.inr unqueued)
    rw [send_of_full offer]
    exact ⟨h.held, h.idle, .inr ⟨rfl, _, next, .inl ⟨by simp [hb], hp⟩⟩⟩
  | refuse next unqueued offer =>
    obtain ⟨-, hb, hp⟩ := h.line.unqueued (.inr unqueued)
    rw [send_of_closed offer]
    exact tied_leave (h.unpoised (phase_ne_of_next? next).1) hb hp
  | fulfil next queued waits =>
    obtain ⟨hidle, hstopped⟩ := phase_ne_of_next? next
    exact h.within hstopped rfl (h.unpoised hidle) ⟨rfl, h.erase_promised next queued waits⟩
  | turnAway next queued waits =>
    obtain ⟨hb, hp⟩ := h.erase_blocked next queued waits
    exact tied_leave (h.unpoised (phase_ne_of_next? next).1) hb hp
  | revoke next queued waits =>
    obtain ⟨hb, hp⟩ := h.erase_promised next queued waits
    exact tied_leave (h.unpoised (phase_ne_of_next? next).1) hb hp

theorem Tied.relays (h : x.Tied) (hs : Relays timeout x y) : y.Tied := by
  obtain ⟨c, hw, rfl⟩ := hs
  refine ⟨fun hr ↦ h.held (hw.released ▸ hr), h.idle, ?_⟩
  rcases hw.line with ⟨hb, hp⟩ | ⟨v, vs, hxb, hb, hp⟩
  · rw [Line, hb, hp]
    exact h.line
  · rcases h.line with ⟨-, hnone, -⟩ | ⟨hq, w, hn, ⟨hone, hxp⟩ | ⟨hnone, -⟩⟩
    · cases hxb.symm.trans hnone
    · -- the place that became free is promised to the feed
      cases hxb.symm.trans hone
      exact .inr ⟨hq, v, hn, .inr ⟨hb, by simp [hp, hxp]⟩⟩
    · cases hxb.symm.trans hnone

theorem Tied.others (h : x.Tied) (hs : Others timeout x y) : y.Tied := by
  cases hs with
  | fire | wait | clients => exact ⟨h.held, h.idle, h.line⟩

theorem Tied.goes (h : x.Tied) (hs : Goes timeout x y) : y.Tied := by
  rcases hs with (hs | hs) | hs
  · exact h.feeds hs
  · exact h.relays hs
  · exact h.others hs

theorem served_run {c d : Conduit} (hp : c.Places capacity) (hi : c.InService)
    (hr : ReflTransGen (Conduit.Step timeout) c d) : d.Places capacity ∧ d.InService := by
  induction hr with
  | refl => exact ⟨hp, hi⟩
  | tail _ hs ih => exact ⟨ih.1.step hs, ih.2.step hs⟩

theorem Coupled.goes (h : Coupled capacity x) (hs : Goes timeout x y) : Coupled capacity y := by
  obtain ⟨hp, hi⟩ := served_run h.places h.inService (hs.conduit h.tied)
  exact ⟨hp, hi, h.tied.goes hs⟩

theorem Coupled.run (h : Coupled capacity x) (hr : ReflTransGen (Goes timeout) x y) :
    Coupled capacity y := by
  induction hr with
  | refl => exact h
  | tail _ hs ih => exact ih.goes hs

/-- The watermark is that of the answers so far. -/
def Fetched (watermark : Watermark) (answers : List Answer) (x : Supply) : Prop :=
  ∃ past, answers = past ++ x.answers ∧
    x.feed.watermark = watermark.rise (past.flatMap Answer.events)

theorem Fetched.feed (h : Fetched watermark answers x) (ha : y.answers = x.answers)
    (hw : y.feed.watermark = x.feed.watermark) : Fetched watermark answers y := by
  obtain ⟨past, hpast, hx⟩ := h
  exact ⟨past, ha ▸ hpast, hw.trans hx⟩

theorem watermark_accepted {p : Feed} (h : p.next? = some w) :
    p.accepted.watermark = p.watermark := by
  obtain ⟨e, es, n, m, hp, -⟩ := phase_of_next? h
  simp [accepted, hp]

theorem Fetched.receive (h : Fetched watermark answers x) :
    Fetched watermark answers { x with
      feed := (x.feed.receive (x.answers.head?.getD .nothing).result).1
      answers := x.answers.tail } := by
  obtain ⟨past, hpast, hw⟩ := h
  cases has : x.answers with
  | nil => exact ⟨past, by rw [hpast, has]; rfl, hw⟩
  | cons a as =>
    refine ⟨past ++ [a], by simp [hpast, has], ?_⟩
    rw [List.flatMap_append, Watermark.rise_append, ← hw, List.flatMap_singleton]
    simp only [List.head?_cons, Option.getD_some, Answer.events, Feed.receive]
    cases a.result <;> rfl

theorem Fetched.goes (h : Fetched watermark answers x) (hs : Goes timeout x y) :
    Fetched watermark answers y := by
  rcases hs with (hs | ⟨c, hw, rfl⟩) | hs
  · cases hs with
    | quit | look | rest | ask | wait | refuse | turnAway | revoke => exact h.feed rfl rfl
    | receive => exact h.receive
    | send next | fulfil next => exact h.feed rfl (watermark_accepted next)
    | finish sent => exact h.feed rfl (by simp [Feed.finish, sent])
  · exact h
  · cases hs <;> exact h

theorem Fetched.run (h : Fetched watermark answers x) (hr : ReflTransGen (Goes timeout) x y) :
    Fetched watermark answers y := by
  induction hr with
  | refl => exact h
  | tail _ hs ih => exact ih.goes hs

end Supply

end Feed

end ChangeRelay
