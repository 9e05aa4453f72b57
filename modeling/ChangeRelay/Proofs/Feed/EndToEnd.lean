import ChangeRelay.Proofs.Feed.Pipeline

namespace ChangeRelay

open Relation (ReflTransGen)

namespace Relay

structure Quiet (r : Relay) : Prop where
  uncancelled : r.cancelAt = none
  held : r.senderHeld = true
  nobody : r.waiting = []
  turns : ∀ p ∈ r.turns, p = .relay

variable {r r' : Relay}

theorem Quiet.wake (h : r.Quiet) : r.wake.Quiet := by
  unfold Relay.wake
  split
  · exact h
  · refine ⟨h.uncancelled, h.held, h.nobody, ?_⟩
    intro p hp
    rcases List.mem_append.mp hp with hp | hp
    · exact h.turns p hp
    · exact List.mem_singleton.mp hp

theorem Quiet.notify (h : r.Quiet) : r.notify.Quiet := by
  unfold Relay.notify
  split
  · exact h.wake
  · exact h

theorem Quiet.pass (h : r.Quiet) : r.pass.Quiet :=
  ⟨h.uncancelled, h.held, h.nobody, fun p hp ↦ h.turns p (List.mem_of_mem_tail hp)⟩

theorem Quiet.postpone (h : r.Quiet) : r.postpone.Quiet := by
  refine ⟨h.uncancelled, h.held, h.nobody, ?_⟩
  intro p hp
  rcases List.mem_append.mp hp with hp | hp
  · exact h.turns p (List.mem_of_mem_tail hp)
  · exact h.turns p (List.mem_of_mem_head? (by simpa using hp))

theorem Quiet.take? (h : r.Quiet) (ht : r.take? = some r') : r'.Quiet := by
  obtain ⟨_, q, _, rfl⟩ := take?_eq_some ht
  rw [promisePlace_of_nobody (r := { r with queue := q, patience := r.patience - 2 }) h.nobody]
  exact ⟨h.uncancelled, h.held, h.nobody, h.turns⟩

theorem alike_pass (r : Relay) : r.Alike r.pass := ⟨rfl, rfl, rfl, rfl, rfl⟩

theorem alike_postpone (r : Relay) : r.Alike r.postpone := ⟨rfl, rfl, rfl, rfl, rfl⟩

theorem Quiet.work (h : r.Quiet) : r.work.Quiet ∧ r.Moves r.work := by
  have hpass : r.pass.Quiet ∧ r.Moves r.pass := ⟨h.pass, .wait r.alike_pass⟩
  unfold Relay.work
  split
  · exact hpass
  · exact hpass
  · rename_i hstage
    split
    · exact ⟨h.postpone, .wait r.alike_postpone⟩
    · split
      · rename_i hc
        simp [isCancelled, h.uncancelled] at hc
      · split
        · rename_i r' ht
          exact ⟨h.take? ht, .take hstage ht⟩
        · split
          · rename_i hd
            simp [isDeserted, h.held] at hd
          · exact hpass
  · rename_i d hbusy
    split
    · rename_i leg hl
      have hmem := List.mem_of_find?_eq_some hl
      exact ⟨⟨h.uncancelled, h.held, h.nobody, h.turns⟩, .endLeg hbusy hmem⟩
    · split
      · rename_i hover
        exact ⟨⟨h.uncancelled, h.held, h.nobody, h.turns⟩, .complete hbusy hover⟩
      · exact hpass

theorem Quiet.step? (h : r.Quiet) (hs : r.step? = some r') : r'.Quiet ∧ r.Moves r' := by
  unfold Relay.step? at hs
  split at hs
  · cases hs
  · cases hs
    exact h.work
  · rename_i p _ ht
    have hp := h.turns (.producer p) (ht ▸ List.mem_cons_self)
    cases hp

theorem Quiet.advanceSteps (h : r.Quiet) (done : Relay → Bool) (limit n : Nat) :
    (advanceSteps done limit n r).Quiet ∧
      ReflTransGen Moves r (Relay.advanceSteps done limit n r) := by
  have hnow {r : Relay} (h : r.Quiet) (t : Nat) :
      ({ r with now := t } : Relay).Quiet ∧ r.Moves { r with now := t } :=
    ⟨⟨h.uncancelled, h.held, h.nobody, h.turns⟩, .wait ⟨rfl, rfl, rfl, rfl, rfl⟩⟩
  induction n generalizing r with
  | zero => exact ⟨h, .refl⟩
  | succ n ih =>
    rw [Relay.advanceSteps]
    split
    · rename_i r' hs
      obtain ⟨hq, hm⟩ := h.step? hs
      obtain ⟨hq', hrun⟩ := ih hq
      exact ⟨hq', hrun.head hm⟩
    · split
      · exact ⟨h, .refl⟩
      · split
        · rename_i t _
          obtain ⟨hq, hm⟩ := hnow h (max r.now t)
          split
          · obtain ⟨hq', hrun⟩ := ih hq.wake
            exact ⟨hq', (hrun.head (.wait (alike_wake _))).head hm⟩
          · exact ⟨(hnow h _).1, .single (hnow h _).2⟩
        · exact ⟨(hnow h _).1, .single (hnow h _).2⟩

theorem Quiet.advanceUntil (h : r.Quiet) (done : Relay → Bool) (limit : Nat) :
    (r.advanceUntil done limit).Quiet ∧ ReflTransGen Moves r (r.advanceUntil done limit) :=
  h.advanceSteps done limit _

theorem quiet_serving (capacity timeout : Nat) (a : Audience) :
    (serving capacity timeout a).Quiet := by
  unfold serving start
  exact Quiet.wake ⟨rfl, rfl, rfl, fun p hp ↦ by cases hp⟩

end Relay

namespace Feed.Run

variable {r r' : Run} {o : FeedOutcome}

theorem steps_of_moves {relay : Relay} (h : ReflTransGen Relay.Moves r.relay relay) :
    ReflTransGen Step r { r with relay := relay } :=
  h.lift (fun relay ↦ { r with relay := relay }) fun _ _ hm ↦ .relay hm

/-- Sending what is left of a round is steps; unless the queue was closed the feed is idle then. -/
theorem send_steps {limit n : Nat} (h : send limit n r = (r', some o)) (hq : r.relay.Quiet)
    (hp : ∃ es k m, r.feed.phase = .sending es k m) :
    ReflTransGen Step r r' ∧ r'.relay.Quiet ∧ (o ≠ .queueClosed → r'.feed.phase = .idle) := by
  induction n generalizing r with
  | zero => cases h
  | succ n ih =>
    obtain ⟨es, k, m, hp⟩ := hp
    rw [send] at h
    split at h
    · rename_i hnext
      cases h
      cases es with
      | nil => exact ⟨.single (.finish hp), hq, fun _ ↦ by simp [hp]⟩
      | cons e es => simp [next?, hp] at hnext
    · rename_i w hnext
      obtain ⟨_, _, _, _, ha⟩ := eq_cons_of_next? hp hnext
      split at h
      · rename_i relay q hsend
        obtain ⟨_, rfl⟩ := Relay.send_of_accepted hsend
        obtain ⟨hrun, hrest⟩ := ih h (Relay.Quiet.notify ⟨hq.1, hq.2, hq.3, hq.4⟩)
          ⟨_, _, _, by rw [ha]⟩
        exact ⟨hrun.head (.send hnext hsend), hrest⟩
      · rename_i relay hsend
        cases h
        exact ⟨.single (.refuse hnext hsend), hq, fun hne ↦ absurd rfl hne⟩
      · dsimp only at h
        obtain ⟨hq', hm⟩ := hq.advanceUntil (fun q ↦ q.queue.hasRoom || !q.queue.isOpen) limit
        split at h
        · obtain ⟨hrun, hrest⟩ := ih h hq' ⟨_, _, _, hp⟩
          exact ⟨(steps_of_moves hm).trans hrun, hrest⟩
        · cases h

theorem round_steps {patience : Nat} (h : r.round patience = (r', some o)) (hq : r.relay.Quiet)
    (hp : r.feed.phase = .idle) :
    ReflTransGen Step r r' ∧ r'.relay.Quiet ∧ (o ≠ .queueClosed → r'.feed.phase = .idle) := by
  let answer := r.answers.head?.getD .nothing
  let relay := if answer.delay = 0 then r.relay else r.relay.advance (r.relay.now + answer.delay)
  have hadv : relay.Quiet ∧ ReflTransGen Relay.Moves r.relay relay := by
    dsimp only [relay]
    split
    · exact ⟨hq, .refl⟩
    · exact hq.advanceUntil _ _
  let asked : Run := { r with
    feed := r.feed.ask.1
    calls := r.calls ++ [(r.relay.now, r.feed.ask.2)] }
  have hwait : ReflTransGen Step asked { asked with relay := relay } := steps_of_moves hadv.2
  -- The feed asks, the relay goes on until the answer comes, and the feed takes it.
  have hrun : ReflTransGen Step r
      { r with
        feed := (r.feed.ask.1.receive answer.result).1
        relay := relay
        answers := r.answers.tail
        calls := r.calls ++ [(r.relay.now, r.feed.ask.2)] } :=
    (hwait.head (.ask hp)).tail (Step.receive (r := { asked with relay := relay }) rfl)
  unfold round at h
  dsimp only at h
  split at h
  · rename_i p o' hr
    cases h
    rw [congrArg Prod.fst hr] at hrun
    refine ⟨hrun, hadv.1, ?_⟩
    intro _
    cases hres : answer.result with
    | error e =>
      have hpe := congrArg Prod.fst hr
      rw [hres] at hpe
      exact congrArg Feed.phase hpe.symm
    | ok es =>
      have ho := congrArg Prod.snd hr
      rw [hres] at ho
      cases ho
  · rename_i p hr
    rw [congrArg Prod.fst hr] at hrun
    have hsending : ∃ es k m, p.phase = .sending es k m := by
      cases hres : answer.result with
      | error e =>
        have ho := congrArg Prod.snd hr
        rw [hres] at ho
        cases ho
      | ok es =>
        have hpe := congrArg Prod.fst hr
        rw [hres] at hpe
        exact ⟨_, _, _, congrArg Feed.phase hpe.symm⟩
    obtain ⟨hrun', hrest⟩ := send_steps h hadv.1 hsending
    exact ⟨hrun.trans hrun', hrest⟩

theorem Rounds.steps {os : List (Option FeedOutcome)} (h : Rounds r os r') (hos : none ∉ os)
    (hq : r.relay.Quiet) (hp : r.feed.phase = .idle) : ReflTransGen Step r r' := by
  induction h with
  | done => exact .refl
  | wait limit rest ih =>
    obtain ⟨hq', hm⟩ := hq.advanceUntil (fun _ ↦ false) limit
    exact (steps_of_moves hm).trans (ih hos hq' hp)
  | last round => exact (round_steps round hq hp).1
  | @more r r₁ r' o os round goes rest ih =>
    obtain ⟨o, rfl⟩ := Option.ne_none_iff_exists'.mp fun ho ↦ hos (ho ▸ List.mem_cons_self)
    obtain ⟨hrun, hq', hidle⟩ := round_steps round hq hp
    exact hrun.trans (ih (fun hn ↦ hos (List.mem_cons_of_mem _ hn)) hq'
      (hidle fun ho ↦ goes (congrArg some ho)))

/-- Whoever joined and left before, and however the others behave, a reliable client that is in at
the start receives the payloads of all answers in order, each once: at any time the first of them,
and all when nothing is left to do. Things can always come to that, and what a run in time does is
nothing else. -/
theorem delivers_script {f : Fanout} {timeout : Nat} (hf : Fanout.Reachable timeout f)
    (fresh : f.dispatches = []) (capacity : Nat) (watermark : Watermark) (answers : List Answer) :
    let r₀ := start watermark (.serving capacity timeout f.audience) answers
    (∀ r, ReflTransGen Step r₀ r →
      (∀ c ∈ f.members, ∀ k, f.audience.client? c = some k → k.outlet.Reliable timeout →
        ∃ k', r.relay.audience.client? c = some k' ∧
          k'.received <+: answers.flatMap Answer.payloads ∧
          (Drained r → k'.received = answers.flatMap Answer.payloads)) ∧
      ∃ r', ReflTransGen Step r r' ∧ Drained r') ∧
    ∀ interval stopAt, ∃ os, Rounds r₀ os (r₀.finish interval stopAt) ∧
      (none ∉ os → ReflTransGen Step r₀ (r₀.finish interval stopAt)) := by
  intro r₀
  have hflow := Flow.start hf.inv fresh watermark capacity timeout answers
  constructor
  · intro r hr
    obtain ⟨g, hg, hflow'⟩ := hflow.run hr
    refine ⟨?_, hflow'.drains⟩
    intro c hc k hk ho
    exact hflow'.received ((hf.inv.steady fresh hc hk ho).run hg)
  · intro interval stopAt
    obtain ⟨os, hos⟩ := r₀.finish_rounds interval stopAt
    exact ⟨os, hos, fun hn ↦ hos.steps hn (Relay.quiet_serving _ _ _) rfl⟩

def company : Fanout := (((Fanout.empty.create .steady).enter 1).create .broken).enter 2

theorem company_reachable : Fanout.Reachable 5 company := by
  have h₁ : Fanout.Reachable 5 (Fanout.empty.create .steady) := .tail .refl (.create _ _)
  have h₂ := h₁.tail (.enter _ 1 (by decide) rfl)
  have h₃ := h₂.tail (.create _ .broken)
  exact h₃.tail (.enter _ 2 (by decide) rfl)

/-- The same change twice, with a failure between them. -/
def repeated : List Answer :=
  let e : Event := ⟨"a", "task", .created, 9⟩
  [⟨0, .ok [e]⟩, ⟨0, .error .emptyResponse⟩, ⟨3, .ok [e]⟩]

theorem delivers_script_company :
    ∃ r, ReflTransGen Step (start ⟨7⟩ (.serving 0 5 company.audience) repeated) r ∧ Drained r ∧
      ∃ k, r.relay.audience.client? 1 = some k ∧
        k.received = repeated.flatMap Answer.payloads ∧ k.received.length = 2 := by
  have hall := (delivers_script company_reachable rfl 0 ⟨7⟩ repeated).1
  obtain ⟨r, hr, hd⟩ := (hall _ .refl).2
  obtain ⟨k, hk, _, hrec⟩ := (hall r hr).1 1 (by decide) _ rfl fun _ _ ↦ rfl
  exact ⟨r, hr, hd, k, hk, hrec hd, by rw [hrec hd]; rfl⟩

end Feed.Run

end ChangeRelay
