import ChangeRelay.Feed.Basic
import ChangeRelay.Proofs.Broadcast.Usage
import ChangeRelay.Proofs.Greatest

namespace ChangeRelay

namespace Watermark

def stamps (start : Int) (es : List Event) : Set Int :=
  insert start {n | ∃ e ∈ es, e.timestamp = n}

theorem rise_append (c : Watermark) (es es' : List Event) :
    c.rise (es ++ es') = (c.rise es).rise es' := by simp [rise, List.foldl_append]

theorem rise_isGreatest (c : Watermark) (es : List Event) :
    IsGreatest (stamps c.level es) (c.rise es).level :=
  isGreatest_foldl_max Event.timestamp c.level es

theorem level_le_rise (c : Watermark) (es : List Event) : c.level ≤ (c.rise es).level :=
  (c.rise_isGreatest es).2 (.inl rfl)

end Watermark

namespace Feed

/-- One round, as it is seen from outside: what was asked for, the answer, the payloads the queue
accepted, and the outcome. -/
structure Tick where
  since : Int
  answer : Except Tracker.Failure (List Event)
  accepted : List String
  outcome : FeedOutcome

def Tick.events (t : Tick) : List Event :=
  match t.answer with
  | .ok es => es
  | .error _ => []

def eventsOf (ts : List Tick) : List Event := ts.flatMap Tick.events

def acceptedOf (ts : List Tick) : List String := ts.flatMap (·.accepted)

open Queue (Uses)

variable (allowed : Queue → Queue → Prop)

/-- Sending what is left of an answer. Before each payload others may use the queue as often as they
like, and a payload comes to a place that is free or was promised to it. -/
inductive Sends : Feed → Queue → List String → FeedOutcome → Feed → Queue → Prop
  | offered {p p' : Feed} {q q₁ q₂ q' : Queue} {w : String} {ws : List String} {o : FeedOutcome}
      (wait : Uses allowed q q₁) (next : p.next? = some w) (taken : q₁.offer w = .accepted q₂)
      (rest : Sends p.accepted q₂ ws o p' q') : Sends p q (w :: ws) o p' q'
  | promised {p p' : Feed} {q q₁ q' : Queue} {w : String} {ws : List String} {o : FeedOutcome}
      (wait : Uses allowed q q₁) (next : p.next? = some w) (stillOpen : q₁.isOpen = true)
      (rest : Sends p.accepted (q₁.fulfil w) ws o p' q') : Sends p q (w :: ws) o p' q'
  | refused {p : Feed} {q q' : Queue} {w : String}
      (wait : Uses allowed q q') (next : p.next? = some w) (gone : q'.offer w = .closed) :
      Sends p q [] p.turnedAway.2 p.turnedAway.1 q'
  | finished {p : Feed} {q q' : Queue} (wait : Uses allowed q q') (next : p.next? = none) :
      Sends p q [] p.finish.2 p.finish.1 q'

inductive Ticks : Feed → Queue → Tick → Feed → Queue → Prop
  | ended {p : Feed} {q q' : Queue} {o : FeedOutcome} (a : Except Tracker.Failure (List Event))
      (wait : Uses allowed q q') (allOver : (p.ask.1.receive a).2 = some o) :
      Ticks p q ⟨p.ask.2, a, [], o⟩ (p.ask.1.receive a).1 q'
  | sent {p p' : Feed} {q q₁ q' : Queue} {ws : List String} {o : FeedOutcome}
      (a : Except Tracker.Failure (List Event)) (wait : Uses allowed q q₁)
      (more : (p.ask.1.receive a).2 = none)
      (sends : Sends allowed (p.ask.1.receive a).1 q₁ ws o p' q') :
      Ticks p q ⟨p.ask.2, a, ws, o⟩ p' q'

/-- Rounds one after another. Between them others may use the queue. -/
inductive Series (p : Feed) (q : Queue) : List Tick → Feed → Queue → Prop
  | none {q' : Queue} (wait : Uses allowed q q') : Series p q [] p q'
  | more {p₁ p' : Feed} {q₁ q₂ q' : Queue} {ts : List Tick} {t : Tick}
      (before : Series p q ts p₁ q₁) (tick : Ticks allowed p₁ q₁ t p' q₂)
      (wait : Uses allowed q₂ q') : Series p q (ts ++ [t]) p' q'

inductive Tick.Moves : Tick → Watermark → Watermark → Prop
  | skipped (c : Watermark) (e : Tracker.Failure) :
      Tick.Moves ⟨c.level, .error e, [], .skipped⟩ c c
  | forwarded (c : Watermark) (es : List Event) :
      Tick.Moves ⟨c.level, .ok es, es.map (·.payload),
        .forwarded es.length es.length (c.rise es).level⟩ c (c.rise es)
  | queueClosed (c : Watermark) (sent : List Event) (e : Event) (left : List Event) :
      Tick.Moves ⟨c.level, .ok (sent ++ e :: left), sent.map (·.payload), .queueClosed⟩
        c (c.rise (sent ++ e :: left))

inductive Sent (fetched : Nat) (level : Int) :
    List Event → Nat → List String → FeedOutcome → Prop
  | all (es : List Event) (m : Nat) :
      Sent fetched level es m (es.map (·.payload)) (.forwarded fetched (m + es.length) level)
  | part (sent : List Event) (e : Event) (left : List Event) (m : Nat) :
      Sent fetched level (sent ++ e :: left) m (sent.map (·.payload)) .queueClosed

theorem Sent.cons {fetched m : Nat} {level : Int} {es : List Event} {ws : List String}
    {o : FeedOutcome} (h : Sent fetched level es (m + 1) ws o) (e : Event) :
    Sent fetched level (e :: es) m (e.payload :: ws) o := by
  cases h with
  | all =>
    have hl : m + 1 + es.length = m + (e :: es).length := by
      rw [List.length_cons]
      omega
    rw [hl]
    exact .all (e :: es) m
  | part sent e' left => exact .part (e :: sent) e' left m

theorem eq_cons_of_next? {p : Feed} {es : List Event} {n m : Nat} {w : String}
    (hp : p.phase = .sending es n m) (hw : p.next? = some w) :
    ∃ e left, es = e :: left ∧ w = e.payload ∧
      p.accepted = { p with phase := .sending left n (m + 1) } := by
  cases es with
  | nil => simp [next?, hp] at hw
  | cons e left =>
    simp only [next?, hp, Option.some.injEq] at hw
    exact ⟨e, left, rfl, hw.symm, by simp [accepted, hp]⟩

variable {allowed}

theorem Sends.sent {p p' : Feed} {q q' : Queue} {ws : List String} {o : FeedOutcome}
    {es : List Event} {n m : Nat} (h : Sends allowed p q ws o p' q')
    (hp : p.phase = .sending es n m) :
    p'.watermark = p.watermark ∧ Sent n p.watermark.level es m ws o := by
  induction h generalizing es m with
  | offered wait next taken rest ih =>
    obtain ⟨e, left, rfl, rfl, ha⟩ := eq_cons_of_next? hp next
    rw [ha] at ih
    obtain ⟨hc, hs⟩ := ih rfl
    exact ⟨hc, hs.cons e⟩
  | promised wait next stillOpen rest ih =>
    obtain ⟨e, left, rfl, rfl, ha⟩ := eq_cons_of_next? hp next
    rw [ha] at ih
    obtain ⟨hc, hs⟩ := ih rfl
    exact ⟨hc, hs.cons e⟩
  | refused wait next gone =>
    obtain ⟨e, left, rfl, -, -⟩ := eq_cons_of_next? hp next
    exact ⟨rfl, .part [] e left m⟩
  | @finished p q q' wait next =>
    cases es with
    | nil =>
      have hf : p.finish = ({ p with phase := .idle }, .forwarded n m p.watermark.level) := by
        simp [finish, hp]
      rw [hf]
      exact ⟨rfl, .all [] m⟩
    | cons e es => simp [next?, hp] at next

theorem finish_ne_queueClosed (p : Feed) : p.finish.2 ≠ .queueClosed := by
  unfold finish
  split <;> simp

theorem Sends.closed {p p' : Feed} {q q' : Queue} {ws : List String} {o : FeedOutcome}
    (h : Sends allowed p q ws o p' q') (ho : o = .queueClosed) : q'.isOpen = false := by
  induction h with
  | offered _ _ _ _ ih => exact ih ho
  | promised _ _ _ _ ih => exact ih ho
  | refused _ _ gone => exact Queue.offer_eq_closed.mp gone
  | finished => exact absurd ho (finish_ne_queueClosed _)

theorem Sends.of_closed {p p' : Feed} {q q' : Queue} {ws : List String} {o : FeedOutcome}
    (h : Sends allowed p q ws o p' q') (hq : q.isOpen = false) : ws = [] ∧ q'.isOpen = false := by
  cases h with
  | offered wait _ taken _ =>
    have hopen := (Queue.offer_eq_accepted.mp taken).1
    rw [wait.isOpen_eq_false hq] at hopen
    cases hopen
  | promised wait _ stillOpen _ =>
    rw [wait.isOpen_eq_false hq] at stillOpen
    cases stillOpen
  | refused wait => exact ⟨rfl, wait.isOpen_eq_false hq⟩
  | finished wait => exact ⟨rfl, wait.isOpen_eq_false hq⟩

variable {p p' : Feed} {q q' : Queue} {t : Tick}

theorem Ticks.moves (h : Ticks allowed p q t p' q') : t.Moves p.watermark p'.watermark := by
  cases h with
  | ended a wait allOver =>
    cases a with
    | error e =>
      cases allOver
      exact .skipped p.watermark e
    | ok es => cases allOver
  | sent a wait more sends =>
    cases a with
    | error e => cases more
    | ok es =>
      obtain ⟨hc, hs⟩ := sends.sent rfl
      rw [hc]
      cases hs with
      | all =>
        rw [Nat.zero_add]
        exact .forwarded p.watermark es
      | part sent e left => exact .queueClosed p.watermark sent e left

theorem Ticks.closed (h : Ticks allowed p q t p' q') (ho : t.outcome = .queueClosed) :
    q'.isOpen = false := by
  cases h with
  | ended a wait allOver =>
    cases a with
    | error e =>
      cases allOver
      cases ho
    | ok es => cases allOver
  | sent a wait _ sends => exact sends.closed ho

theorem Ticks.of_closed (h : Ticks allowed p q t p' q') (hq : q.isOpen = false) :
    t.accepted = [] ∧ q'.isOpen = false := by
  cases h with
  | ended a wait => exact ⟨rfl, wait.isOpen_eq_false hq⟩
  | sent a wait _ sends => exact sends.of_closed (wait.isOpen_eq_false hq)

theorem Ticks.of_error {e : Tracker.Failure} (h : Ticks allowed p q t p' q')
    (he : t.answer = .error e) : p' = { p with phase := .idle } ∧ Uses allowed q q' := by
  cases h with
  | ended a wait allOver =>
    cases he
    exact ⟨rfl, wait⟩
  | sent a wait more =>
    cases he
    cases more

theorem Tick.Moves.since_eq {c c' : Watermark} (h : t.Moves c c') : t.since = c.level := by
  cases h <;> rfl

theorem Tick.Moves.rise_eq {c c' : Watermark} (h : t.Moves c c') : c' = c.rise t.events := by
  cases h <;> rfl

theorem Tick.Moves.accepted_eq_or {c c' : Watermark} (h : t.Moves c c') :
    t.accepted = t.events.map (·.payload) ∨
      t.outcome = .queueClosed ∧ t.accepted <+: t.events.map (·.payload) := by
  cases h with
  | skipped => exact .inl rfl
  | forwarded => exact .inl rfl
  | queueClosed c sent e left => exact .inr ⟨rfl, by simp [Tick.events]⟩

@[simp] theorem eventsOf_append (ts us : List Tick) :
    eventsOf (ts ++ us) = eventsOf ts ++ eventsOf us := by simp [eventsOf]

@[simp] theorem acceptedOf_append (ts us : List Tick) :
    acceptedOf (ts ++ us) = acceptedOf ts ++ acceptedOf us := by simp [acceptedOf]

@[simp] theorem eventsOf_singleton (t : Tick) : eventsOf [t] = t.events := by simp [eventsOf]

@[simp] theorem acceptedOf_singleton (t : Tick) : acceptedOf [t] = t.accepted := by
  simp [acceptedOf]

variable {ts : List Tick}

theorem Series.after {q₁ : Queue} (h : Series allowed p q ts p' q₁) (hq : Uses allowed q₁ q') :
    Series allowed p q ts p' q' := by
  cases h with
  | none wait => exact .none (wait.trans hq)
  | more before tick wait => exact .more before tick (wait.trans hq)

theorem Series.watermark_eq (h : Series allowed p q ts p' q') :
    p'.watermark = p.watermark.rise (eventsOf ts) := by
  induction h with
  | none => rfl
  | more before tick _ ih =>
    rw [eventsOf_append, eventsOf_singleton, Watermark.rise_append, ← ih]
    exact tick.moves.rise_eq

theorem Series.since_eq (h : Series allowed p q ts p' q') {i : Nat} (ht : ts[i]? = some t) :
    t.since = (p.watermark.rise (eventsOf (ts.take i))).level := by
  induction h with
  | none => cases ht
  | @more p₁ p' q₁ q₂ q' ts u before tick _ ih =>
    rw [List.getElem?_append] at ht
    split at ht
    · rename_i hi
      rw [List.take_append_of_le_length (Nat.le_of_lt hi)]
      exact ih ht
    · rename_i hi
      rw [List.getElem?_singleton] at ht
      split at ht
      · cases ht
        have hlen : i = ts.length := by omega
        rw [hlen, List.take_left' rfl, ← before.watermark_eq]
        exact tick.moves.since_eq
      · cases ht

theorem Series.pairwise_since (h : Series allowed p q ts p' q') :
    (ts.map (·.since)).Pairwise (· ≤ ·) := by
  rw [List.pairwise_map]
  induction h with
  | none => exact .nil
  | @more p₁ p' q₁ q₂ q' ts t before tick _ ih =>
    refine List.pairwise_append.mpr ⟨ih, List.pairwise_singleton _ _, ?_⟩
    intro u hu v hv
    obtain ⟨i, hi⟩ := List.mem_iff_getElem?.mp hu
    have hsplit : eventsOf ts = eventsOf (ts.take i) ++ eventsOf (ts.drop i) := by
      rw [← eventsOf_append, List.take_append_drop]
    rw [List.mem_singleton.mp hv, before.since_eq hi, tick.moves.since_eq, before.watermark_eq,
      hsplit, Watermark.rise_append]
    exact Watermark.level_le_rise _ _

/-- Between rounds the queue has accepted all that was answered, or was closed before. -/
theorem Series.accepted_eq_or (h : Series allowed p q ts p' q') :
    acceptedOf ts = (eventsOf ts).map (·.payload) ∨
      q'.isOpen = false ∧ acceptedOf ts <+: (eventsOf ts).map (·.payload) := by
  induction h with
  | none => exact .inl rfl
  | @more p₁ p' q₁ q₂ q' ts t before tick wait ih =>
    rw [eventsOf_append, acceptedOf_append, eventsOf_singleton, acceptedOf_singleton,
      List.map_append]
    rcases ih with hall | ⟨hclosed, hpre⟩
    · rw [hall]
      rcases tick.moves.accepted_eq_or with ht | ⟨ho, ht⟩
      · exact .inl (by rw [ht])
      · exact .inr ⟨wait.isOpen_eq_false (tick.closed ho), List.prefix_append_right_inj _ |>.mpr ht⟩
    · obtain ⟨ht, hq₂⟩ := tick.of_closed hclosed
      rw [ht, List.append_nil]
      exact .inr ⟨wait.isOpen_eq_false hq₂, hpre.trans (List.prefix_append _ _)⟩

end Feed

end ChangeRelay
