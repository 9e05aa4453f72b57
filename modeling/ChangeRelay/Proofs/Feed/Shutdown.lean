import ChangeRelay.Proofs.Feed.Supply
import Mathlib.Data.Prod.Lex

namespace ChangeRelay

open Relation (ReflTransGen)

namespace Dispatch

def load (d : Dispatch) : Nat := 2 * d.waiting.length + d.begun.length

theorem load_start (d : Dispatch) (a : Audience) (timeout now : Nat) (more : d.waiting ≠ []) :
    (d.start a timeout now).2.load < d.load := by
  obtain ⟨c, cs, hw⟩ := List.exists_cons_of_ne_nil more
  rcases d.start_cases a timeout now hw with ⟨he, -⟩ | ⟨k, due, -, -, he⟩
  · simp [he, load, hw]
  · simp only [he, load, hw, List.length_append, List.length_cons, List.length_nil]
    omega

theorem load_settle (d : Dispatch) (a : Audience) {leg : Leg} (underway : leg ∈ d.begun) :
    (d.settle a leg).2.load < d.load := by
  have hless : (d.begun.filter (· ≠ leg)).length < d.begun.length :=
    List.length_filter_lt_length_iff_exists.mpr ⟨leg, underway, by simp⟩
  simp only [settle, load]
  omega

end Dispatch

namespace Conduit

/-- The phases in the order in which a relay that was cancelled goes through them. -/
def Phase.rank : Phase → Nat
  | .gone _ => 0
  | .waiting => 1
  | .busy => 2
  | .holding _ => 3
  | .listening => 4
  | .unstarted => 5

def dispatchLoad (x : Conduit) : Nat := (x.fanout.current.map (·.load)).getD 0

variable {timeout now : Nat} {x y : Conduit}

theorem Works.load_lt (h : Works timeout now x y) (hc : x.cancelled = true) :
    y.phase.rank < x.phase.rank ∨
      y.phase.rank = x.phase.rank ∧ y.dispatchLoad < x.dispatchLoad := by
  cases h with
  | stop waiting => exact .inl (by simp [Conduit.stop, Phase.rank, waiting])
  | listen waiting going =>
    rw [hc] at going
    cases going
  | rest listening => exact .inl (by simp [Phase.rank, listening])
  | desert listening => exact .inl (by simp [Conduit.stop, Phase.rank, listening])
  | @take w q listening =>
    exact .inl (by simp [(keeps_take x w q).phase, Phase.rank, listening])
  | begin holding => exact .inl (by simp [Phase.rank, holding])
  | @start d current more =>
    have hless := d.load_start x.fanout.audience timeout now more
    exact .inr ⟨rfl, by simpa [dispatchLoad, Fanout.start, Fanout.proceed, current] using hless⟩
  | @settle d leg current underway =>
    have hless := d.load_settle x.fanout.audience underway
    exact .inr ⟨rfl, by simpa [dispatchLoad, Fanout.settle, Fanout.proceed, current] using hless⟩
  | finish busy => exact .inl (by simp [Phase.rank, busy])

end Conduit

namespace Feed

namespace Supply

variable {capacity timeout : Nat} {watermark : Watermark} {answers : List Answer}
  {x y z : Supply} {w : String}

def Returned (x : Supply) : Prop := x.feed.phase = .stopped ∧ x.conduit.IsGone

/-- One of the two waits for what happens at `t`: an answer comes, or a write ends. -/
def Awaits (x : Supply) (t : Nat) : Prop :=
  (x.feed.phase = .calling ∧ t = x.answerDue) ∨
    ∃ d leg, x.conduit.fanout.current = some d ∧ leg ∈ d.begun ∧ t = leg.due

structure Rests (x y : Supply) : Prop where
  feed : y.feed = x.feed
  poised : y.poised = x.poised
  queued : y.queued = x.queued
  answers : y.answers = x.answers
  calls : y.calls = x.calls
  queue : y.conduit.queue = x.conduit.queue
  blocked : y.conduit.blocked = x.conduit.blocked
  promised : y.conduit.promised = x.conduit.promised
  phase : y.conduit.phase = x.conduit.phase
  past : y.conduit.fanout.past = x.conduit.fanout.past
  current : y.conduit.fanout.current = x.conduit.fanout.current
  fired : x.conduit.cancelled = true → y.conduit.cancelled = true

theorem Rests.refl (x : Supply) : Rests x x :=
  ⟨rfl, rfl, rfl, rfl, rfl, rfl, rfl, rfl, rfl, rfl, rfl, id⟩

theorem Rests.trans (h : Rests x y) (h' : Rests y z) : Rests x z where
  feed := h'.feed.trans h.feed
  poised := h'.poised.trans h.poised
  queued := h'.queued.trans h.queued
  answers := h'.answers.trans h.answers
  calls := h'.calls.trans h.calls
  queue := h'.queue.trans h.queue
  blocked := h'.blocked.trans h.blocked
  promised := h'.promised.trans h.promised
  phase := h'.phase.trans h.phase
  past := h'.past.trans h.past
  current := h'.current.trans h.current
  fired hf := h'.fired (h.fired hf)

theorem Others.rests (h : Others timeout x y) : Rests x y := by
  cases h with
  | fire => exact ⟨rfl, rfl, rfl, rfl, rfl, rfl, rfl, rfl, rfl, rfl, rfl, fun _ ↦ rfl⟩
  | wait => exact ⟨rfl, rfl, rfl, rfl, rfl, rfl, rfl, rfl, rfl, rfl, rfl, id⟩
  | clients step past current =>
    exact ⟨rfl, rfl, rfl, rfl, rfl, rfl, rfl, rfl, rfl, past, current, id⟩

structure Apart (x y : Supply) : Prop where
  fanout : y.conduit.fanout = x.conduit.fanout
  phase : y.conduit.phase = x.conduit.phase
  cancelled : y.conduit.cancelled = x.conduit.cancelled

theorem Feeds.apart (h : Feeds x y) : Apart x y := by
  cases h with
  | @send w | @wait w | @refuse w =>
    have hk := Conduit.keeps_send x.conduit w
    exact ⟨hk.fanout, hk.phase, hk.cancelled⟩
  | quit | look | rest | ask | receive | fulfil | turnAway | revoke | finish =>
    exact ⟨rfl, rfl, rfl⟩

theorem Goes.fired (h : Goes timeout x y) (hf : x.conduit.cancelled = true) :
    y.conduit.cancelled = true := by
  rcases h with (h | ⟨c, hw, rfl⟩) | h
  · exact h.apart.cancelled.trans hf
  · exact hw.cancelled.trans hf
  · exact h.rests.fired hf

def feedLoad (x : Supply) : Nat :=
  let coming := (x.answers.head?.getD .nothing).events.length
  match x.feed.phase with
  | .stopped => 0
  | .idle => if x.poised then 2 * coming + 5 else 1
  | .calling => 2 * coming + 4
  | .sending left _ _ => 2 * left.length + 2 + if x.queued then 0 else 1

def load (x : Supply) : ℕ ×ₗ ℕ :=
  toLex (x.feedLoad + x.conduit.phase.rank, x.conduit.dispatchLoad)

theorem Feeds.feedLoad_lt (h : Feeds x y) (hx : x.Tied) (hf : x.conduit.cancelled = true) :
    y.feedLoad < x.feedLoad := by
  simp only [feedLoad]
  cases h with
  | quit idle unpoised => simp [leave, turnedAway, idle, unpoised]
  | look idle unpoised unfired =>
    rw [hf] at unfired
    cases unfired
  | rest poised => simp [hx.idle poised, poised]
  | ask poised => simp [hx.idle poised, poised, Feed.ask]
  | receive calling due =>
    have hpoised := hx.unpoised (by simp [calling])
    have hqueued := (hx.line.unqueued (.inl (by simp [next?, calling]))).1
    simp only [calling, Feed.receive, Answer.events, hpoised, hqueued]
    cases (x.answers.head?.getD .nothing).result <;> simp
  | send next unqueued =>
    obtain ⟨e, es, n, m, hp, rfl⟩ := phase_of_next? next
    simp [accepted, hp, unqueued]
  | fulfil next queued =>
    obtain ⟨e, es, n, m, hp, rfl⟩ := phase_of_next? next
    simp only [accepted, hp, queued, List.length_cons, if_true, Bool.false_eq_true, if_false]
    omega
  | wait next unqueued =>
    obtain ⟨e, es, n, m, hp, rfl⟩ := phase_of_next? next
    simp [hp, unqueued]
  | refuse next | turnAway next | revoke next =>
    obtain ⟨e, es, n, m, hp, rfl⟩ := phase_of_next? next
    simp only [leave, turnedAway, hp]
    omega
  | finish sent =>
    have hpoised := hx.unpoised (by simp [sent])
    simp only [Feed.finish, sent, hpoised, Bool.false_eq_true, if_false]
    omega

theorem load_lt_of_feedLoad (h : y.feedLoad < x.feedLoad) (ha : Apart x y) : y.load < x.load := by
  refine Prod.Lex.toLex_lt_toLex.mpr (.inl ?_)
  rw [ha.phase]
  exact Nat.add_lt_add_right h _

theorem Relays.load_lt (h : Relays timeout x y) (hf : x.conduit.cancelled = true) :
    y.load < x.load := by
  obtain ⟨c, hw, rfl⟩ := h
  rcases hw.load_lt hf with hless | ⟨heq, hless⟩
  · exact Prod.Lex.toLex_lt_toLex.mpr (.inl (Nat.add_lt_add_left hless _))
  · exact Prod.Lex.toLex_lt_toLex.mpr (.inr ⟨congrArg (x.feedLoad + ·) heq, hless⟩)

theorem Acts.load_lt (h : Acts timeout x y) (hx : x.Tied) (hf : x.conduit.cancelled = true) :
    y.load < x.load :=
  h.elim (fun h ↦ load_lt_of_feedLoad (h.feedLoad_lt hx hf) h.apart) fun h ↦ h.load_lt hf

theorem Coupled.relay_acts (h : Coupled capacity x) (hf : x.conduit.cancelled = true)
    (hg : ¬x.conduit.IsGone) :
    ∃ t, (t = x.now ∨ x.Awaits t) ∧ ∀ y, Rests x y → t ≤ y.now → ∃ z, Acts timeout y z := by
  have works {t : Nat} (ht : t = x.now ∨ x.Awaits t)
      (hw : ∀ y, Rests x y → t ≤ y.now → ∃ c, y.conduit.Works timeout y.now c) :
      ∃ t, (t = x.now ∨ x.Awaits t) ∧ ∀ y, Rests x y → t ≤ y.now → ∃ z, Acts timeout y z := by
    refine ⟨t, ht, fun y hy hdue ↦ ?_⟩
    obtain ⟨c, hc⟩ := hw y hy hdue
    exact ⟨_, .inr ⟨c, hc, rfl⟩⟩
  cases hp : x.conduit.phase with
  | unstarted => exact absurd hp h.inService.started
  | gone e => exact absurd ⟨e, hp⟩ hg
  | waiting => exact works (.inl rfl) fun y hy _ ↦ ⟨_, .stop _ (hy.phase.trans hp) (hy.fired hf)⟩
  | listening => exact works (.inl rfl) fun y hy _ ↦ ⟨_, .rest _ (hy.phase.trans hp)⟩
  | holding w => exact works (.inl rfl) fun y hy _ ↦ ⟨_, .begin _ (hy.phase.trans hp)⟩
  | busy =>
    obtain ⟨d, hd⟩ := Option.isSome_iff_exists.mp (h.inService.busy_iff.mp hp)
    by_cases more : d.waiting = []
    · cases hb : d.begun with
      | nil =>
        have hover : d.isOver = true := by simp [Dispatch.isOver, more, hb]
        exact works (.inl rfl) fun y hy _ ↦
          ⟨_, .finish _ (hy.phase.trans hp) (hy.current.trans hd) hover⟩
      | cons leg legs =>
        have hl : leg ∈ d.begun := hb ▸ List.mem_cons_self
        exact works (.inr (.inr ⟨d, leg, hd, hl, rfl⟩)) fun y hy hdue ↦
          ⟨_, .settle _ (hy.current.trans hd) hl hdue⟩
    · exact works (.inl rfl) fun y hy _ ↦ ⟨_, .start _ (hy.current.trans hd) more⟩

theorem Coupled.sends (h : Coupled capacity x) (hw : x.feed.next? = some w)
    (hopen : x.queued = true → x.conduit.blocked = [w] → x.conduit.queue.isOpen = false) :
    ∀ y, Rests x y → ∃ z, Feeds y z := by
  intro y hy
  have next : y.feed.next? = some w := hy.feed ▸ hw
  cases hq : x.queued with
  | false =>
    have unqueued : y.queued = false := hy.queued.trans hq
    cases ho : y.conduit.queue.offer w with
    | accepted q => exact ⟨_, .send y next unqueued ho⟩
    | full => exact ⟨_, .wait y next unqueued ho⟩
    | closed => exact ⟨_, .refuse y next unqueued ho⟩
  | true =>
    have queued : y.queued = true := hy.queued.trans hq
    rcases h.tied.line.queued hq hw with ⟨hb, -⟩ | ⟨-, hp⟩
    · have waits : w ∈ y.conduit.blocked := by simp [hy.blocked, hb]
      exact ⟨_, .turnAway y next queued waits (hy.queue ▸ hopen hq hb)⟩
    · have waits : w ∈ y.conduit.promised := by simp [hy.promised, hp]
      cases ho : y.conduit.queue.isOpen with
      | true => exact ⟨_, .fulfil y next queued waits ho⟩
      | false => exact ⟨_, .revoke y next queued waits ho⟩

/-- Of the two, one goes on: the feed has to wait only for an answer, or for a relay that is not
gone. -/
theorem Coupled.acts (h : Coupled capacity x) (timeout : Nat) (hf : x.conduit.cancelled = true)
    (hn : ¬x.Returned) :
    ∃ t, (t = x.now ∨ x.Awaits t) ∧ ∀ y, Rests x y → t ≤ y.now → ∃ z, Acts timeout y z := by
  cases hp : x.feed.phase with
  | stopped => exact h.relay_acts hf fun hg ↦ hn ⟨hp, hg⟩
  | idle =>
    refine ⟨_, .inl rfl, fun y hy _ ↦ ?_⟩
    have idle : y.feed.phase = .idle := hy.feed ▸ hp
    cases hpoised : y.poised with
    | true => exact ⟨_, .inl (.rest y hpoised)⟩
    | false => exact ⟨_, .inl (.quit y idle hpoised (hy.fired hf))⟩
  | calling =>
    refine ⟨x.answerDue, .inr (.inl ⟨hp, rfl⟩), fun y hy hdue ↦ ⟨_, .inl (.receive y ?_ ?_)⟩⟩
    · rw [hy.feed, hp]
    · rwa [answerDue, hy.calls, hy.answers]
  | sending es n m =>
    cases es with
    | nil =>
      refine ⟨_, .inl rfl, fun y hy _ ↦ ?_⟩
      have sent : y.feed.phase = .sending [] n m := hy.feed ▸ hp
      exact ⟨_, .inl (.finish y sent)⟩
    | cons e es =>
      have hnext : x.feed.next? = some e.payload := by simp [next?, hp]
      by_cases hwait : x.conduit.blocked = [e.payload] ∧ x.conduit.queue.isOpen = true
      · -- a relay that is gone has closed the queue, so this one is not
        refine h.relay_acts hf fun hg ↦ ?_
        cases hwait.2.symm.trans (h.places.isOpen.mpr hg)
      · refine ⟨_, .inl rfl, fun y hy _ ↦ ?_⟩
        obtain ⟨z, hz⟩ := h.sends hnext (fun _ hb ↦ by simpa [hb] using hwait) y hy
        exact ⟨z, .inl hz⟩

/-- A run without end in which somebody acts again and again as long as one of the two can, and in
which time goes on as long as neither can. -/
structure Fair (timeout : Nat) (σ : Nat → Supply) : Prop where
  goes : ∀ n, Goes timeout (σ n) (σ (n + 1))
  acts : ∀ n y, Acts timeout (σ n) y → ∃ m, n ≤ m ∧ Acts timeout (σ m) (σ (m + 1))
  passes : ∀ n t, ∃ m, n ≤ m ∧ (t ≤ (σ m).now ∨ ∃ y, Acts timeout (σ m) y)

section Fair

variable {σ : Nat → Supply}

theorem Fair.run (h : Fair timeout σ) {n m : Nat} (hle : n ≤ m) :
    ReflTransGen (Goes timeout) (σ n) (σ m) := by
  induction hle with
  | refl => exact .refl
  | step _ ih => exact ih.tail (h.goes _)

theorem Fair.rests (h : Fair timeout σ) {n m : Nat} (hle : n ≤ m)
    (hno : ∀ k, n ≤ k → ∀ y, ¬Acts timeout (σ k) y) : Rests (σ n) (σ m) := by
  induction hle with
  | refl => exact .refl _
  | @step m hle ih => exact ih.trans ((h.goes m).resolve_left (hno m hle _)).rests

end Fair

/-- What a feed that waits for a place comes to: it can go on, or it can when the relay has gone on,
whatever the relay does. -/
inductive Released (timeout : Nat) : Supply → Prop
  | goes {x y : Supply} (h : Feeds x y) (free : y.queued = false) : Released timeout x
  | after {x : Supply} (some : ∃ y, Relays timeout x y)
      (all : ∀ y, Relays timeout x y → Released timeout y) : Released timeout x

theorem released_of_promised (hw : x.feed.next? = some w) (hq : x.queued = true)
    (hp : w ∈ x.conduit.promised) : Released timeout x := by
  cases ho : x.conduit.queue.isOpen with
  | true => exact .goes (.fulfil x hw hq hp ho) rfl
  | false => exact .goes (.revoke x hw hq hp ho) rfl

theorem Coupled.released_of_waiting (h : Coupled capacity x) (hf : x.conduit.cancelled = true)
    (hw : x.feed.next? = some w) (hq : x.queued = true) (hb : x.conduit.blocked = [w])
    (hp : x.conduit.phase = .waiting) : Released timeout x := by
  have hidle := h.inService.current_of hp nofun
  refine .after ⟨_, _, .stop _ hp hf, rfl⟩ ?_
  rintro y ⟨c, hs, rfl⟩
  cases hs with
  | stop =>
    have hmem : w ∈ x.conduit.blocked := by simp [hb]
    exact .goes (.turnAway _ hw hq hmem rfl) rfl
  | listen waiting going => cases going.symm.trans hf
  | rest hl | desert hl | take hl | begin hl | finish hl => cases hp.symm.trans hl
  | start current | settle current => cases hidle.symm.trans current

theorem Coupled.released_of_listening (h : Coupled capacity x) (hf : x.conduit.cancelled = true)
    (hw : x.feed.next? = some w) (hq : x.queued = true) (hb : x.conduit.blocked = [w])
    (hp : x.conduit.phase = .listening) : Released timeout x := by
  have hidle := h.inService.current_of hp nofun
  have hrest : Relays timeout x { x with conduit := { x.conduit with phase := .waiting } } :=
    ⟨_, .rest _ hp, rfl⟩
  refine .after ⟨_, hrest⟩ ?_
  rintro y ⟨c, hs, rfl⟩
  cases hs with
  | rest => exact (h.goes (.inl (.inr hrest))).released_of_waiting hf hw hq hb rfl
  | desert hl empty released =>
    cases (h.tied.unreleased (phase_ne_of_next? hw).2).symm.trans released
  | take hl taken =>
    -- the place that became free is the feed's
    obtain ⟨ws, -, ⟨hnone, -⟩ | ⟨v, vs, hv, he⟩⟩ := Conduit.take_cases taken
    · cases hb.symm.trans hnone
    · cases hb.symm.trans hv
      exact released_of_promised hw hq (by simp [he])
  | stop hl | listen hl | begin hl | finish hl => cases hp.symm.trans hl
  | start current | settle current => cases hidle.symm.trans current

theorem Coupled.released (h : Coupled capacity x) (hf : x.conduit.cancelled = true)
    (hq : x.queued = true) (hbusy : x.conduit.phase ≠ .busy)
    (hholding : ∀ w, x.conduit.phase ≠ .holding w) : Released timeout x := by
  rcases h.tied.line with ⟨hn, -⟩ | ⟨-, w, hw, ⟨hb, -⟩ | ⟨-, hp⟩⟩
  · cases hn.symm.trans hq
  · cases hphase : x.conduit.phase with
    | unstarted => exact absurd hphase h.inService.started
    | waiting => exact h.released_of_waiting hf hw hq hb hphase
    | listening => exact h.released_of_listening hf hw hq hb hphase
    | holding v => exact absurd hphase (hholding v)
    | busy => exact absurd hphase hbusy
    | gone e =>
      have hclosed := h.places.isOpen.mpr ⟨e, hphase⟩
      have hmem : w ∈ x.conduit.blocked := by simp [hb]
      exact .goes (.turnAway x hw hq hmem hclosed) rfl
  · exact released_of_promised hw hq (by simp [hp])

end Supply

end Feed

end ChangeRelay
