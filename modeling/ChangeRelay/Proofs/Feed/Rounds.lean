import ChangeRelay.Feed.Run
import ChangeRelay.Proofs.Feed.Ticks

namespace ChangeRelay

open Queue (Uses anything)

namespace Feed

theorem Sends.after {allowed : Queue → Queue → Prop} {p p' : Feed} {q q₁ q' : Queue}
    {ws : List String} {o : FeedOutcome} (h : Sends allowed p q₁ ws o p' q')
    (hq : Uses allowed q q₁) : Sends allowed p q ws o p' q' := by
  cases h with
  | offered wait next taken rest => exact .offered (hq.trans wait) next taken rest
  | promised wait next stillOpen rest => exact .promised (hq.trans wait) next stillOpen rest
  | refused wait next gone => exact .refused (hq.trans wait) next gone
  | finished wait next => exact .finished (hq.trans wait) next

namespace Run

variable {r r' : Run} {o : FeedOutcome}

theorem send_records (limit n : Nat) (r : Run) :
    (send limit n r).1.calls = r.calls ∧ (send limit n r).1.answers = r.answers := by
  induction n generalizing r with
  | zero => exact ⟨rfl, rfl⟩
  | succ n ih =>
    rw [send]
    split
    · exact ⟨rfl, rfl⟩
    · split
      · exact ih _
      · exact ⟨rfl, rfl⟩
      · dsimp only
        split
        · exact ih _
        · exact ⟨rfl, rfl⟩

/-- What the relay does while the feed waits for room is a use of the queue by others. -/
theorem send_sends {limit n : Nat} (h : send limit n r = (r', some o)) :
    ∃ ws, Sends anything r.feed r.relay.queue ws o r'.feed r'.relay.queue := by
  induction n generalizing r with
  | zero => cases h
  | succ n ih =>
    rw [send] at h
    split at h
    · rename_i hnext
      cases h
      exact ⟨[], .finished .refl hnext⟩
    · rename_i w hnext
      split at h
      · rename_i relay q hsend
        obtain ⟨hoffer, rfl⟩ := Relay.send_of_accepted hsend
        obtain ⟨ws, hs⟩ := ih h
        rw [Relay.notify_queue] at hs
        exact ⟨w :: ws, .offered .refl hnext hoffer hs⟩
      · rename_i relay hsend
        cases h
        exact ⟨[], .refused .refl hnext (Relay.send_of_closed hsend)⟩
      · dsimp only at h
        split at h
        · obtain ⟨ws, hs⟩ := ih h
          exact ⟨ws, hs.after (Relay.advanceUntil_uses _ _ _)⟩
        · cases h

theorem round_records (patience : Nat) (r : Run) :
    (r.round patience).1.calls = r.calls ++ [(r.relay.now, r.feed.watermark.level)] ∧
      (r.round patience).1.answers = r.answers.tail := by
  unfold round
  dsimp only
  split
  · exact ⟨rfl, rfl⟩
  · exact send_records _ _ _

theorem round_ticks {patience : Nat} (h : r.round patience = (r', some o)) :
    ∃ ws, Ticks anything r.feed r.relay.queue
      ⟨r.feed.watermark.level, (r.answers.head?.getD .nothing).result, ws, o⟩
      r'.feed r'.relay.queue := by
  have hw : Uses anything r.relay.queue
      (if (r.answers.head?.getD .nothing).delay = 0 then r.relay
        else r.relay.advance (r.relay.now + (r.answers.head?.getD .nothing).delay)).queue := by
    split
    · exact .refl
    · exact r.relay.advance_uses _
  unfold round at h
  dsimp only at h
  split at h
  · rename_i p o' hr
    cases h
    have ht := Ticks.ended (p := r.feed) _ hw (congrArg Prod.snd hr)
    rw [congrArg Prod.fst hr] at ht
    exact ⟨[], ht⟩
  · rename_i p hr
    obtain ⟨ws, hs⟩ := send_sends h
    refine ⟨ws, .sent _ hw (congrArg Prod.snd hr) ?_⟩
    rw [congrArg Prod.fst hr]
    exact hs

/-- Rounds of a run, with their outcomes; one that was given up has none. Nothing comes after one
that found the queue closed. -/
inductive Rounds : Run → List (Option FeedOutcome) → Run → Prop
  | done (r : Run) : Rounds r [] r
  | wait {r r' : Run} {os : List (Option FeedOutcome)} (limit : Nat)
      (rest : Rounds { r with relay := r.relay.advance limit } os r') : Rounds r os r'
  | last {r r' : Run} (round : r.round forever = (r', some .queueClosed)) :
      Rounds r [some .queueClosed] r'
  | more {r r₁ r' : Run} {o : Option FeedOutcome} {os : List (Option FeedOutcome)}
      (round : r.round forever = (r₁, o)) (goes : o ≠ some .queueClosed) (rest : Rounds r₁ os r') :
      Rounds r (o :: os) r'

theorem loop_rounds (stopAt n : Nat) (ticker : Time.Ticker) (r : Run) :
    ∃ os, Rounds r os (loop stopAt n ticker r) := by
  induction n generalizing ticker r with
  | zero => exact ⟨[], .done r⟩
  | succ n ih =>
    rw [loop]
    split
    · exact ⟨[], .done r⟩
    · split
      · dsimp only
        split
        · rename_i ho
          rcases ho with ho | ho
          · exact ⟨_, .more rfl (fun hc ↦ by cases ho.symm.trans hc) (.done _)⟩
          · exact ⟨_, .last (Prod.ext rfl ho)⟩
        · rename_i ho
          obtain ⟨os, hos⟩ := ih (ticker.take r.relay.now) (r.round forever).1
          exact ⟨_, .more rfl (fun hc ↦ ho (.inr hc)) hos⟩
      · obtain ⟨os, hos⟩ := ih ticker { r with relay := r.relay.advance (min stopAt ticker.next) }
        exact ⟨os, .wait _ hos⟩

theorem finish_rounds (interval stopAt : Nat) (r : Run) :
    ∃ os, Rounds r os (r.finish interval stopAt) :=
  loop_rounds _ _ _ r

theorem Rounds.calls {os : List (Option FeedOutcome)} (h : Rounds r os r') :
    r'.calls.length = r.calls.length + os.length ∧
      ∀ i, os[i]? = some (some .queueClosed) → i + 1 = os.length := by
  induction h with
  | done r => exact ⟨rfl, fun i hi ↦ by cases hi⟩
  | wait limit rest ih => exact ih
  | @last r r' round =>
    have hc := (r.round_records forever).1
    rw [round] at hc
    refine ⟨by rw [hc, List.length_append]; rfl, ?_⟩
    intro i hi
    have hlt := (List.getElem?_eq_some_iff.mp hi).1
    rw [List.length_singleton] at hlt ⊢
    omega
  | @more r r₁ r' o os round goes rest ih =>
    have hc := (r.round_records forever).1
    rw [round] at hc
    constructor
    · rw [ih.1, hc]
      simp only [List.length_append, List.length_cons, List.length_nil]
      omega
    · intro i hi
      cases i with
      | zero => exact absurd (Option.some.inj hi) goes
      | succ i => rw [List.length_cons, ih.2 i hi]

theorem round_series {patience : Nat} (h : r.round patience = (r', some o)) {p : Feed} {q : Queue}
    {ts : List Tick} (hts : Series anything p q ts r.feed r.relay.queue) :
    ∃ t, Series anything p q (ts ++ [t]) r'.feed r'.relay.queue ∧
      t.answer = (r.answers.head?.getD .nothing).result ∧ t.outcome = o ∧
      r'.calls.map (·.2) = r.calls.map (·.2) ++ [t.since] := by
  obtain ⟨ws, ht⟩ := round_ticks h
  have hc := (r.round_records patience).1
  rw [h] at hc
  refine ⟨_, .more hts ht .refl, rfl, rfl, ?_⟩
  rw [hc, List.map_append]
  rfl

theorem Rounds.series {os : List (Option FeedOutcome)} (h : Rounds r os r') (hos : none ∉ os)
    {p : Feed} {q : Queue} {ts : List Tick} (hts : Series anything p q ts r.feed r.relay.queue) :
    ∃ us : List Tick, Series anything p q (ts ++ us) r'.feed r'.relay.queue ∧
      (∀ (i : Nat) (t : Tick), us[i]? = some t → t.answer = (r.answers[i]?.getD .nothing).result) ∧
      os = us.map (some ·.outcome) ∧
      r'.calls.map (·.2) = r.calls.map (·.2) ++ us.map (·.since) := by
  induction h generalizing ts with
  | done r => exact ⟨[], by rwa [List.append_nil], (fun i t ht ↦ by cases ht), rfl, by simp⟩
  | wait limit rest ih => exact ih hos (hts.after (Relay.advance_uses _ limit))
  | @last r r' round =>
    obtain ⟨t, ht, ha, ho, hc⟩ := round_series round hts
    refine ⟨[t], ht, ?_, by rw [List.map_singleton, ho], hc⟩
    intro i u hu
    rw [List.getElem?_singleton] at hu
    split at hu
    · rename_i hi
      cases hu
      rw [ha, hi, List.head?_eq_getElem?]
    · cases hu
  | @more r r₁ r' o os round goes rest ih =>
    obtain ⟨o, rfl⟩ := Option.ne_none_iff_exists'.mp fun ho ↦ hos (ho ▸ List.mem_cons_self)
    obtain ⟨t, ht, ha, ho, hc⟩ := round_series round hts
    obtain ⟨us, hus, has, hos', hcs⟩ := ih (fun hn ↦ hos (List.mem_cons_of_mem _ hn)) ht
    have htail := (r.round_records forever).2
    rw [round] at htail
    refine ⟨t :: us, by rwa [List.append_cons], ?_, ?_, ?_⟩
    · intro i u hu
      cases i with
      | zero =>
        cases hu
        rw [ha, List.head?_eq_getElem?]
      | succ i =>
        rw [has i u hu, htail, List.getElem?_tail]
    · rw [List.map_cons, ho, hos']
    · rw [hcs, hc, List.append_assoc]
      rfl

end Run

/-- Whatever the daemon answers and others do with the queue, each round asks for what came after
the latest timestamp so far; a failure changes nothing; what was answered is sent in order, all of
it unless the queue is closed, when the watermark has risen already. A run makes no call after it
found the queue closed. -/
theorem rounds_in_order (start : Int) :
    (∀ (allowed : Queue → Queue → Prop) (q₀ q : Queue) (ts : List Tick) (p : Feed),
      Series allowed (new ⟨start⟩) q₀ ts p q →
      (∀ i t, ts[i]? = some t →
        IsGreatest (Watermark.stamps start (eventsOf (ts.take i))) t.since) ∧
      (ts.map (·.since)).Pairwise (· ≤ ·) ∧
      IsGreatest (Watermark.stamps start (eventsOf ts)) p.watermark.level ∧
      (acceptedOf ts = (eventsOf ts).map (·.payload) ∨
        q.isOpen = false ∧ acceptedOf ts <+: (eventsOf ts).map (·.payload)) ∧
      ∀ t p' q', Ticks allowed p q t p' q' →
        t.Moves p.watermark p'.watermark ∧
        (∀ e, t.answer = .error e → p' = { p with phase := .idle } ∧ Uses allowed q q') ∧
        (t.outcome = .queueClosed → q'.isOpen = false) ∧
        (q.isOpen = false → t.events ≠ [] → t.outcome = .queueClosed ∧ t.accepted = [])) ∧
    ∀ (relay : Relay) (answers : List Answer) (interval stopAt : Nat),
      let r := (Run.start ⟨start⟩ relay answers).finish interval stopAt
      ∃ os, Run.Rounds (Run.start ⟨start⟩ relay answers) os r ∧ r.calls.length = os.length ∧
        (∀ i, os[i]? = some (some .queueClosed) → i + 1 = os.length) ∧
        (none ∉ os → ∃ ts : List Tick,
          Series anything (new ⟨start⟩) relay.queue ts r.feed r.relay.queue ∧
          (∀ (i : Nat) (t : Tick), ts[i]? = some t →
            t.answer = (answers[i]?.getD .nothing).result) ∧
          os = ts.map (some ·.outcome) ∧ r.calls.map (·.2) = ts.map (·.since)) := by
  refine ⟨fun allowed q₀ q ts p h ↦ ⟨fun i t ht ↦ ?_, h.pairwise_since, ?_, h.accepted_eq_or,
    fun t p' q' ht ↦ ⟨ht.moves, fun e he ↦ ht.of_error he, ht.closed, fun hq hes ↦ ?_⟩⟩,
    fun relay answers interval stopAt ↦ ?_⟩
  · rw [h.since_eq ht]
    exact Watermark.rise_isGreatest _ _
  · rw [h.watermark_eq]
    exact Watermark.rise_isGreatest _ _
  · have hnil := (ht.of_closed hq).1
    refine ⟨ht.moves.accepted_eq_or.elim ?_ (·.1), hnil⟩
    intro hall
    rw [hnil] at hall
    exact absurd (List.map_eq_nil_iff.mp hall.symm) hes
  · obtain ⟨os, hos⟩ := (Run.start ⟨start⟩ relay answers).finish_rounds interval stopAt
    obtain ⟨hlen, hlast⟩ := hos.calls
    refine ⟨os, hos, hlen.trans (Nat.zero_add _), hlast, ?_⟩
    intro hn
    obtain ⟨ts, hts, has, ho, hc⟩ := hos.series hn (.none .refl)
    exact ⟨ts, hts, has, ho, hc⟩

def halfSent : Tick :=
  let e : Event := ⟨"a", "task", .created, 9⟩
  ⟨7, .ok [e, ⟨"b", "task", .updated, -3⟩], [e.payload], .queueClosed⟩

theorem halfSent_series :
    Series anything (new ⟨7⟩) (.new 1) [halfSent] ⟨⟨9⟩, .stopped⟩ (Queue.new 1).close := by
  have hsends : Sends anything
      ⟨⟨9⟩, .sending [⟨"a", "task", .created, 9⟩, ⟨"b", "task", .updated, -3⟩] 2 0⟩ (.new 1)
      halfSent.accepted .queueClosed ⟨⟨9⟩, .stopped⟩ (Queue.new 1).close :=
    .offered .refl rfl rfl (.refused (Queue.Use.close _).uses rfl rfl)
  exact .more (.none .refl) (.sent _ .refl rfl hsends) .refl

theorem rounds_in_order_halfSent :
    Series anything (new ⟨7⟩) (.new 1) [halfSent] ⟨⟨9⟩, .stopped⟩ (Queue.new 1).close ∧
      IsGreatest (Watermark.stamps 7 (eventsOf [halfSent])) 9 ∧
      acceptedOf [halfSent] <+: (eventsOf [halfSent]).map (·.payload) := by
  obtain ⟨-, -, hgreatest, haccepted, -⟩ := (rounds_in_order 7).1 _ _ _ _ _ halfSent_series
  exact ⟨halfSent_series, hgreatest, haccepted.elim (fun h ↦ h ▸ List.prefix_rfl) (·.2)⟩

end Feed

end ChangeRelay
