import ChangeRelay.Proofs.Feed.Rounds
import ChangeRelay.Proofs.Time.Ticker
import Mathlib.Data.List.Chain

namespace ChangeRelay

namespace Relay

variable (r : Relay)

@[simp] theorem wake_now : r.wake.now = r.now := by
  unfold wake
  split <;> rfl

@[simp] theorem notify_now : r.notify.now = r.now := by
  unfold notify
  split <;> simp

@[simp] theorem leave_now : r.leave.now = r.now := by
  unfold leave
  dsimp only
  split
  · exact r.pass.notify_now
  · rfl

@[simp] theorem put_now (q : Queue) (ws : List String) : (r.put q ws).now = r.now := by simp [put]

theorem produce_now (p : Producer) : (r.produce p).now = r.now := by
  unfold produce
  split
  · exact r.leave_now
  · split
    · exact r.leave_now
    · split
      · exact r.put_now _ _
      · split
        · rfl
        · split
          · exact r.put_now _ _
          · rfl
          · rfl

theorem promisePlace_now : r.promisePlace.now = r.now := by
  unfold promisePlace
  split <;> rfl

theorem take?_now {r r' : Relay} (h : r.take? = some r') : r'.now = r.now := by
  obtain ⟨payload, q, -, rfl⟩ := take?_eq_some h
  exact promisePlace_now _

theorem work_now : r.work.now = r.now := by
  unfold work
  split
  · rfl
  · rfl
  · split
    · rfl
    · split
      · rfl
      · split
        · rename_i r' h
          exact take?_now h
        · split <;> rfl
  · split
    · rfl
    · split <;> rfl

theorem step?_now {r r' : Relay} (h : r.step? = some r') : r'.now = r.now := by
  unfold step? at h
  split at h
  · cases h
  · cases h
    exact r.work_now
  · cases h
    exact r.produce_now _

theorem advanceSteps_now (done : Relay → Bool) (limit n : Nat) :
    r.now ≤ (advanceSteps done limit n r).now ∧
      (advanceSteps done limit n r).now ≤ max r.now limit := by
  induction n generalizing r with
  | zero => exact ⟨Nat.le_refl _, Nat.le_max_left _ _⟩
  | succ n ih =>
    rw [advanceSteps]
    split
    · rename_i r' h
      rw [← step?_now h]
      exact ih r'
    · split
      · exact ⟨Nat.le_refl _, Nat.le_max_left _ _⟩
      · split
        · rename_i t _
          split
          · have h := ih (wake { r with now := max r.now t })
            rw [wake_now] at h
            dsimp only at h
            omega
          · exact ⟨Nat.le_max_left _ _, Nat.le_refl _⟩
        · exact ⟨Nat.le_max_left _ _, Nat.le_refl _⟩

theorem advance_now (limit : Nat) :
    r.now ≤ (r.advance limit).now ∧ (r.advance limit).now ≤ max r.now limit :=
  r.advanceSteps_now _ limit _

theorem send_now {r r' : Relay} {payload : String} {o : Queue.Offer}
    (h : r.send payload = (r', o)) : r'.now = r.now := by
  unfold send at h
  split at h
  · cases h
    exact notify_now _
  · cases h
    rfl

end Relay

namespace Feed

open Time (Ticker slot slot_lt_slot)
open Time.Ticker (tolerance)

/-- A round: when its tick was due, when it began, and when it was over. -/
structure Beat where
  due : Nat
  began : Nat
  ended : Nat
  deriving DecidableEq

/-- Rounds at the ticks of a timer from a moment on, of any lengths. Each begins when its tick is
due, or at once if that is past. -/
inductive Beats : Ticker → Nat → List Beat → Prop
  | none (t : Ticker) (now : Nat) : Beats t now []
  | more {t : Ticker} {now ended : Nat} {bs : List Beat} (lasts : max now t.next ≤ ended)
      (rest : Beats (t.take (max now t.next)) ended bs) :
      Beats t now (⟨t.next, max now t.next, ended⟩ :: bs)

structure Beat.Follows (t₀ p : Nat) (a b : Beat) : Prop where
  begins : b.began = max a.ended b.due
  due : a.began ≤ a.due + tolerance ∧ b.due = a.due + p ∨
    a.due + tolerance < a.began ∧ a.began < b.due ∧ b.due ≤ a.began + p
  sameSlot : slot t₀ p b.began = slot t₀ p a.began ↔
    a.due + p ≤ a.began ∧ a.began ≤ a.due + tolerance ∧ slot t₀ p a.ended = slot t₀ p a.began

structure Paced (t₀ p : Nat) (bs : List Beat) : Prop where
  first : ∀ b ∈ bs.head?, b.due = t₀ ∧ b.began = t₀
  onGrid : ∀ b ∈ bs, ∃ k, b.due = t₀ + k * p
  inOrder : ∀ b ∈ bs, b.due ≤ b.began ∧ b.began ≤ b.ended
  apart : bs.Pairwise fun a b ↦ a.ended ≤ b.began ∧ a.due < b.due
  follows : bs.IsChain (Beat.Follows t₀ p)
  together : ∀ (i d : Nat) (a b : Beat), bs[i]? = some a → bs[i + d]? = some b →
    slot t₀ p a.began = slot t₀ p b.began → d * p ≤ tolerance
  slots : tolerance < p → bs.Pairwise fun a b ↦ slot t₀ p a.began < slot t₀ p b.began

namespace Beats

variable {t : Ticker} {t₀ now : Nat} {a b : Beat} {bs : List Beat}

theorem cons_iff : Beats t now (b :: bs) ↔ b.due = t.next ∧ b.began = max now t.next ∧
    b.began ≤ b.ended ∧ Beats (t.take b.began) b.ended bs := by
  constructor
  · intro h
    cases h with
    | more lasts rest => exact ⟨rfl, rfl, lasts, rest⟩
  · rintro ⟨hdue, hbegan, hended, hrest⟩
    obtain ⟨due, began, ended⟩ := b
    cases hdue
    cases hbegan
    exact .more hended hrest

theorem drop (h : Beats t now bs) (hp : 0 < t.period) (ht : t.OnGrid t₀) (i : Nat) :
    ∃ t' now', Beats t' now' (bs.drop i) ∧ t'.period = t.period ∧ t'.OnGrid t₀ := by
  induction i generalizing t now bs with
  | zero => exact ⟨t, now, h, rfl, ht⟩
  | succ i ih =>
    cases h with
    | none => exact ⟨t, now, .none t now, rfl, ht⟩
    | more lasts rest =>
      obtain ⟨t', now', h', hperiod, ht'⟩ := ih rest hp (ht.take hp _)
      exact ⟨t', now', h', hperiod, ht'⟩

theorem getElem? (h : Beats t now bs) (hp : 0 < t.period) {d : Nat} (hd : bs[d]? = some b) :
    now ≤ b.began ∧ t.next + d * t.period ≤ b.due ∧ b.due ≤ b.began ∧ b.began ≤ b.ended := by
  induction h generalizing d with
  | none => cases hd
  | @more t now ended bs lasts rest ih =>
    cases d with
    | zero =>
      cases hd
      dsimp only
      omega
    | succ d =>
      obtain ⟨hnow, hdue, hbegan, hended⟩ := ih hp hd
      have hnext := Ticker.add_period_le_take_next (t := t) hp (max now t.next)
      have hperiod : (t.take (max now t.next)).period = t.period := rfl
      rw [hperiod] at hdue
      rw [Nat.succ_mul]
      omega

theorem mem (h : Beats t now bs) (hp : 0 < t.period) (hb : b ∈ bs) :
    now ≤ b.began ∧ t.next ≤ b.due ∧ b.due ≤ b.began ∧ b.began ≤ b.ended := by
  obtain ⟨d, hd⟩ := List.getElem?_of_mem hb
  obtain ⟨hnow, hdue, h⟩ := h.getElem? hp hd
  exact ⟨hnow, by omega, h⟩

theorem onGrid (h : Beats t now bs) (hp : 0 < t.period) (ht : t.OnGrid t₀) (hb : b ∈ bs) :
    ∃ k, b.due = t₀ + k * t.period := by
  induction h with
  | none => cases hb
  | more lasts rest ih =>
    cases hb with
    | head => exact ht
    | tail _ hb => exact ih hp (ht.take hp _) hb

theorem pairwise (h : Beats t now bs) (hp : 0 < t.period) :
    bs.Pairwise fun a b ↦ a.ended ≤ b.began ∧ a.due < b.due := by
  induction h with
  | none => exact .nil
  | @more t now ended bs lasts rest ih =>
    refine .cons (fun b hb ↦ ?_) (ih hp)
    obtain ⟨hbegan, hdue, -⟩ := rest.mem hp hb
    have hnext := Ticker.add_period_le_take_next (t := t) hp (max now t.next)
    dsimp only
    omega

/-- A round that begins in the slot of the one before can only begin at the end of that, with a tick
that was due already when that began. -/
theorem head_follows (h : Beats t now (a :: b :: bs)) (hp : 0 < t.period) (ht : t.OnGrid t₀) :
    a.Follows t₀ t.period b := by
  obtain ⟨hdue, hbegan, hended, hrest⟩ := cons_iff.mp h
  obtain ⟨hdue', hbegan', -⟩ := cons_iff.mp hrest
  have hlaw : a.began ≤ a.due + tolerance ∧ b.due = a.due + t.period ∨
      a.due + tolerance < a.began ∧ a.began < b.due ∧ b.due ≤ a.began + t.period := by
    rw [hdue', hdue]
    rcases Nat.lt_or_ge (t.next + tolerance) a.began with hlt | hle
    · exact .inr ⟨hlt, Ticker.take_next_bounds hp hlt⟩
    · exact .inl ⟨hle, Ticker.take_next_of_le hle⟩
  have hbegins : b.began = max a.ended b.due := by rw [hbegan', hdue']
  refine ⟨hbegins, hlaw, ⟨fun hslot ↦ ?_, ?_⟩⟩
  · have hpast : b.due ≤ a.began := by
      obtain ⟨k, hk⟩ := ht.take hp a.began
      by_contra hlt
      have hslots := slot_lt_slot (k := k) (m := a.began) (n := b.began) hp
        (by have := ht.le; omega) (hk ▸ hdue' ▸ Nat.lt_of_not_le hlt) (hk ▸ hdue' ▸ by omega)
      exact absurd hslot.symm hslots.ne
    have hprompt : a.began ≤ a.due + tolerance ∧ b.due = a.due + t.period :=
      hlaw.resolve_right (by omega)
    have hat : b.began = a.ended := by omega
    rw [hat] at hslot
    exact ⟨by omega, hprompt.1, hslot⟩
  · rintro ⟨hpast, hprompt, hslot⟩
    have hat : b.began = a.ended := by omega
    rw [hat, hslot]

theorem follows (h : Beats t now bs) (hp : 0 < t.period) (ht : t.OnGrid t₀) :
    bs.IsChain (Beat.Follows t₀ t.period) := by
  induction h with
  | none => exact .nil
  | @more t now ended bs lasts rest ih =>
    cases bs with
    | nil => exact .singleton _
    | cons b bs => exact .cons_cons (head_follows (.more lasts rest) hp ht) (ih hp (ht.take hp _))

theorem together (h : Beats t now bs) (hp : 0 < t.period) (ht : t.OnGrid t₀) {i d : Nat}
    (ha : bs[i]? = some a) (hb : bs[i + d]? = some b)
    (hslot : slot t₀ t.period a.began = slot t₀ t.period b.began) : d * t.period ≤ tolerance := by
  obtain ⟨k, hk⟩ := h.onGrid hp ht (List.mem_of_getElem? hb)
  obtain ⟨t', now', h', hperiod, ht'⟩ := h.drop hp ht i
  rw [← hperiod] at hp hslot hk ⊢
  rw [← List.getElem?_drop] at hb
  have hdrop : bs.drop i = a :: bs.drop (i + 1) := by
    obtain ⟨hi, rfl⟩ := List.getElem?_eq_some_iff.mp ha
    exact List.drop_eq_getElem_cons hi
  rw [hdrop] at h' hb
  cases d with
  | zero => omega
  | succ d =>
    obtain ⟨hdue, hbegan, -, hrest⟩ := cons_iff.mp h'
    obtain ⟨-, hdues, hended, -⟩ := hrest.getElem? hp hb
    have hpast : b.due ≤ a.began := by
      have hstart := ht'.le
      by_contra hlt
      have hslots : slot t₀ t'.period a.began < slot t₀ t'.period b.began :=
        slot_lt_slot (k := k) hp (by omega) (by omega) (by omega)
      exact absurd hslot hslots.ne
    have hprompt : a.began ≤ t'.next + tolerance := by
      by_contra hlt
      have := Ticker.take_next_bounds hp (Nat.lt_of_not_le hlt)
      omega
    have hperiod' : (t'.take a.began).period = t'.period := rfl
    rw [Ticker.take_next_of_le hprompt, hperiod'] at hdues
    rw [Nat.succ_mul]
    omega

theorem slots (h : Beats t now bs) (hp : tolerance < t.period) (ht : t.OnGrid t₀) :
    bs.Pairwise fun a b ↦ slot t₀ t.period a.began < slot t₀ t.period b.began := by
  induction h with
  | none => exact .nil
  | @more t now ended bs lasts rest ih =>
    have hp' : 0 < t.period := Nat.zero_lt_of_lt hp
    refine .cons (fun b hb ↦ ?_) (ih hp (ht.take hp' _))
    obtain ⟨k, hk⟩ := ht.take hp' (max now t.next)
    obtain ⟨-, hdue, hbegan, -⟩ := rest.mem hp' hb
    have hnext : max now t.next < (t.take (max now t.next)).next := by
      rcases Nat.lt_or_ge (t.next + tolerance) (max now t.next) with hlt | hle
      · exact (Ticker.take_next_bounds hp' hlt).1
      · rw [Ticker.take_next_of_le hle]
        omega
    exact slot_lt_slot (k := k) hp' (by have := ht.le; dsimp only; omega) (hk ▸ hnext)
      (hk ▸ hdue.trans hbegan)

theorem paced {p : Nat} (h : Beats ⟨t₀, p⟩ t₀ bs) (hp : 0 < p) : Paced t₀ p bs := by
  have ht : Ticker.OnGrid t₀ ⟨t₀, p⟩ := ⟨0, by rw [Nat.zero_mul]; rfl⟩
  refine ⟨fun b hb ↦ ?_, fun b hb ↦ h.onGrid hp ht hb, fun b hb ↦ (h.mem hp hb).2.2, h.pairwise hp,
    h.follows hp ht, fun i d a b ha hb ↦ h.together hp ht ha hb, fun hlt ↦ h.slots hlt ht⟩
  cases h with
  | none => cases hb
  | more lasts rest =>
    cases hb
    exact ⟨rfl, Nat.max_self t₀⟩

end Beats

namespace Run

theorem send_now (limit n : Nat) (r : Run) : r.relay.now ≤ (send limit n r).1.relay.now := by
  induction n generalizing r with
  | zero => exact Nat.le_refl _
  | succ n ih =>
    rw [send]
    split
    · exact Nat.le_refl _
    · split
      · rename_i relay q hsend
        rw [← Relay.send_now hsend]
        exact ih ⟨_, relay, _, _⟩
      · exact Nat.le_refl _
      · have hwait := (r.relay.advanceSteps_now (fun q ↦ q.queue.hasRoom || !q.queue.isOpen) limit
          r.relay.enough).1
        dsimp only
        split
        · exact hwait.trans (ih ⟨_, r.relay.advanceUntil _ limit, _, _⟩)
        · exact hwait

theorem round_now (patience : Nat) (r : Run) : r.relay.now ≤ (r.round patience).1.relay.now := by
  have hanswer : r.relay.now ≤ (if (r.answers.head?.getD .nothing).delay = 0 then r.relay
      else r.relay.advance (r.relay.now + (r.answers.head?.getD .nothing).delay)).now := by
    split
    · exact Nat.le_refl _
    · exact (r.relay.advance_now _).1
  unfold round
  dsimp only
  split
  · exact hanswer
  · exact hanswer.trans (send_now _ _ ⟨_, _, _, _⟩)

def beats (stopAt : Nat) : Nat → Ticker → Run → List Beat
  | 0, _, _ => []
  | n + 1, ticker, r =>
    if stopAt ≤ r.relay.now then []
    else if ticker.next ≤ r.relay.now then
      let (r', outcome) := r.round forever
      ⟨ticker.next, r.relay.now, r'.relay.now⟩ ::
        if outcome = none ∨ outcome = some .queueClosed then []
        else beats stopAt n (ticker.take r.relay.now) r'
    else beats stopAt n ticker { r with relay := r.relay.advance (min stopAt ticker.next) }

theorem loop_calls (stopAt n : Nat) (ticker : Ticker) (r : Run) :
    (loop stopAt n ticker r).calls.map (·.1) =
      r.calls.map (·.1) ++ (beats stopAt n ticker r).map (·.began) := by
  induction n generalizing ticker r with
  | zero => exact (List.append_nil _).symm
  | succ n ih =>
    have hcalls := (r.round_records forever).1
    rw [loop, beats]
    split
    · exact (List.append_nil _).symm
    · split
      · dsimp only
        split
        · rw [hcalls, List.map_append]
          rfl
        · rw [ih, hcalls, List.map_append, List.map_cons, List.append_assoc]
          rfl
      · exact ih _ _

def finishBeats (interval stopAt : Nat) (r : Run) : List Beat :=
  beats stopAt (2 * (stopAt + 2)) ⟨r.relay.now, max interval 1⟩ r

/-- The run waits for a tick no longer than until it is due, so its rounds begin as soon as they may
after a moment `t` that it has not come past for any other reason. -/
theorem beats_spec (stopAt n : Nat) (ticker : Ticker) (r : Run) {t : Nat} (ht : t ≤ r.relay.now)
    (hr : r.relay.now ≤ max t ticker.next) : Beats ticker t (beats stopAt n ticker r) := by
  induction n generalizing ticker r t with
  | zero => exact .none ticker t
  | succ n ih =>
    rw [beats]
    split
    · exact .none ticker t
    · split
      · rename_i hdue
        have hbegan : r.relay.now = max t ticker.next := by omega
        have hlasts := r.round_now forever
        dsimp only
        rw [hbegan] at hlasts ⊢
        refine .more hlasts ?_
        split
        · exact .none _ _
        · exact ih _ _ (Nat.le_refl _) (Nat.le_max_left _ _)
      · rename_i hdue
        obtain ⟨hle, hmax⟩ := r.relay.advance_now (min stopAt ticker.next)
        exact ih _ _ (ht.trans hle) (by dsimp only; omega)

end Run

/-- Rounds do not overlap, each begins when its tick is due or at the end of the one before, and no
tick is due twice. A round begins in the slot of the one before if and only if the tick of that was
late by at least the interval and no more than the tolerance, and it was over in that slot too. So
an interval above the tolerance leaves every slot to one round at most, and at a shorter one no more
come together than have their ticks within the tolerance. -/
theorem rounds_paced (interval : Nat) :
    (∀ (t₀ : Nat) (bs : List Beat), Beats ⟨t₀, max interval 1⟩ t₀ bs →
      Paced t₀ (max interval 1) bs) ∧
    ∀ (watermark : Watermark) (relay : Relay) (answers : List Answer) (stopAt : Nat),
      let r := Run.start watermark relay answers
      let bs := r.finishBeats interval stopAt
      Beats ⟨relay.now, max interval 1⟩ relay.now bs ∧ Paced relay.now (max interval 1) bs ∧
        (r.finish interval stopAt).calls.map (·.1) = bs.map (·.began) := by
  have hp : 0 < max interval 1 := by omega
  refine ⟨fun t₀ bs h ↦ h.paced hp, fun watermark relay answers stopAt ↦ ?_⟩
  have h : Beats ⟨relay.now, max interval 1⟩ relay.now
      ((Run.start watermark relay answers).finishBeats interval stopAt) :=
    Run.beats_spec _ _ _ _ (Nat.le_refl relay.now) (Nat.le_max_left _ _)
  exact ⟨h, h.paced hp, Run.loop_calls _ _ _ _⟩

/-- A call of 7 ms, at an interval of 3. -/
def late : List Beat := [⟨0, 0, 7⟩, ⟨3, 7, 7⟩, ⟨6, 7, 7⟩, ⟨9, 9, 9⟩]

theorem rounds_paced_late : Beats ⟨0, 3⟩ 0 late ∧ Paced 0 3 late := by
  have h : Beats ⟨0, 3⟩ 0 late :=
    .more (by decide) (.more (by decide) (.more (by decide) (.more (by decide) (.none _ _))))
  exact ⟨h, (rounds_paced 3).1 0 late h⟩

theorem not_always_apart :
    ¬∀ (interval : Nat) (watermark : Watermark) (relay : Relay) (answers : List Answer)
      (stopAt : Nat),
      ((Run.start watermark relay answers).finish interval stopAt).calls.Pairwise fun c d ↦
        slot relay.now (max interval 1) c.1 ≠ slot relay.now (max interval 1) d.1 := by
  intro h
  have hcalls : ((Run.start ⟨0⟩ (.new 1 0) [⟨7, .ok []⟩]).finish 3 8).calls =
      [(0, 0), (7, 0), (7, 0)] := rfl
  have hslots := h 3 ⟨0⟩ (.new 1 0) [⟨7, .ok []⟩] 8
  rw [hcalls] at hslots
  exact absurd hslots (by decide)

end Feed

end ChangeRelay
