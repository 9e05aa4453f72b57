import ChangeRelay.Proofs.Viewer.Timed
import Mathlib.Data.List.Forall2

namespace ChangeRelay.Follower

namespace Happening

def isMessage : Happening → Bool
  | woke (.frame (some .text)) | woke (.frame (some .binary)) => true
  | _ => false

def isLoss : Happening → Bool
  | woke (.frame (some .close)) | woke (.frame (some .error)) | woke (.frame none) => true
  | _ => false

def isReason (e : Happening) : Bool :=
  e = started || e = opened true || e.isLoss || e.isMessage || e = woke .fallbackTick

def status (e : Happening) : LinkStatus :=
  if e = opened true || e.isMessage then .connected else .disconnected

/-- A reason turns the need for a refresh on, and the refresh turns it off. -/
def turn? (e : Happening) : Option Bool :=
  if e.isReason then some true else if e = did .refresh then some false else none

def report? : Happening → Option (Option LinkStatus)
  | read s => some s
  | _ => none

/-- A board that was shown was shown with the status that its reason gives the link. -/
def Tells (e : Happening) (s : Option LinkStatus) : Prop := ∀ l, s = some l → l = e.status

theorem ne_of_isReason {e : Happening} (h : e.isReason = true) :
    e ≠ did .refresh ∧ e.report? = none := by
  cases e with
  | started | opened | woke => exact ⟨nofun, rfl⟩
  | did | read => simp [isReason, isLoss, isMessage] at h

theorem countP_isReason (log : List Happening) :
    log.countP isReason = log.count started + log.count (opened true) + log.countP isLoss +
      log.countP isMessage + log.count (woke .fallbackTick) := by
  induction log with
  | nil => rfl
  | cons e log ih =>
    have he : (if e.isReason then 1 else 0) =
        (if e == started then 1 else 0) + (if e == opened true then 1 else 0) +
          (if e.isLoss then 1 else 0) + (if e.isMessage then 1 else 0) +
          (if e == woke .fallbackTick then 1 else 0) := by
      rcases e with _ | a | (_ | _) | s | _ | (_ | f) | _
      case woke.frame.some => cases f <;> rfl
      all_goals rfl
    simp only [List.countP_cons, List.count_cons, ih, he]
    omega

end Happening

namespace Course

variable {config : Link.Config} {x y : Course}

/-- How the refreshes that are over, that are begun and that are due make up for the reasons. -/
structure Owed (x : Course) : Prop where
  turns : Link.Switch (x.log.filterMap Happening.turn?) (.refresh ∈ x.follower.pending)
  count : x.log.countP Happening.isReason =
    x.log.count (.did .refresh) + x.follower.pending.count .refresh
  even : x.place ≠ .reading → .refresh ∉ x.follower.pending →
    List.Forall₂ Happening.Tells (x.log.filter Happening.isReason)
      (x.log.filterMap Happening.report?)
  due : x.place = .reading ∨ .refresh ∈ x.follower.pending →
    ∃ es e, x.log.filter Happening.isReason = es ++ [e] ∧ e.status = x.follower.link.state ∧
      List.Forall₂ Happening.Tells es (x.log.filterMap Happening.report?)

theorem owed_start : Owed (start config) where
  turns := by
    have hnil : Link.Alternate [] := nofun
    refine ⟨hnil.concat (b := true) (by simp), iff_of_true rfl ?_⟩
    simp [start, Follower.start, Follower.feed, Link.step, Link.disconnect, Link.new]
  count := rfl
  even _ h := by
    simp [start, Follower.start, Follower.feed, Link.step, Link.disconnect, Link.new] at h
  due _ := ⟨[], .started, rfl, rfl, .nil⟩

theorem Owed.quiet (h : Owed x) {e : Happening} (log : y.log = x.log ++ [e])
    (quiet : e.isReason = false) (ne : e ≠ .did .refresh) (unread : e.report? = none)
    (count : y.follower.pending.count .refresh = x.follower.pending.count .refresh)
    (reading : x.place ≠ .reading) (reading' : y.place ≠ .reading)
    (state : .refresh ∈ x.follower.pending → y.follower.link.state = x.follower.link.state) :
    Owed y := by
  have hmem : .refresh ∈ y.follower.pending ↔ .refresh ∈ x.follower.pending := by
    rw [← List.count_pos_iff, ← List.count_pos_iff, count]
  have hturn : e.turn? = none := by simp [Happening.turn?, quiet, ne]
  have hreasons : y.log.filter Happening.isReason = x.log.filter Happening.isReason := by
    simp [log, quiet]
  have hreports : y.log.filterMap Happening.report? = x.log.filterMap Happening.report? := by
    simp [log, unread]
  refine ⟨?_, ?_, fun _ hn ↦ ?_, fun hd ↦ ?_⟩
  · rw [log, List.filterMap_append]
    simpa [hturn, hmem] using h.turns
  · rw [log, List.countP_append, List.count_append, count, h.count]
    simp [quiet, ne]
  · rw [hreasons, hreports]
    exact h.even reading (mt hmem.mpr hn)
  · have hp := hmem.mp (hd.resolve_left reading')
    rw [hreasons, hreports, state hp]
    exact h.due (.inr hp)

theorem Owed.reason (h : Owed x) {e : Happening} (log : y.log = x.log ++ [e])
    (reason : e.isReason = true) (idle : x.follower.pending = [])
    (reading : x.place ≠ .reading) (count : y.follower.pending.count .refresh = 1)
    (status : e.status = y.follower.link.state) : Owed y := by
  have hmem : .refresh ∈ y.follower.pending := by
    rw [← List.count_pos_iff, count]
    exact Nat.one_pos
  have hn : .refresh ∉ x.follower.pending := by simp [idle]
  obtain ⟨hne, hunread⟩ := Happening.ne_of_isReason reason
  have hturn : e.turn? = some true := by simp [Happening.turn?, reason]
  refine ⟨?_, ?_, fun _ hn' ↦ absurd hmem hn', fun _ ↦ ?_⟩
  · have ht := (h.turns.turn (b := true) (by simp [hn])).congr (iff_of_true rfl hmem)
    simpa [log, hturn] using ht
  · rw [log, List.countP_append, List.count_append, count, h.count, idle]
    simp [reason, hne]
  · refine ⟨x.log.filter Happening.isReason, e, ?_, status, ?_⟩
    · rw [log, List.filter_append, List.filter_cons_of_pos reason, List.filter_nil]
    · simpa [log, hunread] using h.even reading hn

theorem Owed.look (h : Owed x) (due : x.follower.pending = [.refresh])
    (log : y.log = x.log ++ [.did .refresh]) (idle : y.follower.pending = [])
    (reading : y.place = .reading) (state : y.follower.link.state = x.follower.link.state) :
    Owed y := by
  have hmem : .refresh ∈ x.follower.pending := by simp [due]
  have hturn : (Happening.did .refresh).turn? = some false := rfl
  refine ⟨?_, ?_, fun hn ↦ absurd reading hn, fun _ ↦ ?_⟩
  · have hn : false = true ↔ .refresh ∈ y.follower.pending := by simp [idle]
    have ht := (h.turns.turn (b := false) (by simp [hmem])).congr hn
    simpa [log, hturn] using ht
  · rw [log, List.countP_append, List.count_append, h.count, due, idle]
    rfl
  · rw [log, List.filter_append, List.filterMap_append, state,
      List.filter_cons_of_neg (by simp [Happening.isReason, Happening.isLoss, Happening.isMessage]),
      List.filterMap_cons_none rfl, List.filter_nil, List.filterMap_nil, List.append_nil,
      List.append_nil]
    exact h.due (.inr hmem)

theorem Owed.display (h : Owed x) (idle : x.follower.pending = []) (reading : x.place = .reading)
    {s : Option LinkStatus} (shown : ∀ l, s = some l → l = x.follower.link.state)
    (log : y.log = x.log ++ [.read s]) (same : y.follower.pending = x.follower.pending)
    (working : y.place = .working) : Owed y := by
  have hturn : (Happening.read s).turn? = none := by
    simp [Happening.turn?, Happening.isReason, Happening.isLoss, Happening.isMessage]
  have hreason : (Happening.read s).isReason = false := by
    simp [Happening.isReason, Happening.isLoss, Happening.isMessage]
  refine ⟨?_, ?_, fun _ _ ↦ ?_, fun hd ↦ ?_⟩
  · rw [same]
    simpa [log, hturn] using h.turns
  · rw [log, List.countP_append, List.count_append, same, h.count]
    simp [hreason]
  · obtain ⟨es, e, hes, hstatus, htold⟩ := h.due (.inl reading)
    have htells : Happening.Tells e s := fun l hl ↦ (shown l hl).trans hstatus.symm
    rw [log, List.filter_append, hes, List.filterMap_append,
      List.filter_cons_of_neg (by simp [hreason]), List.filter_nil, List.append_nil]
    exact List.rel_append htold (.cons htells .nil)
  · rw [working, same, idle] at hd
    simp at hd

theorem Owed.move (h : Owed x) {p : Place} (reading : x.place ≠ .reading)
    (reading' : p ≠ .reading) : Owed { x with place := p } where
  turns := h.turns
  count := h.count
  even _ hn := h.even reading hn
  due hd := h.due (.inr (hd.resolve_left reading'))

theorem Owed.step (h : Owed x) (hi : Inv config x) (hs : Step x y) : Owed y := by
  cases hs with
  | @timer now a as working due ne ne' =>
    refine h.quiet rfl ?_ ?_ rfl ?_ ?_ (by simp) fun _ ↦ ?_
    · simp [Happening.isReason, Happening.isLoss, Happening.isMessage]
    · simpa using ne'
    · rw [setTimer_pending, due, List.count_cons_of_ne ne']
      rfl
    · simp [working]
    · rw [setTimer_link]
      rfl
  | dial working due =>
    refine h.quiet rfl rfl (by simp) rfl ?_ (by simp [working]) (by simp) fun _ ↦ rfl
    rw [due, List.count_cons_of_ne (by simp)]
    rfl
  | look working due =>
    have hnil := (hi.last_tail due).2 (.inr rfl)
    exact h.look (hnil ▸ due) rfl hnil rfl rfl
  | opened success dialing =>
    obtain ⟨hstate, hidle⟩ := hi.state_of_dialing dialing
    have hreading : x.place ≠ .reading := by simp [dialing]
    cases success with
    | true =>
      have hstep := hi.sound.step_connectSucceeded hstate
      refine h.reason rfl rfl hidle hreading ?_ ?_ <;>
        simp [Follower.opened, Follower.feed, hidle, hstep, Happening.status]
    | false =>
      have hstep := hi.sound.step_connectFailed hstate
      refine h.quiet rfl rfl (by simp) rfl ?_ hreading (by simp) fun hp ↦ ?_
      · simp [Follower.opened, Follower.feed, hidle, hstep]
      · simp [hidle] at hp
  | display result reading =>
    refine h.display (hi.idle (by simp [reading])) reading ?_ rfl rfl rfl
    intro l hl
    cases result with
    | ok b => exact (Option.some.inj hl).symm
    | error f => cases hl
  | rest working done => exact h.move (by simp [working]) (by simp)
  | stop stoppable => exact h.move (by rcases stoppable with h | h <;> simp [h]) (by simp)
  | @wake now k waiting can =>
    have hidle := hi.idle (by simp [waiting])
    have hreading : x.place ≠ .reading := by simp [waiting]
    have hwoken := hi.woken waiting now can
    generalize x.follower.wake now k = w at hwoken
    cases hwoken with
    | retries armed down =>
      refine h.quiet rfl rfl (by simp) rfl ?_ hreading (by simp) fun hp ↦ ?_
      · simp [hidle]
      · simp [hidle] at hp
    | reads message up =>
      refine h.reason rfl ?_ hidle hreading rfl ?_
      · rcases message with rfl | rfl <;> rfl
      · rw [up]
        rcases message with rfl | rfl <;> rfl
    | ignores control =>
      refine h.quiet rfl ?_ (by simp) rfl rfl hreading (by simp) fun _ ↦ rfl
      rcases control with rfl | rfl <;> rfl
    | loses final up =>
      refine h.reason rfl ?_ hidle hreading rfl ?_ <;> rcases final with rfl | rfl | rfl <;> rfl
    | ticks down => exact h.reason rfl rfl hidle hreading rfl down.symm

theorem Reachable.owed (h : Reachable config x) : Owed x := by
  induction h with
  | refl => exact owed_start
  | tail hr hs ih => exact ih.step (Reachable.inv hr) hs

theorem Step.count_started (hs : Step x y) : y.log.count .started = x.log.count .started := by
  cases hs <;> simp

theorem Reachable.count_started (h : Reachable config x) : x.log.count .started = 1 := by
  induction h with
  | refl => rfl
  | tail _ hs ih => rw [hs.count_started, ih]

structure Served (log : List Happening) : Prop where
  count : log.count (.did .refresh) =
    1 + log.count (.opened true) + log.countP Happening.isLoss + log.countP Happening.isMessage +
      log.count (.woke .fallbackTick)
  turns : Link.Alternate (log.filterMap Happening.turn?)
  shown : List.Forall₂ Happening.Tells (log.filter Happening.isReason)
    (log.filterMap Happening.report?)

/-- Whenever a follower waits, it has refreshed once for its start and once for each connection that
was opened or lost, message and fallback tick, each time before the next of them came up, and the
board was shown as that of a link that is up after a connect or a message only. -/
theorem served_when_waiting (h : Reachable config x) (waiting : x.place = .waiting) :
    Served x.log := by
  have ho := h.owed
  have hidle := h.inv.idle (by simp [waiting])
  have hcount := ho.count
  rw [hidle, List.count_nil, Nat.add_zero, Happening.countP_isReason, h.count_started] at hcount
  exact ⟨hcount.symm, ho.turns.alternate, ho.even (by simp [waiting]) (by simp [hidle])⟩

/-- A connection that a message comes on, and that is closed later; after it none is opened. -/
def talk : Surroundings := ⟨[], [some [(3000, .text), (6000, .close)]], 60000⟩

theorem served_when_returned :
    (Reachable .default returned ∧ returned.place = .waiting ∧ Served returned.log) ∧
      ∃ x, Reachable .default x ∧ x.place = .waiting ∧ Served x.log ∧
        x.follower = (Run.steps 33 (.start .default talk)).follower := by
  refine ⟨⟨returned_reachable, rfl, served_when_waiting returned_reachable rfl⟩, ?_⟩
  obtain ⟨x, hx, waiting, follower, -⟩ :=
    Run.exists_waiting .default talk 33 (by decide) (by decide)
  exact ⟨x, hx, waiting, served_when_waiting hx waiting, follower⟩

end Course

end ChangeRelay.Follower
