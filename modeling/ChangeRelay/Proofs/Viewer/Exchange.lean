import ChangeRelay.Proofs.Broadcast.Block
import ChangeRelay.Viewer.Follower

namespace ChangeRelay

/-- What a viewer is in the middle of: nothing, opening a connection, or a refresh. Of a refresh it
is known how many changes the board shows, once the store was looked at. -/
inductive Activity where
  | idle
  | dialing
  | reading (shown : Option Nat)
  deriving DecidableEq

structure Channel where
  client : ClientNumber
  sent : Nat
  seen : Nat
  deriving DecidableEq

/-- The store, of which it is known how many changes were made and how many of them the feed has
fetched, the relay, and the viewer. -/
structure Exchange where
  made : Nat
  fetched : Nat
  fanout : Fanout
  follower : Follower
  activity : Activity
  channel : Option Channel
  openedAt : Nat
  shown : Option Nat

namespace Exchange

def start (config : Link.Config) : Exchange :=
  ⟨0, 0, .empty, .start config, .idle, none, 0, none⟩

def next (x : Exchange) (as : List Link.Action) : Exchange :=
  { x with follower := { x.follower with pending := as } }

def reply (x : Exchange) (o : Outlet) : Exchange :=
  { x with
    fanout := x.fanout.create o
    channel := some ⟨x.fanout.audience.clients.length + 1, 0, 0⟩ }

def accept (x : Exchange) : Exchange :=
  { x with follower := x.follower.opened true, activity := .idle, openedAt := x.made }

def refuse (x : Exchange) : Exchange :=
  { x with follower := x.follower.opened false, activity := .idle, channel := none }

def display (x : Exchange) (view : Nat → Board) (n : Nat) : Exchange :=
  { x with
    follower := x.follower.refreshed (.ok (view n))
    activity := .idle
    shown := some n }

def take (x : Exchange) (l : Channel) (now : Nat) (f : Frame) : Exchange :=
  { x with
    follower := x.follower.wake now (.frame (some f))
    channel := some { l with seen := l.seen + 1 } }

def lose (x : Exchange) (now : Nat) (f : Option Frame) : Exchange :=
  { x with follower := x.follower.wake now (.frame f), channel := none }

def Waits (x : Exchange) : Prop := x.activity = .idle ∧ x.follower.pending = []

/-- One step of somebody. `view n` is the board of the store after `n` changes. -/
inductive Step (timeout : Nat) (view : Nat → Board) : Exchange → Exchange → Prop
  | change (x : Exchange) : Step timeout view x { x with made := x.made + 1 }
  | fetch (x : Exchange) (n : Nat) (more : x.fetched + n ≤ x.made) :
      Step timeout view x { x with fetched := x.fetched + n }
  /-- The relay dispatches what was fetched, and a delivery succeeds only after its frame was
  written. -/
  | relay (x : Exchange) {f : Fanout} (step : x.fanout.Step timeout f)
      (fed : f.dispatches.length ≤ x.fetched)
      (written : ∀ l, x.channel = some l → (f.delivered l.client).length ≤ l.sent) :
      Step timeout view x { x with fanout := f }
  | write (x : Exchange) (leg : Leg) {l : Channel} {d : Dispatch} (line : x.channel = some l)
      (busy : x.fanout.current = some d) (underway : leg ∈ d.begun) (mine : leg.client = l.client)
      (unwritten : l.sent = (x.fanout.delivered l.client).length) :
      Step timeout view x { x with channel := some { l with sent := l.sent + 1 } }
  | timer (x : Exchange) (now : Nat) {a : Link.Action} {as : List Link.Action}
      (idle : x.activity = .idle) (due : x.follower.pending = a :: as) (ne : a ≠ .openConnection)
      (ne' : a ≠ .refresh) :
      Step timeout view x { x.next as with follower := (x.next as).follower.setTimer now a }
  | dial (x : Exchange) {as : List Link.Action} (idle : x.activity = .idle)
      (due : x.follower.pending = .openConnection :: as) :
      Step timeout view x { x.next as with activity := .dialing, channel := none }
  | reply (x : Exchange) (o : Outlet) (dialing : x.activity = .dialing) (line : x.channel = none) :
      Step timeout view x (x.reply o)
  | accept (x : Exchange) (dialing : x.activity = .dialing) (line : x.channel ≠ none) :
      Step timeout view x x.accept
  | refuse (x : Exchange) (dialing : x.activity = .dialing) : Step timeout view x x.refuse
  | look (x : Exchange) {as : List Link.Action} (idle : x.activity = .idle)
      (due : x.follower.pending = .refresh :: as) :
      Step timeout view x { x.next as with activity := .reading none }
  | glimpse (x : Exchange) (reading : x.activity = .reading none) :
      Step timeout view x { x with activity := .reading (some x.made) }
  | display (x : Exchange) {n : Nat} (reading : x.activity = .reading (some n)) :
      Step timeout view x (x.display view n)
  | wake (x : Exchange) (now : Nat) (w : Follower.Wake) (waits : x.Waits)
      (timer : w = .reconnectTimer ∧ x.follower.reconnectAt ≠ none ∨
        w = .fallbackTick ∧ x.follower.ticker ≠ none) :
      Step timeout view x { x with follower := x.follower.wake now w }
  | take (x : Exchange) {l : Channel} (now : Nat) (f : Frame) (waits : x.Waits)
      (connected : x.follower.connected = true) (line : x.channel = some l)
      (message : f = .text ∨ f = .binary) (flying : l.seen < l.sent) :
      Step timeout view x (x.take l now f)
  | lose (x : Exchange) (now : Nat) (f : Option Frame) (waits : x.Waits)
      (connected : x.follower.connected = true)
      (final : f = some .close ∨ f = some .error ∨ f = none) : Step timeout view x (x.lose now f)

def Reachable (timeout : Nat) (view : Nat → Board) (config : Link.Config) : Exchange → Prop :=
  Relation.ReflTransGen (Step timeout view) (start config)

structure Linked (w : Follower) (a : Activity) : Prop where
  dials : .openConnection ∈ w.pending → w.link.state = .connecting ∧ w.pending = [.openConnection]
  dialing : a = .dialing → w.link.state = .connecting ∧ w.pending = []
  connected : w.connected = true ↔ w.link.state = .connected

/-- The viewer shows a board with the first `n` changes, or is about to. -/
def Sees (x : Exchange) (n : Nat) : Prop :=
  .refresh ∈ x.follower.pending ∨ x.activity = .reading none ∨
    (∃ m, x.activity = .reading (some m) ∧ n ≤ m) ∨ ∃ m, x.shown = some m ∧ n ≤ m

/-- How a connection hangs together with the dispatches: a frame was written for each delivery that
has ended, and none for a dispatch that was not begun. -/
structure Carried (f : Fanout) (l : Channel) : Prop where
  known : f.audience.client? l.client ≠ none
  seen_le : l.seen ≤ l.sent
  delivered_le : (f.delivered l.client).length ≤ l.sent
  unjoined : f.joined l.client = none → l.sent = 0
  begun : ∀ s, f.joined l.client = some s → s + l.sent ≤ f.dispatches.length

structure Inv (view : Nat → Board) (x : Exchange) : Prop where
  fanout : x.fanout.Inv
  dispatched : x.fanout.dispatches.length ≤ x.fetched
  fetched : x.fetched ≤ x.made
  linked : Linked x.follower x.activity
  shown_le : ∀ n, x.shown = some n → n ≤ x.made
  reading : ∀ n, x.activity = .reading (some n) → n ≤ x.made ∧ ∀ m, x.shown = some m → m ≤ n
  board : x.follower.viewer.board = x.shown.map view
  carried : ∀ l, x.channel = some l → Carried x.fanout l
  caught : x.follower.connected = true → x.openedAt ≤ x.made ∧ x.Sees x.openedAt
  heard : ∀ l s, x.channel = some l → x.fanout.joined l.client = some s → 0 < l.seen →
    x.Sees (s + l.seen)

variable {timeout : Nat} {view : Nat → Board} {x y : Exchange}

theorem opened_true {w : Follower} (h : w.link.state = .connecting) (hp : w.pending = []) :
    (w.opened true).link.state = .connected ∧ (w.opened true).connected = true ∧
      .refresh ∈ (w.opened true).pending ∧ .openConnection ∉ (w.opened true).pending := by
  simp only [Follower.opened, Follower.feed, Link.step, Link.connect, h, hp, if_true]
  split <;> simp

theorem opened_false {w : Follower} (h : w.link.state = .connecting) (hp : w.pending = []) :
    (w.opened false).link.state = .disconnected ∧ (w.opened false).connected = w.connected ∧
      .openConnection ∉ (w.opened false).pending := by
  simp only [Follower.opened, Follower.feed, Link.step, Link.disconnect, h, hp, if_true]
  simp

theorem Linked.opened {w : Follower} (h : Linked w .dialing) (success : Bool) :
    Linked (w.opened success) .idle := by
  obtain ⟨hstate, hp⟩ := h.dialing rfl
  cases success with
  | true =>
    obtain ⟨hs, hc, _, hn⟩ := opened_true hstate hp
    exact ⟨fun ho ↦ absurd ho hn, nofun, by simp [hs, hc]⟩
  | false =>
    obtain ⟨hs, hc, hn⟩ := opened_false hstate hp
    have hno : w.connected ≠ true := fun hw ↦ by
      rw [h.connected.mp hw] at hstate
      cases hstate
    exact ⟨fun ho ↦ absurd ho hn, nofun, by simp [hs, hc, hno]⟩

theorem Linked.feed {w : Follower} (h : Linked w .idle) (hp : w.pending = []) {i : Link.Input}
    (hi : i = .reconnectTimer ∨ i = .message ∨ i = .fallbackTimer) : Linked (w.feed i) .idle := by
  obtain ⟨_, _, hconn⟩ := h
  rcases hi with rfl | rfl | rfl
  · by_cases hd : w.link.state = .disconnected ∧ w.link.started
    · have hno : w.connected ≠ true := fun hc ↦ by
        rw [hconn.mp hc] at hd
        cases hd.1
      refine ⟨?_, nofun, ?_⟩
      · intro _
        simp [Follower.feed, Link.step, hd, hp]
      · simp [Follower.feed, Link.step, hd, hno]
    · refine ⟨?_, nofun, ?_⟩
      · intro ho
        simp [Follower.feed, Link.step, hd, hp] at ho
      · simp [Follower.feed, Link.step, hd, hconn]
  · refine ⟨?_, nofun, hconn⟩
    intro ho
    simp only [Follower.feed, Link.step, hp, List.nil_append] at ho
    split at ho <;> simp at ho
  · refine ⟨?_, nofun, ?_⟩
    · intro ho
      simp only [Follower.feed, Link.step, hp, List.nil_append] at ho
      split at ho <;> simp at ho
    · simp only [Follower.feed, Link.step]
      exact hconn

theorem Linked.closed {w : Follower} (hp : w.pending = []) :
    Linked (Follower.feed { w with connected := false } .closed) .idle := by
  by_cases hd : w.link.state = .disconnected
  · refine ⟨?_, nofun, ?_⟩
    · intro ho
      simp [Follower.feed, Link.step, hd, hp] at ho
    · simp [Follower.feed, Link.step, hd]
  · refine ⟨?_, nofun, ?_⟩
    · intro ho
      simp [Follower.feed, Link.step, Link.disconnect, hd, hp] at ho
    · simp [Follower.feed, Link.step, Link.disconnect, hd]

theorem Linked.same {w w' : Follower} {a a' : Activity} (h : Linked w a) (hl : w'.link = w.link)
    (hc : w'.connected = w.connected) (hp : w'.pending = w.pending)
    (ha : a' = .dialing → a = .dialing) : Linked w' a' where
  dials ho := by
    rw [hp] at ho ⊢
    exact hl ▸ h.dials ho
  dialing hd := by
    rw [hl, hp]
    exact h.dialing (ha hd)
  connected := by
    rw [hc, hl]
    exact h.connected

theorem Linked.not_dials_later {w : Follower} {a : Activity} (h : Linked w a) {b : Link.Action}
    {as : List Link.Action} (due : w.pending = b :: as) : .openConnection ∉ as := by
  intro ho
  have hp := (h.dials (due ▸ List.mem_cons_of_mem b ho)).2
  rw [due] at hp
  cases hp
  cases ho

theorem Linked.step (h : Linked x.follower x.activity) (hs : Step timeout view x y) :
    Linked y.follower y.activity := by
  cases hs with
  | change => exact h
  | fetch => exact h
  | relay => exact h
  | write => exact h
  | timer now idle due ne ne' =>
    have hn := h.not_dials_later due
    refine ⟨?_, ?_, ?_⟩
    · intro ho
      rw [Follower.setTimer_pending] at ho
      exact absurd ho hn
    · intro hd
      exact absurd (idle.symm.trans hd) nofun
    · rw [Follower.setTimer_connected, Follower.setTimer_link]
      exact h.connected
  | dial idle due =>
    obtain ⟨hstate, hp⟩ := h.dials (due ▸ List.mem_cons_self)
    rw [due] at hp
    cases hp
    exact ⟨nofun, fun _ ↦ ⟨hstate, rfl⟩, h.connected⟩
  | reply o dialing line => exact h
  | accept dialing line =>
    rw [dialing] at h
    exact h.opened true
  | refuse dialing =>
    rw [dialing] at h
    exact h.opened false
  | look idle due => exact ⟨fun ho ↦ absurd ho (h.not_dials_later due), nofun, h.connected⟩
  | glimpse reading => exact h.same rfl rfl rfl nofun
  | display reading => exact h.same rfl rfl rfl nofun
  | wake now k waits timer =>
    obtain ⟨hidle, hp⟩ := waits
    simp only [hidle] at h ⊢
    rcases timer with ⟨rfl, _⟩ | ⟨rfl, _⟩
    · exact Linked.feed (w := { x.follower with reconnectAt := none }) (h.same rfl rfl rfl id) hp
        (.inl rfl)
    · exact Linked.feed (w := { x.follower with ticker := x.follower.ticker.map (·.take now) })
        (h.same rfl rfl rfl id) hp (.inr (.inr rfl))
  | take now f waits connected line message flying =>
    obtain ⟨hidle, hp⟩ := waits
    simp only [take, hidle] at h ⊢
    rcases message with rfl | rfl <;> exact h.feed hp (.inr (.inl rfl))
  | lose now f waits connected final =>
    obtain ⟨hidle, hp⟩ := waits
    simp only [lose, hidle]
    rcases final with rfl | rfl | rfl <;> exact Linked.closed hp

theorem mem_pending_wake {w : Follower} {a : Link.Action} (h : a ∈ w.pending) (now : Nat)
    (k : Follower.Wake) : a ∈ (w.wake now k).pending := by
  have hf (w : Follower) (i : Link.Input) (h : a ∈ w.pending) : a ∈ (w.feed i).pending :=
    List.mem_append_left _ h
  unfold Follower.wake
  split <;> first | exact hf _ _ h | exact h

/-- What the viewer shows or is about to show is not lost again: a refresh looks at the store after
all that was made before it was asked for. -/
theorem Inv.sees (h : Inv view x) (hs : Step timeout view x y) {n : Nat} (hn : n ≤ x.made)
    (hx : x.Sees n) : y.Sees n := by
  have hidle {a : Activity} (idle : x.activity = a) (ha : a ≠ .reading none)
      (ha' : ∀ m, a ≠ .reading (some m)) :
      .refresh ∈ x.follower.pending ∨ ∃ m, x.shown = some m ∧ n ≤ m := by
    rcases hx with hp | hr | ⟨m, hr, _⟩ | hm
    · exact .inl hp
    · exact absurd (idle.symm.trans hr) ha
    · exact absurd (idle.symm.trans hr) (ha' m)
    · exact .inr hm
  -- A refresh that is asked for stays so until it looks, and then it sees what was made before.
  cases hs with
  | change => exact hx
  | fetch => exact hx
  | relay => exact hx
  | write => exact hx
  | timer now idle due ne ne' =>
    rcases hidle idle nofun nofun with hp | hm
    · left
      rw [Follower.setTimer_pending]
      rw [due] at hp
      exact (List.mem_cons.mp hp).resolve_left ne'.symm
    · exact .inr (.inr (.inr hm))
  | dial idle due =>
    rcases hidle idle nofun nofun with hp | hm
    · left
      rw [due] at hp
      exact (List.mem_cons.mp hp).resolve_left nofun
    · exact .inr (.inr (.inr hm))
  | reply => exact hx
  | accept dialing =>
    rcases hidle dialing nofun nofun with hp | hm
    · exact .inl (List.mem_append_left _ hp)
    · exact .inr (.inr (.inr hm))
  | refuse dialing =>
    rcases hidle dialing nofun nofun with hp | hm
    · exact .inl (List.mem_append_left _ hp)
    · exact .inr (.inr (.inr hm))
  | look idle due => exact .inr (.inl rfl)
  | glimpse reading => exact .inr (.inr (.inl ⟨_, rfl, hn⟩))
  | @display k reading =>
    rcases hx with hp | hr | ⟨m, hr, hm⟩ | ⟨m, hm, hle⟩
    · exact .inl hp
    · cases reading.symm.trans hr
    · cases reading.symm.trans hr
      exact .inr (.inr (.inr ⟨k, rfl, hm⟩))
    · exact .inr (.inr (.inr ⟨k, rfl, Nat.le_trans hle ((h.reading k reading).2 m hm)⟩))
  | wake now k waits =>
    rcases hidle waits.1 nofun nofun with hp | hm
    · exact .inl (mem_pending_wake hp now k)
    · exact .inr (.inr (.inr hm))
  | take now f waits =>
    rcases hidle waits.1 nofun nofun with hp | hm
    · exact .inl (mem_pending_wake hp now _)
    · exact .inr (.inr (.inr hm))
  | lose now f waits =>
    rcases hidle waits.1 nofun nofun with hp | hm
    · exact .inl (mem_pending_wake hp now _)
    · exact .inr (.inr (.inr hm))

variable {f g : Fanout} {l : Channel}

theorem Carried.relay (h : Carried f l) (hf : f.Inv) (hs : f.Step timeout g)
    (written : (g.delivered l.client).length ≤ l.sent) : Carried g l := by
  have hext := hf.extends hs
  refine ⟨hext.known _ h.known, h.seen_le, written, fun hn ↦ h.unjoined ?_, fun s hs' ↦ ?_⟩
  · cases hj : f.joined l.client with
    | none => rfl
    | some s => rw [hext.joined _ s hj] at hn; cases hn
  · cases hj : f.joined l.client with
    | none =>
      rw [h.unjoined hj]
      exact (hf.step hs).joined_le _ s hs'
    | some s₀ =>
      cases (hext.joined _ s₀ hj).symm.trans hs'
      exact Nat.le_trans (h.begun _ hj) hs.length_le

theorem Carried.write (h : Carried f l) (hf : f.Inv) {d : Dispatch} {leg : Leg}
    (busy : f.current = some d) (underway : leg ∈ d.begun) (mine : leg.client = l.client)
    (unwritten : l.sent = (f.delivered l.client).length) :
    Carried f { l with sent := l.sent + 1 } := by
  obtain ⟨s, hs, hlt⟩ := hf.length_delivered_lt busy underway
  rw [mine] at hs hlt
  refine ⟨h.known, Nat.le_succ_of_le h.seen_le, Nat.le_succ_of_le h.delivered_le, ?_, ?_⟩
  · intro hn
    rw [hs] at hn
    cases hn
  · intro s' hs'
    cases hs.symm.trans hs'
    rw [unwritten]
    exact hlt

theorem Carried.reply (hf : f.Inv) (o : Outlet) :
    Carried (f.create o) ⟨f.audience.clients.length + 1, 0, 0⟩ := by
  have hnone : f.joined (f.audience.clients.length + 1) = none :=
    hf.not_joined_of_unknown (Audience.client?_fresh _)
  refine ⟨?_, Nat.le_refl 0, ?_, fun _ ↦ rfl, ?_⟩
  · rw [Fanout.create, Audience.client?_create, if_pos rfl]
    exact Option.some_ne_none _
  · exact Nat.le_of_eq (congrArg List.length (hf.delivered_eq_nil hnone))
  · intro s hs
    cases hnone.symm.trans hs

theorem Carried.take (h : Carried f l) (flying : l.seen < l.sent) :
    Carried f { l with seen := l.seen + 1 } :=
  ⟨h.known, flying, h.delivered_le, h.unjoined, h.begun⟩

theorem Inv.carried_step (h : Inv view x) (hs : Step timeout view x y) :
    ∀ l, y.channel = some l → Carried y.fanout l := by
  cases hs with
  | change => exact h.carried
  | fetch => exact h.carried
  | relay step fed written => exact fun l hl ↦ (h.carried l hl).relay h.fanout step (written l hl)
  | @write leg l d line busy underway mine unwritten =>
    intro l' hl'
    cases hl'
    exact (h.carried l line).write h.fanout busy underway mine unwritten
  | timer => exact h.carried
  | dial => exact fun l hl ↦ by cases hl
  | reply o =>
    intro l hl
    cases hl
    exact .reply h.fanout o
  | accept => exact h.carried
  | refuse => exact fun l hl ↦ by cases hl
  | look => exact h.carried
  | glimpse => exact h.carried
  | display => exact h.carried
  | wake => exact h.carried
  | @take l now f waits connected line message flying =>
    intro l' hl'
    cases hl'
    exact (h.carried l line).take flying
  | lose => exact fun l hl ↦ by cases hl

theorem refresh_mem_wake {w : Follower} (h : w.link.state = .connected) (now : Nat) {f : Frame}
    (message : f = .text ∨ f = .binary) : .refresh ∈ (w.wake now (.frame (some f))).pending := by
  rcases message with rfl | rfl <;> simp [Follower.wake, Follower.feed, Link.step, h]

theorem wake_connected {w : Follower} {now : Nat} {k : Follower.Wake}
    (h : (w.wake now k).connected = true) : w.connected = true := by
  unfold Follower.wake at h
  split at h <;> first | exact h | cases h

theorem Inv.caught_step (h : Inv view x) (hs : Step timeout view x y)
    (hc : y.follower.connected = true) : y.openedAt ≤ y.made ∧ y.Sees y.openedAt := by
  have keep (hc : x.follower.connected = true) (ho : y.openedAt = x.openedAt)
      (hm : x.made ≤ y.made) : y.openedAt ≤ y.made ∧ y.Sees y.openedAt := by
    obtain ⟨hle, hsees⟩ := h.caught hc
    rw [ho]
    exact ⟨Nat.le_trans hle hm, h.sees hs hle hsees⟩
  cases hs with
  | change => exact keep hc rfl (Nat.le_succ _)
  | fetch => exact keep hc rfl (Nat.le_refl _)
  | relay => exact keep hc rfl (Nat.le_refl _)
  | write => exact keep hc rfl (Nat.le_refl _)
  | timer =>
    rw [Follower.setTimer_connected] at hc
    exact keep hc rfl (Nat.le_refl _)
  | dial => exact keep hc rfl (Nat.le_refl _)
  | reply => exact keep hc rfl (Nat.le_refl _)
  | accept dialing =>
    obtain ⟨hstate, hp⟩ := h.linked.dialing dialing
    exact ⟨Nat.le_refl _, .inl (opened_true hstate hp).2.2.1⟩
  | refuse dialing =>
    obtain ⟨hstate, hp⟩ := h.linked.dialing dialing
    exact keep ((opened_false hstate hp).2.1 ▸ hc) rfl (Nat.le_refl _)
  | look => exact keep hc rfl (Nat.le_refl _)
  | glimpse => exact keep hc rfl (Nat.le_refl _)
  | display => exact keep hc rfl (Nat.le_refl _)
  | wake => exact keep (wake_connected hc) rfl (Nat.le_refl _)
  | take => exact keep (wake_connected hc) rfl (Nat.le_refl _)
  | lose => exact keep (wake_connected hc) rfl (Nat.le_refl _)

theorem Inv.heard_step (h : Inv view x) (hs : Step timeout view x y) {l : Channel} {s : Nat}
    (hl : y.channel = some l) (hj : y.fanout.joined l.client = some s) (hseen : 0 < l.seen) :
    y.Sees (s + l.seen) := by
  have keep {l : Channel} (hl : x.channel = some l) (hj : x.fanout.joined l.client = some s)
      (hseen : 0 < l.seen) : y.Sees (s + l.seen) := by
    have hb := (h.carried l hl).begun s hj
    have hle := (h.carried l hl).seen_le
    have hd := h.dispatched
    have hf := h.fetched
    exact h.sees hs (by omega) (h.heard l s hl hj hseen)
  cases hs with
  | change => exact keep hl hj hseen
  | fetch => exact keep hl hj hseen
  | relay step =>
    cases hx : x.fanout.joined l.client with
    | none =>
      have hle := (h.carried l hl).seen_le
      rw [(h.carried l hl).unjoined hx] at hle
      exact absurd hseen (Nat.not_lt.mpr hle)
    | some s₀ =>
      cases ((h.fanout.extends step).joined _ s₀ hx).symm.trans hj
      exact keep hl hx hseen
  | @write _ l₀ _ line =>
    cases hl
    exact keep (l := l₀) line hj hseen
  | timer => exact keep hl hj hseen
  | dial => cases hl
  | reply =>
    cases hl
    cases hseen
  | accept => exact keep hl hj hseen
  | refuse => cases hl
  | look => exact keep hl hj hseen
  | glimpse => exact keep hl hj hseen
  | display => exact keep hl hj hseen
  | wake => exact keep hl hj hseen
  | take now f waits connected line message flying =>
    exact .inl (refresh_mem_wake (h.linked.connected.mp connected) now message)
  | lose => cases hl

theorem Inv.shown_step (h : Inv view x) (hs : Step timeout view x y) :
    (∀ n, y.shown = some n → n ≤ y.made) ∧
      (∀ n, y.activity = .reading (some n) → n ≤ y.made ∧ ∀ m, y.shown = some m → m ≤ n) ∧
      y.follower.viewer.board = y.shown.map view := by
  have hall := And.intro h.shown_le (And.intro h.reading h.board)
  cases hs with
  | change =>
    exact ⟨fun n hn ↦ Nat.le_succ_of_le (h.shown_le n hn),
      fun n hn ↦ ⟨Nat.le_succ_of_le (h.reading n hn).1, (h.reading n hn).2⟩, h.board⟩
  | fetch => exact hall
  | relay => exact hall
  | write => exact hall
  | timer => exact ⟨h.shown_le, h.reading, by rw [Follower.setTimer_viewer]; exact h.board⟩
  | dial => exact ⟨h.shown_le, nofun, h.board⟩
  | reply => exact hall
  | accept => exact ⟨h.shown_le, nofun, by rw [accept, Follower.opened_viewer]; exact h.board⟩
  | refuse => exact ⟨h.shown_le, nofun, by rw [refuse, Follower.opened_viewer]; exact h.board⟩
  | look => exact ⟨h.shown_le, nofun, h.board⟩
  | glimpse =>
    refine ⟨h.shown_le, ?_, h.board⟩
    intro n hn
    cases hn
    exact ⟨Nat.le_refl _, h.shown_le⟩
  | @display n reading =>
    refine ⟨?_, nofun, rfl⟩
    intro m hm
    cases hm
    exact (h.reading n reading).1
  | wake => exact ⟨h.shown_le, h.reading, by rw [Follower.wake_viewer]; exact h.board⟩
  | take => exact ⟨h.shown_le, h.reading, by rw [take, Follower.wake_viewer]; exact h.board⟩
  | lose => exact ⟨h.shown_le, h.reading, by rw [lose, Follower.wake_viewer]; exact h.board⟩

theorem Inv.fanout_step (h : Inv view x) (hs : Step timeout view x y) :
    y.fanout.Inv ∧ y.fanout.dispatches.length ≤ y.fetched ∧ y.fetched ≤ y.made := by
  have hall := And.intro h.fanout (And.intro h.dispatched h.fetched)
  cases hs with
  | change => exact ⟨h.fanout, h.dispatched, Nat.le_succ_of_le h.fetched⟩
  | fetch n more => exact ⟨h.fanout, Nat.le_add_right_of_le h.dispatched, more⟩
  | relay step fed => exact ⟨h.fanout.step step, fed, h.fetched⟩
  | reply o => exact ⟨h.fanout.create o, h.dispatched, h.fetched⟩
  | write | timer | dial | accept | refuse | look | glimpse | display | wake | take | lose =>
    exact hall

theorem inv_start (view : Nat → Board) (config : Link.Config) : Inv view (start config) where
  fanout := Fanout.inv_empty
  dispatched := Nat.le_refl 0
  fetched := Nat.le_refl 0
  linked := by
    refine ⟨?_, nofun, ?_⟩
    · intro ho
      simp [start, Follower.start, Follower.feed, Link.step, Link.new, Link.disconnect] at ho
    · simp [start, Follower.start, Follower.feed, Link.step, Link.new, Link.disconnect]
  shown_le := nofun
  reading := nofun
  board := rfl
  carried := nofun
  caught := nofun
  heard := nofun

theorem Inv.step (h : Inv view x) (hs : Step timeout view x y) : Inv view y := by
  obtain ⟨hfan, hdisp, hfetch⟩ := h.fanout_step hs
  obtain ⟨hshown, hread, hboard⟩ := h.shown_step hs
  exact ⟨hfan, hdisp, hfetch, h.linked.step hs, hshown, hread, hboard, h.carried_step hs,
    h.caught_step hs, fun _ _ hl hj hseen ↦ h.heard_step hs hl hj hseen⟩

theorem Reachable.inv {config : Link.Config} (h : Reachable timeout view config x) :
    Inv view x := by
  induction h with
  | refl => exact inv_start view config
  | tail _ hs ih => exact ih.step hs

end Exchange

end ChangeRelay
