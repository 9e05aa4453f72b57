import ChangeRelay.Proofs.Viewer.Exchange

namespace ChangeRelay.Exchange

/-- Nothing is left to happen by itself: the viewer is connected and waits, its client has joined,
all changes were dispatched, and all frames have arrived. -/
structure Settled (x : Exchange) (l : Channel) : Prop where
  connected : x.follower.link.state = .connected
  waits : x.Waits
  line : x.channel = some l
  joined : l.client ∈ x.fanout.members
  idle : x.fanout.current = none
  dispatched : x.fanout.dispatches.length = x.made
  landed : l.seen = l.sent

variable {timeout : Nat} {view : Nat → Board} {config : Link.Config} {x : Exchange} {l : Channel}

theorem Waits.shown (h : x.Waits) {n : Nat} (hn : x.Sees n) : ∃ m, x.shown = some m ∧ n ≤ m := by
  obtain ⟨hidle, hp⟩ := h
  rcases hn with hr | hr | ⟨m, hr, _⟩ | hm
  · rw [hp] at hr
    cases hr
  · cases hidle.symm.trans hr
  · cases hidle.symm.trans hr
  · exact hm

/-- The board that a settled viewer shows is the latest if and only if it was read after all those
changes were made that were dispatched before the client joined. -/
theorem latest_iff (h : Reachable timeout view config x) (hs : Settled x l) :
    ∃ n s, x.shown = some n ∧ x.follower.viewer.board = some (view n) ∧
      x.fanout.joined l.client = some s ∧ x.openedAt ≤ n ∧ n ≤ x.made ∧
      (n = x.made ↔ s ≤ n) := by
  have hinv := h.inv
  obtain ⟨n, hn, hopened⟩ := hs.waits.shown (hinv.caught (hinv.linked.connected.mpr hs.connected)).2
  obtain ⟨s, hj, hall⟩ := hinv.fanout.length_delivered_eq hs.idle hs.joined
  have hcarried := hinv.carried l hs.line
  have hsent := hcarried.delivered_le
  have hbegun := hcarried.begun s hj
  have hmade := hs.dispatched
  have hlanded := hs.landed
  have hle := hinv.shown_le n hn
  refine ⟨n, s, hn, by rw [hinv.board, hn]; rfl, hj, hopened, hle, ?_⟩
  constructor
  · omega
  · intro hsn
    -- Without a frame nothing was dispatched since the client joined, else the last one counts.
    rcases Nat.eq_zero_or_pos l.seen with hzero | hpos
    · omega
    · obtain ⟨m, hm, hseen⟩ := hs.waits.shown (hinv.heard l s hs.line hj hpos)
      cases hn.symm.trans hm
      omega

def tally (n : Nat) : Board := ⟨.arr (List.replicate n .null), .arr [], .obj [], .arr []⟩

def caughtUp : Exchange where
  made := 0
  fetched := 0
  fanout := Fanout.empty.create .steady
  follower := ⟨⟨(Link.new .default).config, .connected, false, true⟩, [], none, none, true,
    ⟨some (tally 0), 2⟩⟩
  activity := .idle
  channel := some ⟨1, 0, 0⟩
  openedAt := 0
  shown := some 0

theorem caughtUp_reachable : Reachable 5 tally .default caughtUp := by
  have h₁ : Reachable 5 tally .default _ := .tail .refl (.timer _ 0 rfl rfl nofun nofun)
  have h₂ := h₁.tail (.timer _ 0 rfl rfl nofun nofun)
  have h₃ := ((h₂.tail (.look _ rfl rfl)).tail (.glimpse _ rfl)).tail (.display _ rfl)
  have h₄ := h₃.tail (.wake _ 5000 .reconnectTimer ⟨rfl, rfl⟩ (.inl ⟨rfl, nofun⟩))
  have h₅ := (h₄.tail (.dial _ rfl rfl)).tail (.reply _ .steady rfl rfl)
  have h₆ := h₅.tail (.accept _ rfl nofun)
  have h₇ := h₆.tail (.timer _ 5000 rfl rfl nofun nofun)
  exact ((h₇.tail (.look _ rfl rfl)).tail (.glimpse _ rfl)).tail (.display _ rfl)

def missed : Exchange :=
  { caughtUp with
    made := 1
    fetched := 1
    fanout := ((caughtUp.fanout.begin "change").finish).enter 1 }

theorem missed_reachable : Reachable 5 tally .default missed := by
  have h₁ := (caughtUp_reachable.tail (.change _)).tail (.fetch _ 1 (Nat.le_refl 1))
  have h₂ := h₁.tail (.relay _ (.begin _ "change" rfl) (by decide) fun l hl ↦ by cases hl; decide)
  have h₃ := h₂.tail (.relay _ (.finish _ rfl rfl) (by decide) fun l hl ↦ by cases hl; decide)
  exact h₃.tail (.relay _ (.enter _ 1 (by decide) rfl) (by decide) fun l hl ↦ by cases hl; decide)

theorem missed_settled : Settled missed ⟨1, 0, 0⟩ where
  connected := rfl
  waits := ⟨rfl, rfl⟩
  line := rfl
  joined := by decide
  idle := rfl
  dispatched := rfl
  landed := rfl

theorem not_always_latest :
    ¬ ∀ x l, Reachable 5 tally .default x → Settled x l → x.shown = some x.made := by
  intro h
  cases h missed _ missed_reachable missed_settled

def followed : Exchange :=
  { caughtUp with
    made := 1
    fetched := 1
    fanout := (((((caughtUp.fanout.enter 1).begin "change").start 5 0).settle ⟨1, 0, true⟩)).finish
    follower := { caughtUp.follower with viewer := ⟨some (tally 1), 3⟩ }
    channel := some ⟨1, 1, 1⟩
    shown := some 1 }

theorem followed_reachable : Reachable 5 tally .default followed := by
  have h₁ := caughtUp_reachable.tail
    (.relay _ (.enter _ 1 (by decide) rfl) (by decide) fun l hl ↦ by cases hl; decide)
  have h₂ := (h₁.tail (.change _)).tail (.fetch _ 1 (Nat.le_refl 1))
  have h₃ := h₂.tail (.relay _ (.begin _ "change" rfl) (by decide) fun l hl ↦ by cases hl; decide)
  have h₄ := h₃.tail
    (.relay _ (.start _ 0 rfl (by decide)) (by decide) fun l hl ↦ by cases hl; decide)
  have h₅ := h₄.tail (.write _ ⟨1, 0, true⟩ rfl rfl (by decide) rfl (by decide))
  have h₆ := h₅.tail
    (.relay _ (.settle _ ⟨1, 0, true⟩ rfl (by decide)) (by decide) fun l hl ↦ by cases hl; decide)
  have h₇ := h₆.tail (.relay _ (.finish _ rfl rfl) (by decide) fun l hl ↦ by cases hl; decide)
  have h₈ := h₇.tail (.take _ 6000 .text ⟨rfl, rfl⟩ rfl rfl (.inl rfl) (by decide))
  exact ((h₈.tail (.look _ rfl rfl)).tail (.glimpse _ rfl)).tail (.display _ rfl)

theorem followed_settled : Settled followed ⟨1, 1, 1⟩ where
  connected := rfl
  waits := ⟨rfl, rfl⟩
  line := rfl
  joined := by decide
  idle := rfl
  dispatched := rfl
  landed := rfl

theorem latest_iff_followed :
    Reachable 5 tally .default followed ∧ Settled followed ⟨1, 1, 1⟩ ∧
      followed.shown = some followed.made := by
  obtain ⟨n, s, hn, _, hj, _, _, hiff⟩ := latest_iff followed_reachable followed_settled
  cases hj
  rw [hn, hiff.mpr (Nat.zero_le n)]
  exact ⟨followed_reachable, followed_settled, rfl⟩

end ChangeRelay.Exchange
