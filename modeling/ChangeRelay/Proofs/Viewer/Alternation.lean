import ChangeRelay.Link
import Mathlib.Data.List.Induction

namespace ChangeRelay.Link

def after (l : Link) (is : List Input) : Link := is.foldl (fun l i ↦ (l.step i).1) l

def actions (l : Link) : List Input → List Action
  | [] => []
  | i :: is => (l.step i).2 ++ (l.step i).1.actions is

@[simp] theorem after_concat (l : Link) (is : List Input) (i : Input) :
    l.after (is ++ [i]) = ((l.after is).step i).1 := by simp [after]

@[simp] theorem actions_concat (l : Link) (is : List Input) (i : Input) :
    l.actions (is ++ [i]) = l.actions is ++ ((l.after is).step i).2 := by
  induction is generalizing l with
  | nil => simp [actions, after]
  | cons j is ih =>
    rw [List.cons_append, actions, actions, ih, List.append_assoc]
    rfl

def Action.timer? : Action → Option Bool
  | scheduleReconnect _ => some true
  | openConnection => some false
  | _ => none

def Action.fallback? : Action → Option Bool
  | startFallback _ => some true
  | stopFallback => some false
  | _ => none

/-- What is turned on first, and then off and on in turn. -/
def Alternate (bs : List Bool) : Prop := ∀ n b, bs[n]? = some b → (b = true ↔ n % 2 = 0)

theorem Alternate.last_iff {bs : List Bool} (h : Alternate bs) :
    bs.getLast? = some true ↔ bs.length % 2 = 1 := by
  rw [List.getLast?_eq_getElem?]
  cases hn : bs.length with
  | zero =>
    rw [List.length_eq_zero_iff.mp hn]
    simp
  | succ n =>
    have hlt : n < bs.length := by omega
    have hb := h n bs[n] (List.getElem?_eq_getElem hlt)
    rw [Nat.add_sub_cancel, List.getElem?_eq_getElem hlt, Option.some_inj, hb]
    omega

theorem Alternate.concat {bs : List Bool} {b : Bool} (h : Alternate bs)
    (hb : b = true ↔ bs.getLast? ≠ some true) : Alternate (bs ++ [b]) := by
  intro n c hc
  rw [List.getElem?_append] at hc
  split at hc
  · exact h n c hc
  · have hn : n = bs.length := by
      have hlt := (List.getElem?_eq_some_iff.mp hc).1
      rw [List.length_singleton] at hlt
      omega
    subst hn
    rw [Nat.sub_self, List.getElem?_cons_zero, Option.some_inj] at hc
    rw [← hc, hb, Ne, h.last_iff]
    omega

structure Switch (bs : List Bool) (on : Prop) : Prop where
  alternate : Alternate bs
  last : bs.getLast? = some true ↔ on

theorem Switch.turn {bs : List Bool} {on : Prop} {b : Bool} (h : Switch bs on)
    (hb : b = true ↔ ¬on) : Switch (bs ++ [b]) (b = true) where
  alternate := h.alternate.concat (hb.trans (not_congr h.last.symm))
  last := by rw [List.getLast?_concat, Option.some_inj]

theorem Switch.congr {bs : List Bool} {on on' : Prop} (h : Switch bs on) (he : on ↔ on') :
    Switch bs on' := ⟨h.alternate, h.last.trans he⟩

structure Sound (l : Link) : Prop where
  polling : l.polling = true ↔ l.started = true ∧ l.state ≠ .connected
  unstarted : l.started = false → l.state = .disconnected

/-- All that an input can do to a sound link. -/
inductive Moves (l : Link) : Input → Link → List Action → Prop
  | still {i : Input} (known : i = .start → l.started = true) : Moves l i l []
  | refreshes {i : Input} (known : i ≠ .start) : Moves l i l [.refresh]
  | starts (fresh : l.started = false) :
      Moves l .start { l with started := true, state := .disconnected, polling := true }
        [.scheduleReconnect l.config.reconnectDelay,
          .startFallback l.config.fallbackInterval, .refresh]
  | opens (ready : l.started = true) (down : l.state = .disconnected) :
      Moves l .reconnectTimer { l with state := .connecting } [.openConnection]
  | connects (opening : l.state = .connecting) :
      Moves l .connectSucceeded { l with state := .connected, polling := false }
        [.stopFallback, .refresh]
  | fails {i : Input} (known : i ≠ .start) (opening : l.state = .connecting) :
      Moves l i { l with state := .disconnected } [.scheduleReconnect l.config.reconnectDelay]
  | drops (up : l.state = .connected) :
      Moves l .closed { l with state := .disconnected, polling := true }
        [.scheduleReconnect l.config.reconnectDelay,
          .startFallback l.config.fallbackInterval, .refresh]

theorem Sound.started_of_ne {l : Link} (h : l.Sound) (hs : l.state ≠ .disconnected) :
    l.started = true := by
  by_contra hn
  exact hs (h.unstarted (by simpa using hn))

theorem Sound.moves {l : Link} (h : l.Sound) (i : Input) : Moves l i (l.step i).1 (l.step i).2 := by
  have polls (hs : l.state = .connecting) : l.polling = true :=
    h.polling.mpr ⟨h.started_of_ne (by simp [hs]), by simp [hs]⟩
  cases i with
  | start =>
    simp only [step]
    split
    · rename_i hs
      exact .still fun _ ↦ hs
    · rename_i hs
      have hs' : l.started = false := by simpa using hs
      have hp : l.polling = false := by simpa [hs'] using h.polling
      simpa [disconnect, hp] using Moves.starts hs'
  | reconnectTimer =>
    simp only [step]
    split
    · rename_i hs
      exact .opens hs.2 hs.1
    · exact .still nofun
  | connectSucceeded =>
    simp only [step]
    split
    · rename_i hs
      simpa [connect, polls hs] using Moves.connects hs
    · exact .still nofun
  | connectFailed =>
    simp only [step]
    split
    · rename_i hs
      simpa [disconnect, polls hs] using Moves.fails (i := .connectFailed) nofun hs
    · exact .still nofun
  | closed =>
    simp only [step]
    cases hs : l.state with
    | disconnected => exact .still nofun
    | connecting => simpa [disconnect, polls hs] using Moves.fails (i := .closed) nofun hs
    | connected =>
      have hp : l.polling = false := by simpa [hs] using h.polling
      simpa [disconnect, hp] using Moves.drops hs
  | message =>
    simp only [step]
    split
    · exact .refreshes nofun
    · exact .still nofun
  | fallbackTimer =>
    simp only [step]
    split
    · exact .refreshes nofun
    · exact .still nofun

variable {config : Config} {is : List Input} {l l' : Link} {i : Input} {as bs : List Action}

theorem Sound.moved (h : l.Sound) (hm : Moves l i l' bs) : l'.Sound := by
  have hstarted := h.started_of_ne
  cases hm with
  | still known => exact h
  | refreshes known => exact h
  | starts fresh => exact ⟨by simp, nofun⟩
  | opens ready down => exact ⟨by simp [h.polling, ready, down], by simp [ready]⟩
  | connects opening => exact ⟨by simp, by simp [hstarted, opening]⟩
  | fails known opening => exact ⟨by simp [h.polling, opening], fun _ ↦ rfl⟩
  | drops up => exact ⟨by simp [hstarted, up], fun _ ↦ rfl⟩

theorem Moves.config_eq (hm : Moves l i l' bs) : l'.config = l.config := by cases hm <;> rfl

theorem Moves.started_iff (hm : Moves l i l' bs) :
    l'.started = true ↔ l.started = true ∨ i = .start := by
  cases hm with
  | still known => exact ⟨.inl, fun h ↦ h.elim id known⟩
  | starts fresh => simp
  | fails known opening => simp [known]
  | refreshes known => simp [known]
  | opens | connects | drops => simp

theorem Sound.timer (h : l.Sound) (hm : Moves l i l' bs) {ts : List Bool}
    (hs : Switch ts (l.started = true ∧ l.state = .disconnected)) :
    Switch (ts ++ bs.filterMap Action.timer?) (l'.started = true ∧ l'.state = .disconnected) := by
  have hstarted := h.started_of_ne
  cases hm with
  | still known => simpa using hs
  | refreshes known => simpa [List.filterMap_cons, Action.timer?] using hs
  | starts fresh =>
    have ht := hs.turn (b := true) (by simp [fresh])
    exact ht.congr (by simp)
  | opens ready down =>
    have ht := hs.turn (b := false) (by simp [ready, down])
    exact ht.congr (by simp)
  | connects opening => simpa [List.filterMap_cons, Action.timer?, opening] using hs
  | fails known opening =>
    have ht := hs.turn (b := true) (by simp [opening])
    exact ht.congr (by simp [hstarted, opening])
  | drops up =>
    have ht := hs.turn (b := true) (by simp [up])
    exact ht.congr (by simp [hstarted, up])

theorem Sound.fallback (h : l.Sound) (hm : Moves l i l' bs) {fs : List Bool}
    (hs : Switch fs (l.polling = true)) :
    Switch (fs ++ bs.filterMap Action.fallback?) (l'.polling = true) := by
  have hstarted := h.started_of_ne
  cases hm with
  | still known => simpa using hs
  | refreshes known => simpa [List.filterMap_cons, Action.fallback?] using hs
  | opens ready down => simpa [List.filterMap_cons, Action.fallback?] using hs
  | fails known opening => simpa [List.filterMap_cons, Action.fallback?] using hs
  | starts fresh => exact hs.turn (b := true) (by simp [h.polling, fresh])
  | drops up => exact hs.turn (b := true) (by simp [h.polling, up])
  | connects opening => exact hs.turn (b := false) (by simp [h.polling, hstarted, opening])

theorem Moves.delay (hm : Moves l i l' bs) {d : Nat} (hd : .scheduleReconnect d ∈ bs) :
    d = l.config.reconnectDelay := by
  cases hm <;> simp at hd <;> exact hd

theorem Moves.interval (hm : Moves l i l' bs) {n : Nat} (hn : .startFallback n ∈ bs) :
    n = l.config.fallbackInterval := by
  cases hm <;> simp at hn <;> exact hn

theorem Moves.count_refresh (hm : Moves l i l' bs)
    (h : l.state = .connected ↔ l'.state ≠ .connected) : bs.count .refresh = 1 := by
  cases hm with
  | still known => tauto
  | refreshes known => tauto
  | starts fresh => rfl
  | opens ready down => simp [down] at h
  | connects opening => rfl
  | fails known opening => simp [opening] at h
  | drops up => rfl

theorem Moves.eq_of_nil (hm : Moves l i l' []) : l' = l := by cases hm; rfl

/-- A link that was new, after inputs to which it answered with actions. -/
structure Traced (config : Config) (is : List Input) (l : Link) (as : List Action) : Prop where
  sound : l.Sound
  same : l.config = (new config).config
  started : l.started = true ↔ .start ∈ is
  timer : Switch (as.filterMap Action.timer?) (l.started = true ∧ l.state = .disconnected)
  fallback : Switch (as.filterMap Action.fallback?) (l.polling = true)
  delay : ∀ d, .scheduleReconnect d ∈ as → d = (new config).config.reconnectDelay
  interval : ∀ n, .startFallback n ∈ as → n = (new config).config.fallbackInterval

theorem traced_new : Traced config [] (new config) [] where
  sound := ⟨by simp [new], fun _ ↦ rfl⟩
  same := rfl
  started := by simp [new]
  timer := ⟨by simp [Alternate], by simp [new]⟩
  fallback := ⟨by simp [Alternate], by simp [new]⟩
  delay := by simp
  interval := by simp

theorem Traced.moves (h : Traced config is l as) (hm : Moves l i l' bs) :
    Traced config (is ++ [i]) l' (as ++ bs) where
  sound := h.sound.moved hm
  same := hm.config_eq.trans h.same
  started := by rw [hm.started_iff, h.started, List.mem_append, List.mem_singleton, eq_comm]
  timer := by
    rw [List.filterMap_append]
    exact h.sound.timer hm h.timer
  fallback := by
    rw [List.filterMap_append]
    exact h.sound.fallback hm h.fallback
  delay d hd := by
    rcases List.mem_append.mp hd with hd | hd
    · exact h.delay d hd
    · rw [hm.delay hd, h.same]
  interval n hn := by
    rcases List.mem_append.mp hn with hn | hn
    · exact h.interval n hn
    · rw [hm.interval hn, h.same]

theorem traced_run (config : Config) (is : List Input) :
    Traced config is ((new config).after is) ((new config).actions is) := by
  induction is using List.reverseRecOn with
  | nil => exact traced_new
  | append_singleton is i ih =>
    rw [after_concat, actions_concat]
    exact ih.moves (ih.sound.moves i)

/-- The inputs to which there is an action. -/
def essential (l : Link) : List Input → List Input
  | [] => []
  | i :: is =>
    if (l.step i).2 = [] then (l.step i).1.essential is else i :: (l.step i).1.essential is

theorem Sound.run_essential (h : l.Sound) (is : List Input) :
    l.after (l.essential is) = l.after is ∧ l.actions (l.essential is) = l.actions is := by
  induction is generalizing l with
  | nil => exact ⟨rfl, rfl⟩
  | cons i is ih =>
    have hm := h.moves i
    rw [essential, actions]
    split
    · rename_i hnil
      rw [hnil] at hm
      obtain ⟨hafter, hactions⟩ := ih h
      have hl : l.after (i :: is) = l.after is := by rw [after, List.foldl_cons, hm.eq_of_nil]; rfl
      rw [hm.eq_of_nil, hnil, hl]
      exact ⟨hafter, hactions⟩
    · obtain ⟨hafter, hactions⟩ := ih (h.moved hm)
      exact ⟨hafter, by rw [actions, hactions]⟩

structure Lawful (config : Config) (is : List Input) (l : Link) (as : List Action) : Prop where
  timers : Alternate (as.filterMap Action.timer?)
  fallbacks : Alternate (as.filterMap Action.fallback?)
  polling_iff : l.polling = true ↔ .start ∈ is ∧ l.state ≠ .connected
  polling_iff_last : l.polling = true ↔ (as.filterMap Action.fallback?).getLast? = some true
  waiting_iff_last :
    (as.filterMap Action.timer?).getLast? = some true ↔ .start ∈ is ∧ l.state = .disconnected
  refresh : ∀ i, (l.state = .connected ↔ (l.step i).1.state ≠ .connected) →
    (l.step i).2.count .refresh = 1
  delay : ∀ d, .scheduleReconnect d ∈ as → d = config.reconnectDelay
  interval : ∀ n, .startFallback n ∈ as → n = max config.fallbackInterval leastInterval
  idle : ∀ i, (l.step i).2 = [] → (l.step i).1 = l
  erased : (new config).after ((new config).essential is) = l ∧
    (new config).actions ((new config).essential is) = as

/-- Whatever comes in whatever order, there is never a second timer, a second connection or a second
fallback, and the actions so far tell the state of the link. -/
theorem lawful_run (config : Config) (is : List Input) :
    Lawful config is ((new config).after is) ((new config).actions is) := by
  have h := traced_run config is
  have hpolling := h.sound.polling
  have htimer := h.timer.last
  rw [h.started] at hpolling htimer
  refine ⟨h.timer.alternate, h.fallback.alternate, hpolling, h.fallback.last.symm, htimer,
    ?_, h.delay, h.interval, ?_, traced_new.sound.run_essential is⟩
  · intro i
    exact (h.sound.moves i).count_refresh
  · intro i hnil
    have hm := h.sound.moves i
    rw [hnil] at hm
    exact hm.eq_of_nil

end ChangeRelay.Link
