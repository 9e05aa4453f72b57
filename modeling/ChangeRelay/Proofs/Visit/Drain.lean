import ChangeRelay.Acceptor
import ChangeRelay.Proofs.Visit.Lines

namespace ChangeRelay

open Relation (ReflTransGen)

def AcceptorTask.isHandshake : AcceptorTask → Bool
  | handshake _ => true
  | serving _ => false

namespace Acceptor

/-- A step that needs no peer. -/
inductive Own : Acceptor → Acceptor → Prop
  | advance (s : Acceptor) (ms : Nat) : Own s (s.advance ms)
  | evict (s : Acceptor) (c : ClientNumber) : Own s (s.onSession fun x ↦ (x.evict c).1)
  | clear (s : Acceptor) : Own s (s.onSession fun x ↦ x.clear.1)
  | retire (s : Acceptor) : Own s (s.onSession fun x ↦ x.retire.1)
  | dispatch (s : Acceptor) (payload : String) :
      Own s (s.onSession fun x ↦ (x.dispatch payload).1)
  | stop (s : Acceptor) : Own s s.stop
  | abandon (s : Acceptor) : Own s s.abandon

inductive Peers : Acceptor → Acceptor → Prop
  | accept (s : Acceptor) : Peers s s.accept.1
  | upgrade (s : Acceptor) (stream : Nat) (headers : List (String × String)) (kind : Peer.Kind) :
      Peers s (s.upgrade stream headers kind)
  | abort (s : Acceptor) (stream : Nat) : Peers s (s.abort stream)
  | write (s : Acceptor) (c : ClientNumber) (octets : Wire.Octets) :
      Peers s (s.onSession fun x ↦ (x.write c octets).1)
  | send (s : Acceptor) (c : ClientNumber) (opcode : Wire.Opcode) (payload : Wire.Octets) :
      Peers s (s.onSession fun x ↦ (x.send c opcode payload).1)
  | drop (s : Acceptor) (c : ClientNumber) : Peers s (s.onSession fun x ↦ x.drop c)

def Step (s s' : Acceptor) : Prop := Own s s' ∨ Peers s s'

def Reachable (slots timeout : Nat) : Acceptor → Prop := ReflTransGen Step (new slots timeout)

variable {s s' : Acceptor} {t : AcceptorTask}

structure Sound (s : Acceptor) : Prop where
  ordered : s.session.Ordered
  told : s.session.Told
  running : ∀ t ∈ s.tasks, isRunning s.session t = true

theorem sound_new (slots timeout : Nat) : (new slots timeout).Sound where
  ordered := by
    refine ⟨rfl, ?_, ?_⟩ <;> intro c l hl <;> simp [new, Session.new, Session.line?] at hl
  told h := by cases h
  running t ht := by cases ht

theorem Sound.reap (h : s.Sound) (hl : s.session.Leads s'.session) : s'.reap.Sound where
  ordered := hl.ordered h.ordered
  told := hl.told h.ordered h.told
  running _ ht := (List.mem_filter.mp ht).2

theorem Own.leads (h : Own s s') : s.session.Leads s'.session := by
  cases h with
  | advance ms => exact s.session.leads_advance ms
  | evict c => exact (s.session.moves_evict c).leads
  | clear => exact s.session.moves_clear.leads
  | retire => exact s.session.moves_retire.leads
  | dispatch payload => exact s.session.leads_dispatch payload
  | stop => exact .refl _
  | abandon => exact s.session.leads_abandon

theorem Peers.leads (h : Peers s s') : s.session.Leads s'.session := by
  cases h with
  | accept =>
    unfold Acceptor.accept
    split <;> exact .refl _
  | upgrade stream headers kind =>
    unfold Acceptor.upgrade
    split
    · dsimp only
      split
      · exact s.session.leads_connect kind
      · exact .refl _
    · exact .refl _
  | abort stream =>
    unfold Acceptor.abort
    split <;> exact .refl _
  | write c octets => exact s.session.leads_write c octets
  | send c opcode payload => exact s.session.leads_send c opcode payload
  | drop c => exact (s.session.moves_drop c).leads

theorem Step.leads (h : Step s s') : s.session.Leads s'.session :=
  h.elim Own.leads Peers.leads

theorem Own.tasks_eq (h : Own s s') (hs : s.Sound) :
    s'.tasks = s.tasks.filter (isRunning s'.session) := by
  cases h with
  | stop => exact (List.filter_eq_self.mpr hs.running).symm
  | advance | evict | clear | retire | dispatch | abandon => rfl

theorem Sound.sameSession (h : s.Sound) (hs : s'.session = s.session)
    (ht : ∀ t ∈ s'.tasks, t ∈ s.tasks ∨ ∃ stream, t = .handshake stream) : s'.Sound where
  ordered := hs ▸ h.ordered
  told := hs ▸ h.told
  running t hmem := by
    rw [hs]
    obtain hmem | ⟨stream, rfl⟩ := ht t hmem
    · exact h.running t hmem
    · rfl

theorem Sound.accept (h : s.Sound) : s.accept.1.Sound := by
  unfold Acceptor.accept
  split
  · exact h
  · refine h.sameSession rfl fun t ht ↦ ?_
    obtain ht | ht := List.mem_append.mp ht
    · exact .inl ht
    · exact .inr ⟨_, List.mem_singleton.mp ht⟩

theorem Sound.upgrade (h : s.Sound) (stream : Nat) (headers : List (String × String))
    (kind : Peer.Kind) : (s.upgrade stream headers kind).Sound := by
  unfold Acceptor.upgrade
  split
  · dsimp only
    split
    · exact h.reap (s.session.leads_connect kind)
    · exact h.sameSession rfl fun t ht ↦ .inl (List.mem_filter.mp ht).1
  · exact h

theorem Sound.abort (h : s.Sound) (stream : Nat) : (s.abort stream).Sound := by
  unfold Acceptor.abort
  split
  · exact h.sameSession rfl fun t ht ↦ .inl (List.mem_filter.mp ht).1
  · exact h

theorem Sound.own (h : s.Sound) (hs : Own s s') : s'.Sound where
  ordered := hs.leads.ordered h.ordered
  told := hs.leads.told h.ordered h.told
  running t ht := by
    rw [hs.tasks_eq h] at ht
    exact (List.mem_filter.mp ht).2

theorem Sound.peers (h : s.Sound) (hs : Peers s s') : s'.Sound := by
  have hleads := hs.leads
  cases hs with
  | accept => exact h.accept
  | upgrade stream headers kind => exact h.upgrade stream headers kind
  | abort stream => exact h.abort stream
  | write | send | drop => exact h.reap hleads

theorem Sound.step (h : s.Sound) (hs : Step s s') : s'.Sound := hs.elim h.own h.peers

theorem Sound.run (h : s.Sound) (hr : ReflTransGen Step s s') : s'.Sound := by
  induction hr with
  | refl => exact h
  | tail _ hs ih => exact ih.step hs

theorem leads_run (hr : ReflTransGen Step s s') : s.session.Leads s'.session := by
  induction hr with
  | refl => exact .refl _
  | tail _ hs ih => exact ih.trans hs.leads

theorem step_of_own (hr : ReflTransGen Own s s') : ReflTransGen Step s s' :=
  ReflTransGen.mono (fun _ _ h ↦ .inl h) _ _ hr

theorem exists_line {x : Session} (h : isRunning x (.serving c) = true) :
    ∃ l, x.line? c = some l ∧ ∀ reason, l.visit.phase ≠ .closed reason := by
  unfold isRunning at h
  cases hl : x.line? c with
  | none => simp [hl] at h
  | some l =>
    refine ⟨l, rfl, fun reason hp ↦ ?_⟩
    simp [hl, Visit.reason?, hp] at h

theorem not_running_of_closed {x : Session} {l : Line} {reason : Departure}
    (hl : x.line? c = some l) (hp : l.visit.phase = .closed reason) :
    isRunning x (.serving c) = false := by
  simp [isRunning, hl, Visit.reason?, hp]

theorem running_of_leads {x x' : Session} (h : x.Leads x') (hl : (x.line? c).isSome)
    (hr : isRunning x' (.serving c) = true) : isRunning x (.serving c) = true := by
  obtain ⟨l, hl⟩ := Option.isSome_iff_exists.mp hl
  obtain ⟨l', hl', hafter⟩ := h.after c l hl
  cases hp : l.visit.phase with
  | opened | closing => simp [isRunning, hl, Visit.reason?, hp]
  | closed reason =>
    rw [hp] at hafter
    rw [not_running_of_closed hl' hafter] at hr
    cases hr

/-- As long as no peer does anything, tasks only end. -/
theorem Sound.tasks_own (h : s.Sound) (hr : ReflTransGen Own s s') :
    s'.tasks = s.tasks.filter (isRunning s'.session) := by
  induction hr with
  | refl => exact (List.filter_eq_self.mpr h.running).symm
  | @tail s' s'' hr hs ih =>
    rw [hs.tasks_eq (h.run (step_of_own hr)), ih, List.filter_filter]
    -- what runs after the last step ran before it, so that looking twice is looking once
    refine List.filter_congr fun t ht ↦ ?_
    cases t with
    | handshake => rfl
    | serving c =>
      obtain ⟨l, hl, _⟩ := exists_line (h.running _ ht)
      have hline := (leads_run (step_of_own hr)).isSome_line? (Option.isSome_of_mem hl)
      have hback := running_of_leads hs.leads hline
      cases hrun : isRunning s''.session (.serving c) with
      | false => rfl
      | true => rw [hback hrun]; rfl

theorem Sound.closes (h : s.Sound) (hr : ReflTransGen Step s s')
    (late : s.session.now + closeLimit ≤ s'.session.now) {l : Line}
    (hl : s.session.line? c = some l) (hopen : l.visit.phase ≠ .opened) :
    ∃ l' reason, s'.session.line? c = some l' ∧ l'.visit.phase = .closed reason := by
  obtain ⟨l', hl', hafter⟩ := (leads_run hr).after c l hl
  cases hp : l.visit.phase with
  | opened => exact absurd hp hopen
  | closed reason =>
    rw [hp] at hafter
    exact ⟨l', reason, hl', hafter⟩
  | closing reason due =>
    rw [hp] at hafter
    obtain hclosed | ⟨_, hdue⟩ := hafter
    · exact ⟨l', reason, hl', hclosed⟩
    · have hlimit := h.ordered.limited c l hl reason due hp
      have hpos : 0 < closeLimit := by decide
      omega

/-- Once all were told to end, whoever is served is so no longer than the limit. -/
theorem Sound.ends (h : s.Sound) (abandoned : s.session.abandoned = true)
    (hr : ReflTransGen Step s s') (late : s.session.now + closeLimit ≤ s'.session.now)
    (ht : .serving c ∈ s.tasks) : isRunning s'.session (.serving c) = false := by
  obtain ⟨l, hl, -⟩ := exists_line (h.running _ ht)
  obtain ⟨l', reason, hl', hp⟩ := h.closes hr late hl (h.told abandoned c l hl)
  exact not_running_of_closed hl' hp

structure Drains (s : Acceptor) : Prop where
  ends : ∀ s', ReflTransGen Step s s' → s.session.now + closeLimit ≤ s'.session.now →
    ∀ c, .serving c ∈ s.tasks → .serving c ∉ s'.tasks
  alone : ∀ s', ReflTransGen Own s s' → s.session.now + closeLimit ≤ s'.session.now →
    s'.tasks = s.tasks.filter AcceptorTask.isHandshake
  waits : ∀ s', ReflTransGen Own s s' → ∀ stream, .handshake stream ∈ s.tasks →
    .handshake stream ∈ s'.tasks
  over_iff : (s.advance closeLimit).isOver = true ↔ ∀ stream, .handshake stream ∉ s.tasks

theorem Sound.alone (h : s.Sound) (abandoned : s.session.abandoned = true)
    (hr : ReflTransGen Own s s') (late : s.session.now + closeLimit ≤ s'.session.now) :
    s'.tasks = s.tasks.filter AcceptorTask.isHandshake := by
  rw [h.tasks_own hr]
  refine List.filter_congr fun t ht ↦ ?_
  cases t with
  | handshake => rfl
  | serving c => exact h.ends abandoned (step_of_own hr) late ht

/-- When a server has stopped accepting and the time of its tasks is up, all that serve a client end
within the limit for the close frame, whatever the peers do, and so does each that begins to serve
one later; so the server is over by then just in case no handshake is pending. A pending one ends
only by its peer. -/
theorem drains_within_limit {slots timeout : Nat} (hr : Reachable slots timeout s)
    (left : s.accepting = false) (abandoned : s.session.abandoned = true) : Drains s := by
  have h : s.Sound := (sound_new slots timeout).run hr
  refine ⟨?_, fun s' ↦ h.alone abandoned, ?_, ?_⟩
  · intro s' hrun late c ht ht'
    have hrunning := (h.run hrun).running _ ht'
    rw [h.ends abandoned hrun late ht] at hrunning
    cases hrunning
  · intro s' hown stream ht
    rw [h.tasks_own hown]
    exact List.mem_filter.mpr ⟨ht, rfl⟩
  · have htasks := h.alone abandoned (.single (.advance s closeLimit)) (Nat.le_refl _)
    have hleft : (s.advance closeLimit).accepting = false := left
    rw [isOver, htasks, hleft]
    simp only [Bool.not_false, Bool.true_and, List.isEmpty_iff, List.filter_eq_nil_iff]
    constructor
    · exact fun hnone stream ht ↦ hnone _ ht rfl
    · intro hnone t ht
      cases t with
      | handshake stream => exact absurd ht (hnone stream)
      | serving c => exact Bool.false_ne_true

/-- One viewer is served that reads nothing, and another has sent nothing yet, when the time of the
tasks is up. -/
def silent : Acceptor :=
  ((((new 2 10000).accept.1.upgrade 1 [] (.stalled 0)).accept.1).stop).abandon

theorem silent_reachable : Reachable 2 10000 silent := by
  have h₁ : Reachable 2 10000 (new 2 10000).accept.1 := .single (.inr (.accept _))
  have h₂ := h₁.tail (.inr (.upgrade _ 1 [] (.stalled 0)))
  have h₃ := h₂.tail (.inr (.accept _))
  exact (h₃.tail (.inl (.stop _))).tail (.inl (.abandon _))

theorem drains_within_limit_silent :
    Reachable 2 10000 silent ∧ silent.accepting = false ∧ silent.session.abandoned = true ∧
      silent.tasks = [.serving 1, .handshake 2] ∧ Drains silent ∧
      (silent.advance closeLimit).tasks = [.handshake 2] :=
  have hdrains := drains_within_limit silent_reachable rfl rfl
  ⟨silent_reachable, rfl, rfl, rfl, hdrains,
    hdrains.alone _ (.single (.advance _ _)) (Nat.le_refl _)⟩

theorem not_always_drained :
    ¬∀ slots timeout s, Reachable slots timeout s → s.accepting = false →
      s.session.abandoned = true → ∀ t ∈ s.tasks, ∃ s', ReflTransGen Own s s' ∧ t ∉ s'.tasks := by
  intro h
  obtain ⟨s', hown, ht⟩ := h 2 10000 silent silent_reachable rfl rfl (.handshake 2) (by decide)
  have hsound := (sound_new 2 10000).run silent_reachable
  rw [hsound.tasks_own hown] at ht
  exact ht (List.mem_filter.mpr ⟨by decide, rfl⟩)

end Acceptor

end ChangeRelay
