import ChangeRelay.Proofs.Visit.Drain
import ChangeRelay.Proofs.Visit.Manned
import Mathlib.Data.List.Range

namespace ChangeRelay

open Relation (ReflTransGen)

namespace Acceptor

variable {s s' : Acceptor} {k : Nat}

structure GoesOn (s s' : Acceptor) : Prop where
  accepted : s'.accepted = s.accepted
  keeps : s.session.Keeps s'.session
  leads : s.session.Leads s'.session
  free : s'.free + s'.tasks.length = s.free + s.tasks.length
  tasks : s'.tasks = s.tasks.filter (isRunning s'.session)

theorem reap_free (s : Acceptor) : s.reap.free + s.reap.tasks.length = s.free + s.tasks.length := by
  have hle : (s.tasks.filter (isRunning s.session)).length ≤ s.tasks.length :=
    List.length_filter_le ..
  simp only [reap]
  omega

theorem goesOn_onSession {f : Session → Session} (hk : s.session.Keeps (f s.session))
    (hl : s.session.Leads (f s.session)) : GoesOn s (s.onSession f) :=
  ⟨rfl, hk, hl, reap_free _, rfl⟩

theorem Sound.goesOn_own (h : s.Sound) (hs : Own s s') : GoesOn s s' := by
  have hleads := hs.leads
  cases hs with
  | advance ms => exact goesOn_onSession (s.session.keeps_advance ms) hleads
  | evict c => exact goesOn_onSession (s.session.keeps_evict c) hleads
  | clear => exact goesOn_onSession s.session.keeps_clear hleads
  | retire => exact goesOn_onSession s.session.keeps_retire hleads
  | dispatch payload => exact goesOn_onSession (s.session.keeps_dispatch payload) hleads
  | stop => exact ⟨rfl, .refl _, .refl _, rfl, (List.filter_eq_self.mpr h.running).symm⟩
  | abandon => exact goesOn_onSession s.session.keeps_abandon hleads

end Acceptor

/-- How the handshake of a stream ended. -/
inductive Fate where
  | failed
  | served (c : ClientNumber)
  deriving DecidableEq

/-- A server with what became of the streams that it let in. -/
structure Gate where
  acceptor : Acceptor
  fate : Nat → Option Fate

namespace Gate

def new (slots timeout : Nat) : Gate := ⟨.new slots timeout, fun _ ↦ none⟩

def session (g : Gate) : Session := g.acceptor.session

def created (g : Gate) : Nat := g.session.audience.roster.created

def Pending (g : Gate) (k : Nat) : Prop :=
  1 ≤ k ∧ k ≤ g.acceptor.accepted ∧ g.fate k = none

def conclude (g : Gate) (k : Nat) (f : Fate) : Nat → Option Fate :=
  if 1 ≤ k ∧ k ≤ g.acceptor.accepted then Function.update g.fate k ((g.fate k).or (some f))
  else g.fate

/-- A handshake that is well-formed and comes from an admitted origin makes the next client. -/
def verdict (g : Gate) (headers : List (String × String)) : Fate :=
  match Origin.check headers with
  | .ok _ => .served (g.created + 1)
  | .error _ => .failed

def accept (g : Gate) : Gate := { g with acceptor := g.acceptor.accept.1 }

def upgrade (g : Gate) (k : Nat) (headers : List (String × String)) (kind : Peer.Kind) : Gate where
  acceptor := g.acceptor.upgrade k headers kind
  fate := g.conclude k (g.verdict headers)

def abort (g : Gate) (k : Nat) : Gate where
  acceptor := g.acceptor.abort k
  fate := g.conclude k .failed

def onSession (g : Gate) (f : Session → Session) : Gate :=
  { g with acceptor := g.acceptor.onSession f }

inductive Step : Gate → Gate → Prop
  | own (g : Gate) {s : Acceptor} (h : g.acceptor.Own s) : Step g { g with acceptor := s }
  | accept (g : Gate) : Step g g.accept
  | upgrade (g : Gate) (k : Nat) (headers : List (String × String)) (kind : Peer.Kind) :
      Step g (g.upgrade k headers kind)
  | abort (g : Gate) (k : Nat) : Step g (g.abort k)
  | write (g : Gate) (c : ClientNumber) (octets : Wire.Octets) :
      Step g (g.onSession fun x ↦ (x.write c octets).1)
  | send (g : Gate) (c : ClientNumber) (opcode : Wire.Opcode) (payload : Wire.Octets) :
      Step g (g.onSession fun x ↦ (x.send c opcode payload).1)
  | drop (g : Gate) (c : ClientNumber) : Step g (g.onSession fun x ↦ x.drop c)

def Reachable (slots timeout : Nat) : Gate → Prop := ReflTransGen Step (new slots timeout)

/-- A stream is over when its handshake has failed or its connection has ended. -/
def isOver (g : Gate) (k : Nat) : Bool :=
  match g.fate k with
  | none => false
  | some .failed => true
  | some (.served c) => (g.session.line? c).any fun l ↦ l.visit.reason?.isSome

def streams (g : Gate) : List Nat := List.range' 1 g.acceptor.accepted

def task (g : Gate) (k : Nat) : AcceptorTask :=
  match g.fate k with
  | some (.served c) => .serving c
  | _ => .handshake k

variable {g g' : Gate} {s : Acceptor} {slots timeout k : Nat} {c : ClientNumber} {f : Fate}

theorem Step.acceptor (h : Step g g') : g.acceptor.Step g'.acceptor := by
  cases h with
  | own h => exact .inl h
  | accept => exact .inr (.accept _)
  | upgrade k headers kind => exact .inr (.upgrade _ k headers kind)
  | abort k => exact .inr (.abort _ k)
  | write c octets => exact .inr (.write _ c octets)
  | send c opcode payload => exact .inr (.send _ c opcode payload)
  | drop c => exact .inr (.drop _ c)

theorem exists_step (h : g.acceptor.Step s) : ∃ g', Step g g' ∧ g'.acceptor = s := by
  rcases h with h | h
  · exact ⟨_, .own g h, rfl⟩
  · cases h with
    | accept => exact ⟨_, .accept g, rfl⟩
    | upgrade k headers kind => exact ⟨_, .upgrade g k headers kind, rfl⟩
    | abort k => exact ⟨_, .abort g k, rfl⟩
    | write c octets => exact ⟨_, .write g c octets, rfl⟩
    | send c opcode payload => exact ⟨_, .send g c opcode payload, rfl⟩
    | drop c => exact ⟨_, .drop g c, rfl⟩

/-- Every run of a server can be followed. -/
theorem exists_gate (h : Acceptor.Reachable slots timeout s) :
    ∃ g, Reachable slots timeout g ∧ g.acceptor = s := by
  induction h with
  | refl => exact ⟨_, .refl, rfl⟩
  | tail _ hs ih =>
    obtain ⟨g, hg, rfl⟩ := ih
    obtain ⟨g', hstep, rfl⟩ := exists_step hs
    exact ⟨g', hg.tail hstep, rfl⟩

theorem acceptor_run (h : ReflTransGen Step g g') :
    ReflTransGen Acceptor.Step g.acceptor g'.acceptor := by
  induction h with
  | refl => exact .refl
  | tail _ hs ih => exact ih.tail hs.acceptor

theorem conclude_of_pending (h : g.Pending k) (f : Fate) :
    g.conclude k f = Function.update g.fate k (some f) := by
  rw [conclude, if_pos ⟨h.1, h.2.1⟩, h.2.2]
  rfl

theorem conclude_of_not_pending (h : ¬g.Pending k) (f : Fate) : g.conclude k f = g.fate := by
  unfold conclude
  split
  · rename_i hk
    obtain ⟨f', hf⟩ := Option.ne_none_iff_exists'.mp fun hn ↦ h ⟨hk.1, hk.2, hn⟩
    rw [hf, Option.some_or, ← hf, Function.update_eq_self]
  · rfl

theorem Step.fate (h : Step g g') (hf : g.fate k = some f) : g'.fate k = some f := by
  have concluded (j : Nat) (f' : Fate) : g.conclude j f' k = some f := by
    by_cases hp : g.Pending j
    · have hne : k ≠ j := by
        rintro rfl
        cases hp.2.2.symm.trans hf
      rw [conclude_of_pending hp, Function.update_of_ne hne, hf]
    · rw [conclude_of_not_pending hp, hf]
  cases h with
  | upgrade j | abort j => exact concluded j _
  | own | accept | write | send | drop => exact hf

theorem isOver_iff : g.isOver k = true ↔ g.fate k = some .failed ∨
    ∃ c l reason, g.fate k = some (.served c) ∧ g.session.line? c = some l ∧
      l.visit.phase = .closed reason := by
  unfold isOver
  cases hf : g.fate k with
  | none => simp
  | some f =>
    cases f with
    | failed => simp
    | served c =>
      cases hl : g.session.line? c with
      | none => simp [hl]
      | some l => cases hp : l.visit.phase <;> simp [hl, hp, Visit.reason?]

theorem isOver_of_closed {l : Line} {reason : Departure} (hf : g.fate k = some (.served c))
    (hl : g.session.line? c = some l) (hp : l.visit.phase = .closed reason) : g.isOver k = true :=
  isOver_iff.mpr (.inr ⟨c, l, reason, hf, hl, hp⟩)

theorem Step.isOver (h : Step g g') (hk : g.isOver k = true) : g'.isOver k = true := by
  obtain hf | ⟨c, l, reason, hf, hl, hp⟩ := isOver_iff.mp hk
  · exact isOver_iff.mpr (.inl (h.fate hf))
  · obtain ⟨l', hl', hafter⟩ := h.acceptor.leads.after c l hl
    rw [hp] at hafter
    exact isOver_of_closed (h.fate hf) hl' hafter

theorem fate_run (h : ReflTransGen Step g g') (hf : g.fate k = some f) : g'.fate k = some f := by
  induction h with
  | refl => exact hf
  | tail _ hs ih => exact hs.fate ih

theorem isOver_run (h : ReflTransGen Step g g') (hk : g.isOver k = true) : g'.isOver k = true := by
  induction h with
  | refl => exact hk
  | tail _ hs ih => exact hs.isOver ih

/-- A handshake has a task as long as it is pending, and the client of a stream as long as its
connection has not ended. -/
structure Inv (slots : Nat) (g : Gate) : Prop where
  sound : g.acceptor.Sound
  manned : g.session.Manned
  slots : g.acceptor.free + g.acceptor.tasks.length = slots
  nodup : g.acceptor.tasks.Nodup
  handshake_iff : ∀ k, .handshake k ∈ g.acceptor.tasks ↔ g.Pending k
  serving_iff : ∀ c, .serving c ∈ g.acceptor.tasks ↔
    (∃ k, g.fate k = some (.served c)) ∧ Acceptor.isRunning g.session (.serving c) = true
  letIn : ∀ k f, g.fate k = some f → 1 ≤ k ∧ k ≤ g.acceptor.accepted
  known : ∀ k c, g.fate k = some (.served c) → (g.session.line? c).isSome
  once : ∀ j k c, g.fate j = some (.served c) → g.fate k = some (.served c) → j = k
  served : ∀ c ∈ g.session.members, ∃ k, g.fate k = some (.served c)

theorem inv_new (slots timeout : Nat) : (new slots timeout).Inv slots where
  sound := Acceptor.sound_new slots timeout
  manned := ⟨(Acceptor.sound_new slots timeout).ordered, .nil, fun c hc ↦ by cases hc⟩
  slots := rfl
  nodup := .nil
  handshake_iff k := by
    refine iff_of_false (fun h ↦ by cases h) fun ⟨hpos, hle, _⟩ ↦ ?_
    exact absurd (hpos.trans hle) (Nat.not_succ_le_zero 0)
  serving_iff c := iff_of_false (fun h ↦ by cases h) fun ⟨⟨_, h⟩, _⟩ ↦ by cases h
  letIn k f h := by cases h
  known k c h := by cases h
  once j k c h := by cases h
  served c hc := by cases hc

theorem running_of_line {x : Session} {l : Line} (hl : x.line? c = some l)
    (hp : ∀ reason, l.visit.phase ≠ .closed reason) :
    Acceptor.isRunning x (.serving c) = true := by
  cases hphase : l.visit.phase with
  | opened | closing => simp [Acceptor.isRunning, hl, Visit.reason?, hphase]
  | closed reason => exact absurd hphase (hp reason)

theorem Inv.goesOn (h : g.Inv slots) (sound : s.Sound) (hs : g.acceptor.GoesOn s) :
    Inv slots { g with acceptor := s } where
  sound := sound
  manned := hs.keeps.manned h.manned
  slots := hs.free.trans h.slots
  nodup := by
    change s.tasks.Nodup
    rw [hs.tasks]
    exact h.nodup.filter _
  handshake_iff k := by
    change .handshake k ∈ s.tasks ↔ 1 ≤ k ∧ k ≤ s.accepted ∧ _
    rw [hs.tasks, List.mem_filter, hs.accepted, h.handshake_iff]
    exact and_iff_left rfl
  serving_iff c := by
    change .serving c ∈ s.tasks ↔ _
    rw [hs.tasks, List.mem_filter, h.serving_iff, and_assoc]
    refine and_congr_right fun ⟨k, hk⟩ ↦ and_iff_right_of_imp fun hrun ↦ ?_
    exact Acceptor.running_of_leads hs.leads (h.known k c hk) hrun
  letIn k f hf := by
    change 1 ≤ k ∧ k ≤ s.accepted
    rw [hs.accepted]
    exact h.letIn k f hf
  known k c hf := hs.leads.isSome_line? (h.known k c hf)
  once := h.once
  served c hc := h.served c ((hs.keeps.members h.manned.ordered).subset hc)

theorem Inv.accept (h : g.Inv slots) (sound : g.acceptor.accept.1.Sound) :
    g.accept.Inv slots := by
  unfold Gate.accept
  unfold Acceptor.accept at sound ⊢
  split
  · exact h
  · rename_i hfree
    rw [if_neg hfree] at sound
    simp only [Bool.or_eq_true, Bool.not_eq_true', decide_eq_true_eq, not_or] at hfree
    have hslots := h.slots
    have hnone : g.fate (g.acceptor.accepted + 1) = none := by
      by_contra hn
      obtain ⟨f, hf⟩ := Option.ne_none_iff_exists'.mp hn
      have hle := (h.letIn _ f hf).2
      omega
    have hnew : .handshake (g.acceptor.accepted + 1) ∉ g.acceptor.tasks := fun hmem ↦ by
      have hle := ((h.handshake_iff _).mp hmem).2.1
      omega
    refine ⟨sound, h.manned, ?_, ?_, ?_, ?_, ?_, h.known, h.once, h.served⟩
    · simp only [List.length_append, List.length_singleton]
      omega
    · exact List.nodup_append.mpr ⟨h.nodup, List.nodup_singleton _, fun t ht t' ht' he ↦
        hnew (List.mem_singleton.mp ht' ▸ he ▸ ht)⟩
    · intro k
      change .handshake k ∈ g.acceptor.tasks ++ [_] ↔ 1 ≤ k ∧ k ≤ g.acceptor.accepted + 1 ∧ _
      rw [List.mem_append, h.handshake_iff, List.mem_singleton, AcceptorTask.handshake.injEq]
      constructor
      · rintro (⟨hpos, hle, hf⟩ | rfl)
        · exact ⟨hpos, Nat.le_succ_of_le hle, hf⟩
        · exact ⟨Nat.le_add_left 1 _, le_rfl, hnone⟩
      · rintro ⟨hpos, hle, hf⟩
        obtain hle | rfl := Nat.le_or_eq_of_le_succ hle
        · exact .inl ⟨hpos, hle, hf⟩
        · exact .inr rfl
    · intro c
      change .serving c ∈ g.acceptor.tasks ++ [_] ↔ _
      rw [List.mem_append, h.serving_iff, or_iff_left]
      · rfl
      · intro hmem
        cases List.mem_singleton.mp hmem
    · intro k f hf
      have hle := h.letIn k f hf
      exact ⟨hle.1, Nat.le_succ_of_le hle.2⟩

theorem Inv.letIn_update (h : g.Inv slots) (pending : g.Pending k) {j : Nat} {f f' : Fate}
    (hf : Function.update g.fate k (some f) j = some f') : 1 ≤ j ∧ j ≤ g.acceptor.accepted := by
  by_cases hj : j = k
  · exact hj ▸ ⟨pending.1, pending.2.1⟩
  · rw [Function.update_of_ne hj] at hf
    exact h.letIn j f' hf

theorem Inv.handshake_update (h : g.Inv slots) (f : Fate) (j : Nat) :
    (.handshake j ∈ g.acceptor.tasks ∧ j ≠ k) ↔
      1 ≤ j ∧ j ≤ g.acceptor.accepted ∧ Function.update g.fate k (some f) j = none := by
  rw [h.handshake_iff]
  by_cases hj : j = k
  · simp [hj]
  · simp [Pending, hj]

theorem Inv.free_filter (h : g.Inv slots) (pending : g.Pending k) :
    g.acceptor.free + 1 + (g.acceptor.tasks.filter (· ≠ .handshake k)).length = slots := by
  have hslots := h.slots
  have hlength := (perm_cons_filter_ne h.nodup ((h.handshake_iff k).mpr pending)).length_eq
  rw [List.length_cons] at hlength
  omega

theorem Inv.fails (h : g.Inv slots) (pending : g.Pending k)
    (sound : Acceptor.Sound { g.acceptor with
      tasks := g.acceptor.tasks.filter (· ≠ .handshake k)
      free := g.acceptor.free + 1 }) :
    Inv slots
      { acceptor := { g.acceptor with
          tasks := g.acceptor.tasks.filter (· ≠ .handshake k)
          free := g.acceptor.free + 1 }
        fate := Function.update g.fate k (some .failed) } := by
  have hserved (j : Nat) (c : ClientNumber) :
      Function.update g.fate k (some .failed) j = some (.served c) ↔
        g.fate j = some (.served c) := by
    by_cases hj : j = k
    · rw [hj, Function.update_self, pending.2.2]
      exact ⟨nofun, nofun⟩
    · rw [Function.update_of_ne hj]
  refine ⟨sound, h.manned, h.free_filter pending, h.nodup.filter _, ?_, ?_, ?_, ?_, ?_, ?_⟩
  · intro j
    exact Iff.trans (by simp) (h.handshake_update .failed j)
  · intro c
    simp only [hserved]
    exact Iff.trans (by simp) (h.serving_iff c)
  · exact fun j f hf ↦ h.letIn_update pending hf
  · exact fun j c hf ↦ h.known j c ((hserved j c).mp hf)
  · exact fun i j c hi hj ↦ h.once i j c ((hserved i c).mp hi) ((hserved j c).mp hj)
  · exact fun c hc ↦ (h.served c hc).imp fun j hf ↦ (hserved j c).mpr hf

theorem Inv.serves (h : g.Inv slots) (pending : g.Pending k) (kind : Peer.Kind)
    (sound : (Acceptor.reap { g.acceptor with
      session := g.acceptor.session.connect kind
      tasks := g.acceptor.tasks.filter (· ≠ .handshake k) ++ [.serving (g.created + 1)] }).Sound) :
    Inv slots
      { acceptor := Acceptor.reap { g.acceptor with
          session := g.acceptor.session.connect kind
          tasks := g.acceptor.tasks.filter (· ≠ .handshake k) ++ [.serving (g.created + 1)] }
        fate := Function.update g.fate k (some (.served (g.created + 1))) } := by
  have hjoined : g.session.Joined (g.session.connect kind) := h.manned.connect kind
  have hleads := g.session.leads_connect kind
  have hfresh (j : Nat) : g.fate j ≠ some (.served (g.created + 1)) := by
    intro hf
    have hle := (Session.exists_line?_iff.mp (Option.isSome_iff_exists.mp (h.known j _ hf))).2
    rw [← h.manned.ordered.created] at hle
    exact Nat.not_succ_le_self _ hle
  have hserved (j : Nat) (c : ClientNumber) :
      Function.update g.fate k (some (.served (g.created + 1))) j = some (.served c) ↔
        g.fate j = some (.served c) ∨ j = k ∧ c = g.created + 1 := by
    by_cases hj : j = k
    · rw [hj, Function.update_self, pending.2.2]
      simp [eq_comm]
    · rw [Function.update_of_ne hj]
      simp [hj]
  have hnew : .serving (g.created + 1) ∉ g.acceptor.tasks := fun hmem ↦ by
    obtain ⟨⟨j, hf⟩, -⟩ := (h.serving_iff _).mp hmem
    exact hfresh j hf
  obtain ⟨l, hl, hp⟩ := hjoined.running
  have hrunning : Acceptor.isRunning (g.session.connect kind) (.serving (g.created + 1)) = true :=
    running_of_line hl hp
  refine ⟨sound, hjoined.manned, ?_, ?_, ?_, ?_, ?_, ?_, ?_, ?_⟩
  · have hfree := h.free_filter pending
    rw [Acceptor.reap_free]
    simp only [List.length_append, List.length_singleton]
    omega
  · refine (List.nodup_append.mpr ⟨h.nodup.filter _, List.nodup_singleton _, ?_⟩).filter _
    intro t ht t' ht' he
    exact hnew (List.mem_singleton.mp ht' ▸ he ▸ (List.mem_filter.mp ht).1)
  · intro j
    refine Iff.trans ?_ (h.handshake_update (.served (g.created + 1)) j)
    simp [Acceptor.reap, Acceptor.isRunning]
  · intro c
    simp only [hserved, exists_or, exists_eq_left]
    refine Iff.trans List.mem_filter (and_congr_left fun hrun ↦ ?_)
    rw [List.mem_append, List.mem_singleton, List.mem_filter, h.serving_iff]
    refine or_congr ?_ (by simp)
    simp only [ne_eq, reduceCtorEq, not_false_eq_true, decide_true, and_true]
    refine and_iff_left_of_imp fun hj ↦ ?_
    obtain ⟨j, hf⟩ := hj
    exact Acceptor.running_of_leads hleads (h.known j c hf) hrun
  · exact fun j f hf ↦ h.letIn_update pending hf
  · intro j c hf
    obtain hf | ⟨-, rfl⟩ := (hserved j c).mp hf
    · exact hleads.isSome_line? (h.known j c hf)
    · exact Option.isSome_iff_exists.mpr ⟨l, hl⟩
  · intro i j c hi hj
    obtain hi | ⟨rfl, rfl⟩ := (hserved i c).mp hi
    · obtain hj | ⟨-, rfl⟩ := (hserved j c).mp hj
      · exact h.once i j c hi hj
      · exact absurd hi (hfresh i)
    · obtain hj | ⟨rfl, -⟩ := (hserved j _).mp hj
      · exact absurd hj (hfresh j)
      · rfl
  · intro c hc
    obtain hc | rfl := hjoined.members c hc
    · exact (h.served c hc).imp fun j hf ↦ (hserved j c).mpr (.inl hf)
    · exact ⟨k, (hserved k _).mpr (.inr ⟨rfl, rfl⟩)⟩

theorem Inv.upgrade (h : g.Inv slots) (k : Nat) (headers : List (String × String))
    (kind : Peer.Kind) (sound : (g.acceptor.upgrade k headers kind).Sound) :
    (g.upgrade k headers kind).Inv slots := by
  unfold Gate.upgrade
  by_cases pending : g.Pending k
  · have hc := List.contains_iff_mem.mpr ((h.handshake_iff k).mpr pending)
    rw [conclude_of_pending pending]
    unfold Acceptor.upgrade at sound ⊢
    unfold verdict
    rw [if_pos hc] at sound ⊢
    cases hcheck : Origin.check headers with
    | ok =>
      rw [hcheck] at sound
      exact h.serves pending kind sound
    | error =>
      rw [hcheck] at sound
      exact h.fails pending sound
  · have hc := mt List.contains_iff_mem.mp (mt (h.handshake_iff k).mp pending)
    rw [conclude_of_not_pending pending, Acceptor.upgrade, if_neg hc]
    exact h

theorem Inv.abort (h : g.Inv slots) (k : Nat) (sound : (g.acceptor.abort k).Sound) :
    (g.abort k).Inv slots := by
  unfold Gate.abort
  by_cases pending : g.Pending k
  · have hc := List.contains_iff_mem.mpr ((h.handshake_iff k).mpr pending)
    rw [conclude_of_pending pending]
    rw [Acceptor.abort, if_pos hc] at sound ⊢
    exact h.fails pending sound
  · have hc := mt List.contains_iff_mem.mp (mt (h.handshake_iff k).mp pending)
    rw [conclude_of_not_pending pending, Acceptor.abort, if_neg hc]
    exact h

theorem Inv.step (h : g.Inv slots) (hs : Step g g') : g'.Inv slots := by
  have hsound := h.sound.step hs.acceptor
  cases hs with
  | own hs => exact h.goesOn hsound (h.sound.goesOn_own hs)
  | accept => exact h.accept hsound
  | upgrade k headers kind => exact h.upgrade k headers kind hsound
  | abort k => exact h.abort k hsound
  | write c octets =>
    exact h.goesOn hsound (Acceptor.goesOn_onSession (g.session.keeps_write c octets)
      (g.session.leads_write c octets))
  | send c opcode payload =>
    exact h.goesOn hsound (Acceptor.goesOn_onSession (g.session.keeps_send c opcode payload)
      (g.session.leads_send c opcode payload))
  | drop c =>
    exact h.goesOn hsound (Acceptor.goesOn_onSession (g.session.keeps_drop c)
      (g.session.moves_drop c).leads)

theorem Reachable.inv (h : Reachable slots timeout g) : g.Inv slots := by
  induction h with
  | refl => exact inv_new slots timeout
  | tail _ hs ih => exact ih.step hs

def gone (g : Gate) : List Nat := g.streams.filter g.isOver

def live (g : Gate) : List Nat := g.streams.filter fun k ↦ !g.isOver k

theorem length_live_add (g : Gate) : g.live.length + g.gone.length = g.acceptor.accepted := by
  have hperm := (List.filter_append_perm g.isOver g.streams).length_eq
  rw [List.length_append, streams, List.length_range'] at hperm
  simp only [live, gone, streams]
  omega

theorem mem_live : k ∈ g.live ↔ 1 ≤ k ∧ k ≤ g.acceptor.accepted ∧ g.isOver k = false := by
  simp only [live, streams, List.mem_filter, List.mem_range'_1, Bool.not_eq_true',
    Nat.lt_one_add_iff, and_assoc]

theorem running_iff {x : Session} {l : Line} (hl : x.line? c = some l) :
    Acceptor.isRunning x (.serving c) = true ↔ ∀ reason, l.visit.phase ≠ .closed reason := by
  refine ⟨fun hrun reason hp ↦ ?_, running_of_line hl⟩
  rw [Acceptor.not_running_of_closed hl hp] at hrun
  cases hrun

theorem Inv.mem_live_iff (h : g.Inv slots) : k ∈ g.live ↔ g.Pending k ∨
    ∃ c, g.fate k = some (.served c) ∧ Acceptor.isRunning g.session (.serving c) = true := by
  rw [mem_live, ← Bool.not_eq_true, isOver_iff]
  cases hf : g.fate k with
  | none => simp [Pending, hf]
  | some f =>
    have hin := h.letIn k f hf
    cases f with
    | failed => simp [Pending, hf]
    | served c =>
      obtain ⟨l, hl⟩ := Option.isSome_iff_exists.mp (h.known k c hf)
      simp [Pending, hf, hin, hl, running_iff hl]

theorem task_of_pending (h : g.Pending k) : g.task k = .handshake k := by rw [task, h.2.2]

theorem task_of_served (h : g.fate k = some (.served c)) : g.task k = .serving c := by rw [task, h]

theorem Inv.task_injOn (h : g.Inv slots) {j : Nat} (hj : j ∈ g.live) (hk : k ∈ g.live)
    (he : g.task j = g.task k) : j = k := by
  obtain hj | ⟨c, hj, -⟩ := h.mem_live_iff.mp hj
  · rw [task_of_pending hj] at he
    obtain hk | ⟨d, hk, -⟩ := h.mem_live_iff.mp hk
    · rw [task_of_pending hk] at he
      cases he
      rfl
    · cases he.trans (task_of_served hk)
  · rw [task_of_served hj] at he
    obtain hk | ⟨d, hk, -⟩ := h.mem_live_iff.mp hk
    · cases he.trans (task_of_pending hk)
    · cases he.trans (task_of_served hk)
      exact h.once j k c hj hk

/-- Exactly the streams that are not over have a task, one each. -/
theorem Inv.tasks_perm (h : g.Inv slots) : (g.live.map g.task).Perm g.acceptor.tasks := by
  have hnodup : (g.live.map g.task).Nodup :=
    .map_on (fun j hj k hk ↦ h.task_injOn hj hk) (.filter _ List.nodup_range')
  refine (List.perm_ext_iff_of_nodup hnodup h.nodup).mpr fun t ↦ ?_
  rw [List.mem_map]
  constructor
  · rintro ⟨k, hk, rfl⟩
    obtain hk | ⟨c, hf, hrun⟩ := h.mem_live_iff.mp hk
    · rw [task_of_pending hk]
      exact (h.handshake_iff k).mpr hk
    · rw [task_of_served hf]
      exact (h.serving_iff c).mpr ⟨⟨k, hf⟩, hrun⟩
  · intro ht
    cases t with
    | handshake k =>
      have hk := (h.handshake_iff k).mp ht
      exact ⟨k, h.mem_live_iff.mpr (.inl hk), task_of_pending hk⟩
    | serving c =>
      obtain ⟨⟨k, hf⟩, hrun⟩ := (h.serving_iff c).mp ht
      exact ⟨k, h.mem_live_iff.mpr (.inr ⟨c, hf, hrun⟩), task_of_served hf⟩

structure Capped (slots : Nat) (g : Gate) : Prop where
  atMost : g.acceptor.tasks.length ≤ slots
  /-- A stream is turned away just in case all slots are taken, and nothing else comes of it. -/
  full_iff : g.acceptor.accepting = true →
    (g.acceptor.accept = (g.acceptor, none) ↔ g.acceptor.tasks.length = slots)
  tasks : (g.live.map g.task).Perm g.acceptor.tasks
  /-- Each stream that is over has given its slot back, once. -/
  free : g.acceptor.free + g.acceptor.accepted = slots + g.gone.length
  stays : ∀ g', ReflTransGen Step g g' → ∀ k ∈ g.gone, k ∈ g'.gone
  ends : ∀ k c l, g.fate k = some (.served c) → g.session.line? c = some l →
    l.visit.phase ≠ .opened → ∀ g', ReflTransGen Step g g' →
      g.session.now + closeLimit ≤ g'.session.now → k ∈ g'.gone
  registered : ∀ c ∈ g.session.members, .serving c ∈ g.acceptor.tasks ∧
    ∃! k, k ∈ g.live ∧ g.fate k = some (.served c)
  members : g.session.members.length ≤ g.acceptor.tasks.length

theorem Inv.full_iff (h : g.Inv slots) (accepting : g.acceptor.accepting = true) :
    g.acceptor.accept = (g.acceptor, none) ↔ g.acceptor.tasks.length = slots := by
  have hslots := h.slots
  by_cases hfree : g.acceptor.free = 0
  · have haccept : g.acceptor.accept = (g.acceptor, none) := by simp [Acceptor.accept, hfree]
    exact iff_of_true haccept (by omega)
  · have haccept : g.acceptor.accept.2 = some (g.acceptor.accepted + 1) := by
      simp [Acceptor.accept, accepting, hfree]
    refine iff_of_false (fun hsame ↦ ?_) (by omega)
    rw [hsame] at haccept
    cases haccept

theorem Inv.mem_gone (h : g.Inv slots) : k ∈ g.gone ↔ g.isOver k = true := by
  rw [gone, List.mem_filter, streams, List.mem_range'_1, and_iff_right_iff_imp, isOver_iff]
  intro hk
  have hin : 1 ≤ k ∧ k ≤ g.acceptor.accepted := by
    obtain hf | ⟨c, l, reason, hf, -⟩ := hk
    · exact h.letIn k _ hf
    · exact h.letIn k _ hf
  omega

theorem Inv.run (h : g.Inv slots) (hr : ReflTransGen Step g g') : g'.Inv slots := by
  induction hr with
  | refl => exact h
  | tail _ hs ih => exact ih.step hs

theorem Inv.serving_of_member (h : g.Inv slots) (hc : c ∈ g.session.members) :
    ∃ k, g.fate k = some (.served c) ∧ Acceptor.isRunning g.session (.serving c) = true := by
  obtain ⟨k, hf⟩ := h.served c hc
  obtain ⟨l, hl, hp⟩ := h.manned.isOpen c hc
  exact ⟨k, hf, running_of_line hl fun reason hr ↦ by cases hp.symm.trans hr⟩

theorem Inv.registered (h : g.Inv slots) (hc : c ∈ g.session.members) :
    .serving c ∈ g.acceptor.tasks ∧ ∃! k, k ∈ g.live ∧ g.fate k = some (.served c) := by
  obtain ⟨k, hf, hrun⟩ := h.serving_of_member hc
  refine ⟨(h.serving_iff c).mpr ⟨⟨k, hf⟩, hrun⟩, k, ?_, ?_⟩
  · exact ⟨h.mem_live_iff.mpr (.inr ⟨c, hf, hrun⟩), hf⟩
  · exact fun j hj ↦ h.once j k c hj.2 hf

theorem Inv.ends (h : g.Inv slots) {l : Line} (hf : g.fate k = some (.served c))
    (hl : g.session.line? c = some l) (hp : l.visit.phase ≠ .opened)
    (hr : ReflTransGen Step g g') (late : g.session.now + closeLimit ≤ g'.session.now) :
    k ∈ g'.gone := by
  obtain ⟨l', reason, hl', hp'⟩ := h.sound.closes (acceptor_run hr) late hl hp
  exact (h.run hr).mem_gone.mpr (isOver_of_closed (fate_run hr hf) hl' hp')

theorem Inv.length_members (h : g.Inv slots) :
    g.session.members.length ≤ g.acceptor.tasks.length := by
  have hsub : g.session.members.map .serving ⊆ g.acceptor.tasks := by
    intro t ht
    obtain ⟨c, hc, rfl⟩ := List.mem_map.mp ht
    exact (h.registered hc).1
  have hnodup : (g.session.members.map AcceptorTask.serving).Nodup :=
    h.manned.nodup.map fun c d hcd ↦ by cases hcd; rfl
  simpa using (List.subperm_of_subset hnodup hsub).length_le

theorem Inv.capped (h : g.Inv slots) : g.Capped slots where
  atMost := by
    have hslots := h.slots
    omega
  full_iff := h.full_iff
  tasks := h.tasks_perm
  free := by
    have hslots := h.slots
    have hcount := g.length_live_add
    have hlength := h.tasks_perm.length_eq
    rw [List.length_map] at hlength
    omega
  stays g' hr k hk := (h.run hr).mem_gone.mpr (isOver_run hr (h.mem_gone.mp hk))
  ends k c l hf hl hp g' hr late := h.ends hf hl hp hr late
  registered c hc := h.registered hc
  members := h.length_members

/-- Whatever the peers do and whoever is evicted, no more tasks run than there are slots, and a
stream that comes in is turned away just in case that many run. A stream that was let in has one
task until its handshake has failed or its connection has ended, and gives its slot back then, for
good; a member of the roster is the client of a stream that is not over. -/
theorem slots_kept (h : Acceptor.Reachable slots timeout s) :
    (∃ g, Reachable slots timeout g ∧ g.acceptor = s) ∧
      ∀ g, Reachable slots timeout g → g.acceptor = s → g.Capped slots :=
  ⟨exists_gate h, fun _ hg _ ↦ hg.inv.capped⟩

/-- Of five streams that were let in one is served and evicted, one is refused for its origin, one
gives up, one is served, and the last has sent nothing yet; three were turned away. -/
def crowded : Gate :=
  let g := (new 2 10000).accept.accept.accept.upgrade 1 [] .attentive
  let g := g.upgrade 2 [("Origin", "http://evil.example")] .attentive
  let g := ((g.accept.accept.abort 3).accept.accept.upgrade 4 [] .raw)
  let g := g.onSession fun x ↦ (x.evict 1).1
  { g with acceptor := g.acceptor.advance 5 }.accept

theorem crowded_reachable : Reachable 2 10000 crowded := by
  have admits {g : Gate} (h : Reachable 2 10000 g) : Reachable 2 10000 g.accept :=
    h.tail (.accept g)
  have h₁ := (admits (admits (admits .refl))).tail (.upgrade _ 1 [] .attentive)
  have h₂ := h₁.tail (.upgrade _ 2 [("Origin", "http://evil.example")] .attentive)
  have h₃ := (admits (admits h₂)).tail (.abort _ 3)
  have h₄ := (admits (admits h₃)).tail (.upgrade _ 4 [] .raw)
  have h₅ := h₄.tail (.own _ (.evict _ 1))
  exact admits (h₅.tail (.own _ (.advance _ 5)))

theorem slots_kept_crowded :
    Acceptor.Reachable 2 10000 crowded.acceptor ∧ crowded.acceptor.accepted = 5 ∧
      crowded.acceptor.tasks = [.serving 2, .handshake 5] ∧ crowded.gone = [1, 2, 3] ∧
      crowded.Capped 2 :=
  have hr := acceptor_run crowded_reachable
  ⟨hr, by decide, by decide, by decide, (slots_kept hr).2 _ crowded_reachable rfl⟩

end Gate

end ChangeRelay
