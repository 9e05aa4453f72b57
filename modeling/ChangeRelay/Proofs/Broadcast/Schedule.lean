import ChangeRelay.Proofs.Broadcast.Block
import ChangeRelay.Proofs.Broadcast.Usage

namespace ChangeRelay

/-- Writes to it always succeed in time, whatever was written before. -/
def Outlet.Reliable (timeout : Nat) (o : Outlet) : Prop :=
  ∀ earlier payload, ((o earlier payload).within timeout).2 = true

def Stage.dispatch? : Stage → Option Dispatch
  | busy d => some d
  | _ => none

namespace Dispatch

variable (a : Audience) (d : Dispatch) (timeout now : Nat)

theorem start_waiting : (d.start a timeout now).2.waiting = d.waiting.tail := by
  unfold start
  split
  · rename_i h
    rw [h]
    rfl
  · rename_i c cs h
    rw [h]
    split
    · rfl
    · split <;> rfl

theorem startAll_waiting (n : Nat) :
    (startAll a timeout now n d).2.waiting = d.waiting.drop n := by
  induction n generalizing a d with
  | zero => rfl
  | succ n ih => rw [startAll, ih, start_waiting, List.drop_tail]

@[simp] theorem start_payload : (d.start a timeout now).2.payload = d.payload := by
  unfold start
  split
  · rfl
  · split
    · rfl
    · split <;> rfl

end Dispatch

namespace Fanout

open Relation (ReflTransGen)

/-- A step that the relay itself takes. -/
inductive Delivers (timeout : Nat) : Fanout → Fanout → Prop
  | begin (f : Fanout) (payload : String) (idle : f.current = none) :
      Delivers timeout f (f.begin payload)
  | start (f : Fanout) (now : Nat) {d : Dispatch} (busy : f.current = some d)
      (more : d.waiting ≠ []) : Delivers timeout f (f.start timeout now)
  | settle (f : Fanout) (leg : Leg) {d : Dispatch} (busy : f.current = some d)
      (underway : leg ∈ d.begun) : Delivers timeout f (f.settle leg)
  | finish (f : Fanout) {d : Dispatch} (busy : f.current = some d) (allOver : d.isOver = true) :
      Delivers timeout f f.finish

variable {timeout now : Nat} {f g : Fanout} {c : ClientNumber} {d : Dispatch}

theorem Delivers.step (h : Delivers timeout f g) : Step timeout f g := by
  cases h with
  | begin payload idle => exact .begin f payload idle
  | start now busy more => exact .start f now busy more
  | settle leg busy underway => exact .settle f leg busy underway
  | finish busy allOver => exact .finish f busy allOver

theorem Inv.delivers (h : Inv f) (hr : ReflTransGen (Delivers timeout) f g) : Inv g := by
  induction hr with
  | refl => exact h
  | tail _ hd ih => exact ih.step hd.step

structure Steady (timeout : Nat) (f : Fanout) (c : ClientNumber) : Prop where
  reliable : ∃ k, f.audience.client? c = some k ∧ k.outlet.Reliable timeout
  joined : f.joined c = some 0
  left : f.left c = none
  wins : ∀ d, f.current = some d → ∀ leg ∈ d.begun, leg.client = c → leg.success = true

theorem Inv.steady (h : Inv f) (hf : f.dispatches = []) (hc : c ∈ f.members) {k : Client}
    (hk : f.audience.client? c = some k) (ho : k.outlet.Reliable timeout) : Steady timeout f c := by
  obtain ⟨hj, hl⟩ := (h.mem_members c).mp hc
  obtain ⟨s, hs⟩ := Option.ne_none_iff_exists'.mp hj
  have hle := h.joined_le c s hs
  rw [hf, List.length_nil] at hle
  have hcur : f.current = none := by
    cases hcur : f.current with
    | none => rfl
    | some d => simp [dispatches, hcur] at hf
  refine ⟨⟨k, hk, ho⟩, by rw [hs, Nat.le_zero.mp hle], hl, ?_⟩
  intro d hd
  rw [hcur] at hd
  cases hd

theorem reliable_modify {a : Audience} {φ : Client → Client} (hφ : ∀ k, (φ k).outlet = k.outlet)
    (b : ClientNumber) (h : ∃ k, a.client? c = some k ∧ k.outlet.Reliable timeout) :
    ∃ k, (a.modify b φ).client? c = some k ∧ k.outlet.Reliable timeout := by
  obtain ⟨k, hk, ho⟩ := h
  rw [Audience.client?_modify]
  split
  · exact ⟨φ k, by rw [hk, Option.map_some], (hφ k).symm ▸ ho⟩
  · exact ⟨k, hk, ho⟩

theorem Steady.delivers (hs : Steady timeout f c) (h : Delivers timeout f g) :
    Steady timeout g c := by
  obtain ⟨hrel, hj, hl, hw⟩ := hs
  cases h with
  | begin payload idle =>
    refine ⟨hrel, hj, hl, ?_⟩
    intro d hd leg hleg
    cases hd
    cases hleg
  | @start now d busy more =>
    obtain ⟨b, bs, hwait⟩ := List.exists_cons_of_ne_nil more
    simp only [Fanout.start, busy]
    rcases d.start_cases f.audience timeout now hwait with ⟨he, _⟩ | ⟨k', due, hk', _, he⟩
    · rw [he, proceed, note_same]
      refine ⟨hrel, hj, hl, ?_⟩
      intro d' hd'
      cases hd'
      exact hw d busy
    · rw [he, proceed, Audience.modify_roster, note_same]
      refine ⟨reliable_modify ?_ b hrel, hj, hl, ?_⟩
      · exact fun _ ↦ rfl
      intro d' hd' leg hleg hc
      cases hd'
      rcases List.mem_append.mp hleg with hleg | hleg
      · exact hw d busy leg hleg hc
      · rw [List.mem_singleton.mp hleg] at hc ⊢
        cases hc
        obtain ⟨k, hk, ho⟩ := hrel
        cases hk.symm.trans hk'
        exact ho _ _
  | @settle leg d busy underway =>
    simp only [Fanout.settle, busy]
    have hw' : ∀ leg' ∈ d.begun.filter (· ≠ leg), leg'.client = c → leg'.success = true :=
      fun leg' hl' ↦ hw d busy leg' (List.mem_filter.mp hl').1
    cases hsucc : leg.success with
    | true =>
      rw [d.settle_of_success f.audience hsucc, proceed, Audience.modify_roster, note_same]
      refine ⟨reliable_modify ?_ leg.client hrel, hj, hl, ?_⟩
      · exact fun _ ↦ rfl
      · intro d' hd'
        cases hd'
        exact hw'
    | false =>
      rw [d.settle_of_failure f.audience hsucc]
      -- Whoever is removed is somebody else.
      have hne : c ≠ leg.client := fun he ↦ by
        rw [hw d busy leg underway he.symm] at hsucc
        cases hsucc
      have hmem : c ∈ (f.audience.roster.leave leg.client).1.members ↔ c ∈ f.members := by
        simp [Roster.leave_members, members, hne]
      refine ⟨hrel, ?_, ?_, ?_⟩
      · change (if c ∈ _ ∧ c ∉ _ then _ else f.joined c) = _
        rw [if_neg fun hc ↦ hc.2 (hmem.mp hc.1), hj]
      · change (if c ∈ _ ∧ c ∉ _ then _ else f.left c) = _
        rw [if_neg fun hc ↦ hc.2 (hmem.mpr hc.1), hl]
      · intro d' hd'
        cases hd'
        exact hw'
  | finish busy allOver => exact ⟨hrel, hj, hl, fun d hd ↦ by cases hd⟩

theorem Steady.run (hs : Steady timeout f c) (h : ReflTransGen (Delivers timeout) f g) :
    Steady timeout g c := by
  induction h with
  | refl => exact hs
  | tail _ hd ih => exact ih.delivers hd

/-- It has received the first of the payloads that were dispatched, and all of them when no dispatch
is in progress. -/
theorem Steady.received (hs : Steady timeout f c) (h : Inv f) :
    ∃ k, f.audience.client? c = some k ∧ k.received <+: f.payloads ∧
      (f.current = none → k.received = f.payloads) := by
  obtain ⟨k, hk, _⟩ := hs.reliable
  obtain ⟨e, he⟩ := h.served hk hs.joined
  have hrec : k.received = f.payloads.take e := he.received
  refine ⟨k, hk, hrec ▸ List.take_prefix e _, ?_⟩
  intro idle
  rw [hrec, List.take_of_length_le]
  rw [payloads, List.length_map, length_dispatches_of_idle idle]
  exact he.past_le hs.left

structure Continues (timeout : Nat) (f g : Fanout) : Prop where
  delivers : Delivers timeout f g
  past : g.past = f.past
  current : g.current.map (·.payload) = f.current.map (·.payload)

theorem Continues.payloads (h : Continues timeout f g) : g.payloads = f.payloads := by
  simp only [Fanout.payloads, dispatches, h.past, List.map_append, ← Option.toList_map, h.current]

theorem continues_run (h : ReflTransGen (Continues timeout) f g) :
    ReflTransGen (Delivers timeout) f g ∧ g.payloads = f.payloads := by
  induction h with
  | refl => exact ⟨.refl, rfl⟩
  | tail _ hc ih => exact ⟨ih.1.tail hc.delivers, hc.payloads.trans ih.2⟩

theorem continues_start (now : Nat) (busy : f.current = some d) (more : d.waiting ≠ []) :
    Continues timeout f (f.start timeout now) where
  delivers := .start f now busy more
  past := by simp [Fanout.start, busy, proceed, note]
  current := by simp [Fanout.start, busy, proceed]

theorem continues_settle {leg : Leg} (busy : f.current = some d) (underway : leg ∈ d.begun) :
    Continues timeout f (f.settle leg) where
  delivers := .settle f leg busy underway
  past := by simp [Fanout.settle, busy, proceed, note]
  current := by simp [Fanout.settle, busy, proceed, Dispatch.settle]

theorem continues_startAll (timeout now : Nat) {f : Fanout} {d : Dispatch}
    (busy : f.current = some d) (n : Nat) (hn : n ≤ d.waiting.length) :
    ∃ g, ReflTransGen (Continues timeout) f g ∧
      g.audience = (Dispatch.startAll f.audience timeout now n d).1 ∧
      g.current = some (Dispatch.startAll f.audience timeout now n d).2 ∧
      (Dispatch.startAll f.audience timeout now n d).2.waiting = d.waiting.drop n := by
  induction n generalizing f d with
  | zero => exact ⟨f, .refl, rfl, busy, rfl⟩
  | succ n ih =>
    have hmore : d.waiting ≠ [] := by
      intro he
      rw [he, List.length_nil] at hn
      omega
    have hstart : f.start timeout now = f.proceed (d.start f.audience timeout now) := by
      simp [Fanout.start, busy]
    have hcur : (f.start timeout now).current = some (d.start f.audience timeout now).2 := by
      rw [hstart]
      rfl
    have hwait := d.start_waiting f.audience timeout now
    obtain ⟨g, hrun, ha, hc, hw⟩ := ih hcur (by rw [hwait, List.length_tail]; omega)
    refine ⟨g, hrun.head (continues_start now busy hmore), ?_, ?_, ?_⟩
    · rw [ha, hstart]
      rfl
    · rw [hc, hstart]
      rfl
    · rw [hstart] at hw
      exact hw.trans (by rw [hwait, List.drop_tail])

/-- A fanout that shows what a relay is at: its audience, and the dispatch in progress, of which all
deliveries were begun. -/
structure Shows (f : Fanout) (r : Relay) : Prop where
  audience : f.audience = r.audience
  current : f.current = r.stage.dispatch?
  begun : ∀ d, f.current = some d → d.waiting = []

variable {r r' : Relay}

theorem Shows.take_begun (h : f.Shows r) (idle : r.stage = .waiting) (ht : r.take? = some r') :
    ∃ payload q g, r.queue.take? = some (payload, q) ∧
      ReflTransGen (Continues r.timeout) (f.begin payload) g ∧ g.Shows r' := by
  obtain ⟨payload, q, hq, hr⟩ := Relay.take?_eq_some ht
  have hcur : f.current = none := by rw [h.current, idle]; rfl
  have hb : (f.begin payload).current = some (Dispatch.begin r.audience payload) := by
    rw [Fanout.begin, h.audience]
  have hlen : (Dispatch.begin r.audience payload).waiting.length =
      r.audience.roster.members.length := rfl
  obtain ⟨g, hrun, ha, hc, hw⟩ := continues_startAll r.timeout r.now hb _ (Nat.le_refl _)
  have hfa : (f.begin payload).audience = r.audience := h.audience
  rw [hfa, hlen] at ha hc hw
  refine ⟨payload, q, g, hq, hrun, ?_, ?_, ?_⟩
  · rw [ha, hr]
  · rw [hc, hr]
    rfl
  · intro d hd
    rw [hc] at hd
    cases hd
    rw [hw, ← hlen, List.drop_length]

theorem Shows.take (h : f.Shows r) (idle : r.stage = .waiting) (ht : r.take? = some r') :
    ∃ g payload, ReflTransGen (Delivers r.timeout) f g ∧ g.Shows r' ∧
      g.payloads = f.payloads ++ [payload] ∧ r.queue.payloads = payload :: r'.queue.payloads := by
  have hcur : f.current = none := by rw [h.current, idle]; rfl
  obtain ⟨payload, q, g, hq, hrun, hg⟩ := h.take_begun idle ht
  obtain ⟨hdelivers, hpay⟩ := continues_run hrun
  refine ⟨g, payload, hdelivers.head (.begin f payload hcur), hg, ?_, ?_⟩
  · rw [hpay]
    rw [payloads, dispatches_begin payload hcur, List.map_append]
    rfl
  · obtain ⟨payload', q', hq', hr⟩ := Relay.take?_eq_some ht
    cases hq.symm.trans hq'
    obtain ⟨ws, hws, rfl⟩ := Queue.take?_eq_some.mp hq
    rw [hws, hr]
    congr 1
    dsimp only
    unfold Relay.promisePlace
    split <;> rfl

theorem Shows.settle (h : f.Shows r) (busy : r.stage = .busy d) (leg : Leg) :
    (f.settle leg).Shows (r.endLeg d leg) := by
  have hcur : f.current = some d := by rw [h.current, busy]; rfl
  have hw := h.begun d hcur
  simp only [Fanout.settle, hcur, Relay.endLeg, ← h.audience]
  refine ⟨rfl, rfl, ?_⟩
  intro d' hd'
  cases hd'
  exact hw

theorem Shows.endLeg (h : f.Shows r) (busy : r.stage = .busy d) {leg : Leg} (hl : leg ∈ d.begun) :
    ∃ g, Delivers r.timeout f g ∧ g.Shows (r.endLeg d leg) ∧ g.payloads = f.payloads := by
  have hcur : f.current = some d := by rw [h.current, busy]; rfl
  have hc : Continues r.timeout f (f.settle leg) := continues_settle hcur hl
  exact ⟨f.settle leg, hc.delivers, h.settle busy leg, hc.payloads⟩

theorem Shows.finish (h : f.Shows r) : f.finish.Shows r.complete :=
  ⟨h.audience, rfl, fun d' hd' ↦ by cases hd'⟩

theorem Shows.complete (h : f.Shows r) (busy : r.stage = .busy d) (allOver : d.isOver = true) :
    ∃ g, Delivers r.timeout f g ∧ g.Shows r.complete ∧ g.payloads = f.payloads := by
  have hcur : f.current = some d := by rw [h.current, busy]; rfl
  refine ⟨f.finish, .finish f hcur allOver, h.finish, ?_⟩
  rw [payloads, f.dispatches_finish, payloads]

end Fanout

end ChangeRelay
