import ChangeRelay.Broadcast.Clock
import Mathlib.Logic.Relation

namespace ChangeRelay

namespace Queue

/-- One use of the queue: a payload comes to a place that is free or was promised to it, a place is
promised, a payload is taken out, or the queue is closed. -/
inductive Use : Queue → Queue → Prop
  | offer {q q' : Queue} {payload : String} (taken : q.offer payload = .accepted q') : Use q q'
  | fulfil (q : Queue) (payload : String) (stillOpen : q.isOpen = true) : Use q (q.fulfil payload)
  | promise (q : Queue) : Use q q.promise
  | take {q q' : Queue} {payload : String} (taken : q.take? = some (payload, q')) : Use q q'
  | close (q : Queue) : Use q q.close

/-- Any number of uses by somebody who makes only those that are allowed. -/
def Uses (allowed : Queue → Queue → Prop) : Queue → Queue → Prop :=
  Relation.ReflTransGen fun q q' ↦ Use q q' ∧ allowed q q'

def anything (_ _ : Queue) : Prop := True

theorem Use.uses {q q' : Queue} (h : Use q q') : Uses anything q q' := .single ⟨h, trivial⟩

theorem hasRoom_iff {q : Queue} :
    q.hasRoom = true ↔ q.payloads.length + q.promised < q.capacity := by simp [hasRoom]

theorem hasRoom_eq_false {q : Queue} :
    q.hasRoom = false ↔ q.capacity ≤ q.payloads.length + q.promised := by simp [hasRoom]

theorem offer_eq_accepted {q q' : Queue} {payload : String} :
    q.offer payload = .accepted q' ↔
      q.isOpen = true ∧ q.hasRoom = true ∧ q' = { q with payloads := q.payloads ++ [payload] } := by
  unfold offer
  cases q.isOpen <;> cases q.hasRoom <;> simp [eq_comm]

theorem offer_eq_closed {q : Queue} {payload : String} :
    q.offer payload = .closed ↔ q.isOpen = false := by
  unfold offer
  cases q.isOpen <;> cases q.hasRoom <;> simp

theorem take?_eq_some {q q' : Queue} {payload : String} :
    q.take? = some (payload, q') ↔
      ∃ ws, q.payloads = payload :: ws ∧ q' = { q with payloads := ws } := by
  unfold take?
  cases q.payloads with
  | nil => simp
  | cons w ws =>
    constructor
    · intro h
      cases h
      exact ⟨ws, rfl, rfl⟩
    · rintro ⟨ws', h, rfl⟩
      cases h
      rfl

theorem Use.isOpen_eq_false {q q' : Queue} (h : Use q q') (hq : q.isOpen = false) :
    q'.isOpen = false := by
  cases h with
  | offer taken => rw [(offer_eq_accepted.mp taken).1] at hq; cases hq
  | fulfil => exact hq
  | promise => exact hq
  | take taken =>
    obtain ⟨ws, _, rfl⟩ := take?_eq_some.mp taken
    exact hq
  | close => rfl

theorem Uses.isOpen_eq_false {allowed : Queue → Queue → Prop} {q q' : Queue}
    (h : Uses allowed q q') (hq : q.isOpen = false) : q'.isOpen = false := by
  induction h with
  | refl => exact hq
  | tail _ hu ih => exact hu.1.isOpen_eq_false ih

end Queue

namespace Relay

open Queue (Use Uses anything)

variable (r : Relay)

@[simp] theorem wake_queue : r.wake.queue = r.queue := by
  unfold wake
  split <;> rfl

@[simp] theorem notify_queue : r.notify.queue = r.queue := by
  unfold notify
  split <;> simp

@[simp] theorem leave_queue : r.leave.queue = r.queue := by
  unfold leave
  dsimp only
  split
  · exact r.pass.notify_queue
  · rfl

@[simp] theorem put_queue (q : Queue) (ws : List String) : (r.put q ws).queue = q := by simp [put]

theorem send_of_accepted {r r' : Relay} {payload : String} {q : Queue}
    (h : r.send payload = (r', .accepted q)) :
    r.queue.offer payload = .accepted q ∧ r' = notify { r with queue := q } := by
  unfold send at h
  cases ho : r.queue.offer payload <;> rw [ho] at h <;> cases h
  exact ⟨rfl, rfl⟩

theorem send_of_closed {r r' : Relay} {payload : String} (h : r.send payload = (r', .closed)) :
    r.queue.offer payload = .closed := by
  unfold send at h
  cases ho : r.queue.offer payload with
  | accepted q => rw [ho] at h; cases h
  | full => rw [ho] at h; cases h
  | closed => rfl

theorem promisePlace_uses : Uses anything r.queue r.promisePlace.queue := by
  unfold promisePlace
  split
  · exact .refl
  · exact (Use.promise r.queue).uses

theorem take?_eq_some {r r' : Relay} (h : r.take? = some r') :
    ∃ payload q, r.queue.take? = some (payload, q) ∧
      let begun := Dispatch.startAll r.audience r.timeout r.now r.audience.roster.members.length
        (Dispatch.begin r.audience payload)
      r' = { promisePlace { r with queue := q, patience := r.patience - 2 } with
        audience := begun.1
        stage := .busy begun.2 } := by
  unfold take? at h
  cases hq : r.queue.take? with
  | none => simp [hq] at h
  | some t =>
    obtain ⟨payload, q⟩ := t
    refine ⟨payload, q, rfl, ?_⟩
    simp only [hq, Option.bind_eq_bind, Option.bind_some, Option.pure_def, Option.some.injEq] at h
    rw [← h]
    unfold promisePlace
    split <;> rfl

theorem take?_uses {r r' : Relay} (h : r.take? = some r') : Uses anything r.queue r'.queue := by
  obtain ⟨payload, q, hq, hr⟩ := take?_eq_some h
  have hp := promisePlace_uses { r with queue := q, patience := r.patience - 2 }
  have hr' := congrArg Relay.queue hr
  rw [hr']
  exact (Use.take hq).uses.trans hp

theorem produce_uses (p : Producer) : Uses anything r.queue (r.produce p).queue := by
  unfold produce
  split
  · rw [leave_queue]
    exact .refl
  · rename_i w ws _
    split
    · rw [leave_queue]
      exact .refl
    · rename_i hopen
      split
      · rw [put_queue]
        exact (Use.fulfil _ w (by simpa using hopen)).uses
      · split
        · exact .refl
        · split
          · rename_i q hq
            rw [put_queue]
            exact (Use.offer hq).uses
          · exact .refl
          · exact .refl

theorem work_uses : Uses anything r.queue r.work.queue := by
  unfold work
  split
  · exact .refl
  · exact .refl
  · split
    · exact .refl
    · split
      · exact (Use.close _).uses
      · split
        · rename_i r' h
          exact take?_uses h
        · split
          · exact (Use.close _).uses
          · exact .refl
  · split
    · exact .refl
    · split <;> exact .refl

theorem step?_uses {r r' : Relay} (h : r.step? = some r') : Uses anything r.queue r'.queue := by
  unfold step? at h
  split at h
  · cases h
  · cases h
    exact r.work_uses
  · cases h
    exact r.produce_uses _

theorem advanceSteps_uses (done : Relay → Bool) (limit n : Nat) :
    Uses anything r.queue (advanceSteps done limit n r).queue := by
  induction n generalizing r with
  | zero => exact .refl
  | succ n ih =>
    rw [advanceSteps]
    split
    · rename_i r' h
      exact (step?_uses h).trans (ih r')
    · split
      · exact .refl
      · split
        · split
          · rename_i t _ _
            have h := ih (wake { r with now := max r.now t })
            rwa [wake_queue] at h
          · exact .refl
        · exact .refl

theorem advanceUntil_uses (done : Relay → Bool) (limit : Nat) :
    Uses anything r.queue (r.advanceUntil done limit).queue :=
  r.advanceSteps_uses done limit _

theorem advance_uses (limit : Nat) : Uses anything r.queue (r.advance limit).queue :=
  r.advanceUntil_uses _ limit

end Relay

end ChangeRelay
