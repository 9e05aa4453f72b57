import ChangeRelay.Proofs.Broadcast.Ledger

namespace ChangeRelay

inductive Roster.Reply where
  | joined (c : ClientNumber) (success : Bool)
  | left (c : ClientNumber) (success : Bool)
  | cleared (cs : List ClientNumber)
  | retired (cs : List ClientNumber)
  | listed (cs : List ClientNumber)

/-- Where a call is: what it does next, or what it has come to. -/
inductive Roster.Task where
  | enroll
  | check (c : ClientNumber)
  | enter (c : ClientNumber)
  | remove (c : ClientNumber)
  | drain
  | sealAndDrain
  | list
  | fire (reply : Roster.Reply) (cs : List ClientNumber)
  | done (reply : Roster.Reply)

namespace Roster

namespace Reply

def letIn : Reply → List ClientNumber
  | joined c true => [c]
  | _ => []

def refused : Reply → List ClientNumber
  | joined c false => [c]
  | _ => []

def taken : Reply → List ClientNumber
  | left c true => [c]
  | cleared cs | retired cs => cs
  | _ => []

def seals : Reply → Bool
  | retired _ => true
  | _ => false

end Reply

namespace Task

/-- One step of a call, up to where others may come between. -/
def act (r : Roster) : Task → Roster × Task
  | enroll => (r.create.1, check r.create.2)
  | check c => (r, if r.isDismissed c then done (.joined c false) else enter c)
  | enter c => ((r.enter c).1, done (.joined c (r.enter c).2))
  | remove c =>
    ((r.remove c).1, if (r.remove c).2 then fire (.left c true) [c] else done (.left c false))
  | drain => (r.drain.1, fire (.cleared r.drain.2) r.drain.2)
  | sealAndDrain => (r.sealAndDrain.1, fire (.retired r.sealAndDrain.2) r.sealAndDrain.2)
  | list => (r, done (.listed r.members))
  | fire a (c :: cs) => (r.dismiss c, fire a cs)
  | fire a [] => (r, done a)
  | done a => (r, done a)

def pending : Task → List ClientNumber
  | check c | enter c => [c]
  | _ => []

def letIn : Task → List ClientNumber
  | fire a _ | done a => a.letIn
  | _ => []

def refused : Task → List ClientNumber
  | fire a _ | done a => a.refused
  | _ => []

def asked (t : Task) : List ClientNumber := t.pending ++ t.letIn ++ t.refused

def taken : Task → List ClientNumber
  | fire a _ | done a => a.taken
  | _ => []

def unfired : Task → List ClientNumber
  | fire _ cs => cs
  | _ => []

def seals : Task → Bool
  | fire a _ | done a => a.seals
  | _ => false

def IsDone (t : Task) : Prop := ∃ a, t = done a

def Begins (r : Roster) : Task → Prop
  | enroll | remove _ | drain | sealAndDrain | list => True
  | check c => 0 < c ∧ c ≤ r.created
  | _ => False

end Task

/-- A call that nobody comes between. -/
inductive Alone : Roster → Task → Roster → Task → Prop
  | refl (r : Roster) (t : Task) : Alone r t r t
  | head {r r' : Roster} {t t' : Task} (rest : Alone (t.act r).1 (t.act r).2 r' t') :
      Alone r t r' t'

theorem alone_fire (r : Roster) (a : Reply) (cs : List ClientNumber) :
    Alone r (.fire a cs) (r.dismissAll cs) (.done a) := by
  induction cs generalizing r with
  | nil => exact .head (.refl r (.done a))
  | cons c cs ih => exact .head (ih (r.dismiss c))

theorem alone_check (r : Roster) (c : ClientNumber) :
    Alone r (.check c) (r.join c).1 (.done (.joined c (r.join c).2)) := by
  apply Alone.head
  by_cases hd : r.isDismissed c = true
  · have hj : r.join c = (r, false) := if_pos hd
    rw [hj, Task.act, if_pos hd]
    exact .refl r _
  · have hj : r.join c = r.enter c := if_neg hd
    rw [hj, Task.act, if_neg hd]
    exact .head (.refl _ _)

theorem alone_remove (r : Roster) (c : ClientNumber) :
    Alone r (.remove c) (r.leave c).1 (.done (.left c (r.leave c).2)) := by
  apply Alone.head
  by_cases hc : c ∈ r.members
  · rw [leave_eq, if_pos hc, Task.act]
    have hr : (r.remove c).2 = true := by simp [remove, hc]
    rw [hr]
    exact alone_fire _ _ [c]
  · have hr : r.remove c = (r, false) := by simp [remove, hc]
    rw [leave_eq, if_neg hc, Task.act, hr]
    exact .refl r _

namespace Task

variable (r : Roster) (t : Task)

theorem act_nodup (h : r.members.Nodup) : (t.act r).1.members.Nodup := by
  cases t with
  | enter c => exact r.nodup_members_enter c h
  | remove c =>
    simp only [act, remove_members]
    exact h.filter _
  | drain | sealAndDrain => exact List.nodup_nil
  | fire a cs =>
    cases cs with
    | nil => exact h
    | cons c cs => simpa [act] using h
  | enroll | check | list | done => exact h

theorem act_balance (h : r.members.Nodup) (d : ClientNumber) :
    (t.act r).2.letIn.count d + r.members.count d + t.taken.count d =
      t.letIn.count d + (t.act r).1.members.count d + (t.act r).2.taken.count d := by
  cases t with
  | enroll | list | done => rfl
  | check c =>
    simp only [act]
    split <;> rfl
  | enter c =>
    simp only [act]
    rcases r.enter_cases c with ⟨_, he⟩ | ⟨_, _, he⟩ | ⟨_, _, he⟩
    · simp [he, letIn, taken, Reply.letIn, Reply.taken]
    · simp [he, letIn, taken, Reply.letIn, Reply.taken]
    · have hp := (perm_place c r.members).count_eq d
      rw [List.count_cons] at hp
      rw [he]
      simp only [letIn, taken, Reply.letIn, Reply.taken, List.count_nil, List.count_singleton, hp]
      omega
  | remove c =>
    simp only [act]
    by_cases hc : c ∈ r.members
    · have hr : r.remove c = ({ r with members := r.members.filter (· ≠ c) }, true) := by
        simp [Roster.remove, hc]
      have hp := (perm_cons_filter_ne h hc).count_eq d
      rw [List.count_cons] at hp
      rw [hr]
      simp only [letIn, taken, Reply.letIn, Reply.taken, List.count_nil, if_true,
        List.count_singleton, hp]
      omega
    · have hr : r.remove c = (r, false) := by simp [Roster.remove, hc]
      simp [hr, letIn, taken, Reply.letIn, Reply.taken]
  | drain => simp [act, Roster.drain, letIn, taken, Reply.letIn, Reply.taken]
  | sealAndDrain => simp [act, Roster.sealAndDrain, letIn, taken, Reply.letIn, Reply.taken]
  | fire a cs =>
    cases cs with
    | nil => rfl
    | cons c cs => simp [act, letIn, taken]

theorem act_asked : t.asked.Sublist (t.act r).2.asked := by
  cases t with
  | enroll => exact List.nil_sublist _
  | check c =>
    simp only [act]
    split <;> exact .refl _
  | enter c =>
    simp only [act]
    cases (r.enter c).2 <;> exact .refl _
  | remove c => exact List.nil_sublist _
  | drain | sealAndDrain | list => exact List.nil_sublist _
  | fire a cs => cases cs <;> exact .refl _
  | done a => exact .refl _

theorem act_taken {c : ClientNumber} (h : c ∈ t.taken) : c ∈ (t.act r).2.taken := by
  cases t with
  | fire a cs => cases cs <;> exact h
  | done a => exact h
  | enroll | check | enter | remove | drain | sealAndDrain | list => cases h

theorem act_turned {c : ClientNumber} (h : c ∈ t.refused) : c ∈ (t.act r).2.refused := by
  cases t with
  | fire a cs => cases cs <;> exact h
  | done a => exact h
  | enroll | check | enter | remove | drain | sealAndDrain | list => cases h

theorem act_fired : ∀ c ∈ (t.act r).1.dismissed,
    c ∈ r.dismissed ∨ c ∈ t.unfired ∨ c ∈ (t.act r).2.refused := by
  intro d hd
  cases t with
  | enter c =>
    simp only [act] at hd ⊢
    rcases r.enter_cases c with ⟨_, he⟩ | ⟨_, _, he⟩ | ⟨_, _, he⟩
    · rw [he] at hd ⊢
      rcases (mem_dismissed_dismiss r c d).mp hd with rfl | hd
      · exact .inr (.inr (List.mem_singleton_self _))
      · exact .inl hd
    · rw [he] at hd
      exact .inl hd
    · rw [he] at hd
      exact .inl hd
  | remove c => exact .inl (by simpa [act] using hd)
  | fire a cs =>
    cases cs with
    | nil => exact .inl hd
    | cons c cs =>
      rcases (mem_dismissed_dismiss r c d).mp hd with rfl | hd
      · exact .inr (.inl List.mem_cons_self)
      · exact .inl hd
  | enroll | check | drain | sealAndDrain | list | done => exact .inl hd

/-- Why someone is refused: the token was fired, or the client is in already. -/
theorem act_refused : ∀ c ∈ (t.act r).2.refused,
    c ∈ t.refused ∨ c ∈ (t.act r).1.dismissed ∨ c ∈ t.pending ∧ c ∈ r.members := by
  intro d hd
  cases t with
  | check c =>
    simp only [act] at hd ⊢
    split at hd
    · rename_i hc
      obtain rfl : d = c := List.mem_singleton.mp hd
      exact .inr (.inl ((isDismissed_iff r d).mp hc))
    · cases hd
  | enter c =>
    simp only [act] at hd ⊢
    rcases r.enter_cases c with ⟨_, he⟩ | ⟨_, hm, he⟩ | ⟨_, _, he⟩
    · rw [he] at hd ⊢
      obtain rfl : d = c := List.mem_singleton.mp hd
      exact .inr (.inl ((mem_dismissed_dismiss r d d).mpr (.inl rfl)))
    · rw [he] at hd
      obtain rfl : d = c := List.mem_singleton.mp hd
      exact .inr (.inr ⟨List.mem_singleton_self _, hm⟩)
    · rw [he] at hd
      cases hd
  | remove c =>
    simp only [act] at hd
    split at hd <;> cases hd
  | fire a cs => cases cs <;> exact .inl hd
  | done a => exact .inl hd
  | enroll | drain | sealAndDrain | list => cases hd

end Task

structure Later (r r' : Roster) : Prop where
  dismissed : r.dismissed ⊆ r'.dismissed
  isSealed : r.sealed = true → r'.sealed = true

theorem Later.refl (r : Roster) : Later r r := ⟨fun _ h ↦ h, id⟩

namespace Task

variable (r : Roster) (t : Task)

theorem act_later : Later r (t.act r).1 := by
  have hdismiss (c : ClientNumber) : Later r (r.dismiss c) :=
    ⟨fun d hd ↦ (mem_dismissed_dismiss r c d).mpr (.inr hd), by simp⟩
  cases t with
  | enter c =>
    simp only [act]
    rcases r.enter_cases c with ⟨_, he⟩ | ⟨_, _, he⟩ | ⟨_, _, he⟩
    · rw [he]
      exact hdismiss c
    · rw [he]
      exact .refl r
    · rw [he]
      exact ⟨fun _ h ↦ h, id⟩
  | remove c => exact ⟨by simp [act], by simp [act]⟩
  | sealAndDrain => exact ⟨fun _ h ↦ h, fun _ ↦ rfl⟩
  | fire a cs =>
    cases cs with
    | nil => exact .refl r
    | cons c cs => exact hdismiss c
  | enroll | check | drain | list | done => exact ⟨fun _ h ↦ h, id⟩

theorem act_emptied (h : r.sealed = true → r.members = []) (hs : (t.act r).1.sealed = true) :
    (t.act r).1.members = [] := by
  cases t with
  | enter c =>
    simp only [act] at hs ⊢
    rcases r.enter_cases c with ⟨ht, he⟩ | ⟨hf, _, he⟩ | ⟨hf, _, he⟩
    · rw [he, dismiss_members]
      exact h ht
    · rw [he] at hs ⊢
      exact h hs
    · rw [he, hf] at hs
      cases hs
  | remove c =>
    simp only [act, remove_sealed, remove_members] at hs ⊢
    simp [h hs]
  | drain | sealAndDrain => rfl
  | fire a cs =>
    cases cs with
    | nil => exact h hs
    | cons c cs =>
      simp only [act, dismiss_sealed, dismiss_members] at hs ⊢
      exact h hs
  | enroll | check | list | done => exact h hs

structure Sane : Prop where
  own : ∀ c ∈ t.unfired, c ∈ t.taken
  fired : ∀ c ∈ t.taken, c ∈ r.dismissed ∨ c ∈ t.unfired
  seals : t.seals = true → r.sealed = true

variable {r t}

theorem Sane.later {r' : Roster} (h : t.Sane r) (hl : Later r r') : t.Sane r' where
  own := h.own
  fired c hc := (h.fired c hc).imp_left fun hd ↦ hl.dismissed hd
  seals hs := hl.isSealed (h.seals hs)

theorem Begins.sane (h : t.Begins r) : t.Sane r := by
  cases t with
  | fire | done => cases h
  | enroll | check | enter | remove | drain | sealAndDrain | list => exact ⟨nofun, nofun, nofun⟩

theorem Sane.act (h : t.Sane r) : (t.act r).2.Sane (t.act r).1 := by
  cases t with
  | enroll => exact ⟨nofun, nofun, nofun⟩
  | check c =>
    simp only [Task.act]
    split <;> exact ⟨nofun, nofun, nofun⟩
  | enter c => exact ⟨nofun, nofun, nofun⟩
  | remove c =>
    simp only [Task.act]
    split
    · exact ⟨fun _ hc ↦ hc, fun _ hc ↦ .inr hc, nofun⟩
    · exact ⟨nofun, nofun, nofun⟩
  | drain => exact ⟨fun _ hc ↦ hc, fun _ hc ↦ .inr hc, nofun⟩
  | sealAndDrain => exact ⟨fun _ hc ↦ hc, fun _ hc ↦ .inr hc, fun _ ↦ rfl⟩
  | list => exact ⟨nofun, nofun, nofun⟩
  | fire a cs =>
    cases cs with
    | nil => exact ⟨nofun, h.fired, h.seals⟩
    | cons c cs =>
      refine ⟨fun d hd ↦ h.own d (List.mem_cons_of_mem c hd), ?_, ?_⟩
      · intro d hd
        rcases h.fired d hd with hf | hu
        · exact .inl ((mem_dismissed_dismiss r c d).mpr (.inr hf))
        · rcases List.mem_cons.mp hu with rfl | hu
          · exact .inl ((mem_dismissed_dismiss r d d).mpr (.inl rfl))
          · exact .inr hu
      · intro hs
        simpa [Task.act] using h.seals hs
  | done a => exact h

end Task

end Roster

end ChangeRelay
