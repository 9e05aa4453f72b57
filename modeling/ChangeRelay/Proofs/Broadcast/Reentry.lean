import ChangeRelay.Proofs.Broadcast.Custody

namespace ChangeRelay

open Relation (ReflTransGen)

namespace Roster.Task

variable (r : Roster) (t : Task)

theorem act_dismissed {c : ClientNumber} (h : c ∈ (t.act r).1.dismissed) :
    c ∈ r.dismissed ∨ c ∈ t.unfired ∨ (t.act r).1.sealed = true := by
  cases t with
  | enter d =>
    simp only [act] at h ⊢
    rcases r.enter_cases d with ⟨hs, he⟩ | ⟨_, _, he⟩ | ⟨_, _, he⟩
    · rw [he, dismiss_sealed]
      exact .inr (.inr hs)
    · rw [he] at h
      exact .inl h
    · rw [he] at h
      exact .inl h
  | remove d => exact .inl (by simpa [act] using h)
  | fire a cs =>
    cases cs with
    | nil => exact .inl h
    | cons d cs =>
      rcases (mem_dismissed_dismiss r d c).mp h with rfl | h
      · exact .inr (.inl List.mem_cons_self)
      · exact .inl h
  | enroll | check | drain | sealAndDrain | list | done => exact .inl h

theorem act_members {c : ClientNumber} (h : c ∈ (t.act r).1.members) :
    c ∈ r.members ∨ t = .enter c := by
  cases t with
  | enter d =>
    simp only [act] at h
    rcases r.enter_cases d with ⟨_, he⟩ | ⟨_, _, he⟩ | ⟨_, _, he⟩
    · rw [he, dismiss_members] at h
      exact .inl h
    · rw [he] at h
      exact .inl h
    · rw [he] at h
      rcases List.mem_cons.mp ((perm_place d r.members).mem_iff.mp h) with rfl | h
      · exact .inr rfl
      · exact .inl h
  | remove d =>
    simp only [act, remove_members] at h
    exact .inl (List.mem_filter.mp h).1
  | drain | sealAndDrain => cases h
  | fire a cs =>
    cases cs with
    | nil => exact .inl h
    | cons d cs => exact .inl (by simpa [act] using h)
  | enroll | check | list | done => exact .inl h

theorem unfired_of_act_eq_enter {c : ClientNumber} (h : (t.act r).2 = .enter c) :
    c ∉ r.dismissed := by
  cases t with
  | check d =>
    simp only [act] at h
    split at h
    · cases h
    · rename_i hd
      cases h
      exact fun hc ↦ hd ((isDismissed_iff r c).mpr hc)
  | remove d =>
    simp only [act] at h
    split at h <;> cases h
  | fire a cs => cases cs <;> cases h
  | enroll | enter | drain | sealAndDrain | list | done => cases h

end Roster.Task

open Roster (Task)

namespace Custody

variable {x y : Custody} {c : ClientNumber}

theorem Reachable.fired (h : Reachable x) :
    ∀ c ∈ x.roster.dismissed, c ∈ x.taken ∨ x.roster.sealed = true := by
  induction h with
  | refl => exact nofun
  | tail hr hs ih =>
    cases hs with
    | create => exact ih
    | begin _ t ht =>
      intro c hc
      refine (ih c hc).imp_left fun hk ↦ ?_
      simp only [taken, List.flatMap_append, List.mem_append]
      exact .inl hk
    | act r before after t =>
      intro c hc
      have hsane : t.Sane r := (Reachable.inv hr).sane t (by simp)
      have hkept (hk : c ∈ taken ⟨r, before ++ t :: after⟩) :
          c ∈ taken ⟨(t.act r).1, before ++ (t.act r).2 :: after⟩ :=
        (mem_split _ _ _ _ c).mpr (((mem_split _ _ _ _ c).mp hk).imp_left (t.act_taken r))
      rcases t.act_dismissed r hc with hd | hu | hs
      · exact (ih c hd).imp hkept (t.act_later r).isSealed
      · exact .inl (hkept ((mem_split _ _ _ _ c).mpr (.inl (hsane.own c hu))))
      · exact .inr hs

/-- Out, its token fired, and no call is between its look at the token and its turn. -/
structure Gone (c : ClientNumber) (x : Custody) : Prop where
  fired : c ∈ x.roster.dismissed
  out : c ∉ x.roster.members
  unasked : .enter c ∉ x.tasks

theorem Gone.step (h : Gone c x) (hs : Step x y) : Gone c y := by
  cases hs with
  | create => exact ⟨h.fired, h.out, h.unasked⟩
  | begin _ t ht =>
    refine ⟨h.fired, h.out, fun hin ↦ ?_⟩
    rcases List.mem_append.mp hin with hin | hin
    · exact h.unasked hin
    · cases List.mem_singleton.mp hin
      exact ht
  | act r before after t =>
    -- the one who acts did not wait to let the client in, and a look at the token finds it fired
    have hne : t ≠ .enter c := by
      rintro rfl
      exact h.unasked (by simp)
    refine ⟨(t.act_later r).dismissed h.fired, ?_, ?_⟩
    · exact fun hm ↦ (t.act_members r hm).elim h.out hne
    · intro hin
      have hin : (t.act r).2 = .enter c ∨ .enter c ∈ before ++ t :: after := by
        simp only [List.mem_append, List.mem_cons] at hin ⊢
        tauto
      exact hin.elim (fun he ↦ t.unfired_of_act_eq_enter r he h.fired) h.unasked

theorem Gone.run (h : Gone c x) (hr : ReflTransGen Step x y) : Gone c y := by
  induction hr with
  | refl => exact h
  | tail _ hs ih => exact ih.step hs

theorem Step.isSealed (h : Step x y) (hs : x.roster.sealed = true) : y.roster.sealed = true := by
  cases h with
  | create | begin => exact hs
  | act r before after t => exact (t.act_later r).isSealed hs

end Custody

end ChangeRelay
