import ChangeRelay.Broadcast.Roster
import Mathlib.Data.List.Nodup

namespace ChangeRelay

theorem perm_cons_filter_ne {α : Type} [DecidableEq α] {l : List α} {a : α} (h : l.Nodup)
    (ha : a ∈ l) : l.Perm (a :: l.filter (· ≠ a)) := by
  have hf : l.filter (· ≠ a) = l.erase a := by
    rw [h.erase_eq_filter]
    exact List.filter_congr fun x _ ↦ by by_cases hx : x = a <;> simp [hx]
  exact hf ▸ List.perm_cons_erase ha

namespace Roster

variable (r : Roster) (c d : ClientNumber)

@[simp] theorem contains_iff : r.contains c = true ↔ c ∈ r.members := by simp [contains]

@[simp] theorem isDismissed_iff : r.isDismissed c = true ↔ c ∈ r.dismissed := by simp [isDismissed]

theorem perm_place (l : List ClientNumber) : (place c l).Perm (c :: l) := by
  induction l with
  | nil => exact .refl _
  | cons b l ih =>
    rw [place]
    split
    · exact .refl _
    · exact (ih.cons b).trans (.swap c b l)

@[simp] theorem mem_place (l : List ClientNumber) : d ∈ place c l ↔ d = c ∨ d ∈ l := by
  rw [(perm_place c l).mem_iff, List.mem_cons]

theorem nodup_place {l : List ClientNumber} (hc : c ∉ l) (h : l.Nodup) : (place c l).Nodup :=
  (perm_place c l).nodup_iff.mpr (List.nodup_cons.mpr ⟨hc, h⟩)

theorem pairwise_place {l : List ClientNumber} (hc : c ∉ l) (h : l.Pairwise (· < ·)) :
    (place c l).Pairwise (· < ·) := by
  induction l with
  | nil => simp [place]
  | cons b l ih =>
    obtain ⟨hb, hl⟩ := List.pairwise_cons.mp h
    rw [place]
    split
    · rename_i hlt
      refine List.pairwise_cons.mpr ⟨?_, h⟩
      intro d hd
      rcases List.mem_cons.mp hd with rfl | hd
      · exact hlt
      · exact Nat.lt_trans hlt (hb d hd)
    · rename_i hlt
      refine List.pairwise_cons.mpr ⟨?_, ih (fun hm ↦ hc (List.mem_cons_of_mem b hm)) hl⟩
      intro d hd
      rcases (mem_place c d l).mp hd with rfl | hd
      · have hne : b ≠ d := fun he ↦ hc (he ▸ List.mem_cons_self)
        exact Nat.lt_of_le_of_ne (Nat.not_lt.mp hlt) hne
      · exact hb d hd

@[simp] theorem dismiss_members : (r.dismiss c).members = r.members := by
  unfold dismiss; split <;> rfl

@[simp] theorem dismiss_sealed : (r.dismiss c).sealed = r.sealed := by
  unfold dismiss; split <;> rfl

@[simp] theorem mem_dismissed_dismiss : d ∈ (r.dismiss c).dismissed ↔ d = c ∨ d ∈ r.dismissed := by
  unfold dismiss
  split
  · rename_i h
    rw [isDismissed_iff] at h
    exact ⟨.inr, fun hd ↦ hd.elim (fun he ↦ he ▸ h) id⟩
  · simp

@[simp] theorem dismiss_created : (r.dismiss c).created = r.created := by
  unfold dismiss; split <;> rfl

@[simp] theorem dismissAll_members (cs : List ClientNumber) :
    (r.dismissAll cs).members = r.members := by
  induction cs generalizing r with
  | nil => rfl
  | cons c cs ih => exact (ih (r.dismiss c)).trans (r.dismiss_members c)

@[simp] theorem dismissAll_sealed (cs : List ClientNumber) :
    (r.dismissAll cs).sealed = r.sealed := by
  induction cs generalizing r with
  | nil => rfl
  | cons c cs ih => exact (ih (r.dismiss c)).trans (r.dismiss_sealed c)

@[simp] theorem dismissAll_created (cs : List ClientNumber) :
    (r.dismissAll cs).created = r.created := by
  induction cs generalizing r with
  | nil => rfl
  | cons c cs ih => exact (ih (r.dismiss c)).trans (r.dismiss_created c)

@[simp] theorem mem_dismissed_dismissAll (cs : List ClientNumber) :
    d ∈ (r.dismissAll cs).dismissed ↔ d ∈ cs ∨ d ∈ r.dismissed := by
  induction cs generalizing r with
  | nil => simp [dismissAll]
  | cons c cs ih =>
    rw [dismissAll, List.foldl_cons, ← dismissAll, ih, mem_dismissed_dismiss, List.mem_cons]
    tauto

theorem remove_members : (r.remove c).1.members = r.members.filter (· ≠ c) := by
  unfold remove
  split
  · rfl
  · rename_i h
    rw [contains_iff] at h
    refine (List.filter_eq_self.mpr ?_).symm
    intro d hd
    simp only [ne_eq, decide_not, Bool.not_eq_true', decide_eq_false_iff_not]
    exact fun he ↦ h (he ▸ hd)

@[simp] theorem remove_dismissed : (r.remove c).1.dismissed = r.dismissed := by
  unfold remove; split <;> rfl

@[simp] theorem remove_sealed : (r.remove c).1.sealed = r.sealed := by
  unfold remove; split <;> rfl

theorem leave_eq :
    r.leave c = if c ∈ r.members then ((r.remove c).1.dismiss c, true) else (r, false) := by
  by_cases h : c ∈ r.members <;> simp [leave, remove, h]

theorem leave_members : (r.leave c).1.members = r.members.filter (· ≠ c) := by
  rw [← remove_members, leave_eq]
  split
  · simp
  · rename_i h
    simp [remove, h]

@[simp] theorem leave_sealed : (r.leave c).1.sealed = r.sealed := by
  rw [leave_eq]; split <;> simp

theorem mem_dismissed_leave :
    d ∈ (r.leave c).1.dismissed ↔ d ∈ r.dismissed ∨ (d = c ∧ c ∈ r.members) := by
  rw [leave_eq]
  split
  · rename_i h
    simp only [mem_dismissed_dismiss, remove_dismissed, h, and_true]
    exact or_comm
  · rename_i h
    simp [h]

theorem mem_members_enter :
    d ∈ (r.enter c).1.members ↔ d ∈ r.members ∨ (d = c ∧ r.sealed = false) := by
  unfold enter
  split
  · rename_i h
    simp [h]
  · rename_i hs
    split
    · rename_i h
      rw [contains_iff] at h
      refine ⟨.inl, fun hd ↦ hd.elim id fun he ↦ he.1 ▸ h⟩
    · rw [mem_place]
      simp only [hs, and_true]
      exact or_comm

theorem nodup_members_enter (h : r.members.Nodup) : (r.enter c).1.members.Nodup := by
  unfold enter
  split
  · simpa using h
  · split
    · exact h
    · rename_i hc
      rw [contains_iff] at hc
      exact nodup_place c hc h

theorem mem_dismissed_enter :
    d ∈ (r.enter c).1.dismissed ↔ d ∈ r.dismissed ∨ (d = c ∧ r.sealed = true) := by
  unfold enter
  split
  · rename_i h
    simp [h, or_comm]
  · rename_i h
    split <;> simp [h]

@[simp] theorem enter_sealed : (r.enter c).1.sealed = r.sealed := by
  unfold enter
  split
  · simp
  · split <;> rfl

theorem enter_cases :
    r.sealed = true ∧ r.enter c = (r.dismiss c, false) ∨
    r.sealed = false ∧ c ∈ r.members ∧ r.enter c = (r, false) ∨
    r.sealed = false ∧ c ∉ r.members ∧
      r.enter c = ({ r with members := place c r.members }, true) := by
  unfold enter
  cases hs : r.sealed with
  | true => exact .inl ⟨rfl, rfl⟩
  | false =>
    by_cases hm : c ∈ r.members
    · exact .inr (.inl ⟨rfl, hm, by simp [hm]⟩)
    · exact .inr (.inr ⟨rfl, hm, by simp [hm]⟩)

theorem join_cases :
    (c ∈ r.dismissed ∨ r.sealed = false ∧ c ∈ r.members) ∧ r.join c = (r, false) ∨
    c ∉ r.dismissed ∧ r.sealed = true ∧ r.join c = (r.dismiss c, false) ∨
    c ∉ r.dismissed ∧ r.sealed = false ∧ c ∉ r.members ∧
      r.join c = ({ r with members := place c r.members }, true) := by
  unfold join
  by_cases hd : c ∈ r.dismissed
  · exact .inl ⟨.inl hd, by simp [hd]⟩
  · have hd' : ¬r.isDismissed c = true := by simpa using hd
    rw [if_neg hd']
    rcases r.enter_cases c with ⟨hs, he⟩ | ⟨hs, hm, he⟩ | ⟨hs, hm, he⟩
    · exact .inr (.inl ⟨hd, hs, he⟩)
    · exact .inl ⟨.inr ⟨hs, hm⟩, he⟩
    · exact .inr (.inr ⟨hd, hs, hm, he⟩)

theorem join_created : (r.join c).1.created = r.created := by
  rcases r.join_cases c with ⟨_, he⟩ | ⟨_, _, he⟩ | ⟨_, _, _, he⟩ <;> simp [he]

theorem leave_created : (r.leave c).1.created = r.created := by
  rw [leave_eq]
  split
  · rw [dismiss_created]
    unfold remove
    split <;> rfl
  · rfl

theorem mem_members_join :
    d ∈ (r.join c).1.members ↔ d ∈ r.members ∨ d = c ∧ c ∉ r.dismissed ∧ r.sealed = false := by
  unfold join
  split
  · rename_i h
    rw [isDismissed_iff] at h
    simp [h]
  · rename_i h
    rw [isDismissed_iff] at h
    rw [mem_members_enter]
    simp [h]

theorem mem_dismissed_join :
    d ∈ (r.join c).1.dismissed ↔ d ∈ r.dismissed ∨ d = c ∧ r.sealed = true := by
  unfold join
  split
  · rename_i h
    rw [isDismissed_iff] at h
    exact ⟨.inl, fun hd ↦ hd.elim id fun hc ↦ hc.1 ▸ h⟩
  · exact mem_dismissed_enter ..

theorem join_sealed : (r.join c).1.sealed = r.sealed := by
  unfold join
  split
  · rfl
  · exact enter_sealed ..

theorem clear_created : r.clear.1.created = r.created := dismissAll_created ..

theorem clear_sealed : r.clear.1.sealed = r.sealed := dismissAll_sealed ..

theorem clear_members : r.clear.1.members = [] := dismissAll_members ..

theorem mem_dismissed_clear : d ∈ r.clear.1.dismissed ↔ d ∈ r.members ∨ d ∈ r.dismissed :=
  mem_dismissed_dismissAll ..

theorem retire_created : r.retire.1.created = r.created := dismissAll_created ..

theorem retire_sealed : r.retire.1.sealed = true := dismissAll_sealed ..

theorem retire_members : r.retire.1.members = [] := dismissAll_members ..

theorem mem_dismissed_retire : d ∈ r.retire.1.dismissed ↔ d ∈ r.members ∨ d ∈ r.dismissed :=
  mem_dismissed_dismissAll ..

end Roster

end ChangeRelay
