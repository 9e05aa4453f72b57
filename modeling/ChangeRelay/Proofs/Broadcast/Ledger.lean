import ChangeRelay.Proofs.Broadcast.Membership
import Mathlib.Logic.Relation

namespace ChangeRelay

inductive Roster.Call where
  | create
  | enroll
  | join (c : ClientNumber)
  | leave (c : ClientNumber)
  | clear
  | retire

/-- A roster with its history: the numbers that were given out, who was let in each time somebody
was, who tried to join after the end, how many left one by one, how many were cleared away together,
and whether the roster was retired. -/
structure Ledger where
  roster : Roster
  made : List ClientNumber
  joins : List ClientNumber
  late : List ClientNumber
  leaves : Nat
  cleared : Nat
  retired : Bool

namespace Ledger

def empty : Ledger := ⟨.empty, [], [], [], 0, 0, false⟩

def create (x : Ledger) : Ledger :=
  { x with roster := x.roster.create.1, made := x.made ++ [x.roster.create.2] }

def join (x : Ledger) (c : ClientNumber) : Ledger :=
  { x with
    roster := (x.roster.join c).1
    joins := if (x.roster.join c).2 then x.joins ++ [c] else x.joins
    late := if x.retired then x.late ++ [c] else x.late }

def leave (x : Ledger) (c : ClientNumber) : Ledger :=
  { x with
    roster := (x.roster.leave c).1
    leaves := if (x.roster.leave c).2 then x.leaves + 1 else x.leaves }

def clear (x : Ledger) : Ledger :=
  { x with roster := x.roster.clear.1, cleared := x.cleared + x.roster.clear.2 }

def retire (x : Ledger) : Ledger :=
  { x with
    roster := x.roster.retire.1
    cleared := x.cleared + x.roster.retire.2
    retired := true }

def call (x : Ledger) : Roster.Call → Ledger
  | .create => x.create
  | .enroll => { x.create.join x.roster.enroll.2 with roster := x.roster.enroll.1 }
  | .join c => x.join c
  | .leave c => x.leave c
  | .clear => x.clear
  | .retire => x.retire

theorem call_enroll (x : Ledger) : x.call .enroll = x.create.join (x.roster.created + 1) := rfl

inductive Step : Ledger → Ledger → Prop
  | call (x : Ledger) (k : Roster.Call) (known : ∀ c, k = .join c → c ∈ x.made) : Step x (x.call k)

def Reachable : Ledger → Prop := Relation.ReflTransGen Step empty

structure Inv (x : Ledger) : Prop where
  made : ∀ c ∈ x.made, c ≤ x.roster.created
  nodup : x.made.Nodup
  joined : ∀ c ∈ x.joins, c ∈ x.made
  ascending : x.roster.members.Pairwise (· < ·)
  members : ∀ c ∈ x.roster.members, c ∈ x.joins
  unfired : ∀ c ∈ x.roster.members, c ∉ x.roster.dismissed
  dismissed : ∀ c, c ∈ x.roster.dismissed ↔
    (c ∈ x.joins ∧ c ∉ x.roster.members) ∨ c ∈ x.late
  isSealed : x.roster.sealed = x.retired
  retired : x.retired = true → x.roster.members = []
  inTime : x.retired = false → x.late = []
  count : x.joins.length = x.roster.members.length + x.leaves + x.cleared

theorem inv_empty : Inv empty where
  made := by simp [empty]
  nodup := List.nodup_nil
  joined := by simp [empty]
  ascending := List.Pairwise.nil
  members := by simp [empty, Roster.empty]
  unfired := by simp [empty, Roster.empty]
  dismissed := by simp [empty, Roster.empty]
  isSealed := rfl
  retired := fun _ ↦ rfl
  inTime := fun _ ↦ rfl
  count := rfl

variable {x : Ledger} {c : ClientNumber}

theorem Inv.create (h : Inv x) : Inv x.create where
  made d hd := by
    rcases List.mem_append.mp hd with hd | hd
    · exact Nat.le_succ_of_le (h.made d hd)
    · exact Nat.le_of_eq (List.mem_singleton.mp hd)
  nodup := by
    refine List.nodup_append.mpr ⟨h.nodup, List.nodup_singleton _, ?_⟩
    intro d hd e he hde
    have hle := h.made d hd
    rw [hde, List.mem_singleton.mp he] at hle
    exact absurd hle (Nat.not_succ_le_self _)
  joined d hd := List.mem_append_left _ (h.joined d hd)
  ascending := h.ascending
  members := h.members
  unfired := h.unfired
  dismissed := h.dismissed
  isSealed := h.isSealed
  retired := h.retired
  inTime := h.inTime
  count := h.count

theorem mem_late_join (d : ClientNumber) :
    d ∈ (x.join c).late ↔ d ∈ x.late ∨ d = c ∧ x.retired = true := by
  unfold join
  dsimp only
  split
  · rename_i h
    simp [h]
  · rename_i h
    simp [h]

theorem Inv.late_eq_nil (h : Inv x) (hs : x.roster.sealed = false) : (x.join c).late = [] := by
  have hr : x.retired = false := h.isSealed ▸ hs
  rw [List.eq_nil_iff_forall_not_mem]
  intro d hd
  rw [mem_late_join, h.inTime hr, hr] at hd
  simp at hd

theorem Inv.join (h : Inv x) (known : c ∈ x.made) : Inv (x.join c) := by
  have hmade : ∀ d ∈ (x.join c).made, d ≤ (x.join c).roster.created := by
    intro d hd
    have hc : (x.join c).roster.created = x.roster.created := x.roster.join_created c
    exact hc ▸ h.made d hd
  rcases x.roster.join_cases c with ⟨hc, he⟩ | ⟨hd, hs, he⟩ | ⟨hd, hs, hm, he⟩
  · have hx : x.join c = { x with late := (x.join c).late } := by simp [Ledger.join, he]
    rw [hx] at hmade ⊢
    refine ⟨hmade, h.nodup, h.joined, h.ascending, h.members, h.unfired, ?_, h.isSealed,
      h.retired, ?_, h.count⟩
    · intro d
      rw [mem_late_join, ← or_assoc, ← h.dismissed d]
      refine ⟨.inl, fun hd ↦ hd.elim id ?_⟩
      rintro ⟨rfl, hr⟩
      exact hc.elim id fun hn ↦ by simp [h.isSealed, hr] at hn
    · intro hr
      exact h.late_eq_nil (h.isSealed.trans hr)
  · have hr : x.retired = true := h.isSealed ▸ hs
    have hx : x.join c =
        { x with roster := x.roster.dismiss c, late := (x.join c).late } := by
      simp [Ledger.join, he]
    rw [hx] at hmade ⊢
    have hnone := h.retired hr
    refine ⟨hmade, h.nodup, h.joined, ?_, ?_, ?_, ?_, ?_, ?_, ?_, ?_⟩
    · simpa using h.ascending
    · simpa using h.members
    · intro d hd
      simp [hnone] at hd
    · intro d
      rw [mem_late_join, Roster.mem_dismissed_dismiss, Roster.dismiss_members, h.dismissed d]
      simp only [hr, and_true]
      tauto
    · simpa using h.isSealed
    · intro _
      simpa using hnone
    · intro hn
      simp [hr] at hn
    · simpa using h.count
  · have hx : x.join c =
        { x with
          roster := { x.roster with members := Roster.place c x.roster.members }
          joins := x.joins ++ [c]
          late := (x.join c).late } := by simp [Ledger.join, he]
    have hlate := h.late_eq_nil (c := c) hs
    have hold : x.late = [] := h.inTime (h.isSealed ▸ hs)
    rw [hlate] at hx
    rw [hx] at hmade ⊢
    refine ⟨hmade, h.nodup, ?_, Roster.pairwise_place c hm h.ascending, ?_, ?_, ?_, h.isSealed,
      ?_, fun _ ↦ rfl, ?_⟩
    · intro d hj
      rcases List.mem_append.mp hj with hj | hj
      · exact h.joined d hj
      · exact List.mem_singleton.mp hj ▸ known
    · intro d hm
      rcases (Roster.mem_place c d _).mp hm with rfl | hm
      · simp
      · exact List.mem_append_left _ (h.members d hm)
    · intro d hm
      rcases (Roster.mem_place c d _).mp hm with rfl | hm
      · exact hd
      · exact h.unfired d hm
    · intro d
      have hiff := h.dismissed d
      simp only [hold, List.not_mem_nil, or_false] at hiff ⊢
      rw [hiff, Roster.mem_place, List.mem_append, List.mem_singleton]
      by_cases hdc : d = c
      · subst hdc
        simp [← hiff, hd]
      · simp [hdc]
    · intro hr
      rw [h.isSealed, hr] at hs
      cases hs
    · dsimp only
      rw [List.length_append, List.length_singleton, h.count,
        (Roster.perm_place c x.roster.members).length_eq, List.length_cons]
      omega

theorem Inv.leave (h : Inv x) (c : ClientNumber) : Inv (x.leave c) := by
  have hmade : ∀ d ∈ (x.leave c).made, d ≤ (x.leave c).roster.created := by
    intro d hd
    have hc : (x.leave c).roster.created = x.roster.created := x.roster.leave_created c
    exact hc ▸ h.made d hd
  have hmem (d : ClientNumber) :
      d ∈ (x.leave c).roster.members ↔ d ∈ x.roster.members ∧ d ≠ c := by
    simp [Ledger.leave, Roster.leave_members]
  refine ⟨hmade, h.nodup, h.joined, ?_, ?_, ?_, ?_, ?_, ?_, h.inTime, ?_⟩
  · simp only [Ledger.leave, Roster.leave_members]
    exact h.ascending.filter _
  · intro d hd
    exact h.members d ((hmem d).mp hd).1
  · intro d hd
    obtain ⟨hd, hne⟩ := (hmem d).mp hd
    simp only [Ledger.leave, Roster.mem_dismissed_leave]
    rintro (hf | ⟨he, _⟩)
    · exact h.unfired d hd hf
    · exact hne he
  · intro d
    rw [hmem]
    simp only [Ledger.leave, Roster.mem_dismissed_leave, h.dismissed d]
    by_cases hdc : d = c
    · subst hdc
      have hj := h.members d
      simp only [ne_eq, not_true_eq_false, and_false, not_false_eq_true, and_true, true_and]
      tauto
    · simp [hdc]
  · simpa [Ledger.leave] using h.isSealed
  · intro hr
    rw [List.eq_nil_iff_forall_not_mem]
    intro d hd
    simpa [h.retired hr] using ((hmem d).mp hd).1
  · have hcount := h.count
    simp only [Ledger.leave, Roster.leave_members]
    by_cases hc : c ∈ x.roster.members
    · have hlen := (perm_cons_filter_ne h.ascending.nodup hc).length_eq
      rw [List.length_cons] at hlen
      rw [Roster.leave_eq, if_pos hc]
      simp only [if_true]
      omega
    · have hf : x.roster.members.filter (· ≠ c) = x.roster.members := by
        rw [List.filter_eq_self]
        intro d hd
        simpa using fun he : d = c ↦ hc (he ▸ hd)
      rw [Roster.leave_eq, if_neg hc, hf]
      simpa using hcount

theorem Inv.sweep (h : Inv x) {r : Roster} {b : Bool}
    (hr : r = { x.roster with members := [], sealed := b }) (hb : x.retired = true → b = true) :
    Inv { x with
      roster := r.dismissAll x.roster.members
      cleared := x.cleared + x.roster.members.length
      retired := b } := by
  subst hr
  refine ⟨?_, h.nodup, h.joined, ?_, ?_, ?_, ?_, ?_, ?_, ?_, ?_⟩
  · simpa using h.made
  · simp
  · simp
  · simp
  · intro d
    simp only [Roster.mem_dismissed_dismissAll, Roster.dismissAll_members, h.dismissed d,
      List.not_mem_nil, not_false_eq_true, and_true]
    have hj := h.members d
    tauto
  · simp
  · simp
  · intro hn
    have hn' : b = false := hn
    apply h.inTime
    cases hr : x.retired with
    | false => rfl
    | true => exact absurd (hb hr) (by simp [hn'])
  · have hcount := h.count
    simp only [Roster.dismissAll_members, List.length_nil]
    omega

theorem Inv.clear (h : Inv x) : Inv x.clear := by
  have hr : x.roster.drain.1 = { x.roster with members := [], sealed := x.retired } := by
    rw [← h.isSealed]
    rfl
  exact h.sweep hr id

theorem Inv.retire (h : Inv x) : Inv x.retire := h.sweep (b := true) rfl fun _ ↦ rfl

theorem Inv.step {y : Ledger} (h : Inv x) (hs : Step x y) : Inv y := by
  cases hs with
  | call k known =>
    cases k with
    | create => exact h.create
    | enroll =>
      rw [call_enroll]
      exact h.create.join (List.mem_append_right _ (List.mem_singleton_self _))
    | join c => exact h.join (known c rfl)
    | leave c => exact h.leave c
    | clear => exact h.clear
    | retire => exact h.retire

theorem Reachable.inv (h : Reachable x) : Inv x := by
  induction h with
  | refl => exact inv_empty
  | tail _ hs ih => exact ih.step hs

theorem Step.retired {y : Ledger} (hs : Step x y) (hr : x.retired = true) : y.retired = true := by
  cases hs with
  | call k known =>
    cases k with
    | retire => rfl
    | create | enroll | join | leave | clear => exact hr

theorem retired_run {y : Ledger} (h : Relation.ReflTransGen Step x y) (hr : x.retired = true) :
    y.retired = true := by
  induction h with
  | refl => exact hr
  | tail _ hs ih => exact hs.retired ih

structure Balanced (x : Ledger) : Prop where
  distinct : x.made.Nodup
  ascending : x.roster.members.Pairwise (· < ·)
  member : ∀ c ∈ x.roster.members, c ∈ x.made ∧ c ∉ x.roster.dismissed
  fired_iff : ∀ c, c ∈ x.roster.dismissed ↔ (c ∈ x.joins ∧ c ∉ x.roster.members) ∨ c ∈ x.late
  join_iff : ∀ c, (x.roster.join c).2 = true ↔
    c ∉ x.roster.dismissed ∧ c ∉ x.roster.members ∧ x.roster.sealed = false
  letIn : ∀ c, (x.roster.join c).2 = true →
    (x.roster.join c).1 = { x.roster with members := Roster.place c x.roster.members }
  refused : ∀ c, (x.roster.join c).2 = false →
    (x.roster.join c).1 = if x.roster.sealed then x.roster.dismiss c else x.roster
  forEver : ∀ y, Relation.ReflTransGen Step (x.call .retire) y → y.roster.members = []
  balance : x.joins.length = x.roster.members.length + x.leaves + x.cleared

/-- Whatever calls a roster has had, its members, its tokens and its answer to the next who wants to
join follow from the history. -/
theorem balanced (h : Reachable x) : Balanced x := by
  have hinv := h.inv
  refine ⟨hinv.nodup, hinv.ascending, ?_, hinv.dismissed, ?_, ?_, ?_, ?_, hinv.count⟩
  · intro c hc
    exact ⟨hinv.joined c (hinv.members c hc), hinv.unfired c hc⟩
  · intro c
    rcases x.roster.join_cases c with ⟨hc, he⟩ | ⟨_, hs, he⟩ | ⟨hd, hs, hm, he⟩
    · rw [he]
      refine ⟨nofun, fun ⟨hd, hm, _⟩ ↦ ?_⟩
      exact hc.elim (fun hn ↦ absurd hn hd) fun hn ↦ absurd hn.2 hm
    · simp [he, hs]
    · simp [he, hd, hs, hm]
  · intro c hj
    rcases x.roster.join_cases c with ⟨_, he⟩ | ⟨_, _, he⟩ | ⟨_, _, _, he⟩
    · simp [he] at hj
    · simp [he] at hj
    · rw [he]
  · intro c hj
    rcases x.roster.join_cases c with ⟨hc, he⟩ | ⟨_, hs, he⟩ | ⟨_, _, _, he⟩
    · rw [he]
      split
      · rename_i hs
        have hd : c ∈ x.roster.dismissed := hc.elim id fun hn ↦ by simp [hs] at hn
        simp [Roster.dismiss, hd]
      · rfl
    · rw [he, if_pos hs]
    · simp [he] at hj
  · intro y hy
    have hr : y.retired = true := retired_run hy rfl
    exact (Reachable.inv ((h.tail (.call x .retire nofun)).trans hy)).retired hr

/-- One client comes, leaves and may not come back, one is there at the end, and one comes after it.
-/
def season : Ledger :=
  ((((((empty.call .create).call (.join 1)).call (.leave 1)).call (.join 1)).call .enroll).call
    .retire).call .enroll

theorem season_reachable : Reachable season := by
  have h₁ : Reachable (empty.call .create) := .tail .refl (.call _ _ nofun)
  have h₂ := h₁.tail (.call _ (.join 1) (by rintro c ⟨⟩; decide))
  have h₃ := h₂.tail (.call _ (.leave 1) nofun)
  have h₄ := h₃.tail (.call _ (.join 1) (by rintro c ⟨⟩; decide))
  have h₅ := h₄.tail (.call _ .enroll nofun)
  have h₆ := h₅.tail (.call _ .retire nofun)
  exact h₆.tail (.call _ .enroll nofun)

theorem balanced_season :
    Reachable season ∧ Balanced season ∧ season.made = [1, 2, 3] ∧ season.joins = [1, 2] ∧
      season.late = [3] ∧ season.leaves = 1 ∧ season.cleared = 1 :=
  ⟨season_reachable, balanced season_reachable, by decide⟩

end Ledger

end ChangeRelay
