import ChangeRelay.Proofs.Broadcast.Accounts
import Mathlib.Data.List.Sort

namespace ChangeRelay

namespace Ledger

variable {x : Ledger}

def arrivals (x : Ledger) : List ClientNumber := x.joins.filter (· ∈ x.roster.members)

theorem Reachable.made_ascending (h : Reachable x) : x.made.Pairwise (· < ·) := by
  induction h with
  | refl => exact .nil
  | @tail x y hx hs ih =>
    have hcreate : x.create.made.Pairwise (· < ·) := by
      refine List.pairwise_append.mpr ⟨ih, List.pairwise_singleton _ _, ?_⟩
      intro c hc d hd
      rw [List.mem_singleton.mp hd]
      exact Nat.lt_succ_of_le ((Reachable.inv hx).made c hc)
    cases hs with
    | call k known =>
      cases k with
      | create | enroll => exact hcreate
      | join | leave | clear | retire => exact ih

theorem Inv.nodup_joins_join (h : Inv x) (hj : x.joins.Nodup) (c : ClientNumber) :
    (x.join c).joins.Nodup := by
  unfold Ledger.join
  dsimp only
  rcases x.roster.join_cases c with ⟨_, he⟩ | ⟨_, _, he⟩ | ⟨hd, _, hm, he⟩
  · simpa [he] using hj
  · simpa [he] using hj
  · have hc : c ∉ x.joins := fun hc ↦ hd ((h.dismissed c).mpr (.inl ⟨hc, hm⟩))
    simpa [he] using hj.concat hc

theorem Reachable.nodup_joins (h : Reachable x) : x.joins.Nodup := by
  induction h with
  | refl => exact List.nodup_nil
  | @tail x y hx hs ih =>
    have hinv : Inv x := Reachable.inv hx
    cases hs with
    | call k known =>
      cases k with
      | enroll => exact hinv.create.nodup_joins_join ih _
      | join c => exact hinv.nodup_joins_join ih c
      | create | leave | clear | retire => exact ih

theorem Reachable.perm_arrivals (h : Reachable x) : x.roster.members.Perm x.arrivals := by
  refine (List.perm_ext_iff_of_nodup h.inv.ascending.nodup (h.nodup_joins.filter _)).mpr fun c ↦ ?_
  simp only [List.mem_filter, decide_eq_true_eq]
  exact ⟨fun hc ↦ ⟨h.inv.members c hc, hc⟩, And.right⟩

theorem Reachable.members_eq (h : Reachable x) :
    x.roster.members = x.made.filter (· ∈ x.roster.members) := by
  have hmade := h.made_ascending.filter fun c ↦ decide (c ∈ x.roster.members)
  refine List.Perm.eq_of_pairwise' h.inv.ascending hmade ?_
  refine (List.perm_ext_iff_of_nodup h.inv.ascending.nodup hmade.nodup).mpr fun c ↦ ?_
  simp only [List.mem_filter, decide_eq_true_eq]
  exact ⟨fun hc ↦ ⟨h.inv.joined c (h.inv.members c hc), hc⟩, And.right⟩

theorem Reachable.members_eq_arrivals_iff (h : Reachable x) :
    x.roster.members = x.arrivals ↔ x.arrivals.Sublist x.made := by
  constructor
  · intro he
    rw [← he, h.members_eq]
    exact List.filter_sublist
  · intro hs
    exact List.Perm.eq_of_pairwise' h.inv.ascending (h.made_ascending.sublist hs) h.perm_arrivals

structure Listed (x : Ledger) : Prop where
  once : x.roster.members.Nodup
  all : x.roster.members.Perm x.arrivals
  asMade : x.roster.members = x.made.filter (· ∈ x.roster.members)
  asJoined_iff : x.roster.members = x.arrivals ↔ x.arrivals.Sublist x.made
  evicted : ∀ clients : List Client, clients.length = x.roster.created →
    ∀ (timeout now : Nat) (payload : String),
      (Audience.dispatch ⟨x.roster, clients⟩ timeout now payload).2.1.evicted.Sublist
        x.roster.members

/-- Whatever calls a roster has had, it lists each member once, in the order in which they were
made; that is the order in which they joined if and only if they joined in the order in which they
were made. -/
theorem listed (h : Reachable x) : Listed x where
  once := h.inv.ascending.nodup
  all := h.perm_arrivals
  asMade := h.members_eq
  asJoined_iff := h.members_eq_arrivals_iff
  evicted clients hc timeout now payload := by
    have hacc := Audience.accounted_dispatch _ (h.orderly hc) timeout now payload
    rw [hacc.evicted, h.awake_eq clients]
    exact List.filter_sublist

/-- Three clients of whom the second and the first join, in this order, before the third is made. -/
def overtaken : Ledger :=
  ((((empty.call .create).call .create).call (.join 2)).call (.join 1)).call .enroll

theorem overtaken_reachable : Reachable overtaken := by
  have h₁ : Reachable (empty.call .create) := .tail .refl (.call _ _ nofun)
  have h₂ := h₁.tail (.call _ .create nofun)
  have h₃ := h₂.tail (.call _ (.join 2) (by rintro c ⟨⟩; decide))
  have h₄ := h₃.tail (.call _ (.join 1) (by rintro c ⟨⟩; decide))
  exact h₄.tail (.call _ .enroll nofun)

theorem listed_overtaken :
    Reachable overtaken ∧ Listed overtaken ∧ overtaken.roster.members = [1, 2, 3] ∧
      overtaken.arrivals = [2, 1, 3] ∧
      (Audience.dispatch ⟨overtaken.roster, [⟨.broken, [], []⟩, ⟨.stalled, [], []⟩,
        ⟨.steady, [], []⟩]⟩ 5 0 "a").2.1.evicted = [1, 2] :=
  ⟨overtaken_reachable, listed overtaken_reachable, by decide⟩

theorem not_always_as_joined :
    ¬∀ x : Ledger, Reachable x → x.roster.members = x.arrivals := by
  intro h
  exact absurd (h overtaken overtaken_reachable) (by decide)

end Ledger

end ChangeRelay
