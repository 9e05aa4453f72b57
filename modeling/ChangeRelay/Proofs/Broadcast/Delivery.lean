import ChangeRelay.Broadcast.Dispatch
import ChangeRelay.Proofs.Broadcast.Membership
import Mathlib.Data.List.Perm.Basic

namespace ChangeRelay

namespace Audience

variable (a : Audience) (c d : Nat)

@[simp] theorem modify_roster (f : Client → Client) : (a.modify c f).roster = a.roster := by
  unfold modify; split <;> rfl

theorem client?_modify (f : Client → Client) :
    (a.modify c f).client? d = if d = c then (a.client? d).map f else a.client? d := by
  unfold client? modify
  by_cases hd : d = 0
  · simp [hd]
  · by_cases hc : c = 0
    · simp [hc, hd]
    · have hi : c - 1 = d - 1 ↔ d = c := by omega
      by_cases h : d = c <;> simp [hc, hd, hi, h]

theorem client?_create (o : Outlet) :
    (a.create o).1.client? c =
      if c = a.clients.length + 1 then some ⟨o, [], []⟩ else a.client? c := by
  unfold client? create
  by_cases hc : c = 0
  · simp [hc]
  · by_cases h : c = a.clients.length + 1
    · simp [h]
    · simp only [hc, h, ↓reduceIte, List.getElem?_append]
      split
      · rfl
      · rw [List.getElem?_eq_none (l := a.clients) (by omega), List.getElem?_eq_none]
        simp only [List.length_cons, List.length_nil]
        omega

theorem client?_fresh : a.client? (a.clients.length + 1) = none := by simp [client?]

end Audience

namespace Dispatch

def everyone (d : Dispatch) : List ClientNumber :=
  d.waiting ++ d.begun.map (·.client) ++ d.ended.map (·.1)

theorem mem_everyone {d : Dispatch} {c : ClientNumber} :
    c ∈ d.everyone ↔
      c ∈ d.waiting ∨ (∃ leg ∈ d.begun, leg.client = c) ∨ ∃ b, (c, b) ∈ d.ended := by
  simp [everyone]

theorem mem_everyone_of_ended {d : Dispatch} {c : ClientNumber} {b : Bool} (h : (c, b) ∈ d.ended) :
    c ∈ d.everyone :=
  mem_everyone.mpr (.inr (.inr ⟨b, h⟩))

theorem ended_unique {d : Dispatch} (h : d.everyone.Nodup) {c : ClientNumber} {b b' : Bool}
    (hb : (c, b) ∈ d.ended) (hb' : (c, b') ∈ d.ended) : b = b' := by
  have hn : (d.ended.map (·.1)).Nodup := (List.nodup_append.mp h).2.1
  have he := List.inj_on_of_nodup_map hn hb hb' rfl
  exact congrArg Prod.snd he

theorem not_ended_of_begun {d : Dispatch} (h : d.everyone.Nodup) {leg : Leg} (hl : leg ∈ d.begun)
    (b : Bool) : (leg.client, b) ∉ d.ended := by
  intro hb
  have hd := (List.nodup_append.mp h).2.2
  refine hd leg.client ?_ leg.client (List.mem_map_of_mem (f := (·.1)) hb) rfl
  exact List.mem_append_right _ (List.mem_map_of_mem (f := (·.client)) hl)

variable (d : Dispatch) (a : Audience) (timeout now : Nat)

/-- What beginning the next delivery comes to: a client whose token was fired is passed over. -/
theorem start_cases {c : ClientNumber} {cs : List ClientNumber} (h : d.waiting = c :: cs) :
    (d.start a timeout now = (a, { d with waiting := cs }) ∧
      (a.client? c = none ∨ c ∈ a.roster.dismissed)) ∨
    ∃ k due, a.client? c = some k ∧ c ∉ a.roster.dismissed ∧
      d.start a timeout now =
        (a.modify c fun k ↦ { k with attempts := k.attempts ++ [d.payload] },
          { d with
            waiting := cs
            begun := d.begun ++
              [⟨c, due, ((k.outlet k.attempts d.payload).within timeout).2⟩] }) := by
  unfold start
  rw [h]
  cases hk : a.client? c with
  | none => exact .inl ⟨by simp only [hk], .inl rfl⟩
  | some k =>
    by_cases hc : c ∈ a.roster.dismissed
    · exact .inl ⟨by simp [hk, hc], .inr hc⟩
    · exact .inr ⟨k, _, rfl, hc, by simp [hk, hc]; rfl⟩

theorem settle_of_success {leg : Leg} (h : leg.success = true) :
    d.settle a leg =
      (a.modify leg.client fun k ↦ { k with received := k.received ++ [d.payload] },
        { d with
          begun := d.begun.filter (· ≠ leg)
          ended := d.ended ++ [(leg.client, true)] }) := by
  simp [settle, h]

theorem settle_of_failure {leg : Leg} (h : leg.success = false) :
    d.settle a leg =
      ({ a with roster := (a.roster.leave leg.client).1 },
        { d with
          begun := d.begun.filter (· ≠ leg)
          ended := d.ended ++ [(leg.client, false)] }) := by
  simp [settle, h]

theorem everyone_start (leg : Leg) {cs : List ClientNumber} (h : d.waiting = leg.client :: cs) :
    ({ d with waiting := cs, begun := d.begun ++ [leg] } : Dispatch).everyone.Perm d.everyone := by
  have h₁ : ({ d with waiting := cs, begun := d.begun ++ [leg] } : Dispatch).everyone =
      (cs ++ d.begun.map (·.client)) ++ leg.client :: d.ended.map (·.1) := by simp [everyone]
  have h₂ : d.everyone = leg.client :: ((cs ++ d.begun.map (·.client)) ++ d.ended.map (·.1)) := by
    simp [everyone, h]
  rw [h₁, h₂]
  exact List.perm_middle

theorem everyone_settle {leg : Leg} (hd : d.everyone.Nodup) (hl : leg ∈ d.begun) (b : Bool) :
    ({ d with
      begun := d.begun.filter (· ≠ leg)
      ended := d.ended ++ [(leg.client, b)] } : Dispatch).everyone.Perm d.everyone := by
  have hn : d.begun.Nodup :=
    (List.nodup_append.mp (List.nodup_append.mp hd).1).2.1.of_map
  have hp : (leg.client :: (d.begun.filter (· ≠ leg)).map (·.client)).Perm
      (d.begun.map (·.client)) := by
    have hp := (perm_cons_filter_ne hn hl).symm.map Leg.client
    exact hp
  have hc (xs ys zs : List ClientNumber) (x : ClientNumber) :
      (xs ++ ys ++ (zs ++ [x])).Perm (xs ++ (x :: ys) ++ zs) := by
    rw [List.append_assoc, List.append_assoc]
    apply List.Perm.append_left
    rw [← List.append_assoc]
    exact List.perm_append_comm
  simp only [everyone, List.map_append, List.map_cons, List.map_nil]
  apply (hc _ _ _ _).trans
  exact (hp.append_left d.waiting).append_right _

@[simp] theorem start_roster : (d.start a timeout now).1.roster = a.roster := by
  unfold start
  split
  · rfl
  · split
    · rfl
    · split <;> simp

theorem client?_start_eq_none (c : ClientNumber) :
    (d.start a timeout now).1.client? c = none ↔ a.client? c = none := by
  unfold start
  split
  · rfl
  · split
    · rfl
    · split
      · rfl
      · simp only [Audience.client?_modify]
        split <;> simp

theorem settle_roster (leg : Leg) : (d.settle a leg).1.roster =
    if leg.success = true then a.roster else (a.roster.leave leg.client).1 := by
  unfold settle
  split <;> simp

theorem client?_settle_eq_none (leg : Leg) (c : ClientNumber) :
    (d.settle a leg).1.client? c = none ↔ a.client? c = none := by
  unfold settle
  split
  · simp only [Audience.client?_modify]
    split <;> simp
  · rfl

theorem everyone_begin (payload : String) : (begin a payload).everyone = a.roster.members := by
  simp [everyone, begin]

theorem mem_evicted {c : ClientNumber} (h : c ∈ d.report.evicted) : (c, false) ∈ d.ended := by
  simp only [report, List.mem_filter, decide_eq_true_eq] at h
  obtain ⟨_, _, he, _⟩ := List.lookup_eq_some_iff.mp h.2
  exact he ▸ List.mem_append_right _ List.mem_cons_self

end Dispatch

end ChangeRelay
