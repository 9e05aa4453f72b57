import ChangeRelay.Proofs.Broadcast.Delivery
import Mathlib.Logic.Relation

namespace ChangeRelay

/-- The audience, the dispatch in progress, and the history: the dispatches that are over, oldest
first, and how many had been begun when a client joined and when it left. -/
structure Fanout where
  audience : Audience
  current : Option Dispatch
  past : List Dispatch
  joined : ClientNumber → Option Nat
  left : ClientNumber → Option Nat

namespace Fanout

def empty : Fanout := ⟨.empty, none, [], fun _ ↦ none, fun _ ↦ none⟩

def dispatches (f : Fanout) : List Dispatch := f.past ++ f.current.toList

def payloads (f : Fanout) : List String := f.dispatches.map (·.payload)

def members (f : Fanout) : List ClientNumber := f.audience.roster.members

def note (f : Fanout) (r : Roster) : Fanout :=
  { f with
    audience := { f.audience with roster := r }
    joined := fun c ↦
      if c ∈ r.members ∧ c ∉ f.members then some f.dispatches.length else f.joined c
    left := fun c ↦
      if c ∈ f.members ∧ c ∉ r.members then some f.dispatches.length else f.left c }

def proceed (f : Fanout) (o : Audience × Dispatch) : Fanout :=
  { f.note o.1.roster with audience := o.1, current := some o.2 }

def create (f : Fanout) (o : Outlet) : Fanout := { f with audience := (f.audience.create o).1 }

def enter (f : Fanout) (c : ClientNumber) : Fanout := f.note (f.audience.roster.enter c).1

def remove (f : Fanout) (c : ClientNumber) : Fanout := f.note (f.audience.roster.remove c).1

def drain (f : Fanout) : Fanout := f.note f.audience.roster.drain.1

def sealAndDrain (f : Fanout) : Fanout := f.note f.audience.roster.sealAndDrain.1

def dismiss (f : Fanout) (c : ClientNumber) : Fanout := f.note (f.audience.roster.dismiss c)

def begin (f : Fanout) (payload : String) : Fanout :=
  { f with current := some (Dispatch.begin f.audience payload) }

def start (f : Fanout) (timeout now : Nat) : Fanout :=
  match f.current with
  | some d => f.proceed (d.start f.audience timeout now)
  | none => f

def settle (f : Fanout) (leg : Leg) : Fanout :=
  match f.current with
  | some d => f.proceed (d.settle f.audience leg)
  | none => f

def finish (f : Fanout) : Fanout := { f with current := none, past := f.dispatches }

/-- One step. Nobody puts a client into the roster again that was in it before, and who fires a
token has taken its client out; a relay that takes its client out in two steps is one that finds it
taken out by somebody else. -/
inductive Step (timeout : Nat) : Fanout → Fanout → Prop
  | create (f : Fanout) (o : Outlet) : Step timeout f (f.create o)
  | enter (f : Fanout) (c : ClientNumber) (known : f.audience.client? c ≠ none)
      (new : f.joined c = none) : Step timeout f (f.enter c)
  | remove (f : Fanout) (c : ClientNumber) : Step timeout f (f.remove c)
  | drain (f : Fanout) : Step timeout f f.drain
  | sealAndDrain (f : Fanout) : Step timeout f f.sealAndDrain
  | dismiss (f : Fanout) (c : ClientNumber) (gone : f.left c ≠ none) : Step timeout f (f.dismiss c)
  | begin (f : Fanout) (payload : String) (idle : f.current = none) :
      Step timeout f (f.begin payload)
  | start (f : Fanout) (now : Nat) {d : Dispatch} (busy : f.current = some d)
      (more : d.waiting ≠ []) : Step timeout f (f.start timeout now)
  | settle (f : Fanout) (leg : Leg) {d : Dispatch} (busy : f.current = some d)
      (underway : leg ∈ d.begun) : Step timeout f (f.settle leg)
  | finish (f : Fanout) {d : Dispatch} (busy : f.current = some d) (allOver : d.isOver = true) :
      Step timeout f f.finish

def Reachable (timeout : Nat) : Fanout → Prop := Relation.ReflTransGen (Step timeout) empty

theorem getElem?_dispatches {f : Fanout} {i : Nat} {d : Dispatch} :
    f.dispatches[i]? = some d ↔
      f.past[i]? = some d ∨ (i = f.past.length ∧ f.current = some d) := by
  unfold dispatches
  rw [List.getElem?_append]
  split
  · rename_i h
    simp [Nat.ne_of_lt h]
  · rename_i h
    rw [List.getElem?_eq_none (l := f.past) (Nat.not_lt.mp h)]
    cases f.current with
    | none => simp
    | some e =>
      rw [Option.toList_some, List.getElem?_singleton]
      split
      · have hi : i = f.past.length := by omega
        simp [hi]
      · have hi : i ≠ f.past.length := by omega
        simp [hi]

theorem dispatches_of_busy {f : Fanout} {d : Dispatch} (h : f.current = some d) :
    f.dispatches = f.past ++ [d] := by rw [dispatches, h, Option.toList_some]

theorem dispatches_begin {f : Fanout} (payload : String) (idle : f.current = none) :
    (f.begin payload).dispatches = f.dispatches ++ [Dispatch.begin f.audience payload] := by
  simp [dispatches, Fanout.begin, idle]

theorem dispatches_finish (f : Fanout) : f.finish.dispatches = f.dispatches := by
  simp [dispatches, Fanout.finish]

theorem length_dispatches_of_idle {f : Fanout} (h : f.current = none) :
    f.dispatches.length = f.past.length := by simp [dispatches, h]

theorem length_dispatches_of_busy {f : Fanout} {d : Dispatch} (h : f.current = some d) :
    f.dispatches.length = f.past.length + 1 := by simp [dispatches, h]

/-- What dispatch number `i` knows about those who joined and left. It is for everybody who was in
when it was begun; whoever is passed over, or does not receive the payload, has left meanwhile. -/
structure Tells (joined left : ClientNumber → Option Nat) (i : Nat) (d : Dispatch) : Prop where
  mem_recipients : ∀ c, c ∈ d.recipients ↔
    ∃ s, joined c = some s ∧ s ≤ i ∧ ∀ l, left c = some l → i < l
  nodup : d.everyone.Nodup
  subset : d.everyone ⊆ d.recipients
  passed : ∀ c ∈ d.recipients, c ∉ d.everyone → ∃ l, left c = some l ∧ l ≤ i + 1
  failed : ∀ c, (c, false) ∈ d.ended → ∃ l, left c = some l ∧ l ≤ i + 1

def Later (n : Nat) (joined left joined' left' : ClientNumber → Option Nat) : Prop :=
  ∀ c, (joined' c = joined c ∨ joined c = none ∧ joined' c = some n) ∧
    (left' c = left c ∨ left c = none ∧ left' c = some n)

theorem Tells.later {n i : Nat} {joined left joined' left' : ClientNumber → Option Nat}
    {d : Dispatch} (h : Tells joined left i d) (hl : Later n joined left joined' left')
    (hi : i < n) : Tells joined' left' i d := by
  have keeps (c : ClientNumber) (l : Nat) (hc : left c = some l) : left' c = some l := by
    rcases (hl c).2 with he | ⟨hn, _⟩
    · rw [he, hc]
    · rw [hn] at hc
      cases hc
  refine ⟨?_, h.nodup, h.subset, ?_, ?_⟩
  · intro c
    rw [h.mem_recipients]
    constructor
    · rintro ⟨s, hs, hsi, hleft⟩
      refine ⟨s, ?_, hsi, ?_⟩
      · rcases (hl c).1 with he | ⟨hn, _⟩
        · rw [he, hs]
        · rw [hn] at hs
          cases hs
      · intro l hc
        rcases (hl c).2 with he | ⟨_, hn⟩
        · exact hleft l (he ▸ hc)
        · cases hn.symm.trans hc
          exact hi
    · rintro ⟨s, hs, hsi, hleft⟩
      refine ⟨s, ?_, hsi, fun l hc ↦ hleft l (keeps c l hc)⟩
      rcases (hl c).1 with he | ⟨_, hn⟩
      · rw [← he, hs]
      · cases hn.symm.trans hs
        omega
  · intro c hc hne
    obtain ⟨l, hleft, hle⟩ := h.passed c hc hne
    exact ⟨l, keeps c l hleft, hle⟩
  · intro c hc
    obtain ⟨l, hleft, hle⟩ := h.failed c hc
    exact ⟨l, keeps c l hleft, hle⟩

def delivered (f : Fanout) (c : ClientNumber) : List String :=
  (f.dispatches.filter fun d ↦ (c, true) ∈ d.ended).map (·.payload)

structure Inv (f : Fanout) : Prop where
  nodup : f.members.Nodup
  known : ∀ c s, f.joined c = some s → f.audience.client? c ≠ none
  mem_members : ∀ c, c ∈ f.members ↔ f.joined c ≠ none ∧ f.left c = none
  joined_le : ∀ c s, f.joined c = some s → s ≤ f.dispatches.length
  left_le : ∀ c l, f.left c = some l → l ≤ f.dispatches.length ∧ ∃ s, f.joined c = some s ∧ s ≤ l
  dismissed : ∀ c ∈ f.audience.roster.dismissed,
    f.left c ≠ none ∨ f.joined c = none ∧ f.audience.roster.sealed = true
  tells : ∀ i d, f.dispatches[i]? = some d → Tells f.joined f.left i d
  allOver : ∀ d ∈ f.past, d.isOver = true
  received : ∀ c k, f.audience.client? c = some k → k.received = f.delivered c

theorem inv_empty : Inv empty where
  nodup := List.nodup_nil
  known := by simp [empty]
  mem_members := by simp [empty, members, Audience.empty, Roster.empty]
  joined_le := by simp [empty]
  left_le := by simp [empty]
  dismissed := by simp [empty, Audience.empty, Roster.empty]
  tells := by simp [empty, dispatches]
  allOver := by simp [empty]
  received := by simp [empty, Audience.empty, Audience.client?]

/-- What may become of a roster in one step: only those join who were never in, nobody joins a
sealed one, and no member's token is fired. -/
structure Fits (f : Fanout) (r : Roster) : Prop where
  nodup : r.members.Nodup
  members : ∀ c ∈ r.members,
    c ∈ f.members ∨ f.joined c = none ∧ f.audience.client? c ≠ none ∧
      f.audience.roster.sealed = false
  dismissed : ∀ c ∈ r.dismissed,
    c ∈ f.audience.roster.dismissed ∨ c ∈ f.members ∧ c ∉ r.members ∨ f.left c ≠ none ∨
      f.joined c = none ∧ c ∉ r.members ∧ r.sealed = true
  sealed : f.audience.roster.sealed = true → r.sealed = true

theorem Inv.later {f : Fanout} {r : Roster} (h : Inv f) (hr : Fits f r) :
    Later f.dispatches.length f.joined f.left (f.note r).joined (f.note r).left := by
  intro c
  constructor
  · by_cases hc : c ∈ r.members ∧ c ∉ f.members
    · have hn : f.joined c = none := ((hr.members c hc.1).resolve_left hc.2).1
      exact .inr ⟨hn, by simp [note, hc]⟩
    · exact .inl (by simp only [note, hc, if_false])
  · by_cases hc : c ∈ f.members ∧ c ∉ r.members
    · exact .inr ⟨((h.mem_members c).mp hc.1).2, by simp [note, hc]⟩
    · exact .inl (by simp only [note, hc, if_false])

theorem Inv.note {f : Fanout} {r : Roster} (h : Inv f) (hr : Fits f r) : Inv (f.note r) := by
  have hl := h.later hr
  have hm (c : ClientNumber) : c ∈ r.members ∧ c ∉ f.members → f.joined c = none :=
    fun hc ↦ ((hr.members c hc.1).resolve_left hc.2).1
  have hj (c : ClientNumber) : (f.note r).joined c =
      if c ∈ r.members ∧ c ∉ f.members then some f.dispatches.length else f.joined c := rfl
  have hlf (c : ClientNumber) : (f.note r).left c =
      if c ∈ f.members ∧ c ∉ r.members then some f.dispatches.length else f.left c := rfl
  refine ⟨hr.nodup, ?_, ?_, ?_, ?_, ?_, ?_, h.allOver, h.received⟩
  · intro c s hs
    rw [hj] at hs
    split at hs
    · rename_i hc
      exact ((hr.members c hc.1).resolve_left hc.2).2.1
    · exact h.known c s hs
  · intro c
    change c ∈ r.members ↔ _
    rw [hj, hlf]
    by_cases hc : c ∈ r.members
    · by_cases hf : c ∈ f.members
      · simpa [hc, hf] using (h.mem_members c).mp hf
      · have hn := hm c ⟨hc, hf⟩
        have hn' : f.left c = none := by
          cases hleft : f.left c with
          | none => rfl
          | some l =>
            obtain ⟨_, s, hs, _⟩ := h.left_le c l hleft
            rw [hn] at hs
            cases hs
        simp [hc, hf, hn']
    · by_cases hf : c ∈ f.members
      · simp [hc, hf]
      · simpa [hc, hf] using (not_congr (h.mem_members c)).mp hf
  · intro c s hs
    rw [hj] at hs
    split at hs
    · cases hs
      exact Nat.le_refl _
    · exact h.joined_le c s hs
  · intro c l hleft
    rw [hlf] at hleft
    split at hleft
    · rename_i hc
      cases hleft
      obtain ⟨s, hs⟩ := Option.ne_none_iff_exists'.mp ((h.mem_members c).mp hc.1).1
      refine ⟨Nat.le_refl _, s, ?_, h.joined_le c s hs⟩
      rw [hj, if_neg fun hn ↦ hn.2 hc.1, hs]
    · obtain ⟨hle, s, hs, hsl⟩ := h.left_le c l hleft
      refine ⟨hle, s, ?_, hsl⟩
      rw [hj, if_neg, hs]
      intro hc
      rw [hm c hc] at hs
      cases hs
  · intro c hc
    rw [hlf, hj]
    rcases hr.dismissed c hc with hd | ⟨hin, hout⟩ | hleft | ⟨hnone, hout, hsealed⟩
    · rcases h.dismissed c hd with hleft | ⟨hnone, hsealed⟩
      · left
        split
        · simp
        · exact hleft
      · have hout : c ∉ f.members := fun hin ↦ ((h.mem_members c).mp hin).1 hnone
        have hout' : c ∉ r.members := by
          intro hin
          have he := ((hr.members c hin).resolve_left hout).2.2
          rw [hsealed] at he
          cases he
        exact .inr ⟨by simp [hout', hnone], hr.sealed hsealed⟩
    · exact .inl (by simp [hin, hout])
    · left
      split
      · simp
      · exact hleft
    · exact .inr ⟨by simp [hout, hnone], hsealed⟩
  · intro i d hd
    have hi : i < f.dispatches.length := (List.getElem?_eq_some_iff.mp hd).1
    exact (h.tells i d hd).later hl hi

theorem Inv.fits_same {f : Fanout} (h : Inv f) : Fits f f.audience.roster :=
  ⟨h.nodup, fun _ hd ↦ .inl hd, fun _ hd ↦ .inl hd, id⟩

theorem Inv.fits_enter {f : Fanout} (h : Inv f) {c : ClientNumber}
    (known : f.audience.client? c ≠ none) (new : f.joined c = none) :
    Fits f (f.audience.roster.enter c).1 where
  nodup := Roster.nodup_members_enter _ _ h.nodup
  members d hd := by
    rw [Roster.mem_members_enter] at hd
    rcases hd with hd | ⟨rfl, hs⟩
    · exact .inl hd
    · exact .inr ⟨new, known, hs⟩
  dismissed d hd := by
    rw [Roster.mem_dismissed_enter] at hd
    rcases hd with hd | ⟨rfl, hs⟩
    · exact .inl hd
    · refine .inr (.inr (.inr ⟨new, ?_, by simpa using hs⟩))
      rw [Roster.mem_members_enter]
      rintro (hm | ⟨_, hn⟩)
      · exact ((h.mem_members d).mp hm).1 new
      · rw [hs] at hn
        cases hn
  sealed hs := by simpa using hs

theorem Inv.fits_remove {f : Fanout} (h : Inv f) (c : ClientNumber) :
    Fits f (f.audience.roster.remove c).1 where
  nodup := by
    rw [Roster.remove_members]
    exact h.nodup.filter _
  members d hd := by
    rw [Roster.remove_members] at hd
    exact .inl (List.mem_filter.mp hd).1
  dismissed d hd := .inl (by simpa using hd)
  sealed hs := by simpa using hs

theorem Inv.fits_leave {f : Fanout} (h : Inv f) (c : ClientNumber) :
    Fits f (f.audience.roster.leave c).1 where
  nodup := by
    rw [Roster.leave_members]
    exact h.nodup.filter _
  members d hd := by
    rw [Roster.leave_members] at hd
    exact .inl (List.mem_filter.mp hd).1
  dismissed d hd := by
    rw [Roster.mem_dismissed_leave] at hd
    rcases hd with hd | ⟨rfl, hm⟩
    · exact .inl hd
    · exact .inr (.inl ⟨hm, by simp [Roster.leave_members]⟩)
  sealed hs := by simpa using hs

theorem fits_drain (f : Fanout) : Fits f f.audience.roster.drain.1 where
  nodup := List.nodup_nil
  members d hd := by cases hd
  dismissed d hd := .inl hd
  sealed hs := hs

theorem fits_sealAndDrain (f : Fanout) : Fits f f.audience.roster.sealAndDrain.1 where
  nodup := List.nodup_nil
  members d hd := by cases hd
  dismissed d hd := .inl hd
  sealed _ := rfl

theorem Inv.fits_dismiss {f : Fanout} (h : Inv f) {c : ClientNumber} (gone : f.left c ≠ none) :
    Fits f (f.audience.roster.dismiss c) where
  nodup := by
    rw [Roster.dismiss_members]
    exact h.nodup
  members d hd := by
    rw [Roster.dismiss_members] at hd
    exact .inl hd
  dismissed d hd := by
    rw [Roster.mem_dismissed_dismiss] at hd
    rcases hd with rfl | hd
    · exact .inr (.inr (.inl gone))
    · exact .inl hd
  sealed hs := by simpa using hs

theorem Inv.not_ended_of_unjoined {f : Fanout} (h : Inv f) {c : ClientNumber}
    (hc : f.joined c = none) {d : Dispatch} (hd : d ∈ f.dispatches) (b : Bool) :
    (c, b) ∉ d.ended := by
  intro hb
  obtain ⟨i, hi⟩ := List.mem_iff_getElem?.mp hd
  have ht := h.tells i d hi
  obtain ⟨s, hs, _⟩ := (ht.mem_recipients c).mp (ht.subset (Dispatch.mem_everyone_of_ended hb))
  rw [hc] at hs
  cases hs

theorem Inv.delivered_eq_nil {f : Fanout} (h : Inv f) {c : ClientNumber} (hc : f.joined c = none) :
    f.delivered c = [] := by
  rw [delivered, List.map_eq_nil_iff, List.filter_eq_nil_iff]
  intro d hd
  simpa using h.not_ended_of_unjoined hc hd true

theorem Inv.not_joined_of_unknown {f : Fanout} (h : Inv f) {c : ClientNumber}
    (hc : f.audience.client? c = none) : f.joined c = none := by
  cases hs : f.joined c with
  | none => rfl
  | some s => exact absurd hc (h.known c s hs)

theorem Inv.create {f : Fanout} (h : Inv f) (o : Outlet) : Inv (f.create o) := by
  refine ⟨h.nodup, ?_, h.mem_members, h.joined_le, h.left_le, h.dismissed, h.tells,
    h.allOver, ?_⟩
  · intro c s hs
    have hc := h.known c s hs
    rw [Fanout.create, Audience.client?_create]
    split
    · simp
    · exact hc
  · intro c k hk
    rw [Fanout.create, Audience.client?_create] at hk
    split at hk
    · rename_i hc
      cases hk
      have hn : f.joined c = none := h.not_joined_of_unknown (by rw [hc, Audience.client?_fresh])
      exact (h.delivered_eq_nil hn).symm
    · exact h.received c k hk

theorem Inv.begin {f : Fanout} (h : Inv f) (payload : String) (idle : f.current = none) :
    Inv (f.begin payload) := by
  have hd := dispatches_begin payload idle
  have hlen := length_dispatches_of_idle idle
  refine ⟨h.nodup, h.known, h.mem_members, ?_, ?_, h.dismissed, ?_, h.allOver, ?_⟩
  · intro c s hs
    have := h.joined_le c s hs
    rw [hd, List.length_append]
    omega
  · intro c l hl
    obtain ⟨hle, hs⟩ := h.left_le c l hl
    refine ⟨?_, hs⟩
    rw [hd, List.length_append]
    omega
  · intro i d hi
    rcases getElem?_dispatches.mp hi with hp | ⟨rfl, hc⟩
    · exact h.tells i d (getElem?_dispatches.mpr (.inl hp))
    · cases hc
      have he := Dispatch.everyone_begin f.audience payload
      refine ⟨?_, he ▸ h.nodup, he ▸ List.Subset.refl _, ?_, ?_⟩
      · intro c
        -- Whoever is in has joined and not left, and nobody has left later than now.
        refine (h.mem_members c).trans ⟨?_, ?_⟩
        · rintro ⟨hj, hl⟩
          obtain ⟨s, hs⟩ := Option.ne_none_iff_exists'.mp hj
          exact ⟨s, hs, hlen ▸ h.joined_le c s hs, fun l hleft ↦ by cases hl.symm.trans hleft⟩
        · rintro ⟨s, hs, _, hl⟩
          have hj : f.joined c = some s := hs
          refine ⟨by rw [hj]; simp, ?_⟩
          cases hleft : f.left c with
          | none => rfl
          | some l =>
            have h₁ := hl l hleft
            have h₂ := (h.left_le c l hleft).1
            rw [hlen] at h₂
            exact absurd h₁ (Nat.not_lt.mpr h₂)
      · intro c hc hn
        exact absurd (he ▸ hc) hn
      · intro c hc
        cases hc
  · intro c k hk
    rw [h.received c k hk, delivered, delivered, hd, List.filter_append, List.map_append]
    simp [Dispatch.begin]

theorem Inv.proceed {f : Fanout} (h : Inv f) {d d' : Dispatch} {a : Audience}
    (busy : f.current = some d) (hr : a.roster = f.audience.roster)
    (hk : ∀ c, a.client? c = none ↔ f.audience.client? c = none)
    (ht : Tells f.joined f.left f.past.length d')
    (hrec : ∀ c k, a.client? c = some k → ∃ k', f.audience.client? c = some k' ∧
      k.received = k'.received ++
        if (c, true) ∈ d'.ended ∧ (c, true) ∉ d.ended then [d'.payload] else [])
    (hpay : d'.payload = d.payload) (hend : d.ended ⊆ d'.ended) :
    Inv { f with audience := a, current := some d' } := by
  have hd := dispatches_of_busy busy
  have hd' : ({ f with audience := a, current := some d' } : Fanout).dispatches =
      f.past ++ [d'] := by simp [dispatches]
  have hlen : ({ f with audience := a, current := some d' } : Fanout).dispatches.length =
      f.dispatches.length := by simp [hd, hd']
  refine ⟨by simpa [members, hr] using h.nodup, ?_, ?_, ?_, ?_, ?_, ?_, h.allOver, ?_⟩
  · intro c s hs
    exact fun hn ↦ h.known c s hs ((hk c).mp hn)
  · intro c
    change c ∈ a.roster.members ↔ _
    rw [hr]
    exact h.mem_members c
  · intro c s hs
    rw [hlen]
    exact h.joined_le c s hs
  · intro c l hl
    rw [hlen]
    exact h.left_le c l hl
  · rw [hr]
    exact h.dismissed
  · intro i e hi
    rcases getElem?_dispatches.mp hi with hp | ⟨rfl, hc⟩
    · exact h.tells i e (getElem?_dispatches.mpr (.inl hp))
    · cases hc
      exact ht
  · intro c k hc
    obtain ⟨k', hk', he⟩ := hrec c k hc
    rw [he, h.received c k' hk', delivered, delivered, hd, hd']
    simp only [List.filter_append, List.map_append, List.append_assoc]
    congr 1
    by_cases h₁ : (c, true) ∈ d.ended
    · simp [h₁, hend h₁, hpay]
    · by_cases h₂ : (c, true) ∈ d'.ended <;> simp [h₁, h₂]

@[simp] theorem note_same (f : Fanout) : f.note f.audience.roster = f := by
  cases f
  simp [note, members]

theorem Inv.left_of_recipient {f : Fanout} (h : Inv f) {d : Dispatch} (busy : f.current = some d)
    {c : ClientNumber} (hc : c ∈ d.recipients) (hm : c ∉ f.members) :
    ∃ l, f.left c = some l ∧ l ≤ f.past.length + 1 := by
  have ht := h.tells _ d (getElem?_dispatches.mpr (.inr ⟨rfl, busy⟩))
  obtain ⟨s, hs, _⟩ := (ht.mem_recipients c).mp hc
  have hl : f.left c ≠ none := by
    intro hn
    exact hm ((h.mem_members c).mpr ⟨by rw [hs]; simp, hn⟩)
  obtain ⟨l, hl⟩ := Option.ne_none_iff_exists'.mp hl
  exact ⟨l, hl, length_dispatches_of_busy busy ▸ (h.left_le c l hl).1⟩

theorem Inv.not_mem_of_dismissed {f : Fanout} (h : Inv f) {c : ClientNumber}
    (hc : c ∈ f.audience.roster.dismissed) : c ∉ f.members := by
  intro hm
  obtain ⟨hj, hl⟩ := (h.mem_members c).mp hm
  rcases h.dismissed c hc with hn | ⟨hn, _⟩
  · exact hn hl
  · exact hj hn

theorem Inv.start {f : Fanout} (h : Inv f) (timeout now : Nat) {d : Dispatch}
    (busy : f.current = some d) (more : d.waiting ≠ []) : Inv (f.start timeout now) := by
  have ht := h.tells _ d (getElem?_dispatches.mpr (.inr ⟨rfl, busy⟩))
  obtain ⟨c, cs, hw⟩ := List.exists_cons_of_ne_nil more
  have hev : d.everyone = c :: (cs ++ d.begun.map (·.client) ++ d.ended.map (·.1)) := by
    simp [Dispatch.everyone, hw]
  simp only [Fanout.start, busy]
  rcases d.start_cases f.audience timeout now hw with ⟨he, hskip⟩ | ⟨k, due, hk, _, he⟩
  · rw [he, Fanout.proceed, note_same]
    refine h.proceed busy rfl (fun _ ↦ Iff.rfl) ?_ (fun e k hk ↦ ⟨k, hk, by simp⟩) rfl
      (List.Subset.refl _)
    have hnew : ({ d with waiting := cs } : Dispatch).everyone =
        cs ++ d.begun.map (·.client) ++ d.ended.map (·.1) := rfl
    refine ⟨ht.mem_recipients, ?_, ?_, ?_, ht.failed⟩
    · rw [hnew]
      exact (List.nodup_cons.mp (hev ▸ ht.nodup)).2
    · rw [hnew]
      exact fun e hm ↦ ht.subset (hev ▸ List.mem_cons_of_mem c hm)
    · intro e hr hn
      by_cases hec : e = c
      · subst hec
        obtain ⟨s, hs, _⟩ := (ht.mem_recipients e).mp hr
        have hd := hskip.resolve_left (h.known e s hs)
        exact h.left_of_recipient busy hr (h.not_mem_of_dismissed hd)
      · apply ht.passed e hr
        intro hm
        apply hn
        rw [hev] at hm
        exact hnew ▸ (List.mem_cons.mp hm).resolve_left hec
  · rw [he, Fanout.proceed, Audience.modify_roster, note_same]
    refine h.proceed busy (by simp) ?_ ?_ ?_ rfl (List.Subset.refl _)
    · intro e
      rw [Audience.client?_modify]
      split <;> simp
    · have hp := d.everyone_start
        ⟨c, due, ((k.outlet k.attempts d.payload).within timeout).2⟩ hw
      refine ⟨ht.mem_recipients, hp.nodup_iff.mpr ht.nodup,
        fun e hm ↦ ht.subset (hp.mem_iff.mp hm), ?_, ht.failed⟩
      intro e hr hn
      exact ht.passed e hr fun hm ↦ hn (hp.mem_iff.mpr hm)
    · intro e k' hk'
      rw [Audience.client?_modify] at hk'
      split at hk'
      · obtain ⟨k₀, hk₀, rfl⟩ := Option.map_eq_some_iff.mp hk'
        exact ⟨k₀, hk₀, by simp⟩
      · exact ⟨k', hk', by simp⟩

theorem Tells.settle {joined left : ClientNumber → Option Nat} {i : Nat} {d : Dispatch} {leg : Leg}
    (h : Tells joined left i d) (hl : leg ∈ d.begun) (b : Bool)
    (hb : b = false → ∃ l, left leg.client = some l ∧ l ≤ i + 1) :
    Tells joined left i { d with
      begun := d.begun.filter (· ≠ leg)
      ended := d.ended ++ [(leg.client, b)] } := by
  have hp := d.everyone_settle h.nodup hl b
  refine ⟨h.mem_recipients, hp.nodup_iff.mpr h.nodup, fun c hm ↦ h.subset (hp.mem_iff.mp hm),
    fun c hr hn ↦ h.passed c hr fun hm ↦ hn (hp.mem_iff.mpr hm), ?_⟩
  intro c hc
  rcases List.mem_append.mp hc with hc | hc
  · exact h.failed c hc
  · obtain ⟨rfl, rfl⟩ := Prod.mk.inj (List.mem_singleton.mp hc)
    exact hb rfl

theorem Inv.settle {f : Fanout} (h : Inv f) {d : Dispatch} {leg : Leg} (busy : f.current = some d)
    (underway : leg ∈ d.begun) : Inv (f.settle leg) := by
  simp only [Fanout.settle, busy]
  have ht := h.tells _ d (getElem?_dispatches.mpr (.inr ⟨rfl, busy⟩))
  have hsub : d.ended ⊆ d.ended ++ [(leg.client, leg.success)] :=
    List.subset_append_left _ _
  cases hs : leg.success with
  | true =>
    rw [d.settle_of_success f.audience hs, Fanout.proceed, Audience.modify_roster, note_same]
    refine h.proceed busy (by simp) ?_ (ht.settle underway true (by simp)) ?_ rfl
      (hs ▸ hsub)
    · intro e
      rw [Audience.client?_modify]
      split <;> simp
    · intro e k hk
      rw [Audience.client?_modify] at hk
      split at hk
      · rename_i he
        obtain ⟨k₀, hk₀, rfl⟩ := Option.map_eq_some_iff.mp hk
        have hn := Dispatch.not_ended_of_begun ht.nodup underway true
        exact ⟨k₀, hk₀, by simp [he, hn]⟩
      · rename_i he
        refine ⟨k, hk, ?_⟩
        simp only [List.mem_append, List.mem_singleton, Prod.mk.injEq, he, false_and, or_false,
          and_not_self, if_false, List.append_nil]
  | false =>
    rw [d.settle_of_failure f.audience hs]
    have hn := h.note (h.fits_leave leg.client)
    have hc : leg.client ∈ d.recipients :=
      ht.subset (Dispatch.mem_everyone.mpr (.inr (.inl ⟨leg, underway, rfl⟩)))
    have hm : leg.client ∉ (f.note (f.audience.roster.leave leg.client).1).members := by
      change leg.client ∉ (f.audience.roster.leave leg.client).1.members
      simp [Roster.leave_members]
    have ht' := hn.tells _ d (getElem?_dispatches.mpr (.inr ⟨rfl, busy⟩))
    refine hn.proceed busy rfl (fun _ ↦ Iff.rfl)
      (ht'.settle underway false fun _ ↦ hn.left_of_recipient busy hc hm) ?_ rfl
      (hs ▸ hsub)
    intro e k hk
    refine ⟨k, hk, ?_⟩
    simp only [List.mem_append, List.mem_singleton, Prod.mk.injEq, Bool.true_eq_false, and_false,
      or_false, and_not_self, if_false, List.append_nil]

theorem Inv.finish {f : Fanout} (h : Inv f) {d : Dispatch} (busy : f.current = some d)
    (allOver : d.isOver = true) : Inv f.finish := by
  have hd := f.dispatches_finish
  refine ⟨h.nodup, h.known, h.mem_members, hd ▸ h.joined_le, hd ▸ h.left_le, h.dismissed,
    hd ▸ h.tells, ?_, ?_⟩
  · intro e he
    simp only [Fanout.finish, dispatches, busy, Option.toList_some, List.mem_append,
      List.mem_singleton] at he
    rcases he with he | rfl
    · exact h.allOver e he
    · exact allOver
  · intro c k hk
    rw [h.received c k hk, delivered, delivered, hd]

theorem Inv.step {timeout : Nat} {f g : Fanout} (h : Inv f) (hs : Step timeout f g) : Inv g := by
  cases hs with
  | create o => exact h.create o
  | enter c known new => exact h.note (h.fits_enter known new)
  | remove c => exact h.note (h.fits_remove c)
  | drain => exact h.note (fits_drain f)
  | sealAndDrain => exact h.note (fits_sealAndDrain f)
  | dismiss c gone => exact h.note (h.fits_dismiss gone)
  | begin payload idle => exact h.begin payload idle
  | start now busy more => exact h.start timeout now busy more
  | settle leg busy underway => exact h.settle busy underway
  | finish busy allOver => exact h.finish busy allOver

theorem Reachable.inv {timeout : Nat} {f : Fanout} (h : Reachable timeout f) : Inv f := by
  induction h with
  | refl => exact inv_empty
  | tail _ hs ih => exact ih.step hs

end Fanout

end ChangeRelay
