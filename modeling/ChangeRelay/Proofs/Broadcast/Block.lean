import ChangeRelay.Proofs.Broadcast.Fanout
import Mathlib.Data.Nat.Find

namespace ChangeRelay.Fanout

theorem filter_eq_take_drop {α : Type} (p : α → Bool) (xs : List α) (s e : Nat)
    (h : ∀ i x, xs[i]? = some x → (p x = true ↔ s ≤ i ∧ i < e)) :
    xs.filter p = (xs.drop s).take (e - s) := by
  induction xs generalizing s e with
  | nil => simp
  | cons x xs ih =>
    have h₀ := h 0 x rfl
    have hs (i : Nat) (y : α) (hy : xs[i]? = some y) : p y = true ↔ s ≤ i + 1 ∧ i + 1 < e :=
      h (i + 1) y (by simpa using hy)
    cases s with
    | zero =>
      cases e with
      | zero =>
        have hx : (x :: xs).filter p = [] := by
          rw [List.filter_eq_nil_iff]
          intro y hy hp
          obtain ⟨i, hi⟩ := List.mem_iff_getElem?.mp hy
          exact absurd ((h i y hi).mp hp).2 (Nat.not_lt_zero i)
        rw [hx]
        rfl
      | succ e =>
        rw [List.filter_cons_of_pos (h₀.mpr ⟨Nat.zero_le 0, Nat.succ_pos e⟩),
          ih 0 e fun i y hy ↦ (hs i y hy).trans (by omega)]
        rfl
    | succ s =>
      rw [List.filter_cons_of_neg (fun hp ↦ absurd (h₀.mp hp).1 (Nat.not_succ_le_zero s)),
        ih s (e - 1) fun i y hy ↦ (hs i y hy).trans (by omega), List.drop_succ_cons,
        Nat.sub_sub, Nat.add_comm 1 s]

variable {f : Fanout} {c : ClientNumber} {s i : Nat} {d : Dispatch}

theorem Inv.delivered_or_left (h : Inv f) (hs : f.joined c = some s) (hi : f.past[i]? = some d)
    (hsi : s ≤ i) : (c, true) ∈ d.ended ∨ ∃ l, f.left c = some l ∧ l ≤ i + 1 := by
  have ht := h.tells i d (getElem?_dispatches.mpr (.inl hi))
  by_cases hr : c ∈ d.recipients
  · by_cases hev : c ∈ d.everyone
    · have ho := h.allOver d (List.mem_of_getElem? hi)
      simp only [Dispatch.isOver, Bool.and_eq_true, List.isEmpty_iff] at ho
      rw [Dispatch.mem_everyone, ho.1, ho.2] at hev
      rcases hev with hw | ⟨leg, hl, _⟩ | ⟨b, hb⟩
      · cases hw
      · cases hl
      · cases b with
        | true => exact .inl hb
        | false => exact .inr (ht.failed c hb)
    · exact .inr (ht.passed c hr hev)
  · right
    by_contra hn
    push Not at hn
    exact hr ((ht.mem_recipients c).mpr ⟨s, hs, hsi, fun l hl ↦ by have := hn l hl; omega⟩)

theorem Inv.bounds_of_ended (h : Inv f) (hs : f.joined c = some s)
    (hi : f.dispatches[i]? = some d) {b : Bool} (hb : (c, b) ∈ d.ended) :
    s ≤ i ∧ ∀ l, f.left c = some l → i < l := by
  have ht := h.tells i d hi
  obtain ⟨s', hs', hle, hl⟩ :=
    (ht.mem_recipients c).mp (ht.subset (Dispatch.mem_everyone_of_ended hb))
  rw [hs] at hs'
  cases hs'
  exact ⟨hle, hl⟩

theorem Inv.delivered_before (h : Inv f) (hs : f.joined c = some s)
    (hi : f.dispatches[i]? = some d) {b : Bool} (hb : (c, b) ∈ d.ended) {j : Nat} (hsj : s ≤ j)
    (hj : j < i) : ∃ d', f.dispatches[j]? = some d' ∧ (c, true) ∈ d'.ended := by
  have hp : j < f.past.length := by
    have hlt : i < f.dispatches.length := (List.getElem?_eq_some_iff.mp hi).1
    have hle : f.dispatches.length ≤ f.past.length + 1 := by
      unfold dispatches
      cases f.current <;> simp
    omega
  have he := List.getElem?_eq_getElem hp
  refine ⟨_, getElem?_dispatches.mpr (.inl he), ?_⟩
  rcases h.delivered_or_left hs he hsj with hd | ⟨l, hl, hle⟩
  · exact hd
  · have := (h.bounds_of_ended hs hi hb).2 l hl
    omega

theorem Inv.exists_end (h : Inv f) (hs : f.joined c = some s) :
    ∃ e, s ≤ e ∧ e ≤ f.dispatches.length ∧
      (∀ (i : Nat) (d : Dispatch), f.dispatches[i]? = some d →
        ((c, true) ∈ d.ended ↔ s ≤ i ∧ i < e)) ∧
      ∀ (i : Nat) (d : Dispatch) (b : Bool), f.dispatches[i]? = some d → (c, b) ∈ d.ended →
        i ≤ e := by
  classical
  let missed (i : Nat) : Prop := s ≤ i ∧ ∀ d, f.dispatches[i]? = some d → (c, true) ∉ d.ended
  have hlast : missed f.dispatches.length := by
    refine ⟨h.joined_le c s hs, ?_⟩
    intro d hd
    rw [List.getElem?_eq_none (Nat.le_refl _)] at hd
    cases hd
  have hex : ∃ i, missed i := ⟨_, hlast⟩
  obtain ⟨e, ⟨hse, hmiss⟩, hmin⟩ : ∃ e, missed e ∧ ∀ i < e, ¬missed i :=
    ⟨Nat.find hex, Nat.find_spec hex, fun _ hi ↦ Nat.find_min hex hi⟩
  -- Nothing ended for the client after a dispatch it missed.
  have hbefore (i : Nat) (d : Dispatch) (b : Bool) (hd : f.dispatches[i]? = some d)
      (hend : (c, b) ∈ d.ended) : i ≤ e := by
    apply Nat.not_lt.mp
    intro hlt
    obtain ⟨d', hd', hend'⟩ := h.delivered_before hs hd hend hse hlt
    exact hmiss d' hd' hend'
  refine ⟨e, hse, Nat.not_lt.mp fun hlt ↦ hmin _ hlt hlast, ?_, hbefore⟩
  intro i d hd
  constructor
  · intro hend
    refine ⟨(h.bounds_of_ended hs hd hend).1, ?_⟩
    rcases Nat.lt_or_eq_of_le (hbefore i d true hd hend) with hlt | rfl
    · exact hlt
    · exact absurd hend (hmiss d hd)
  · rintro ⟨hsi, hie⟩
    by_contra hn
    apply hmin i hie
    refine ⟨hsi, ?_⟩
    intro d' hd' hend
    cases hd.symm.trans hd'
    exact hn hend

/-- A client receives the dispatches from number `s` up to and without number `e`. -/
structure Served (f : Fanout) (c : ClientNumber) (k : Client) (s e : Nat) : Prop where
  received : k.received = (f.payloads.drop s).take (e - s)
  le : s ≤ e
  le_length : e ≤ f.dispatches.length
  delivered : ∀ i d, f.dispatches[i]? = some d → ((c, true) ∈ d.ended ↔ s ≤ i ∧ i < e)
  failed : ∀ i d, f.dispatches[i]? = some d → (c, false) ∈ d.ended → e = i
  left : ∀ l, f.left c = some l → e ≤ l
  complete : ∀ i, e ≤ i → i < f.past.length → ∃ l, f.left c = some l ∧ l ≤ i + 1

theorem Inv.served (h : Inv f) {k : Client} (hk : f.audience.client? c = some k)
    (hs : f.joined c = some s) : ∃ e, f.Served c k s e := by
  obtain ⟨e, hse, hle, hiff, hbefore⟩ := h.exists_end hs
  refine ⟨e, ⟨?_, hse, hle, hiff, ?_, ?_, ?_⟩⟩
  · rw [h.received c k hk, delivered, payloads, ← List.map_drop, ← List.map_take]
    congr 1
    apply filter_eq_take_drop
    intro i d hd
    rw [decide_eq_true_eq]
    exact hiff i d hd
  · intro i d hd hend
    apply Nat.le_antisymm _ (hbefore i d false hd hend)
    apply Nat.not_lt.mp
    intro hlt
    have hsi := (h.bounds_of_ended hs hd hend).1
    have htrue := (hiff i d hd).mpr ⟨hsi, hlt⟩
    cases Dispatch.ended_unique (h.tells i d hd).nodup htrue hend
  · intro l hl
    rcases Nat.lt_or_eq_of_le hse with hlt | rfl
    · have hlt' : e - 1 < f.dispatches.length := by omega
      have hd := List.getElem?_eq_getElem hlt'
      have hend := (hiff (e - 1) _ hd).mpr ⟨by omega, by omega⟩
      have := (h.bounds_of_ended hs hd hend).2 l hl
      omega
    · obtain ⟨_, s', hs', hle⟩ := h.left_le c l hl
      rw [hs] at hs'
      cases hs'
      exact hle
  · intro i hei hi
    have hd := List.getElem?_eq_getElem hi
    apply (h.delivered_or_left hs hd (Nat.le_trans hse hei)).resolve_left
    intro hend
    have := ((hiff i _ (getElem?_dispatches.mpr (.inl hd))).mp hend).2
    omega

theorem Served.past_le {k : Client} {e : Nat} (h : f.Served c k s e) (hl : f.left c = none) :
    f.past.length ≤ e := by
  apply Nat.not_lt.mp
  intro hlt
  obtain ⟨l, hleft, _⟩ := h.complete e (Nat.le_refl e) hlt
  rw [hl] at hleft
  cases hleft

theorem Inv.length_delivered (h : Inv f) (hs : f.joined c = some s) :
    ∃ k e, f.Served c k s e ∧ (f.delivered c).length = e - s := by
  obtain ⟨k, hk⟩ := Option.ne_none_iff_exists'.mp (h.known c s hs)
  obtain ⟨e, he⟩ := h.served hk hs
  refine ⟨k, e, he, ?_⟩
  have hle := he.le_length
  rw [← h.received c k hk, he.received, List.length_take, List.length_drop, payloads,
    List.length_map]
  omega

theorem Inv.length_delivered_lt (h : Inv f) (busy : f.current = some d) {leg : Leg}
    (underway : leg ∈ d.begun) :
    ∃ s, f.joined leg.client = some s ∧
      s + (f.delivered leg.client).length < f.dispatches.length := by
  have hd := getElem?_dispatches.mpr (.inr ⟨rfl, busy⟩)
  have ht := h.tells _ d hd
  have hr := ht.subset (Dispatch.mem_everyone.mpr (.inr (.inl ⟨leg, underway, rfl⟩)))
  obtain ⟨s, hs, hle, _⟩ := (ht.mem_recipients leg.client).mp hr
  obtain ⟨k, e, he, hlen⟩ := h.length_delivered hs
  have hnot : ¬(s ≤ f.past.length ∧ f.past.length < e) :=
    mt (he.delivered _ d hd).mpr (Dispatch.not_ended_of_begun ht.nodup underway true)
  have hbusy := length_dispatches_of_busy busy
  have hse := he.le
  exact ⟨s, hs, by omega⟩

theorem Inv.length_delivered_eq (h : Inv f) (idle : f.current = none) (hc : c ∈ f.members) :
    ∃ s, f.joined c = some s ∧ s + (f.delivered c).length = f.dispatches.length := by
  obtain ⟨hj, hl⟩ := (h.mem_members c).mp hc
  obtain ⟨s, hs⟩ := Option.ne_none_iff_exists'.mp hj
  obtain ⟨k, e, he, hlen⟩ := h.length_delivered hs
  have hidle := length_dispatches_of_idle idle
  have hall := he.past_le hl
  have hse := he.le
  have hle := he.le_length
  exact ⟨s, hs, by omega⟩

/-- What later steps leave as it is: who joined when, and the dispatches that are over. -/
structure Extends (f g : Fanout) : Prop where
  joined : ∀ c s, f.joined c = some s → g.joined c = some s
  past : f.past <+: g.past
  known : ∀ c, f.audience.client? c ≠ none → g.audience.client? c ≠ none

theorem Extends.trans {f g h : Fanout} (hfg : Extends f g) (hgh : Extends g h) : Extends f h :=
  ⟨fun c s hs ↦ hgh.joined c s (hfg.joined c s hs), hfg.past.trans hgh.past,
    fun c hc ↦ hgh.known c (hfg.known c hc)⟩

theorem Fits.extends {r : Roster} (hr : Fits f r) : Extends f (f.note r) := by
  refine ⟨?_, List.prefix_rfl, fun c hc ↦ hc⟩
  intro c s hs
  change (if c ∈ r.members ∧ c ∉ f.members then some f.dispatches.length else f.joined c) = some s
  rw [if_neg, hs]
  intro hn
  rw [((hr.members c hn.1).resolve_left hn.2).1] at hs
  cases hs

theorem Inv.extends {timeout : Nat} {g : Fanout} (h : Inv f) (hs : Step timeout f g) :
    Extends f g := by
  cases hs with
  | create o =>
    refine ⟨fun _ _ hs ↦ hs, List.prefix_rfl, ?_⟩
    intro c hc
    rw [Fanout.create, Audience.client?_create]
    split
    · simp
    · exact hc
  | enter c known new => exact (h.fits_enter known new).extends
  | remove c => exact (h.fits_remove c).extends
  | drain => exact (fits_drain f).extends
  | sealAndDrain => exact (fits_sealAndDrain f).extends
  | dismiss c gone => exact (h.fits_dismiss gone).extends
  | begin payload idle => exact ⟨fun _ _ hs ↦ hs, List.prefix_rfl, fun _ hc ↦ hc⟩
  | @start now d busy more =>
    have hr : Fits f (d.start f.audience timeout now).1.roster := by
      rw [Dispatch.start_roster]
      exact h.fits_same
    simp only [Fanout.start, busy]
    exact ⟨hr.extends.joined, List.prefix_rfl, fun c hc ↦
      mt (d.client?_start_eq_none f.audience timeout now c).mp hc⟩
  | @settle leg d busy underway =>
    have hr : Fits f (d.settle f.audience leg).1.roster := by
      rw [Dispatch.settle_roster]
      split
      · exact h.fits_same
      · exact h.fits_leave leg.client
    simp only [Fanout.settle, busy]
    exact ⟨hr.extends.joined, List.prefix_rfl, fun c hc ↦
      mt (d.client?_settle_eq_none f.audience leg c).mp hc⟩
  | finish busy allOver => exact ⟨fun _ _ hs ↦ hs, List.prefix_append _ _, fun _ hc ↦ hc⟩

theorem Step.length_le {timeout : Nat} {g : Fanout} (hs : Step timeout f g) :
    f.dispatches.length ≤ g.dispatches.length := by
  have hlen (x y : Fanout) (hp : y.past = x.past) (hc : y.current.isSome = x.current.isSome) :
      x.dispatches.length = y.dispatches.length := by
    simp only [dispatches, hp, List.length_append]
    cases hx : x.current <;> cases hy : y.current <;> simp [hx, hy] at hc ⊢
  cases hs with
  | create => exact Nat.le_refl _
  | enter => exact Nat.le_refl _
  | remove => exact Nat.le_refl _
  | drain => exact Nat.le_refl _
  | sealAndDrain => exact Nat.le_refl _
  | dismiss => exact Nat.le_refl _
  | begin payload idle => simp [dispatches_begin payload idle]
  | start now busy =>
    refine Nat.le_of_eq (hlen f _ ?_ ?_) <;> simp [Fanout.start, busy, proceed, note]
  | settle leg busy =>
    refine Nat.le_of_eq (hlen f _ ?_ ?_) <;> simp [Fanout.settle, busy, proceed, note]
  | finish busy => rw [dispatches_finish]

theorem Inv.extends_run {timeout : Nat} {g : Fanout} (h : Inv f)
    (hr : Relation.ReflTransGen (Step timeout) f g) : Inv g ∧ Extends f g := by
  induction hr with
  | refl => exact ⟨h, fun _ _ hs ↦ hs, List.prefix_rfl, fun _ hc ↦ hc⟩
  | tail _ hs ih => exact ⟨ih.1.step hs, ih.2.trans (ih.1.extends hs)⟩

theorem Extends.take_payloads {g : Fanout} (h : Extends f g) (hi : i ≤ f.past.length) :
    f.payloads.take i = g.payloads.take i := by
  have hf (x : Fanout) (hx : i ≤ x.past.length) :
      x.payloads.take i = (x.past.take i).map (·.payload) := by
    rw [payloads, dispatches, ← List.map_take, List.take_append_of_le_length hx]
  obtain ⟨ds, hds⟩ := h.past
  rw [hf f hi, hf g (by rw [← hds, List.length_append]; omega), ← hds,
    List.take_append_of_le_length hi]

theorem Inv.received_after_evicted {timeout : Nat} {g : Fanout} (h : Inv f) {k : Client}
    (hk : f.audience.client? c = some k) (hi : f.past[i]? = some d) (hc : c ∈ d.report.evicted)
    (hr : Relation.ReflTransGen (Step timeout) f g) :
    ∃ k', g.audience.client? c = some k' ∧ k'.received = k.received := by
  obtain ⟨hg, hext⟩ := h.extends_run hr
  have hd := getElem?_dispatches.mpr (.inl hi)
  have hend := Dispatch.mem_evicted d hc
  obtain ⟨s, hs, _⟩ := ((h.tells i d hd).mem_recipients c).mp
    ((h.tells i d hd).subset (Dispatch.mem_everyone_of_ended hend))
  obtain ⟨k', hk'⟩ := Option.ne_none_iff_exists'.mp (hext.known c (by rw [hk]; simp))
  obtain ⟨e, he⟩ := h.served hk hs
  obtain ⟨e', he'⟩ := hg.served hk' (hext.joined c s hs)
  have hlt : i < f.past.length := (List.getElem?_eq_some_iff.mp hi).1
  have hgi : g.past[i]? = some d := by
    obtain ⟨ds, hds⟩ := hext.past
    rw [← hds, List.getElem?_append_left hlt, hi]
  have hei : e = i := he.failed i d hd hend
  have hei' : e' = i := he'.failed i d (getElem?_dispatches.mpr (.inl hgi)) hend
  refine ⟨k', hk', ?_⟩
  rw [he.received, he'.received, hei, hei', ← List.drop_take, ← List.drop_take,
    hext.take_payloads (Nat.le_of_lt hlt)]

/-- However joining, leaving and dispatching interleave, a client received nothing while it has not
joined, and from then on one block of the dispatches. It is in the lists of those who were removed
in one dispatch at most, and receives nothing after that, whatever comes. -/
theorem received_block {timeout : Nat} {k : Client} (h : Reachable timeout f)
    (hk : f.audience.client? c = some k) :
    (f.joined c = none ∧ k.received = [] ∨ ∃ s e, f.joined c = some s ∧ f.Served c k s e) ∧
    (∀ (i j : Nat) (d d' : Dispatch), f.dispatches[i]? = some d → f.dispatches[j]? = some d' →
      c ∈ d.report.evicted → c ∈ d'.report.evicted → i = j) ∧
    ∀ (i : Nat) (d : Dispatch), f.past[i]? = some d → c ∈ d.report.evicted →
      ∀ g, Relation.ReflTransGen (Step timeout) f g →
        ∃ k', g.audience.client? c = some k' ∧ k'.received = k.received := by
  have hinv := h.inv
  refine ⟨?_, ?_, fun i d hi hc g hr ↦
    hinv.received_after_evicted hk hi hc hr⟩
  · cases hs : f.joined c with
    | none =>
      exact .inl ⟨rfl, by rw [hinv.received c k hk, hinv.delivered_eq_nil hs]⟩
    | some s =>
      obtain ⟨e, he⟩ := hinv.served hk hs
      exact .inr ⟨s, e, rfl, he⟩
  · intro i j d d' hi hj hc hc'
    have hend := Dispatch.mem_evicted d hc
    obtain ⟨s, hs, _⟩ := ((hinv.tells i d hi).mem_recipients c).mp
      ((hinv.tells i d hi).subset (Dispatch.mem_everyone_of_ended hend))
    obtain ⟨e, he⟩ := hinv.served hk hs
    exact (he.failed i d hi hend).symm.trans (he.failed j d' hj (Dispatch.mem_evicted d' hc'))

/-- A client whose second delivery fails. -/
def trial : Fanout :=
  let first := (((empty.create (.brokenAfter 1)).enter 1).begin "a").start 5 0
  let second := ((first.settle ⟨1, 0, true⟩).finish.begin "b").start 5 0
  (second.settle ⟨1, 0, false⟩).finish

theorem trial_reachable : Reachable 5 trial := by
  have h₁ : Reachable 5 (empty.create (.brokenAfter 1)) := .tail .refl (.create _ _)
  have h₂ := h₁.tail (.enter _ 1 (by decide) rfl)
  have h₃ := h₂.tail (.begin _ "a" rfl)
  have h₄ := h₃.tail (.start _ 0 rfl (by decide))
  have h₅ := h₄.tail (.settle _ ⟨1, 0, true⟩ rfl (by decide))
  have h₆ := h₅.tail (.finish _ rfl rfl)
  have h₇ := h₆.tail (.begin _ "b" rfl)
  have h₈ := h₇.tail (.start _ 0 rfl (by decide))
  have h₉ := h₈.tail (.settle _ ⟨1, 0, false⟩ rfl (by decide))
  exact h₉.tail (.finish _ rfl rfl)

theorem received_block_trial :
    Reachable 5 trial ∧
      trial.audience.client? 1 = some ⟨.brokenAfter 1, ["a", "b"], ["a"]⟩ ∧
      ∃ e, trial.Served 1 ⟨.brokenAfter 1, ["a", "b"], ["a"]⟩ 0 e := by
  refine ⟨trial_reachable, rfl, ?_⟩
  rcases (received_block trial_reachable (c := 1) rfl).1 with ⟨hn, _⟩ | ⟨s, e, hs, he⟩
  · cases hn
  · cases hs
    exact ⟨e, he⟩

end ChangeRelay.Fanout
