import ChangeRelay.Proofs.Broadcast.Tasks

namespace ChangeRelay

open Relation (ReflTransGen)

open Roster (Task)

structure Custody where
  roster : Roster
  tasks : List Task

namespace Custody

def empty : Custody := ⟨.empty, []⟩

def asked (x : Custody) : List ClientNumber := x.tasks.flatMap Task.asked

def letIn (x : Custody) : List ClientNumber := x.tasks.flatMap Task.letIn

def refused (x : Custody) : List ClientNumber := x.tasks.flatMap Task.refused

def taken (x : Custody) : List ClientNumber := x.tasks.flatMap Task.taken

def TakenBy (x : Custody) (i : Nat) (c : ClientNumber) : Prop :=
  ∃ t, x.tasks[i]? = some t ∧ c ∈ t.taken

/-- A client is made, a call begins, or one of those that have begun takes its next step. -/
inductive Step : Custody → Custody → Prop
  | create (x : Custody) : Step x { x with roster := x.roster.create.1 }
  | begin (x : Custody) (t : Task) (h : t.Begins x.roster) :
      Step x { x with tasks := x.tasks ++ [t] }
  | act (r : Roster) (before after : List Task) (t : Task) :
      Step ⟨r, before ++ t :: after⟩ ⟨(t.act r).1, before ++ (t.act r).2 :: after⟩

def Reachable : Custody → Prop := ReflTransGen Step empty

variable {x y : Custody}

theorem run_alone {r r' : Roster} {t t' : Task} (h : Roster.Alone r t r' t')
    (before after : List Task) :
    ReflTransGen Step ⟨r, before ++ t :: after⟩ ⟨r', before ++ t' :: after⟩ := by
  induction h with
  | refl => exact .refl
  | head _ ih => exact .head (.act _ before after _) ih

theorem Step.asked (h : Step x y) : x.asked.Sublist y.asked := by
  cases h with
  | create => exact .refl _
  | begin =>
    simp only [Custody.asked, List.flatMap_append]
    exact List.sublist_append_left _ _
  | act r before after t =>
    simp only [Custody.asked, List.flatMap_append, List.flatMap_cons]
    exact (List.Sublist.refl _).append ((t.act_asked r).append (.refl _))

theorem count_asked (x : Custody) (c : ClientNumber) :
    x.asked.count c = (x.tasks.flatMap Task.pending).count c + x.letIn.count c +
      x.refused.count c := by
  simp only [asked, letIn, refused]
  induction x.tasks with
  | nil => rfl
  | cons t ts ih =>
    simp only [List.flatMap_cons, List.count_append, ih, Task.asked]
    omega

theorem count_split (f : Task → List ClientNumber) (before after : List Task) (t : Task)
    (c : ClientNumber) :
    ((before ++ t :: after).flatMap f).count c =
      (f t).count c + ((before ++ after).flatMap f).count c := by
  simp only [List.flatMap_append, List.flatMap_cons, List.count_append]
  omega

theorem mem_split (f : Task → List ClientNumber) (before after : List Task) (t : Task)
    (c : ClientNumber) :
    c ∈ (before ++ t :: after).flatMap f ↔ c ∈ f t ∨ c ∈ (before ++ after).flatMap f := by
  simp only [List.flatMap_append, List.flatMap_cons, List.mem_append]
  tauto

structure Inv (x : Custody) : Prop where
  nodup : x.roster.members.Nodup
  whole : ∀ c, x.letIn.count c = x.roster.members.count c + x.taken.count c
  fired : ∀ c ∈ x.roster.dismissed, c ∈ x.taken ∨ c ∈ x.refused
  emptied : x.roster.sealed = true → x.roster.members = []
  sane : ∀ t ∈ x.tasks, t.Sane x.roster
  turned : x.asked.Nodup → ∀ c ∈ x.refused, c ∈ x.roster.dismissed

theorem inv_empty : Inv empty where
  nodup := List.nodup_nil
  whole _ := rfl
  fired := nofun
  emptied _ := rfl
  sane := nofun
  turned _ := nofun

theorem Inv.create (h : Inv x) : Inv { x with roster := x.roster.create.1 } where
  nodup := h.nodup
  whole := h.whole
  fired := h.fired
  emptied := h.emptied
  sane t ht := (h.sane t ht).later ⟨fun _ hc ↦ hc, id⟩
  turned := h.turned

theorem Inv.begin (h : Inv x) {t : Task} (ht : t.Begins x.roster) :
    Inv { x with tasks := x.tasks ++ [t] } := by
  have hnone : t.letIn = [] ∧ t.refused = [] ∧ t.taken = [] := by
    cases t with
    | fire | done => cases ht
    | enroll | check | enter | remove | drain | sealAndDrain | list => exact ⟨rfl, rfl, rfl⟩
  obtain ⟨hl, hr, hk⟩ := hnone
  have hletIn : letIn { x with tasks := x.tasks ++ [t] } = x.letIn := by simp [letIn, hl]
  have hrefused : Custody.refused { x with tasks := x.tasks ++ [t] } = x.refused := by
    simp [Custody.refused, hr]
  have htaken : taken { x with tasks := x.tasks ++ [t] } = x.taken := by simp [taken, hk]
  refine ⟨h.nodup, ?_, ?_, h.emptied, ?_, ?_⟩
  · rw [hletIn, htaken]
    exact h.whole
  · rw [hrefused, htaken]
    exact h.fired
  · intro s hs
    rcases List.mem_append.mp hs with hs | hs
    · exact h.sane s hs
    · exact List.mem_singleton.mp hs ▸ ht.sane
  · intro hn
    rw [hrefused]
    exact h.turned (hn.sublist (Step.asked (.begin x t ht)))

theorem Inv.act {r : Roster} {before after : List Task} {t : Task}
    (h : Inv (.mk r (before ++ t :: after))) :
    Inv (.mk (t.act r).1 (before ++ (t.act r).2 :: after)) := by
  have hsane : t.Sane r := h.sane t (by simp)
  have hlater := t.act_later r
  refine ⟨t.act_nodup r h.nodup, ?_, ?_, t.act_emptied r h.emptied, ?_, ?_⟩
  · intro c
    have hw := h.whole c
    have hb := t.act_balance r h.nodup c
    simp only [letIn, taken, count_split] at hw ⊢
    omega
  · intro c hc
    simp only [taken, refused, mem_split]
    have hold : c ∈ r.dismissed → (c ∈ t.taken ∨ c ∈ (before ++ after).flatMap Task.taken) ∨
        c ∈ t.refused ∨ c ∈ (before ++ after).flatMap Task.refused := by
      intro hd
      simpa only [taken, refused, mem_split] using h.fired c hd
    rcases t.act_fired r c hc with hd | hu | hr
    · exact (hold hd).imp (.imp_left (t.act_taken r)) (.imp_left (t.act_turned r))
    · exact .inl (.inl (t.act_taken r (hsane.own c hu)))
    · exact .inr (.inl hr)
  · intro s hs
    have hs' : s = (t.act r).2 ∨ s ∈ before ++ t :: after := by
      simp only [List.mem_append, List.mem_cons] at hs ⊢
      tauto
    rcases hs' with rfl | hs
    · exact hsane.act
    · exact (h.sane s hs).later hlater
  · intro hn c hc
    have hold : (asked ⟨r, before ++ t :: after⟩).Nodup :=
      hn.sublist (Step.asked (.act r before after t))
    have hturned (hr : c ∈ refused ⟨r, before ++ t :: after⟩) : c ∈ (t.act r).1.dismissed :=
      hlater.dismissed (h.turned hold c hr)
    rcases (mem_split _ _ _ _ c).mp hc with hr | hr
    · rcases t.act_refused r c hr with hr | hd | ⟨hp, hm⟩
      · exact hturned ((mem_split _ _ _ _ c).mpr (.inl hr))
      · exact hd
      -- someone who is in was asked for before, and is asked for again
      · have hone := List.nodup_iff_count_le_one.mp hold c
        have hcount := count_asked ⟨r, before ++ t :: after⟩ c
        have hw := h.whole c
        have hp : 0 < t.pending.count c := List.count_pos_iff.mpr hp
        have hm : 0 < r.members.count c := List.count_pos_iff.mpr hm
        rw [count_split] at hcount
        dsimp only at hw
        omega
    · exact hturned ((mem_split _ _ _ _ c).mpr (.inr hr))

theorem Inv.step (h : Inv x) (hs : Step x y) : Inv y := by
  cases hs with
  | create => exact h.create
  | begin _ _ ht => exact h.begin ht
  | act r before after t => exact h.act

theorem Reachable.inv (h : Reachable x) : Inv x := by
  induction h with
  | refl => exact inv_empty
  | tail _ hs ih => exact ih.step hs

theorem Inv.taken_nodup (h : Inv x) (once : x.asked.Nodup) : x.taken.Nodup := by
  rw [List.nodup_iff_count_le_one] at once ⊢
  intro c
  have ho := once c
  have hw := h.whole c
  rw [x.count_asked c] at ho
  omega

theorem Inv.taker_unique (h : Inv x) (once : x.asked.Nodup) {c : ClientNumber} (hc : c ∈ x.taken) :
    ∃! i, x.TakenBy i c := by
  have hdisjoint := (List.nodup_flatMap.mp (h.taken_nodup once)).2
  rw [List.pairwise_iff_getElem] at hdisjoint
  have hapart {i j : Nat} {s t : Task} (hi : x.tasks[i]? = some s) (hj : x.tasks[j]? = some t)
      (hs : c ∈ s.taken) (ht : c ∈ t.taken) : ¬i < j := by
    intro hlt
    obtain ⟨hi, rfl⟩ := List.getElem?_eq_some_iff.mp hi
    obtain ⟨hj, rfl⟩ := List.getElem?_eq_some_iff.mp hj
    exact hdisjoint _ _ _ _ hlt hs ht
  obtain ⟨t, ht, hct⟩ := List.mem_flatMap.mp hc
  obtain ⟨i, hi⟩ := List.mem_iff_getElem?.mp ht
  refine ⟨i, ⟨t, hi, hct⟩, ?_⟩
  rintro j ⟨s, hj, hcs⟩
  have hij := hapart hi hj hct hcs
  have hji := hapart hj hi hcs hct
  omega

/-- Where everyone is who was let in, and whose tokens are fired. -/
structure Kept (x : Custody) : Prop where
  whereabouts : ∀ c ∈ x.letIn, (c ∈ x.roster.members ∧ c ∉ x.taken) ∨
    (c ∉ x.roster.members ∧ ∃! i, x.TakenBy i c)
  takenOnce : ∀ t ∈ x.tasks, t.taken.Nodup
  members : ∀ c ∈ x.roster.members, c ∉ x.roster.dismissed
  settled : (∃ cs, .done (.retired cs) ∈ x.tasks) → (∀ t ∈ x.tasks, t.IsDone) →
    x.roster.members = [] ∧ ∀ c ∈ x.asked, c ∈ x.roster.dismissed

theorem Inv.whereabouts (h : Inv x) (once : x.asked.Nodup) {c : ClientNumber} (hc : c ∈ x.letIn) :
    (c ∈ x.roster.members ∧ c ∉ x.taken) ∨
      (c ∉ x.roster.members ∧ ∃! i, x.TakenBy i c) := by
  have ho := List.nodup_iff_count_le_one.mp once c
  rw [x.count_asked c] at ho
  have hl : 0 < x.letIn.count c := List.count_pos_iff.mpr hc
  have hw := h.whole c
  by_cases hm : c ∈ x.roster.members
  · have hpos : 0 < x.roster.members.count c := List.count_pos_iff.mpr hm
    refine .inl ⟨hm, List.count_eq_zero.mp ?_⟩
    omega
  · have hzero : x.roster.members.count c = 0 := List.count_eq_zero.mpr hm
    refine .inr ⟨hm, h.taker_unique once (List.count_pos_iff.mp ?_)⟩
    omega

theorem Inv.members_unfired (h : Inv x) (once : x.asked.Nodup) {c : ClientNumber}
    (hc : c ∈ x.roster.members) : c ∉ x.roster.dismissed := by
  intro hd
  have ho := List.nodup_iff_count_le_one.mp once c
  rw [x.count_asked c] at ho
  have hw := h.whole c
  have hm : 0 < x.roster.members.count c := List.count_pos_iff.mpr hc
  rcases h.fired c hd with ht | hr
  · have ht : 0 < x.taken.count c := List.count_pos_iff.mpr ht
    omega
  · have hr : 0 < x.refused.count c := List.count_pos_iff.mpr hr
    omega

theorem Inv.settled (h : Inv x) (once : x.asked.Nodup) (hr : ∃ cs, .done (.retired cs) ∈ x.tasks)
    (hdone : ∀ t ∈ x.tasks, t.IsDone) :
    x.roster.members = [] ∧ ∀ c ∈ x.asked, c ∈ x.roster.dismissed := by
  obtain ⟨cs, hcs⟩ := hr
  have hempty := h.emptied ((h.sane _ hcs).seals rfl)
  refine ⟨hempty, ?_⟩
  intro c hc
  obtain ⟨t, ht, hct⟩ := List.mem_flatMap.mp hc
  obtain ⟨a, rfl⟩ := hdone t ht
  rcases List.mem_append.mp hct with hl | hturned
  · have hl : c ∈ x.letIn := List.mem_flatMap.mpr ⟨_, ht, by simpa [Task.pending] using hl⟩
    rcases h.whereabouts once hl with ⟨hm, _⟩ | ⟨_, i, ⟨s, hi, hs⟩, _⟩
    · rw [hempty] at hm
      cases hm
    · have hmem : s ∈ x.tasks := List.mem_of_getElem? hi
      obtain ⟨b, rfl⟩ := hdone s hmem
      exact ((h.sane _ hmem).fired c hs).elim id nofun
  · exact h.turned once c (List.mem_flatMap.mpr ⟨_, ht, hturned⟩)

/-- As long as nobody joins twice, whoever was let in is in, or was taken over by one call and by no
other. -/
theorem kept (h : Reachable x) (once : x.asked.Nodup) : Kept x where
  whereabouts _ := h.inv.whereabouts once
  takenOnce := (List.nodup_flatMap.mp (h.inv.taken_nodup once)).1
  members _ := h.inv.members_unfired once
  settled := h.inv.settled once

/-- The roster is retired while the second client is on its way in: its token was looked at before,
and its turn under the lock comes after. -/
def closing : Custody where
  roster := ⟨2, [], [1, 2], true⟩
  tasks := [.done (.joined 1 true), .done (.joined 2 false), .done (.retired [1]),
    .done (.left 1 false)]

theorem closing_reachable : Reachable closing := by
  have h₀ : Reachable ⟨.empty, [.enroll]⟩ := .tail .refl (.begin empty .enroll trivial)
  have h₁ : Reachable ⟨⟨1, [1], [], false⟩, [.done (.joined 1 true)]⟩ :=
    h₀.trans (run_alone (.head (Roster.alone_check _ 1)) [] [])
  have h₂ : Reachable ⟨⟨2, [1], [], false⟩, [.done (.joined 1 true), .check 2]⟩ :=
    (h₁.tail (.create _)).tail (.begin _ (.check 2) ⟨by decide, by decide⟩)
  have h₃ : Reachable ⟨⟨2, [1], [], false⟩, [.done (.joined 1 true), .enter 2, .sealAndDrain]⟩ :=
    (h₂.tail (.act _ [.done (.joined 1 true)] [] (.check 2))).tail (.begin _ .sealAndDrain trivial)
  have h₄ : Reachable ⟨⟨2, [], [], true⟩,
      [.done (.joined 1 true), .enter 2, .fire (.retired [1]) [1], .remove 1]⟩ :=
    (h₃.tail (.act _ [.done (.joined 1 true), .enter 2] [] .sealAndDrain)).tail
      (.begin _ (.remove 1) trivial)
  have h₅ : Reachable ⟨⟨2, [], [2], true⟩,
      [.done (.joined 1 true), .done (.joined 2 false), .fire (.retired [1]) [1],
        .done (.left 1 false)]⟩ :=
    (h₄.trans (run_alone (Roster.alone_remove _ 1)
      [.done (.joined 1 true), .enter 2, .fire (.retired [1]) [1]] [])).tail
        (.act _ [.done (.joined 1 true)] _ (.enter 2))
  exact h₅.trans (run_alone (Roster.alone_fire _ (.retired [1]) [1])
    [.done (.joined 1 true), .done (.joined 2 false)] [.done (.left 1 false)])

theorem kept_closing :
    Reachable closing ∧ closing.asked.Nodup ∧ Kept closing ∧
      closing.roster.members = [] ∧ ∀ c ∈ closing.asked, c ∈ closing.roster.dismissed :=
  have hkept := kept closing_reachable (by decide)
  ⟨closing_reachable, by decide, hkept, hkept.settled ⟨[1], by simp [closing]⟩
    (by simp [closing, Task.IsDone])⟩

end Custody

end ChangeRelay
