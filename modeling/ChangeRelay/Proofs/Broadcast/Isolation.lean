import ChangeRelay.Proofs.Broadcast.Schedule

namespace ChangeRelay

namespace Outlet

variable (o : Outlet) (timeout : Nat)

def accepts (earlier : List String) (payload : String) : Bool :=
  ((o earlier payload).within timeout).2

/-- How many of the payloads are written in time, one after another, until one is not. -/
def streak : List String → List String → Nat
  | _, [] => 0
  | earlier, p :: ps => if o.accepts timeout earlier p then streak (earlier ++ [p]) ps + 1 else 0

theorem streak_eq {earlier ps : List String} {e : Nat} (he : e ≤ ps.length)
    (taken : ∀ i p, i < e → ps[i]? = some p → o.accepts timeout (earlier ++ ps.take i) p = true)
    (refused : ∀ p, ps[e]? = some p → o.accepts timeout (earlier ++ ps.take e) p = false) :
    o.streak timeout earlier ps = e := by
  induction ps generalizing earlier e with
  | nil => exact (Nat.le_zero.mp he).symm
  | cons p ps ih =>
    have happend (i : Nat) : earlier ++ (p :: ps).take (i + 1) = (earlier ++ [p]) ++ ps.take i := by
      simp
    cases e with
    | zero =>
      have hp : o.accepts timeout earlier p = false := by simpa using refused p rfl
      simp [streak, hp]
    | succ e =>
      have hp : o.accepts timeout earlier p = true := by
        simpa using taken 0 p (Nat.succ_pos e) rfl
      have hrest : o.streak timeout (earlier ++ [p]) ps = e := by
        apply ih (Nat.le_of_succ_le_succ he)
        · intro i q hi hq
          exact happend i ▸ taken (i + 1) q (Nat.succ_lt_succ hi) hq
        · intro q hq
          exact happend e ▸ refused q hq
      simp [streak, hp, hrest]

end Outlet

namespace Dispatch

theorem not_ended_of_waiting {d : Dispatch} (h : d.everyone.Nodup) {c : ClientNumber}
    (hw : c ∈ d.waiting) (b : Bool) : (c, b) ∉ d.ended := by
  intro hb
  have hd := (List.nodup_append.mp h).2.2
  exact hd c (List.mem_append_left _ hw) c (List.mem_map_of_mem (f := (·.1)) hb) rfl

theorem mem_evicted_iff {d : Dispatch} (h : d.everyone.Nodup) {c : ClientNumber}
    (hc : c ∈ d.recipients) : c ∈ d.report.evicted ↔ (c, false) ∈ d.ended := by
  refine ⟨d.mem_evicted, ?_⟩
  intro hend
  obtain ⟨before, after, hsplit⟩ := List.append_of_mem hend
  have hn : (d.ended.map (·.1)).Nodup := (List.nodup_append.mp h).2.1
  rw [hsplit, List.map_append] at hn
  have hlookup : d.ended.lookup c = some false := by
    rw [List.lookup_eq_some_iff]
    refine ⟨before, after, hsplit, ?_⟩
    intro p hp
    have := (List.nodup_append.mp hn).2.2 p.1 (List.mem_map_of_mem hp) c List.mem_cons_self
    simpa using this.symm
  simp [report, hc, hlookup]

structure Judged (timeout : Nat) (o : Outlet) (c : ClientNumber) (earlier : List String)
    (d : Dispatch) : Prop where
  begun : ∀ leg ∈ d.begun, leg.client = c → leg.success = o.accepts timeout earlier d.payload
  ended : ∀ b, (c, b) ∈ d.ended → b = o.accepts timeout earlier d.payload

theorem Judged.settle {timeout : Nat} {o : Outlet} {c : ClientNumber} {earlier : List String}
    {d : Dispatch} (h : d.Judged timeout o c earlier) {leg : Leg} (hl : leg ∈ d.begun) :
    ({ d with
      begun := d.begun.filter (· ≠ leg)
      ended := d.ended ++ [(leg.client, leg.success)] } : Dispatch).Judged timeout o c earlier := by
  refine ⟨fun leg' hl' ↦ h.begun leg' (List.mem_filter.mp hl').1, ?_⟩
  intro b hb
  rcases List.mem_append.mp hb with hb | hb
  · exact h.ended b hb
  · obtain ⟨rfl, rfl⟩ := Prod.mk.inj (List.mem_singleton.mp hb)
    exact h.begun leg hl rfl

end Dispatch

namespace Fanout

open Relation (ReflTransGen)

def Evicts (f : Fanout) (c : ClientNumber) (i : Nat) : Prop :=
  ∃ d, f.dispatches[i]? = some d ∧ c ∈ d.report.evicted

def offered (f : Fanout) (c : ClientNumber) : List String :=
  (f.dispatches.filter fun d ↦ c ∉ d.waiting).map (·.payload)

/-- A client that was in before the first dispatch and has left only if a delivery failed. All its
deliveries are as its far end has them. -/
structure Alone (timeout : Nat) (o : Outlet) (f : Fanout) (c : ClientNumber) (k : Client) :
    Prop where
  client : f.audience.client? c = some k
  outlet : k.outlet = o
  joined : f.joined c = some 0
  attempts : f.left c = none → k.attempts = f.offered c
  left : f.left c ≠ none → ∃ d ∈ f.dispatches, (c, false) ∈ d.ended
  judged : ∀ i d, f.dispatches[i]? = some d →
    Dispatch.Judged timeout o c (f.payloads.take i) d

variable {timeout : Nat} {o : Outlet} {f g : Fanout} {c : ClientNumber} {k : Client} {d : Dispatch}

theorem getElem?_payloads {i : Nat} {p : String} (h : f.payloads[i]? = some p) :
    ∃ d, f.dispatches[i]? = some d ∧ d.payload = p := by
  rw [payloads, List.getElem?_map, Option.map_eq_some_iff] at h
  exact h

theorem payloads_take_past (busy : f.current = some d) :
    f.payloads.take f.past.length = f.past.map (·.payload) := by
  rw [payloads, dispatches_of_busy busy, List.map_append, List.take_append_of_le_length (by simp),
    List.take_of_length_le (by simp)]

theorem Inv.filter_past (h : Inv f) (c : ClientNumber) :
    (f.past.filter fun d ↦ c ∉ d.waiting) = f.past := by
  rw [List.filter_eq_self]
  intro d hd
  have ho := h.allOver d hd
  simp only [Dispatch.isOver, Bool.and_eq_true, List.isEmpty_iff] at ho
  simp [ho.1]

theorem Inv.offered_of_busy (h : Inv f) (busy : f.current = some d) (c : ClientNumber) :
    f.offered c = f.past.map (·.payload) ++ if c ∈ d.waiting then [] else [d.payload] := by
  rw [offered, dispatches_of_busy busy, List.filter_append, List.map_append, h.filter_past]
  by_cases hc : c ∈ d.waiting <;> simp [hc]

theorem Inv.nodup_waiting (h : Inv f) (busy : f.current = some d) : d.waiting.Nodup := by
  have ht := h.tells _ d (getElem?_dispatches.mpr (.inr ⟨rfl, busy⟩))
  exact (List.nodup_append.mp (List.nodup_append.mp ht.nodup).1).1

theorem Reachable.attempts_eq_nil (h : Reachable timeout f) (hf : f.dispatches = [])
    (hk : f.audience.client? c = some k) : k.attempts = [] := by
  induction h generalizing k with
  | refl => simp [empty, Audience.empty, Audience.client?] at hk
  | @tail f g _ hs ih =>
    have hnil : f.dispatches = [] := by
      have hle := hs.length_le
      rw [hf, List.length_nil] at hle
      exact List.eq_nil_of_length_eq_zero (Nat.le_zero.mp hle)
    have hidle (d : Dispatch) : f.current ≠ some d := by
      intro busy
      rw [dispatches_of_busy busy] at hnil
      simp at hnil
    cases hs with
    | create o =>
      rw [Fanout.create, Audience.client?_create] at hk
      split at hk
      · cases hk
        rfl
      · exact ih hnil hk
    | enter c' known new => exact ih hnil hk
    | remove c' => exact ih hnil hk
    | drain => exact ih hnil hk
    | sealAndDrain => exact ih hnil hk
    | dismiss c' gone => exact ih hnil hk
    | begin payload idle => simp [dispatches, Fanout.begin] at hf
    | start now busy more => exact absurd busy (hidle _)
    | settle leg busy underway => exact absurd busy (hidle _)
    | finish busy allOver => exact absurd busy (hidle _)

theorem Reachable.alone (h : Reachable timeout f) (hf : f.dispatches = []) (hc : c ∈ f.members)
    (hk : f.audience.client? c = some k) : Alone timeout k.outlet f c k := by
  obtain ⟨hj, hl⟩ := (h.inv.mem_members c).mp hc
  obtain ⟨s, hs⟩ := Option.ne_none_iff_exists'.mp hj
  have hle := h.inv.joined_le c s hs
  rw [hf, List.length_nil] at hle
  refine ⟨hk, rfl, by rw [hs, Nat.le_zero.mp hle], ?_, fun hn ↦ absurd hl hn, ?_⟩
  · intro _
    rw [h.attempts_eq_nil hf hk, offered, hf]
    rfl
  · intro i d hd
    rw [hf] at hd
    cases hd

theorem Alone.mem_members (h : Alone timeout o f c k) (hinv : Inv f) :
    c ∈ f.members ↔ f.left c = none := by
  rw [hinv.mem_members, h.joined]
  simp

theorem Alone.not_left_of_waiting (h : Alone timeout o f c k) (hinv : Inv f)
    (busy : f.current = some d) (hw : c ∈ d.waiting) : f.left c = none := by
  have hcur := getElem?_dispatches.mpr (.inr ⟨rfl, busy⟩)
  have ht := hinv.tells _ d hcur
  by_contra hleft
  obtain ⟨e, he, hend⟩ := h.left hleft
  obtain ⟨i, hi⟩ := List.mem_iff_getElem?.mp he
  rcases getElem?_dispatches.mp hi with hp | ⟨rfl, hc⟩
  · -- Whom an earlier dispatch failed, the one in progress is not for.
    have hlt : i < f.past.length := (List.getElem?_eq_some_iff.mp hp).1
    obtain ⟨l, hl, hle⟩ := (hinv.tells i e hi).failed c hend
    obtain ⟨s, _, _, hlater⟩ :=
      (ht.mem_recipients c).mp (ht.subset (Dispatch.mem_everyone.mpr (.inl hw)))
    have := hlater l hl
    omega
  · cases busy.symm.trans hc
    exact Dispatch.not_ended_of_waiting ht.nodup hw false hend

theorem Alone.not_dismissed_of_waiting (h : Alone timeout o f c k) (hinv : Inv f)
    (busy : f.current = some d) (hw : c ∈ d.waiting) : c ∉ f.audience.roster.dismissed := by
  intro hc
  exact hinv.not_mem_of_dismissed hc ((h.mem_members hinv).mpr (h.not_left_of_waiting hinv busy hw))

theorem Alone.judged_current (h : Alone timeout o f c k) (busy : f.current = some d) :
    d.Judged timeout o c (f.past.map (·.payload)) := by
  rw [← payloads_take_past busy]
  exact h.judged _ d (getElem?_dispatches.mpr (.inr ⟨rfl, busy⟩))

theorem Alone.begin (h : Alone timeout o f c k) (hinv : Inv f) (payload : String)
    (idle : f.current = none) : Alone timeout o (f.begin payload) c k := by
  have hd := dispatches_begin payload idle
  refine ⟨h.client, h.outlet, h.joined, ?_, ?_, ?_⟩
  · intro hl
    have hw : c ∈ (Dispatch.begin f.audience payload).waiting := (h.mem_members hinv).mpr hl
    rw [h.attempts hl, offered, offered, hd, List.filter_append]
    simp [hw]
  · intro hl
    obtain ⟨d, hmem, hend⟩ := h.left hl
    exact ⟨d, hd ▸ List.mem_append_left _ hmem, hend⟩
  · intro i d hi
    have hle : i ≤ f.dispatches.length := by
      have := (List.getElem?_eq_some_iff.mp hi).1
      rw [hd, List.length_append, List.length_singleton] at this
      omega
    have htake : (f.begin payload).payloads.take i = f.payloads.take i := by
      rw [payloads, hd, List.map_append, List.take_append_of_le_length (by simpa using hle)]
      rfl
    rw [htake]
    rw [hd, List.getElem?_append] at hi
    split at hi
    · exact h.judged i d hi
    · rw [List.getElem?_singleton] at hi
      split at hi
      · cases hi
        constructor
        · intro leg hleg
          cases hleg
        · intro b hb
          cases hb
      · cases hi

theorem Alone.turn {d' : Dispatch} {k' : Client} (h : Alone timeout o f c k) (hinv : Inv g)
    (busy : f.current = some d) (past : g.past = f.past) (current : g.current = some d')
    (payload : d'.payload = d.payload) (client : g.audience.client? c = some k')
    (outlet : k'.outlet = k.outlet) (joined : g.joined c = f.joined c)
    (attempts : g.left c = none →
      k'.attempts = f.past.map (·.payload) ++ if c ∈ d'.waiting then [] else [d.payload])
    (left : g.left c ≠ none → f.left c ≠ none ∨ (c, false) ∈ d'.ended)
    (ended : d.ended ⊆ d'.ended)
    (judged : d'.Judged timeout o c (f.past.map (·.payload))) : Alone timeout o g c k' := by
  have hf := dispatches_of_busy busy
  have hg := dispatches_of_busy current
  refine ⟨client, outlet.trans h.outlet, joined.trans h.joined, ?_, ?_, ?_⟩
  · intro hl
    rw [attempts hl, hinv.offered_of_busy current, past, payload]
  · intro hl
    rw [hg, past]
    rcases left hl with hleft | hend
    · obtain ⟨e, he, hend⟩ := h.left hleft
      rw [hf] at he
      rcases List.mem_append.mp he with he | he
      · exact ⟨e, List.mem_append_left _ he, hend⟩
      · rw [List.mem_singleton.mp he] at hend
        exact ⟨d', List.mem_append_right _ List.mem_cons_self, ended hend⟩
    · exact ⟨d', List.mem_append_right _ List.mem_cons_self, hend⟩
  · intro i e hi
    have hsame : g.payloads = f.payloads := by
      rw [payloads, payloads, hf, hg, past, List.map_append, List.map_append]
      simp [payload]
    rw [hsame]
    rcases getElem?_dispatches.mp hi with hp | ⟨rfl, hc⟩
    · exact h.judged i e (getElem?_dispatches.mpr (.inl (past ▸ hp)))
    · cases current.symm.trans hc
      rw [past, payloads_take_past busy]
      exact judged

theorem Alone.attempts_of_busy (h : Alone timeout o f c k) (hinv : Inv f)
    (busy : f.current = some d) (hl : f.left c = none) :
    k.attempts = f.past.map (·.payload) ++ if c ∈ d.waiting then [] else [d.payload] :=
  (h.attempts hl).trans (hinv.offered_of_busy busy c)

theorem Alone.start (h : Alone timeout o f c k) (hinv : Inv f) (now : Nat)
    (busy : f.current = some d) (more : d.waiting ≠ []) :
    ∃ k', Alone timeout o (f.start timeout now) c k' := by
  obtain ⟨b, bs, hw⟩ := List.exists_cons_of_ne_nil more
  have hg := hinv.start timeout now busy more
  have hjudged := h.judged_current busy
  have hfirst (hc : c = b) : c ∈ d.waiting := by simp [hw, hc]
  have hwait (hc : c ≠ b) : c ∈ bs ↔ c ∈ d.waiting := by simp [hw, hc]
  simp only [Fanout.start, busy] at hg ⊢
  rcases d.start_cases f.audience timeout now hw with ⟨he, hskip⟩ | ⟨k', due, hk', _, he⟩
  · rw [he, proceed, note_same] at hg ⊢
    have hne : c ≠ b := by
      intro hc
      rcases hskip with hnone | hdismissed
      · rw [← hc, h.client] at hnone
        cases hnone
      · exact h.not_dismissed_of_waiting hinv busy (hfirst hc) (hc ▸ hdismissed)
    refine ⟨k, h.turn hg busy rfl rfl rfl h.client rfl rfl ?_ .inl (List.Subset.refl _) ?_⟩
    · intro hl
      simp only [hwait hne]
      exact h.attempts_of_busy hinv busy hl
    · exact ⟨hjudged.begun, hjudged.ended⟩
  · rw [he, proceed, Audience.modify_roster, note_same] at hg ⊢
    by_cases hc : c = b
    · subst hc
      cases h.client.symm.trans hk'
      have hearlier : k.attempts = f.past.map (·.payload) := by
        have hin := h.not_left_of_waiting hinv busy (hfirst rfl)
        simpa [hw] using h.attempts_of_busy hinv busy hin
      refine ⟨{ k with attempts := k.attempts ++ [d.payload] }, h.turn hg busy rfl rfl rfl ?_ rfl
        rfl ?_ .inl (List.Subset.refl _) ⟨?_, hjudged.ended⟩⟩
      · rw [Audience.client?_modify, if_pos rfl, h.client]
        rfl
      · intro _
        have honce : c ∉ bs := (List.nodup_cons.mp (hw ▸ hinv.nodup_waiting busy)).1
        simp [hearlier, honce]
      · intro leg hleg hlc
        rcases List.mem_append.mp hleg with hleg | hleg
        · exact hjudged.begun leg hleg hlc
        · rw [List.mem_singleton.mp hleg, h.outlet, hearlier]
          rfl
    · refine ⟨k, h.turn hg busy rfl rfl rfl ?_ rfl rfl ?_ .inl (List.Subset.refl _)
        ⟨?_, hjudged.ended⟩⟩
      · rw [Audience.client?_modify, if_neg hc, h.client]
      · intro hl
        simp only [hwait hc]
        exact h.attempts_of_busy hinv busy hl
      · intro leg hleg hlc
        rcases List.mem_append.mp hleg with hleg | hleg
        · exact hjudged.begun leg hleg hlc
        · rw [List.mem_singleton.mp hleg] at hlc
          exact absurd hlc.symm hc

theorem Alone.settle (h : Alone timeout o f c k) (hinv : Inv f) {leg : Leg}
    (busy : f.current = some d) (underway : leg ∈ d.begun) :
    ∃ k', Alone timeout o (f.settle leg) c k' := by
  have hg := hinv.settle busy underway
  have hjudged := (h.judged_current busy).settle underway
  have hsub : d.ended ⊆ d.ended ++ [(leg.client, leg.success)] := List.subset_append_left _ _
  simp only [Fanout.settle, busy] at hg ⊢
  cases hs : leg.success with
  | true =>
    rw [hs] at hjudged hsub
    rw [d.settle_of_success f.audience hs, proceed, Audience.modify_roster, note_same] at hg ⊢
    obtain ⟨k', hk', ho, ha⟩ : ∃ k', (f.audience.modify leg.client fun k ↦
        { k with received := k.received ++ [d.payload] }).client? c = some k' ∧
        k'.outlet = k.outlet ∧ k'.attempts = k.attempts := by
      rw [Audience.client?_modify, h.client]
      split
      · exact ⟨_, rfl, rfl, rfl⟩
      · exact ⟨k, rfl, rfl, rfl⟩
    refine ⟨k', h.turn hg busy rfl rfl rfl hk' ho rfl ?_ .inl hsub hjudged⟩
    intro hl
    have hall := h.attempts_of_busy hinv busy hl
    exact ha.trans hall
  | false =>
    rw [hs] at hjudged hsub
    rw [d.settle_of_failure f.audience hs] at hg ⊢
    -- The failure of somebody else leaves the client where it is.
    have hmem : c ∈ (f.audience.roster.leave leg.client).1.members ↔
        c ∈ f.members ∧ c ≠ leg.client := by
      simp [Roster.leave_members, members]
    refine ⟨k, h.turn hg busy rfl rfl rfl h.client rfl ?_ ?_ ?_ hsub hjudged⟩
    · exact if_neg fun hn ↦ hn.2 (hmem.mp hn.1).1
    · intro hl
      apply h.attempts_of_busy hinv busy
      change (if c ∈ _ ∧ c ∉ _ then _ else f.left c) = none at hl
      split at hl
      · cases hl
      · exact hl
    · intro hl
      by_cases hc : c = leg.client
      · exact .inr (hc ▸ List.mem_append_right _ List.mem_cons_self)
      · left
        change (if c ∈ _ ∧ c ∉ _ then _ else f.left c) ≠ none at hl
        rwa [if_neg fun hn ↦ hn.2 (hmem.mpr ⟨hn.1, hc⟩)] at hl

theorem Alone.delivers (h : Alone timeout o f c k) (hinv : Inv f) (hs : Delivers timeout f g) :
    ∃ k', Alone timeout o g c k' := by
  cases hs with
  | begin payload idle => exact ⟨k, h.begin hinv payload idle⟩
  | start now busy more => exact h.start hinv now busy more
  | settle leg busy underway => exact h.settle hinv busy underway
  | finish busy allOver =>
    have hd := f.dispatches_finish
    refine ⟨k, h.client, h.outlet, h.joined, ?_, ?_, ?_⟩
    · rw [offered, hd]
      exact h.attempts
    · rw [hd]
      exact h.left
    · rw [payloads, hd]
      exact h.judged

theorem Alone.run (h : Alone timeout o f c k) (hinv : Inv f)
    (hr : ReflTransGen (Delivers timeout) f g) : ∃ k', Alone timeout o g c k' := by
  induction hr with
  | refl => exact ⟨k, h⟩
  | tail hr hs ih =>
    obtain ⟨k', h'⟩ := ih
    exact h'.delivers (hinv.delivers hr) hs

variable {e : Nat}

theorem Alone.failed_of_left (h : Alone timeout o f c k) (he : f.Served c k 0 e)
    (hl : f.left c ≠ none) : ∃ d, f.dispatches[e]? = some d ∧ (c, false) ∈ d.ended := by
  obtain ⟨d, hd, hend⟩ := h.left hl
  obtain ⟨j, hj⟩ := List.mem_iff_getElem?.mp hd
  exact ⟨d, he.failed j d hj hend ▸ hj, hend⟩

theorem Alone.failed (h : Alone timeout o f c k) (he : f.Served c k 0 e) (idle : f.current = none)
    (hlt : e < f.payloads.length) : ∃ d, f.dispatches[e]? = some d ∧ (c, false) ∈ d.ended := by
  apply h.failed_of_left he
  rw [payloads, List.length_map, length_dispatches_of_idle idle] at hlt
  obtain ⟨l, hl, _⟩ := he.complete e (Nat.le_refl e) hlt
  rw [hl]
  exact Option.some_ne_none l

theorem Alone.streak_eq (h : Alone timeout o f c k) (he : f.Served c k 0 e)
    (idle : f.current = none) : o.streak timeout [] f.payloads = e := by
  have hle : e ≤ f.payloads.length := by
    rw [payloads, List.length_map]
    exact he.le_length
  apply o.streak_eq timeout hle
  · intro i p hi hp
    obtain ⟨d, hd, rfl⟩ := getElem?_payloads hp
    exact ((h.judged i d hd).ended true ((he.delivered i d hd).mpr ⟨Nat.zero_le i, hi⟩)).symm
  · intro p hp
    obtain ⟨d, hd, rfl⟩ := getElem?_payloads hp
    obtain ⟨d', hd', hend⟩ := h.failed he idle (List.getElem?_eq_some_iff.mp hp).1
    cases hd.symm.trans hd'
    exact ((h.judged e d hd).ended false hend).symm

theorem Alone.evicts_iff (h : Alone timeout o f c k) (hinv : Inv f) (he : f.Served c k 0 e)
    (idle : f.current = none) (i : Nat) : f.Evicts c i ↔ i = e ∧ i < f.payloads.length := by
  constructor
  · rintro ⟨d, hd, hev⟩
    have hi : e = i := he.failed i d hd (d.mem_evicted hev)
    refine ⟨hi.symm, ?_⟩
    rw [payloads, List.length_map]
    exact (List.getElem?_eq_some_iff.mp hd).1
  · rintro ⟨rfl, hi⟩
    obtain ⟨d, hd, hend⟩ := h.failed he idle hi
    have ht := hinv.tells i d hd
    have hr : c ∈ d.recipients := ht.subset (Dispatch.mem_everyone_of_ended hend)
    exact ⟨d, hd, (Dispatch.mem_evicted_iff ht.nodup hr).mpr hend⟩

theorem Alone.mem_members_iff (h : Alone timeout o f c k) (hinv : Inv f) (he : f.Served c k 0 e)
    (idle : f.current = none) : c ∈ f.members ↔ e = f.payloads.length := by
  rw [h.mem_members hinv, payloads, List.length_map]
  constructor
  · intro hl
    have hle := he.past_le hl
    rw [← length_dispatches_of_idle idle] at hle
    exact Nat.le_antisymm he.le_length hle
  · intro hall
    by_contra hl
    obtain ⟨d, hd, _⟩ := h.failed_of_left he hl
    have hlt : e < f.dispatches.length := (List.getElem?_eq_some_iff.mp hd).1
    omega

/-- Between dispatches the client has received all up to the first payload that was not written in
time, and the dispatch of that one has removed it. -/
theorem Alone.fate (h : Alone timeout o f c k) (hinv : Inv f) (idle : f.current = none) :
    k.received = f.payloads.take (o.streak timeout [] f.payloads) ∧
      (∀ i, f.Evicts c i ↔ i = o.streak timeout [] f.payloads ∧ i < f.payloads.length) ∧
      (c ∈ f.members ↔ o.streak timeout [] f.payloads = f.payloads.length) := by
  obtain ⟨e, he⟩ := hinv.served h.client h.joined
  rw [h.streak_eq he idle]
  exact ⟨he.received, h.evicts_iff hinv he idle, h.mem_members_iff hinv he idle⟩

/-- A run of the relay, from a roster that was filled before to where all dispatches are over. Only
the relay changes the roster meanwhile. -/
structure Tour (timeout : Nat) (f g : Fanout) : Prop where
  filled : Reachable timeout f
  fresh : f.dispatches = []
  run : ReflTransGen (Delivers timeout) f g
  settled : g.current = none

theorem Tour.alone (h : Tour timeout f g) (hc : c ∈ f.members)
    (hk : f.audience.client? c = some k) : ∃ k', Alone timeout k.outlet g c k' :=
  (h.filled.alone h.fresh hc hk).run h.filled.inv h.run

/-- In two runs with the same payloads, clients whose far ends are the same receive the same
payloads, are removed in the same dispatches and stay in together, whoever else is in. -/
theorem isolated {f' g' : Fanout} {c' : ClientNumber} {k' : Client} (h : Tour timeout f g)
    (h' : Tour timeout f' g') (payloads_eq : g.payloads = g'.payloads) (hc : c ∈ f.members)
    (hc' : c' ∈ f'.members) (hk : f.audience.client? c = some k)
    (hk' : f'.audience.client? c' = some k') (same : k.outlet = k'.outlet) :
    (∃ l l', g.audience.client? c = some l ∧ g'.audience.client? c' = some l' ∧
      l.received = l'.received) ∧
    (∀ i, g.Evicts c i ↔ g'.Evicts c' i) ∧ (c ∈ g.members ↔ c' ∈ g'.members) := by
  obtain ⟨l, hl⟩ := h.alone hc hk
  obtain ⟨l', hl'⟩ := h'.alone hc' hk'
  obtain ⟨hrec, hev, hmem⟩ := hl.fate (h.filled.inv.delivers h.run) h.settled
  obtain ⟨hrec', hev', hmem'⟩ := hl'.fate (h'.filled.inv.delivers h'.run) h'.settled
  rw [← same, ← payloads_eq] at hrec' hev' hmem'
  refine ⟨⟨l, l', hl.client, hl'.client, hrec.trans hrec'.symm⟩, ?_, hmem.trans hmem'.symm⟩
  exact fun i ↦ (hev i).trans (hev' i).symm

def beforeTrial : Fanout := (empty.create (.brokenAfter 1)).enter 1

theorem trial_tour : Tour 5 beforeTrial trial := by
  have h₁ : Reachable 5 (empty.create (.brokenAfter 1)) := .tail .refl (.create _ _)
  refine ⟨h₁.tail (.enter _ 1 (by decide) rfl), rfl, ?_, rfl⟩
  have h₂ : ReflTransGen (Delivers 5) beforeTrial (beforeTrial.begin "a") :=
    .single (.begin _ "a" rfl)
  have h₃ := h₂.tail (.start _ 0 rfl (by decide))
  have h₄ := h₃.tail (.settle _ ⟨1, 0, true⟩ rfl (by decide))
  have h₅ := h₄.tail (.finish _ rfl rfl)
  have h₆ := h₅.tail (.begin _ "b" rfl)
  have h₇ := h₆.tail (.start _ 0 rfl (by decide))
  have h₈ := h₇.tail (.settle _ ⟨1, 0, false⟩ rfl (by decide))
  exact h₈.tail (.finish _ rfl rfl)

def besideStalled : Fanout := (((empty.create .stalled).enter 1).create (.brokenAfter 1)).enter 2

def trialBesideStalled : Fanout :=
  let first := ((besideStalled.begin "a").start 5 0).start 5 0
  let second := ((first.settle ⟨2, 0, true⟩).settle ⟨1, 5, false⟩).finish.begin "b"
  ((second.start 5 5).settle ⟨2, 5, false⟩).finish

theorem trialBesideStalled_tour : Tour 5 besideStalled trialBesideStalled := by
  have h₁ : Reachable 5 (empty.create .stalled) := .tail .refl (.create _ _)
  have h₂ := (h₁.tail (.enter _ 1 (by decide) rfl)).tail (.create _ (.brokenAfter 1))
  refine ⟨h₂.tail (.enter _ 2 (by decide) rfl), rfl, ?_, rfl⟩
  have h₃ : ReflTransGen (Delivers 5) besideStalled (besideStalled.begin "a") :=
    .single (.begin _ "a" rfl)
  have h₄ := h₃.tail (.start _ 0 rfl (by decide))
  have h₅ := h₄.tail (.start _ 0 rfl (by decide))
  have h₆ := h₅.tail (.settle _ ⟨2, 0, true⟩ rfl (by decide))
  have h₇ := h₆.tail (.settle _ ⟨1, 5, false⟩ rfl (by decide))
  have h₈ := h₇.tail (.finish _ rfl rfl)
  have h₉ := h₈.tail (.begin _ "b" rfl)
  have h₁₀ := h₉.tail (.start _ 5 rfl (by decide))
  have h₁₁ := h₁₀.tail (.settle _ ⟨2, 5, false⟩ rfl (by decide))
  exact h₁₁.tail (.finish _ rfl rfl)

/-- The stalled client is removed in the first dispatch, and the other one in the second, as it is
when nobody else is in. -/
theorem isolated_besideStalled :
    trialBesideStalled.Evicts 1 0 ∧ trial.Evicts 1 1 ∧ trialBesideStalled.Evicts 2 1 ∧
      ∃ l, trialBesideStalled.audience.client? 2 = some l ∧ l.received = ["a"] := by
  obtain ⟨⟨l, l', hl, hl', hrec⟩, hev, -⟩ := isolated trial_tour trialBesideStalled_tour rfl
    (show 1 ∈ beforeTrial.members by decide) (show 2 ∈ besideStalled.members by decide) rfl rfl rfl
  have htrial : trial.Evicts 1 1 := ⟨_, rfl, by decide⟩
  refine ⟨⟨_, rfl, by decide⟩, htrial, (hev 1).mp htrial, l', hl', ?_⟩
  cases hl
  exact hrec.symm

end Fanout

end ChangeRelay
