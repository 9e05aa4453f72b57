import ChangeRelay.Proofs.Time.Ticker
import ChangeRelay.Proofs.Viewer.Whole
import ChangeRelay.Viewer.Run

namespace ChangeRelay

namespace Viewer.Reads

def IsPrompt (x : Reads) : Prop := ∀ q ∈ x.toList, q.delay = 0

theorem isPrompt_empty : empty.IsPrompt := by simp [IsPrompt, empty, toList]

theorem isPrompt_head {reads : List Reads} (h : ∀ x ∈ reads, x.IsPrompt) :
    (reads.head?.getD empty).IsPrompt := by
  cases reads with
  | nil => exact isPrompt_empty
  | cons x xs => exact h x List.mem_cons_self

theorem IsPrompt.outcome {x : Reads} (h : x.IsPrompt) : x.outcome.1 = 0 := by
  have hends := x.ends_outcome
  generalize x.outcome = o at hends
  obtain ⟨t, o⟩ := o
  cases hends with
  | failed first =>
    obtain ⟨q, hq, ht, -⟩ := first.earliest.1
    exact ht ▸ h q hq
  | whole answers slowest =>
    obtain ⟨q, hq, ht⟩ := slowest.1
    exact ht ▸ h q hq

def script : Nat → List Reads → List Reads
  | 0, _ => []
  | n + 1, reads => reads.head?.getD empty :: script n reads.tail

end Viewer.Reads

namespace Follower

/-- The multiples of a period from `first` on that are before `stop`, in order. -/
structure Every (period first stop : Nat) (ts : List Nat) : Prop where
  ascending : ts.Pairwise (· < ·)
  mem_iff : ∀ t, t ∈ ts ↔ period ∣ t ∧ first ≤ t ∧ t < stop

namespace Every

variable {p u stop : Nat} {ts : List Nat}

theorem nil (h : stop ≤ u) : Every p u stop [] :=
  ⟨.nil, fun t ↦ iff_of_false List.not_mem_nil fun ht ↦ by omega⟩

theorem cons (hu : p ∣ u) (hp : 0 < p) (h : u < stop) (hts : Every p (u + p) stop ts) :
    Every p u stop (u :: ts) := by
  refine ⟨.cons (fun t ht ↦ ?_) hts.ascending, fun t ↦ ?_⟩
  · have := (hts.mem_iff t).mp ht
    omega
  · rw [List.mem_cons, hts.mem_iff]
    constructor
    · rintro (rfl | ⟨hd, hle, hlt⟩)
      · exact ⟨hu, Nat.le_refl _, h⟩
      · exact ⟨hd, by omega, hlt⟩
    · rintro ⟨hd, hle, hlt⟩
      rcases Nat.eq_or_lt_of_le hle with rfl | hgt
      · exact .inl rfl
      · have := Nat.le_of_dvd (by omega) (Nat.dvd_sub hd hu)
        exact .inr ⟨hd, by omega, hlt⟩

end Every

namespace Run

def deed? (r : Run) : Option (Nat × Link.Action) := r.follower.pending.head?.map (r.now, ·)

/-- What a run does in `n` steps. -/
def deeds : Nat → Run → List (Nat × Link.Action)
  | 0, _ => []
  | n + 1, r => if r.stopped then [] else r.deed?.toList ++ deeds n r.step

def times (a : Link.Action) (ds : List (Nat × Link.Action)) : List Nat :=
  (ds.filter (·.2 = a)).map (·.1)

def sighting? (t : Nat) (x : Viewer.Reads) : Option Sighting :=
  match x.outcome.2 with
  | .ok b => some ⟨t, .disconnected, b⟩
  | .error _ => none

def sightings (ts : List Nat) (xs : List Viewer.Reads) : List Sighting :=
  (ts.zip xs).filterMap fun tx ↦ sighting? tx.1 tx.2

theorem sightings_cons (t : Nat) (ts : List Nat) (x : Viewer.Reads) (xs : List Viewer.Reads) :
    sightings (t :: ts) (x :: xs) = (sighting? t x).toList ++ sightings ts xs := by
  rw [sightings, List.zip_cons_cons, List.filterMap_cons]
  cases sighting? t x <;> rfl

variable {r : Run}

theorem steps_of_stopped (h : r.stopped = true) (n : Nat) : steps n r = r := by
  cases n with
  | zero => rfl
  | succ n => rw [steps, if_pos h]

theorem deeds_of_stopped (h : r.stopped = true) (n : Nat) : deeds n r = [] := by
  cases n with
  | zero => rfl
  | succ n => rw [deeds, if_pos h]

theorem steps_succ (h : r.stopped = false) (n : Nat) : steps (n + 1) r = steps n r.step := by
  rw [steps, if_neg (by simp [h])]

theorem deeds_succ (h : r.stopped = false) (n : Nat) :
    deeds (n + 1) r = r.deed?.toList ++ deeds n r.step := by
  rw [deeds, if_neg (by simp [h])]

theorem perform_openConnection (going : r.now < r.outside.stopAt)
    (unreachable : ∀ c ∈ r.outside.connections, c = none) (rest : List Link.Action) :
    r.perform .openConnection rest =
      { r with
        follower := { r.follower with pending := rest }.opened false
        outside := { r.outside with connections := r.outside.connections.tail } } := by
  have hgoing : ¬r.outside.stopAt ≤ r.now := by omega
  simp only [perform, if_neg hgoing]
  cases hc : r.outside.connections with
  | nil => rfl
  | cons c cs =>
    obtain rfl : c = none := unreachable c (hc ▸ List.mem_cons_self)
    rfl

theorem perform_refresh (prompt : (r.outside.reads.head?.getD .empty).IsPrompt)
    (state : r.follower.link.state = .disconnected) (rest : List Link.Action) :
    r.perform .refresh rest =
      { r with
        follower := { r.follower with
          pending := rest, viewer := r.follower.viewer.refresh (r.outside.reads.head?.getD .empty) }
        outside := { r.outside with reads := r.outside.reads.tail }
        attempts := r.attempts + 1
        seen := r.seen ++ (sighting? r.now (r.outside.reads.head?.getD .empty)).toList } := by
  have helapsed := prompt.outcome
  simp only [perform, sighting?, Viewer.refresh, refreshed, helapsed, Nat.add_zero, state]
  cases (r.outside.reads.head?.getD .empty).outcome.2 with
  | ok b => rfl
  | error f => simp

/-- A run while the link is down and nothing is to be done: the reconnect timer is set to `u`. -/
def atRest (config : Link.Config) (u : Nat) (ticker : Time.Ticker) (now : Nat) (viewer : Viewer)
    (outside : Surroundings) (attempts : Nat) (seen : List Sighting) : Run :=
  ⟨⟨⟨config, .disconnected, true, true⟩, [], some u, some ticker, false, viewer⟩, now, outside, [],
    0, attempts, seen, false⟩

section

variable {config : Link.Config} {u now attempts : Nat} {ticker : Time.Ticker} {viewer : Viewer}
  {outside : Surroundings} {seen : List Sighting}

theorem isDue_some {t : Nat} : isDue now (some t) = true ↔ t ≤ now := by simp [isDue]

theorem step_atRest (hnow : now ≤ outside.stopAt) (hu : now ≤ u) (ht : now ≤ ticker.next) :
    (atRest config u ticker now viewer outside attempts seen).step =
      (atRest config u ticker (min (min outside.stopAt u) ticker.next) viewer outside attempts
        seen).take := by
  have hmoment : max now (min (min outside.stopAt u) ticker.next) =
      min (min outside.stopAt u) ticker.next := by omega
  rw [← hmoment]
  rfl

theorem take_atRest_of_stop (h : outside.stopAt ≤ now) :
    (atRest config u ticker now viewer outside attempts seen).take =
      { atRest config u ticker now viewer outside attempts seen with stopped := true } := if_pos h

theorem go_reconnect (going : now < outside.stopAt) (hu : u ≤ now)
    (unreachable : ∀ c ∈ outside.connections, c = none) (n : Nat) :
    let r := (atRest config u ticker now viewer outside attempts seen).take
    let r' := atRest config (now + Time.toMillis config.reconnectDelay) ticker now viewer
      { outside with connections := outside.connections.tail } attempts seen
    steps (n + 2) r = steps n r' ∧ deeds (n + 2) r =
      [(now, .openConnection), (now, .scheduleReconnect config.reconnectDelay)] ++ deeds n r' := by
  intro r r'
  let dialing : Run := ⟨⟨⟨config, .connecting, true, true⟩, [.openConnection], none, some ticker,
    false, viewer⟩, now, outside, [], 0, attempts, seen, false⟩
  have htake : r = dialing :=
    (if_neg (Nat.not_le.mpr going)).trans (if_pos (isDue_some.mpr hu))
  have hstep : dialing.step = _ := perform_openConnection going unreachable []
  rw [htake, steps_succ rfl, deeds_succ rfl, hstep, steps_succ rfl, deeds_succ rfl]
  exact ⟨rfl, rfl⟩

theorem go_tick (going : now < outside.stopAt) (hu : now < u) (ht : ticker.next ≤ now)
    (prompt : (outside.reads.head?.getD .empty).IsPrompt) (n : Nat) :
    let x := outside.reads.head?.getD .empty
    let r := (atRest config u ticker now viewer outside attempts seen).take
    let r' := atRest config u (ticker.take now) now (viewer.refresh x)
      { outside with reads := outside.reads.tail } (attempts + 1)
      (seen ++ (sighting? now x).toList)
    steps (n + 1) r = steps n r' ∧ deeds (n + 1) r = [(now, .refresh)] ++ deeds n r' := by
  intro x r r'
  let looking : Run := ⟨⟨⟨config, .disconnected, true, true⟩, [.refresh], some u,
    some (ticker.take now), false, viewer⟩, now, outside, [], 0, attempts, seen, false⟩
  have hlater : ¬isDue now (some u) = true := fun h ↦ by have := isDue_some.mp h; omega
  have htake : r = looking :=
    (if_neg (Nat.not_le.mpr going)).trans <| (if_neg hlater).trans <|
      (if_neg Bool.false_ne_true).trans (if_pos (isDue_some.mpr ht))
  have hstep : looking.step = _ := perform_refresh prompt rfl []
  rw [htake, steps_succ rfl, deeds_succ rfl, hstep]
  exact ⟨rfl, rfl⟩

theorem go_start (config : Link.Config) (outside : Surroundings)
    (prompt : (outside.reads.head?.getD .empty).IsPrompt) (n : Nat) :
    let x := outside.reads.head?.getD .empty
    let interval := max config.fallbackInterval Link.leastInterval
    let r' := atRest { config with fallbackInterval := interval }
      (0 + Time.toMillis config.reconnectDelay)
      ⟨0 + Time.toMillis interval, Time.toMillis interval⟩ 0 (Viewer.empty.refresh x)
      { outside with reads := outside.reads.tail } 1 (sighting? 0 x).toList
    steps (n + 3) (start config outside) = steps n r' ∧ deeds (n + 3) (start config outside) =
      [(0, .scheduleReconnect config.reconnectDelay), (0, .startFallback interval),
        (0, .refresh)] ++ deeds n r' := by
  intro x interval r'
  let looking : Run := ⟨⟨⟨{ config with fallbackInterval := interval }, .disconnected, true, true⟩,
    [.refresh], some (0 + Time.toMillis config.reconnectDelay),
    some ⟨0 + Time.toMillis interval, Time.toMillis interval⟩, false, .empty⟩, 0, outside, [], 0, 0,
    [], false⟩
  have hset : (start config outside).step.step = looking := rfl
  have hstep : looking.step = _ := perform_refresh prompt rfl []
  rw [steps_succ rfl, steps_succ rfl, deeds_succ rfl, deeds_succ rfl, hset, steps_succ rfl,
    deeds_succ rfl, hstep]
  exact ⟨rfl, rfl⟩

end

structure InTime (r : Run) (ds : List (Nat × Link.Action)) (r' : Run) (d p dial tick : Nat) :
    Prop where
  stopped : r'.stopped = true
  now : r'.now = r.outside.stopAt
  dials : Every d dial r.outside.stopAt (times .openConnection ds)
  looks : Every p tick r.outside.stopAt (times .refresh ds)
  attempts : r'.attempts = r.attempts + (times .refresh ds).length
  seen : r'.seen = r.seen ++
    sightings (times .refresh ds) (Viewer.Reads.script (times .refresh ds).length r.outside.reads)
  viewer : r'.follower.viewer =
    (Viewer.Reads.script (times .refresh ds).length r.outside.reads).foldl Viewer.refresh
      r.follower.viewer

section

variable {config : Link.Config} {d p u v now now' attempts delay : Nat} {ticker : Time.Ticker}
  {viewer : Viewer} {outside : Surroundings} {seen : List Sighting}
  {ds : List (Nat × Link.Action)} {r' : Run}

theorem InTime.stop (hdial : outside.stopAt ≤ u) (htick : outside.stopAt ≤ v) :
    InTime (atRest config u ticker now viewer outside attempts seen) []
      { atRest config u ticker outside.stopAt viewer outside attempts seen with stopped := true }
      d p u v where
  stopped := rfl
  now := rfl
  dials := .nil hdial
  looks := .nil htick
  attempts := rfl
  seen := (List.append_nil seen).symm
  viewer := rfl

theorem InTime.reconnect {connections : List (Option (List (Nat × Frame)))}
    (h : InTime
      (atRest config (u + d) ticker now' viewer { outside with connections := connections } attempts
        seen) ds r' d p (u + d) v)
    (hd : 0 < d) (hu : d ∣ u) (going : u < outside.stopAt) :
    InTime (atRest config u ticker now viewer outside attempts seen)
      ([(u, .openConnection), (u, .scheduleReconnect delay)] ++ ds) r' d p u v where
  stopped := h.stopped
  now := h.now
  dials := h.dials.cons hu hd going
  looks := h.looks
  attempts := h.attempts
  seen := h.seen
  viewer := h.viewer

structure Looked (v : Nat) (r r₁ : Run) : Prop where
  stopAt : r₁.outside.stopAt = r.outside.stopAt
  reads : r₁.outside.reads = r.outside.reads.tail
  attempts : r₁.attempts = r.attempts + 1
  seen : r₁.seen = r.seen ++ (sighting? v (r.outside.reads.head?.getD .empty)).toList
  viewer : r₁.follower.viewer = r.follower.viewer.refresh (r.outside.reads.head?.getD .empty)

theorem InTime.look {r r₁ : Run} {w : Nat} {es : List (Nat × Link.Action)}
    (h : InTime r₁ ds r' d p u w) (looked : Looked v r r₁) (hw : w = v + p) (hp : 0 < p)
    (hv : p ∣ v) (going : v < r.outside.stopAt)
    (looks : times .refresh (es ++ ds) = v :: times .refresh ds)
    (dials : times .openConnection (es ++ ds) = times .openConnection ds) :
    InTime r (es ++ ds) r' d p u v where
  stopped := h.stopped
  now := h.now.trans looked.stopAt
  dials := by
    rw [dials, ← looked.stopAt]
    exact h.dials
  looks := by
    have hlooks := h.looks
    rw [hw, looked.stopAt] at hlooks
    rw [looks]
    exact hlooks.cons hv hp going
  attempts := by
    rw [h.attempts, looked.attempts, looks, List.length_cons]
    omega
  seen := by
    rw [h.seen, looked.seen, looked.reads, looks, List.append_assoc, ← sightings_cons]
    rfl
  viewer := by
    rw [h.viewer, looked.viewer, looked.reads, looks]
    rfl

theorem inTime_atRest (hdelay : Time.toMillis config.reconnectDelay = d) (hd : 0 < d)
    (hp : 0 < ticker.period) (hu : d ∣ u) (ht : ticker.period ∣ ticker.next)
    (unreachable : ∀ c ∈ outside.connections, c = none) (prompt : ∀ x ∈ outside.reads, x.IsPrompt)
    (hnow : now ≤ outside.stopAt) (hnu : now ≤ u) (hnt : now ≤ ticker.next) {n : Nat}
    (fuel : 3 * (outside.stopAt - u) + 2 * (outside.stopAt - ticker.next) < n) :
    let r := atRest config u ticker now viewer outside attempts seen
    InTime r (deeds n r) (steps n r) d ticker.period u ticker.next := by
  induction n using Nat.strong_induction_on
    generalizing u ticker now viewer outside attempts seen with
  | _ n ih =>
    obtain ⟨n, rfl⟩ := Nat.exists_eq_succ_of_ne_zero (Nat.ne_zero_of_lt fuel)
    intro r
    have hdeeds : deeds (n + 1) r = deeds n r.step := deeds_succ rfl n
    rw [steps_succ rfl, hdeeds, step_atRest hnow hnu hnt]
    by_cases htick : ticker.next < u ∧ ticker.next < outside.stopAt
    · obtain ⟨htu, hts⟩ := htick
      have hmoment : min (min outside.stopAt u) ticker.next = ticker.next := by omega
      have hprompt := Viewer.Reads.isPrompt_head prompt
      have hnext : (ticker.take ticker.next).next = ticker.next + ticker.period :=
        Time.Ticker.take_next_of_le (Nat.le_add_right _ _)
      have hp' : 0 < (ticker.take ticker.next).period := hp
      have hgrid : (ticker.take ticker.next).period ∣ (ticker.take ticker.next).next :=
        hnext ▸ Nat.dvd_add ht (Nat.dvd_refl _)
      obtain ⟨n, rfl⟩ : ∃ k, n = k + 1 := ⟨n - 1, by omega⟩
      rw [hmoment, (go_tick hts htu (Nat.le_refl _) hprompt n).1,
        (go_tick hts htu (Nat.le_refl _) hprompt n).2]
      refine InTime.look (ih n (by omega) hp' hu hgrid unreachable
        (fun x hx ↦ prompt x (List.mem_of_mem_tail hx)) (Nat.le_of_lt hts) (Nat.le_of_lt htu)
        (hnext ▸ Nat.le_add_right _ _) ?_) ⟨rfl, rfl, rfl, rfl, rfl⟩ hnext hp ht hts rfl rfl
      dsimp only
      omega
    · by_cases hus : u < outside.stopAt
      · have hmoment : min (min outside.stopAt u) ticker.next = u := by omega
        obtain ⟨n, rfl⟩ : ∃ k, n = k + 2 := ⟨n - 2, by omega⟩
        rw [hmoment, (go_reconnect hus (Nat.le_refl u) unreachable n).1,
          (go_reconnect hus (Nat.le_refl u) unreachable n).2, hdelay]
        refine InTime.reconnect (ih n (by omega) hp (Nat.dvd_add hu (Nat.dvd_refl _)) ht
          (fun c hc ↦ unreachable c (List.mem_of_mem_tail hc)) prompt (Nat.le_of_lt hus)
          (Nat.le_add_right _ _) (by omega) (by dsimp only; omega)) hd hu hus
      · have hmoment : min (min outside.stopAt u) ticker.next = outside.stopAt := by omega
        rw [hmoment, take_atRest_of_stop (Nat.le_refl _), steps_of_stopped rfl,
          deeds_of_stopped rfl]
        exact .stop (by omega) (by omega)

end

def done (r : Run) : List (Nat × Link.Action) := deeds r.enough r

/-- A run until `stop`, in nanoseconds, with attempts to connect at the period `d` and refreshes at
the period `p`, whatever these come to. -/
structure KeepsRhythm (d p stop : Nat) (r : Run) : Prop where
  stopped : r.finish.stopped = true ∧ r.finish.now = Time.toMillis stop
  looks : (times .refresh r.done).Pairwise (· < ·) ∧
    ∀ t, t ∈ times .refresh r.done ↔ p ∣ t ∧ t * 1_000_000 < stop
  dials : (times .openConnection r.done).Pairwise (· < ·) ∧
    ∀ t, t ∈ times .openConnection r.done ↔ d ∣ t ∧ 0 < t ∧ t * 1_000_000 < stop
  attempts : r.finish.attempts = (times .refresh r.done).length
  seen : r.finish.seen = sightings (times .refresh r.done)
    (Viewer.Reads.script r.finish.attempts r.outside.reads)
  viewer : Viewer.Kept (Viewer.Reads.script r.finish.attempts r.outside.reads)
    r.finish.follower.viewer

theorem inTime_start {d f : Nat} {outside : Surroundings} (hd : 0 < d)
    (hstop : 0 < outside.stopAt) (unreachable : ∀ c ∈ outside.connections, c = none)
    (prompt : ∀ x ∈ outside.reads, x.IsPrompt) :
    let r := start ⟨d * 1_000_000, f * 1_000_000⟩ outside
    InTime r r.done r.finish d (max f 1) d 0 := by
  intro r
  have hinterval : max (f * 1_000_000) Link.leastInterval = max f 1 * 1_000_000 := by
    simp only [Link.leastInterval]
    omega
  have hp : 0 < max f 1 := by omega
  have henough : ∃ n, r.enough = n + 3 ∧ 3 * outside.stopAt + 2 * outside.stopAt < n :=
    ⟨r.enough - 3, by simp only [enough, r, start]; omega, by simp only [enough, r, start]; omega⟩
  obtain ⟨n, hn, hfuel⟩ := henough
  obtain ⟨hgo, hgo'⟩ := go_start ⟨d * 1_000_000, f * 1_000_000⟩ outside
    (Viewer.Reads.isPrompt_head prompt) n
  dsimp only at hgo hgo'
  rw [hinterval, Time.toMillis_mul, Time.toMillis_mul, Nat.zero_add, Nat.zero_add] at hgo hgo'
  rw [done, finish, hn, hgo, hgo']
  have houtside : r.outside = outside := rfl
  have hstops : outside.stopAt = r.outside.stopAt := (congrArg Surroundings.stopAt houtside).symm
  apply InTime.look
  · apply inTime_atRest
    · exact Time.toMillis_mul d
    · exact hd
    · exact hp
    · exact Nat.dvd_refl d
    · exact Nat.dvd_refl _
    · exact unreachable
    · exact fun x hx ↦ prompt x (List.mem_of_mem_tail hx)
    · exact Nat.zero_le _
    · exact Nat.zero_le _
    · exact Nat.zero_le _
    · dsimp only
      omega
  · exact ⟨hstops, rfl, rfl, rfl, rfl⟩
  · exact (Nat.zero_add _).symm
  · exact hp
  · exact Nat.dvd_zero _
  · exact hstop
  · rfl
  · rfl

/-- While every attempt to connect fails at once, and the daemon answers at once, the refreshes are
at the multiples of the fallback interval and the attempts at the positive multiples of the
reconnect delay, up to the end. Every refresh that succeeds is reported with the link down, and the
board is that of the last one. -/
theorem offline_keepsRhythm {d f stop : Nat} {reads : List Viewer.Reads}
    {connections : List (Option (List (Nat × Frame)))} (hd : 0 < d) (hstop : 0 < stop)
    (unreachable : ∀ c ∈ connections, c = none) (prompt : ∀ x ∈ reads, x.IsPrompt) :
    let r := start ⟨d * 1_000_000, f * 1_000_000⟩ ⟨reads, connections, Time.toMillis stop⟩
    KeepsRhythm d (max f 1) stop r := by
  intro r
  have hstop' : 0 < Time.toMillis stop := Time.lt_toMillis_iff.mpr (by omega)
  have h : InTime r r.done r.finish d (max f 1) d 0 := inTime_start hd hstop' unreachable prompt
  have hattempts : r.finish.attempts = (times .refresh r.done).length :=
    h.attempts.trans (Nat.zero_add _)
  have hviewer := h.viewer
  have hseen := h.seen
  rw [← hattempts] at hviewer hseen
  refine ⟨⟨h.stopped, h.now⟩, ⟨h.looks.ascending, fun t ↦ ?_⟩, ⟨h.dials.ascending, fun t ↦ ?_⟩,
    hattempts, hseen.trans (List.nil_append _), ?_⟩
  · rw [h.looks.mem_iff t, ← Time.lt_toMillis_iff]
    exact ⟨fun ht ↦ ⟨ht.1, ht.2.2⟩, fun ht ↦ ⟨ht.1, Nat.zero_le t, ht.2⟩⟩
  · rw [h.dials.mem_iff t, ← Time.lt_toMillis_iff]
    constructor
    · rintro ⟨hdvd, hle, hlt⟩
      exact ⟨hdvd, hd.trans_le hle, hlt⟩
    · rintro ⟨hdvd, hpos, hlt⟩
      exact ⟨hdvd, Nat.le_of_dvd hpos hdvd, hlt⟩
  · rw [hviewer]
    exact Viewer.kept_after _

def outage : Viewer.Reads := { Viewer.Reads.empty with stats := ⟨0, .error .emptyResponse⟩ }

theorem offline_keepsRhythm_outage :
    (∀ c ∈ [(none : Option (List (Nat × Frame)))], c = none) ∧ (∀ x ∈ [outage], x.IsPrompt) ∧
      KeepsRhythm 2 3 7_500_000
        (start ⟨2 * 1_000_000, 3 * 1_000_000⟩ ⟨[outage], [none], Time.toMillis 7_500_000⟩) := by
  have hconnections : ∀ c ∈ [(none : Option (List (Nat × Frame)))], c = none := by simp
  have hprompt : ∀ x ∈ [outage], x.IsPrompt := by
    simp [outage, Viewer.Reads.IsPrompt, Viewer.Reads.empty, Viewer.Reads.toList]
  have hrhythm := offline_keepsRhythm (f := 3) (by decide : 0 < 2) (by decide : 0 < 7_500_000)
    hconnections hprompt
  exact ⟨hconnections, hprompt, hrhythm⟩

end Run

end Follower

end ChangeRelay
