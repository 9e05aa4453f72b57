import ChangeRelay.Proofs.Feed.Ticks
import Mathlib.Data.List.Nodup

namespace ChangeRelay.Feed

open Queue (Uses anything)

structure Entry where
  event : Event
  late : Bool

def record (level : Int) (es : List Event) : List Entry :=
  es.map fun e ↦ ⟨e, e.timestamp ≤ level⟩

def sinceIn (log : List Entry) (since : Int) : List Event :=
  (log.filter fun e ↦ since < e.event.timestamp).map (·.event)

/-- Rounds of a feed at a log. `shown` is what the log held at the last answer that was no failure.
What is recorded during a round comes before it if the answer may show it, and after it if not. -/
inductive Course (allowed : Queue → Queue → Prop) (start : Int) (q₀ : Queue) :
    List Entry → List Entry → List Tick → Feed → Queue → Prop
  | fresh : Course allowed start q₀ [] [] [] (new ⟨start⟩) q₀
  | recorded {log shown : List Entry} {ts : List Tick} {p : Feed} {q : Queue}
      (before : Course allowed start q₀ log shown ts p q) (es : List Event) :
      Course allowed start q₀ (log ++ record p.watermark.level es) shown ts p q
  | waited {log shown : List Entry} {ts : List Tick} {p : Feed} {q q' : Queue}
      (before : Course allowed start q₀ log shown ts p q) (wait : Uses allowed q q') :
      Course allowed start q₀ log shown ts p q'
  | answered {log shown : List Entry} {ts : List Tick} {t : Tick} {p p' : Feed} {q q' : Queue}
      (before : Course allowed start q₀ log shown ts p q) (round : Ticks allowed p q t p' q')
      (answer : t.answer = .ok (sinceIn log t.since)) :
      Course allowed start q₀ log log (ts ++ [t]) p' q'
  | failed {log shown : List Entry} {ts : List Tick} {t : Tick} {p p' : Feed} {q q' : Queue}
      {e : Tracker.Failure} (before : Course allowed start q₀ log shown ts p q)
      (round : Ticks allowed p q t p' q') (answer : t.answer = .error e) :
      Course allowed start q₀ log shown (ts ++ [t]) p' q'

/-- Where the events that were answered come from: what was shown is not after the watermark, and of
what was recorded since, the late entries are those that are not after it either. -/
structure Seen (level : Int) (log shown : List Entry) (es : List Event) : Prop where
  events_eq : es = (shown.filter (!·.late)).map (·.event)
  le_level : ∀ e ∈ shown, e.event.timestamp ≤ level
  fresh : ∃ new, log = shown ++ new ∧ ∀ e ∈ new, (e.late = true ↔ e.event.timestamp ≤ level)

variable {level : Int} {log shown : List Entry} {es : List Event}

theorem late_iff_of_mem_record {es : List Event} {e : Entry} (h : e ∈ record level es) :
    e.late = true ↔ e.event.timestamp ≤ level := by
  obtain ⟨e, _, rfl⟩ := List.mem_map.mp h
  exact decide_eq_true_iff

theorem Seen.record (h : Seen level log shown es) (later : List Event) :
    Seen level (log ++ record level later) shown es := by
  obtain ⟨new, rfl, hnew⟩ := h.fresh
  refine ⟨h.events_eq, h.le_level, new ++ Feed.record level later, List.append_assoc _ _ _, ?_⟩
  intro e he
  rcases List.mem_append.mp he with he | he
  · exact hnew e he
  · exact late_iff_of_mem_record he

theorem Seen.append_sinceIn (h : Seen level log shown es) :
    es ++ sinceIn log level = (log.filter (!·.late)).map (·.event) := by
  obtain ⟨new, rfl, hnew⟩ := h.fresh
  have hold : (shown.filter fun e ↦ level < e.event.timestamp) = [] := by
    rw [List.filter_eq_nil_iff]
    intro e he
    simpa using h.le_level e he
  have hfilter : (new.filter fun e ↦ level < e.event.timestamp) = new.filter (!·.late) := by
    apply List.filter_congr
    intro e he
    have hlate := hnew e he
    cases hl : e.late with
    | false =>
      simp only [hl, Bool.false_eq_true, false_iff, not_le] at hlate
      simpa using hlate
    | true =>
      simp only [hl, true_iff] at hlate
      simpa using hlate
  rw [h.events_eq, sinceIn, List.filter_append, hold, List.nil_append, hfilter,
    List.filter_append, List.map_append]

theorem Seen.answer {c : Watermark} (h : Seen c.level log shown es) :
    Seen (c.rise (sinceIn log c.level)).level log log (es ++ sinceIn log c.level) := by
  refine ⟨h.append_sinceIn, ?_, [], (List.append_nil _).symm, fun e he ↦ by cases he⟩
  obtain ⟨-, hub⟩ := c.rise_isGreatest (sinceIn log c.level)
  intro e he
  by_cases hlt : c.level < e.event.timestamp
  · refine hub (.inr ⟨e.event, List.mem_map_of_mem (List.mem_filter.mpr ⟨he, ?_⟩), rfl⟩)
    exact decide_eq_true hlt
  · exact (not_lt.mp hlt).trans (c.level_le_rise _)

variable {allowed : Queue → Queue → Prop} {start : Int} {q₀ q q' : Queue} {ts : List Tick}
  {t : Tick} {p p' : Feed}

theorem Course.series (h : Course allowed start q₀ log shown ts p q) :
    Series allowed (new ⟨start⟩) q₀ ts p q := by
  induction h with
  | fresh => exact .none .refl
  | recorded _ _ ih => exact ih
  | waited _ wait ih => exact ih.after wait
  | answered _ round _ ih => exact .more ih round .refl
  | failed _ round _ ih => exact .more ih round .refl

theorem Course.seen (h : Course allowed start q₀ log shown ts p q) :
    Seen p.watermark.level log shown (eventsOf ts) := by
  induction h with
  | fresh => exact ⟨rfl, fun e he ↦ (by cases he), [], rfl, fun e he ↦ by cases he⟩
  | recorded _ es ih => exact ih.record es
  | waited _ _ ih => exact ih
  | @answered log shown ts t p p' q q' _ round answer ih =>
    have hevents : t.events = sinceIn log p.watermark.level := by
      rw [Tick.events, answer, round.moves.since_eq]
    rw [round.moves.rise_eq, eventsOf_append, eventsOf_singleton, hevents]
    exact ih.answer
  | @failed log shown ts t p p' q q' e _ round answer ih =>
    have hevents : t.events = [] := by rw [Tick.events, answer]
    rw [(round.of_error answer).1, eventsOf_append, eventsOf_singleton, hevents, List.append_nil]
    exact ih

theorem Course.accepted_eq (h : Course allowed start q₀ log shown ts p q)
    (stillOpen : q.isOpen = true) :
    acceptedOf ts = (shown.filter (!·.late)).map (·.event.payload) := by
  rcases h.series.accepted_eq_or with hall | ⟨hclosed, -⟩
  · rw [hall, h.seen.events_eq, List.map_map]
    rfl
  · rw [stillOpen] at hclosed
    cases hclosed

theorem Course.shown_subset (h : Course allowed start q₀ log shown ts p q) : shown ⊆ log := by
  obtain ⟨new, rfl, -⟩ := h.seen.fresh
  exact List.subset_append_left _ _

theorem Course.level_eq (h : Course allowed start q₀ log shown ts p q) :
    p.watermark.level = start ∨
      ∃ e ∈ shown, e.late = false ∧ e.event.timestamp = p.watermark.level := by
  have hgreatest := Watermark.rise_isGreatest ⟨start⟩ (eventsOf ts)
  have hlevel : p.watermark = Watermark.rise ⟨start⟩ (eventsOf ts) := h.series.watermark_eq
  rw [← hlevel, h.seen.events_eq] at hgreatest
  refine hgreatest.1.imp_right ?_
  rintro ⟨_, hevent, hn⟩
  obtain ⟨e, he, rfl⟩ := List.mem_map.mp hevent
  obtain ⟨hmem, hlate⟩ := List.mem_filter.mp he
  exact ⟨e, hmem, by simpa using hlate, hn⟩

theorem Course.twin (h : Course allowed start q₀ log shown ts p q)
    (ordered : log.Pairwise fun e e' ↦ e.event.timestamp ≤ e'.event.timestamp)
    (above : ∀ e ∈ log, start < e.event.timestamp) :
    ∀ e ∈ log, e.late = true →
      ∃ e' ∈ shown, e'.late = false ∧ e'.event.timestamp = e.event.timestamp := by
  induction h with
  | fresh => exact fun e he ↦ by cases he
  | @recorded log shown ts p q before es ih =>
    obtain ⟨hlog, -, hcross⟩ := List.pairwise_append.mp ordered
    intro e he hlate
    rcases List.mem_append.mp he with hmem | hmem
    · exact ih hlog (fun e he ↦ above e (List.mem_append_left _ he)) e hmem hlate
    · have hle := (late_iff_of_mem_record hmem).mp hlate
      rcases before.level_eq with hstart | ⟨e', he', hearly, hlevel⟩
      · have := above e he
        omega
      · have := hcross e' (before.shown_subset he') e hmem
        exact ⟨e', he', hearly, by omega⟩
  | waited _ _ ih => exact ih ordered above
  | answered before _ _ ih =>
    intro e he hlate
    obtain ⟨e', he', htwin⟩ := ih ordered above e he hlate
    exact ⟨e', before.shown_subset he', htwin⟩
  | failed _ _ _ ih => exact ih ordered above

theorem Course.not_late (h : Course allowed start q₀ log shown ts p q)
    (increasing : log.Pairwise fun e e' ↦ e.event.timestamp < e'.event.timestamp)
    (above : ∀ e ∈ log, start < e.event.timestamp) : ∀ e ∈ log, e.late = false := by
  have hnodup : (log.map (·.event.timestamp)).Nodup :=
    List.pairwise_map.mpr (increasing.imp ne_of_lt)
  intro e he
  by_contra hlate
  obtain ⟨e', he', hearly, hsame⟩ :=
    h.twin (increasing.imp le_of_lt) above e he (by simpa using hlate)
  cases List.inj_on_of_nodup_map hnodup (h.shown_subset he') he hsame
  exact hlate hearly

theorem Course.level_eq_getLast (h : Course allowed start q₀ log shown ts p q)
    (increasing : log.Pairwise fun e e' ↦ e.event.timestamp < e'.event.timestamp)
    (above : ∀ e ∈ log, start < e.event.timestamp) :
    p.watermark.level = (shown.getLast?.map (·.event.timestamp)).getD start := by
  obtain ⟨new, hnew, -⟩ := h.seen.fresh
  rcases List.eq_nil_or_concat' shown with rfl | ⟨init, e, rfl⟩
  · rcases h.level_eq with hstart | ⟨e, he, -⟩
    · exact hstart
    · cases he
  · have hmem : e ∈ init ++ [e] := List.mem_append_right _ List.mem_cons_self
    have hle := h.seen.le_level e hmem
    have habove := above e (h.shown_subset hmem)
    have hpair := (List.pairwise_append.mp (hnew ▸ increasing)).1
    rw [List.getLast?_concat]
    change p.watermark.level = e.event.timestamp
    rcases h.level_eq with hstart | ⟨e', he', -, hlevel⟩
    · omega
    · rcases List.mem_append.mp he' with he' | he'
      · have := (List.pairwise_append.mp hpair).2.2 e' he' e List.mem_cons_self
        omega
      · rw [← hlevel, List.mem_singleton.mp he']

/-- If timestamps increase, then between rounds the queue has accepted the entries that were shown
at the last answer, each once and in their order, and the watermark is at the last of them. -/
theorem relays_once (h : Course allowed start q₀ log shown ts p q)
    (increasing : log.Pairwise fun e e' ↦ e.event.timestamp < e'.event.timestamp)
    (above : ∀ e ∈ log, start < e.event.timestamp) (stillOpen : q.isOpen = true) :
    acceptedOf ts = shown.map (·.event.payload) ∧
      p.watermark.level = (shown.getLast?.map (·.event.timestamp)).getD start := by
  have hlate := h.not_late increasing above
  have hall : shown.filter (!·.late) = shown := by
    rw [List.filter_eq_self]
    intro e he
    simp [hlate e (h.shown_subset he)]
  exact ⟨by rw [h.accepted_eq stillOpen, hall], h.level_eq_getLast increasing above⟩

def changeAt (id : String) (time : Int) : Event := ⟨id, "task", .updated, time⟩

def firstRound : Tick :=
  ⟨7, .ok [changeAt "a" 9], [(changeAt "a" 9).payload], .forwarded 1 1 9⟩

def oneQueued : Queue := { Queue.new 2 with payloads := [(changeAt "a" 9).payload] }

theorem firstRound_course :
    Course anything 7 (.new 2) (record 7 [changeAt "a" 9]) (record 7 [changeAt "a" 9]) [firstRound]
      ⟨⟨9⟩, .idle⟩ oneQueued := by
  have h₀ : Course anything 7 (.new 2) [] [] [] (new ⟨7⟩) (.new 2) := .fresh
  have h₁ := h₀.recorded [changeAt "a" 9]
  have round : Ticks anything (new ⟨7⟩) (.new 2) firstRound ⟨⟨9⟩, .idle⟩ oneQueued :=
    .sent _ .refl rfl (.offered .refl rfl rfl (.finished .refl rfl))
  exact h₁.answered round rfl

theorem relays_once_resumed :
    ∃ (ts : List Tick) (p : Feed) (q : Queue),
      Course anything 7 (.new 2) (record 7 [changeAt "a" 9, changeAt "b" 12, changeAt "c" 13])
        (record 7 [changeAt "a" 9, changeAt "b" 12, changeAt "c" 13]) ts p q ∧
      acceptedOf ts =
        [(changeAt "a" 9).payload, (changeAt "b" 12).payload, (changeAt "c" 13).payload] ∧
      p.watermark.level = 13 := by
  have failure : Ticks anything ⟨⟨9⟩, .idle⟩ oneQueued ⟨9, .error .emptyResponse, [], .skipped⟩
      ⟨⟨9⟩, .idle⟩ oneQueued := .ended _ .refl rfl
  have h := (firstRound_course.failed failure rfl).recorded [changeAt "b" 12, changeAt "c" 13]
  have round : Ticks anything ⟨⟨9⟩, .idle⟩ oneQueued
      ⟨9, .ok [changeAt "b" 12, changeAt "c" 13],
        [(changeAt "b" 12).payload, (changeAt "c" 13).payload], .forwarded 2 2 13⟩ ⟨⟨13⟩, .idle⟩
      { Queue.new 2 with payloads := [(changeAt "b" 12).payload, (changeAt "c" 13).payload] } :=
    .sent _ .refl rfl (.offered .refl rfl rfl
      (.offered (Queue.Use.take rfl).uses rfl rfl (.finished .refl rfl)))
  have h' := h.answered round rfl
  obtain ⟨haccepted, hlevel⟩ := relays_once h' (by decide) (by decide) rfl
  exact ⟨_, _, _, h', haccepted, hlevel⟩

/-- If timestamps may be equal, then at the end of a round with an answer the queue has accepted
every entry that was recorded before and is not late, each once. A late entry has the timestamp of
another one that was relayed in an earlier round. -/
theorem relays_unless_late (h : Course allowed start q₀ log shown ts p q)
    (ordered : log.Pairwise fun e e' ↦ e.event.timestamp ≤ e'.event.timestamp)
    (above : ∀ e ∈ log, start < e.event.timestamp) (round : Ticks allowed p q t p' q')
    (answer : t.answer = .ok (sinceIn log t.since)) (stillOpen : q'.isOpen = true) :
    acceptedOf (ts ++ [t]) = (log.filter (!·.late)).map (·.event.payload) ∧
      ∀ e ∈ log, e.late = true →
        ∃ e' ∈ shown, e'.late = false ∧ e'.event.timestamp = e.event.timestamp :=
  ⟨(h.answered round answer).accepted_eq stillOpen, h.twin ordered above⟩

/-- Two changes in one millisecond, with a round between them. -/
def sameMoment : List Entry := record 7 [changeAt "a" 9] ++ record 9 [changeAt "b" 9]

def emptyRound : Tick := ⟨9, .ok [], [], .forwarded 0 0 9⟩

theorem mem_sameMoment : ⟨changeAt "b" 9, true⟩ ∈ sameMoment :=
  List.mem_append_right _ List.mem_cons_self

theorem sameMoment_course :
    Course anything 7 (.new 2) sameMoment (record 7 [changeAt "a" 9]) [firstRound]
      ⟨⟨9⟩, .idle⟩ oneQueued := firstRound_course.recorded [changeAt "b" 9]

theorem emptyRound_ticks :
    Ticks anything ⟨⟨9⟩, .idle⟩ oneQueued emptyRound ⟨⟨9⟩, .idle⟩ oneQueued :=
  .sent _ .refl rfl (.finished .refl rfl)

theorem relays_unless_late_sameMoment :
    acceptedOf ([firstRound] ++ [emptyRound]) = [(changeAt "a" 9).payload] ∧
      ∃ e ∈ record 7 [changeAt "a" 9], e.late = false ∧ e.event.timestamp = 9 := by
  obtain ⟨haccepted, hlate⟩ := relays_unless_late sameMoment_course (by decide) (by decide)
    emptyRound_ticks rfl rfl
  exact ⟨haccepted, hlate _ mem_sameMoment rfl⟩

theorem not_always_relayed :
    ¬∀ (q₀ q q' : Queue) (log shown : List Entry) (ts : List Tick) (t : Tick) (p p' : Feed),
      Course anything 7 q₀ log shown ts p q → (∀ u ∈ ts, ∃ es, u.answer = .ok es) →
      (log.Pairwise fun e e' ↦ e.event.timestamp ≤ e'.event.timestamp) →
      (∀ e ∈ log, 7 < e.event.timestamp) → Ticks anything p q t p' q' →
      t.answer = .ok (sinceIn log t.since) → q'.isOpen = true →
      ∀ e ∈ log, e.event.payload ∈ acceptedOf (ts ++ [t]) := by
  intro hall
  have h := hall _ _ _ _ _ _ _ _ _ sameMoment_course
    (fun u hu ↦ ⟨[changeAt "a" 9], by rw [List.mem_singleton.mp hu]; rfl⟩) (by decide) (by decide)
    emptyRound_ticks rfl rfl _ mem_sameMoment
  exact absurd h (by decide)

end ChangeRelay.Feed
