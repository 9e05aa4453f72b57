import ChangeRelay.Proofs.Greatest
import ChangeRelay.Proofs.Json.Shape
import ChangeRelay.Viewer.Basic
import Mathlib.Data.List.Induction

namespace ChangeRelay.Viewer

namespace Read

variable {q : Read} {f : Tracker.Failure}

theorem failure?_eq_some_iff : q.failure? = some f ↔ q.result = .error f := by
  unfold failure?
  cases q.result <;> simp

theorem failure?_eq_none_iff : q.failure? = none ↔ ∃ v, q.result = .ok v := by
  unfold failure?
  cases q.result <;> simp

end Read

namespace Reads

structure Answers (r : Reads) (b : Board) : Prop where
  issues : r.issues.result = .ok b.issues
  ready : r.ready.result = .ok b.ready
  stats : r.stats.result = .ok b.stats
  epics : r.epics.result = .ok b.epics

def failureTimes (r : Reads) : Set Nat :=
  {t | ∃ q ∈ r.toList, q.delay = t ∧ ∃ f, q.result = .error f}

/-- No failure is earlier, and none at the same time is looked at before this one. -/
structure FailsFirst (r : Reads) (t : Nat) (f : Tracker.Failure) : Prop where
  earliest : IsLeast r.failureTimes t
  first : ∃ before q later, r.inTurn (r.looks t) = before ++ q :: later ∧ q.delay = t ∧
    q.result = .error f ∧ ∀ p ∈ before, p.delay = t → ∃ v, p.result = .ok v

def isWhole (r : Reads) : Bool := r.toList.all (·.result.isOk)

variable {r : Reads} {t : Nat} {f : Tracker.Failure} {b : Board}

theorem mem_inTurn {k : Nat} {q : Read} : q ∈ r.inTurn k ↔ q ∈ r.toList := by
  rw [inTurn, List.perm_append_comm.mem_iff, List.take_append_drop]

theorem failsAt?_eq_some_iff : r.failsAt? = some t ↔ IsLeast r.failureTimes t := by
  have hmem (u : Nat) : u ∈ (r.toList.filter (·.failure?.isSome)).map (·.delay) ↔
      u ∈ r.failureTimes := by
    simp only [List.mem_map, List.mem_filter, Option.isSome_iff_exists, Read.failure?_eq_some_iff]
    constructor
    · rintro ⟨q, ⟨hq, hf⟩, hu⟩
      exact ⟨q, hq, hu, hf⟩
    · rintro ⟨q, hq, hu, hf⟩
      exact ⟨q, ⟨hq, hf⟩, hu⟩
  rw [failsAt?, List.min?_eq_some_iff, hmem]
  exact and_congr_right fun _ ↦ forall_congr' fun u ↦ by rw [hmem]

theorem failsAt?_eq_none_iff : r.failsAt? = none ↔ ∀ q ∈ r.toList, ∃ v, q.result = .ok v := by
  rw [failsAt?, List.min?_eq_none_iff, List.map_eq_nil_iff, List.filter_eq_nil_iff]
  simp only [Option.isSome_iff_ne_none, Ne, not_not, Read.failure?_eq_none_iff]

theorem found?_eq_some_iff (earliest : IsLeast r.failureTimes t) :
    r.found? t = some f ↔ r.FailsFirst t f := by
  have hfound (q : Read) : (if q.delay = t then q.failure? else none) = some f ↔
      q.delay = t ∧ q.result = .error f := by
    rw [← Read.failure?_eq_some_iff]
    split <;> simp [*]
  have hpassed (q : Read) : (if q.delay = t then q.failure? else none) = none ↔
      (q.delay = t → ∃ v, q.result = .ok v) := by
    rw [← Read.failure?_eq_none_iff]
    split <;> simp [*]
  rw [found?, List.findSome?_eq_some_iff]
  simp only [hfound, hpassed, and_assoc]
  exact ⟨fun h ↦ ⟨earliest, h⟩, fun h ↦ h.first⟩

theorem exists_found? (earliest : IsLeast r.failureTimes t) : ∃ f, r.found? t = some f := by
  obtain ⟨q, hq, hd, f, hf⟩ := earliest.1
  rw [← Option.isSome_iff_exists, found?, List.findSome?_isSome_iff]
  refine ⟨q, mem_inTurn.mpr hq, ?_⟩
  rw [if_pos hd, Read.failure?_eq_some_iff.mpr hf]
  rfl

theorem board_eq_ok_iff : r.board = .ok b ↔ r.Answers b := by
  rw [board]
  simp only [bind_eq_ok_iff]
  constructor
  · rintro ⟨i, hi, v, hv, s, hs, e, he, hb⟩
    cases hb
    exact ⟨hi, hv, hs, he⟩
  · intro h
    exact ⟨_, h.issues, _, h.ready, _, h.stats, _, h.epics, rfl⟩

theorem exists_answers_iff : (∃ b, r.Answers b) ↔ ∀ q ∈ r.toList, ∃ v, q.result = .ok v := by
  simp only [toList, List.forall_mem_cons, List.not_mem_nil, false_imp_iff, implies_true, and_true]
  constructor
  · rintro ⟨b, h⟩
    exact ⟨⟨_, h.issues⟩, ⟨_, h.ready⟩, ⟨_, h.stats⟩, ⟨_, h.epics⟩⟩
  · rintro ⟨⟨i, hi⟩, ⟨v, hv⟩, ⟨s, hs⟩, ⟨e, he⟩⟩
    exact ⟨⟨i, v, s, e⟩, hi, hv, hs, he⟩

theorem slowest_isGreatest (r : Reads) :
    IsGreatest {t | ∃ q ∈ r.toList, q.delay = t}
      (r.toList.foldl (fun m q ↦ max m q.delay) 0) := by
  obtain ⟨hmem, hub⟩ := isGreatest_foldl_max Read.delay 0 r.toList
  refine ⟨?_, fun t ht ↦ hub (.inr ht)⟩
  rcases hmem with hzero | hmem
  · have hissues : r.issues ∈ r.toList := List.mem_cons_self
    have hle := hub (.inr ⟨r.issues, hissues, rfl⟩)
    exact ⟨r.issues, hissues, hle.antisymm (hzero.trans_le (Nat.zero_le _))⟩
  · exact hmem

/-- All that a refresh can come to. -/
inductive Ends (r : Reads) : Nat → Except Tracker.Failure Board → Prop
  | failed {t : Nat} {f : Tracker.Failure} (first : r.FailsFirst t f) : Ends r t (.error f)
  | whole {t : Nat} {b : Board} (answers : r.Answers b)
      (slowest : IsGreatest {u | ∃ q ∈ r.toList, q.delay = u} t) : Ends r t (.ok b)

theorem Answers.unique {b' : Board} (h : r.Answers b) (h' : r.Answers b') : b = b' := by
  cases b
  cases b'
  cases h.issues.symm.trans h'.issues
  cases h.ready.symm.trans h'.ready
  cases h.stats.symm.trans h'.stats
  cases h.epics.symm.trans h'.epics
  rfl

theorem FailsFirst.not_answers (h : r.FailsFirst t f) : ¬r.Answers b := by
  obtain ⟨q, hq, -, g, hg⟩ := h.earliest.1
  intro ha
  obtain ⟨v, hv⟩ := exists_answers_iff.mp ⟨b, ha⟩ q hq
  cases hg.symm.trans hv

theorem ends_outcome (r : Reads) : r.Ends r.outcome.1 r.outcome.2 := by
  cases hf : r.failsAt? with
  | some t =>
    have hleast := failsAt?_eq_some_iff.mp hf
    obtain ⟨f, hfound⟩ := exists_found? hleast
    have ho : r.outcome = (t, .error f) := by simp [outcome, hf, hfound]
    rw [ho]
    exact .failed ((found?_eq_some_iff hleast).mp hfound)
  | none =>
    obtain ⟨b, hb⟩ := exists_answers_iff.mpr (failsAt?_eq_none_iff.mp hf)
    have ho : r.outcome = (r.toList.foldl (fun m q ↦ max m q.delay) 0, .ok b) := by
      simp [outcome, hf, board_eq_ok_iff.mpr hb]
    rw [ho]
    exact .whole hb r.slowest_isGreatest

theorem outcome_eq_ok_iff : r.outcome.2 = .ok b ↔ r.Answers b := by
  have hends := r.ends_outcome
  generalize r.outcome.2 = o at hends
  cases hends with
  | failed first => exact iff_of_false nofun first.not_answers
  | whole answers slowest =>
    rw [Except.ok.injEq]
    exact ⟨fun h ↦ h ▸ answers, fun h ↦ answers.unique h⟩

theorem isWhole_iff : r.isWhole = true ↔ ∃ b, r.Answers b := by
  rw [exists_answers_iff, isWhole, List.all_eq_true]
  refine forall₂_congr fun q _ ↦ ?_
  cases q.result <;> simp [Except.isOk, Except.toBool]

end Reads

section

variable (v : Viewer) {r : Reads} {b : Board}

theorem refresh_of_answers (h : r.Answers b) : v.refresh r = ⟨some b, v.refreshes + 1⟩ := by
  rw [refresh, Reads.outcome_eq_ok_iff.mpr h]
  rfl

theorem refresh_of_failure (h : ∀ b, ¬r.Answers b) : v.refresh r = v := by
  rw [refresh]
  cases ho : r.outcome.2 with
  | ok b => exact absurd (Reads.outcome_eq_ok_iff.mp ho) (h b)
  | error f => rfl

end

def after (script : List Reads) : Viewer := script.foldl refresh empty

theorem after_concat (script : List Reads) (r : Reads) :
    after (script ++ [r]) = (after script).refresh r := by
  rw [after, List.foldl_concat]
  rfl

def Latest (script : List Reads) (b : Board) : Prop :=
  ∃ before r later, script = before ++ r :: later ∧ r.Answers b ∧ ∀ r' ∈ later, ∀ b', ¬r'.Answers b'

variable {script : List Reads} {r : Reads} {b : Board}

theorem latest_concat_of_answers (h : r.Answers b) {b' : Board} :
    Latest (script ++ [r]) b' ↔ r.Answers b' := by
  constructor
  · rintro ⟨before, r', later, hs, ha, hlater⟩
    rcases List.eq_nil_or_concat' later with rfl | ⟨later, r'', rfl⟩
    · cases (List.append_inj' hs rfl).2
      exact ha
    · rw [← List.cons_append, ← List.append_assoc] at hs
      cases (List.append_inj' hs rfl).2
      exact absurd h (hlater r (List.mem_append_right _ List.mem_cons_self) b)
  · exact fun ha ↦ ⟨script, r, [], rfl, ha, fun _ hr ↦ by cases hr⟩

theorem latest_concat_of_failure (h : ∀ b, ¬r.Answers b) {b' : Board} :
    Latest (script ++ [r]) b' ↔ Latest script b' := by
  constructor
  · rintro ⟨before, r', later, hs, ha, hlater⟩
    rcases List.eq_nil_or_concat' later with rfl | ⟨later, r'', rfl⟩
    · cases (List.append_inj' hs rfl).2
      exact absurd ha (h b')
    · rw [← List.cons_append, ← List.append_assoc] at hs
      obtain ⟨rfl, -⟩ := List.append_inj' hs rfl
      exact ⟨before, r', later, rfl, ha, fun r hr ↦ hlater r (List.mem_append_left _ hr)⟩
  · rintro ⟨before, r', later, rfl, ha, hlater⟩
    refine ⟨before, r', later ++ [r], by simp, ha, fun r'' hr ↦ ?_⟩
    rcases List.mem_append.mp hr with hr | hr
    · exact hlater r'' hr
    · exact List.mem_singleton.mp hr ▸ h

structure Kept (script : List Reads) (v : Viewer) : Prop where
  board : ∀ b, v.board = some b ↔ Latest script b
  refreshes : v.refreshes = script.countP Reads.isWhole

theorem kept_after (script : List Reads) : Kept script (after script) := by
  induction script using List.reverseRecOn with
  | nil =>
    refine ⟨fun b ↦ iff_of_false nofun ?_, rfl⟩
    rintro ⟨before, r, later, hs, -⟩
    simp at hs
  | append_singleton script r ih =>
    rw [after_concat]
    by_cases h : ∃ b, r.Answers b
    · obtain ⟨b, hb⟩ := h
      rw [refresh_of_answers _ hb]
      refine ⟨fun b' ↦ ?_, ?_⟩
      · rw [latest_concat_of_answers hb, ← Reads.outcome_eq_ok_iff, Reads.outcome_eq_ok_iff.mpr hb]
        simp
      · have hw : r.isWhole = true := Reads.isWhole_iff.mpr ⟨b, hb⟩
        simp [ih.refreshes, hw]
    · have hn : ∀ b, ¬r.Answers b := fun b hb ↦ h ⟨b, hb⟩
      have hw : ¬r.isWhole = true := mt Reads.isWhole_iff.mp h
      rw [refresh_of_failure _ hn]
      refine ⟨fun b' ↦ (ih.board b').trans (latest_concat_of_failure hn).symm, ?_⟩
      simp [ih.refreshes, hw]

/-- After any refreshes the board is that of the latest one without a failure, and so many of them
are counted. A refresh fails iff one of the answers is a failure: with the earliest one and at its
time, and nothing has changed then. Otherwise it ends with the slowest answer. -/
theorem all_or_nothing :
    (∀ script : List Reads, Kept script (after script)) ∧
      ∀ (v : Viewer) (r : Reads),
        ((∃ f, r.outcome.2 = .error f) ↔ ∃ q ∈ r.toList, ∃ f, q.result = .error f) ∧
        ((∃ t f, r.outcome = (t, .error f) ∧ r.FailsFirst t f ∧ v.refresh r = v) ∨
          ∃ t b, r.outcome = (t, .ok b) ∧ r.Answers b ∧
            IsGreatest {u | ∃ q ∈ r.toList, q.delay = u} t ∧
            v.refresh r = ⟨some b, v.refreshes + 1⟩) := by
  refine ⟨kept_after, fun v r ↦ ?_⟩
  have hends := r.ends_outcome
  generalize ho : r.outcome = o at hends
  obtain ⟨t, o⟩ := o
  cases hends with
  | failed first =>
    obtain ⟨q, hq, -, hf⟩ := first.earliest.1
    refine ⟨iff_of_true ⟨_, rfl⟩ ⟨q, hq, hf⟩, .inl ⟨t, _, rfl, first, ?_⟩⟩
    exact v.refresh_of_failure fun b ↦ first.not_answers
  | whole answers slowest =>
    refine ⟨iff_of_false nofun ?_, .inr ⟨t, _, rfl, answers, slowest, ?_⟩⟩
    · rintro ⟨q, hq, f, hf⟩
      obtain ⟨w, hw⟩ := Reads.exists_answers_iff.mp ⟨_, answers⟩ q hq
      cases hf.symm.trans hw
    · exact v.refresh_of_answers answers

/-- Two answers fail at the same time; the other two have come at once. -/
def tied : Reads :=
  ⟨⟨10, .error .emptyResponse⟩, ⟨10, .error .noDatabase⟩, ⟨0, .ok (.obj [])⟩, ⟨0, .ok (.arr [])⟩⟩

theorem not_always_in_order :
    ¬∀ (r : Reads) (t : Nat) (f : Tracker.Failure), r.outcome = (t, .error f) →
      r.toList.findSome? (fun q ↦ if q.delay = t then q.failure? else none) = some f := by
  intro hall
  cases hall tied 10 .noDatabase rfl

end ChangeRelay.Viewer
