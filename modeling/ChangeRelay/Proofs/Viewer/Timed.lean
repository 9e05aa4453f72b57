import ChangeRelay.Proofs.Viewer.Conduct

namespace ChangeRelay.Follower

open Course

def Happening.shown? : Happening → Option LinkStatus
  | read s => s
  | _ => none

namespace Run

/-- A run in time as a course. Between two steps of the run the follower is at work. -/
structure Shows (r : Run) (x : Course) : Prop where
  follower : x.follower = r.follower
  place : x.place = if r.stopped then .ended else .working
  attempts : x.log.count (.did .refresh) = r.attempts
  seen : x.log.filterMap Happening.shown? = r.seen.map (·.state)

variable {r r' : Run} {x y : Course}

theorem shows_start (config : Link.Config) (outside : Surroundings) :
    Shows (start config outside) (Course.start config) := ⟨rfl, rfl, rfl, rfl⟩

theorem Shows.extend (h : Shows r x) {es : List Happening} (log : y.log = x.log ++ es)
    (follower : y.follower = r'.follower)
    (place : y.place = if r'.stopped then .ended else .working)
    (attempts : r'.attempts = r.attempts + es.count (.did .refresh))
    (seen : r'.seen.map (·.state) = r.seen.map (·.state) ++ es.filterMap Happening.shown?) :
    Shows r' y where
  follower := follower
  place := place
  attempts := by rw [log, List.count_append, h.attempts, attempts]
  seen := by rw [log, List.filterMap_append, h.seen, seen]

theorem Shows.perform (h : Shows r x) (going : r.stopped = false) {a : Link.Action}
    {as : List Link.Action} (due : r.follower.pending = a :: as) :
    ∃ y, Relation.ReflTransGen Course.Step x y ∧ Shows (r.perform a as) y := by
  have hdue : x.follower.pending = a :: as := h.follower ▸ due
  have hworking : x.place = .working := by simp [h.place, going]
  cases a with
  | scheduleReconnect | startFallback | stopFallback =>
    refine ⟨_, .single (.timer x r.now hworking hdue nofun nofun), h.extend rfl ?_ ?_ rfl ?_⟩
    · rw [h.follower]
      rfl
    · simp [Run.perform, going]
    · simp [Run.perform, Happening.shown?]
  | openConnection =>
    have hdial := Relation.ReflTransGen.single (Course.Step.dial x hworking hdue)
    simp only [Run.perform]
    split
    · refine ⟨_, hdial.tail (.stop _ (.inl rfl)), h.extend rfl ?_ rfl rfl ?_⟩
      · rw [h.follower]
        rfl
      · simp [Happening.shown?]
    · split
      · refine ⟨_, hdial.tail (.opened _ true rfl), h.extend (List.append_assoc ..) ?_ ?_ rfl ?_⟩
        · rw [h.follower]
          rfl
        · simp [going]
        · simp [Happening.shown?]
      · refine ⟨_, hdial.tail (.opened _ false rfl), h.extend (List.append_assoc ..) ?_ ?_ rfl ?_⟩
        · rw [h.follower]
          rfl
        · simp [going]
        · simp [Happening.shown?]
  | refresh =>
    have hlook := Relation.ReflTransGen.single (Course.Step.look x hworking hdue)
    refine ⟨_, hlook.tail (.display _ (r.outside.reads.head?.getD .empty).outcome.2 rfl),
      h.extend (List.append_assoc ..) ?_ ?_ rfl ?_⟩
    · rw [h.follower]
      rfl
    · simp [Run.perform, going]
    · simp only [Run.perform]
      rw [h.follower]
      cases (r.outside.reads.head?.getD .empty).outcome.2 with
      | ok b =>
        rw [List.map_append]
        rfl
      | error f => exact (List.append_nil _).symm

theorem Shows.take (h : Shows r x) (going : r.stopped = false) (idle : r.follower.pending = []) :
    ∃ y, Relation.ReflTransGen Course.Step x y ∧ Shows r.take y := by
  have hidle : x.follower.pending = [] := h.follower ▸ idle
  have hworking : x.place = .working := by simp [h.place, going]
  have hrest := Relation.ReflTransGen.single (Course.Step.rest x hworking hidle)
  have hwake {k : Wake} (can : k.CanWake r.follower) {r' : Run}
      (follower : r'.follower = r.follower.wake r.now k) (stopped : r'.stopped = false)
      (attempts : r'.attempts = r.attempts) (seen : r'.seen = r.seen) :
      ∃ y, Relation.ReflTransGen Course.Step x y ∧ Shows r' y := by
    refine ⟨_, hrest.tail (.wake _ r.now k rfl (h.follower ▸ can)), h.extend rfl ?_ ?_ ?_ ?_⟩
    · rw [follower, h.follower]
    · simp [stopped]
    · rw [attempts]
      rfl
    · simp [seen, Happening.shown?]
  unfold Run.take
  split
  · exact ⟨_, hrest.tail (.stop _ (.inr rfl)), h.follower, rfl, h.attempts, h.seen⟩
  split
  · rename_i hdue
    exact hwake (k := .reconnectTimer) (fun hn ↦ by simp [isDue, hn] at hdue) rfl going rfl rfl
  split
  · rename_i hdue
    have hconn : r.follower.connected = true := by
      by_contra hn
      simp [isDue, frameAt, hn] at hdue
    exact hwake (k := .frame _) hconn rfl going rfl rfl
  split
  · rename_i hdue
    exact hwake (k := .fallbackTick) (fun hn ↦ by simp [isDue, tickAt, hn] at hdue) rfl going rfl
      rfl
  · exact ⟨x, .refl, h⟩

theorem Shows.step (h : Shows r x) (going : r.stopped = false) :
    ∃ y, Relation.ReflTransGen Course.Step x y ∧ Shows r.step y := by
  unfold Run.step
  split
  · rename_i hdue
    exact h.perform going hdue
  · rename_i hidle
    have h' : Shows { r with now := r.nextMoment } x := ⟨h.follower, h.place, h.attempts, h.seen⟩
    exact h'.take going hidle

theorem Shows.steps (h : Shows r x) (n : Nat) :
    ∃ y, Relation.ReflTransGen Course.Step x y ∧ Shows (steps n r) y := by
  induction n generalizing r x with
  | zero => exact ⟨x, .refl, h⟩
  | succ n ih =>
    rw [Run.steps]
    split
    · exact ⟨x, .refl, h⟩
    · rename_i hstop
      obtain ⟨y, hxy, hy⟩ := h.step (by simpa using hstop)
      obtain ⟨z, hyz, hz⟩ := ih hy
      exact ⟨z, hxy.trans hyz, hz⟩

/-- A run in time that has nothing to do is a course in which the follower waits. -/
theorem exists_waiting (config : Link.Config) (outside : Surroundings) (n : Nat)
    (going : (steps n (start config outside)).stopped = false)
    (idle : (steps n (start config outside)).follower.pending = []) :
    ∃ x, Reachable config x ∧ x.place = .waiting ∧
      x.follower = (steps n (start config outside)).follower ∧
      x.log.count (.did .refresh) = (steps n (start config outside)).attempts ∧
      x.log.filterMap Happening.shown? = (steps n (start config outside)).seen.map (·.state) := by
  obtain ⟨x, hx, h⟩ := (shows_start config outside).steps n
  have hrest := Course.Step.rest x (by simp [h.place, going]) (h.follower ▸ idle)
  exact ⟨_, hx.tail hrest, rfl, h.follower, h.attempts, h.seen⟩

end Run

end ChangeRelay.Follower
