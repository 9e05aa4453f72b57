import ChangeRelay.Proofs.Broadcast.Accounts
import ChangeRelay.Visit.Session

namespace ChangeRelay

namespace Dispatch

variable (a : Audience) (timeout now : Nat)

theorem startAll_roster (n : Nat) (d : Dispatch) :
    (startAll a timeout now n d).1.roster = a.roster := by
  induction n generalizing a d with
  | zero => rfl
  | succ n ih => rw [startAll, ih, start_roster]

theorem settle_created (d : Dispatch) (leg : Leg) :
    (d.settle a leg).1.roster.created = a.roster.created := by
  rw [settle_roster]
  split
  · rfl
  · exact a.roster.leave_created _

theorem settleAll_created (d : Dispatch) :
    (settleAll a d).1.roster.created = a.roster.created := by
  unfold settleAll
  induction d.begun generalizing a d with
  | nil => rfl
  | cons leg legs ih =>
    rw [List.foldl_cons, ih, settle_created]

end Dispatch

theorem Audience.dispatch_created (a : Audience) (timeout now : Nat) (payload : String) :
    (a.dispatch timeout now payload).1.roster.created = a.roster.created := by
  unfold dispatch
  dsimp only
  rw [Dispatch.settleAll_created, Dispatch.startAll_roster]

theorem Audience.le_dispatch_end (a : Audience) (timeout now : Nat) (payload : String) :
    now ≤ (a.dispatch timeout now payload).2.2 :=
  (Dispatch.due_isGreatest _ now).2 (.inl rfl)

namespace Visit

/-- Where a connection can be at `now'` that was in the first phase at `now`. Whoever is closing
when time goes on has ended by the moment that is due. -/
def Phase.After (now now' : Nat) : Phase → Phase → Prop
  | .opened, _ => True
  | .closing reason due, p =>
    p = .closed reason ∨ p = .closing reason due ∧ (now' < due ∨ now' = now)
  | .closed reason, p => p = .closed reason

section

variable {now now' now'' : Nat} {p p' p'' : Phase}

theorem Phase.After.refl (now : Nat) (p : Phase) : After now now p p := by
  cases p with
  | opened => trivial
  | closing => exact .inr ⟨rfl, .inr rfl⟩
  | closed => rfl

theorem Phase.After.trans (h : After now now' p p') (h' : After now' now'' p' p'') :
    After now now'' p p'' := by
  cases p with
  | opened => trivial
  | closing reason due =>
    obtain rfl | ⟨rfl, hdue⟩ := h
    · exact .inl h'
    · refine h'.imp_right fun ⟨hp, hdue'⟩ ↦ ⟨hp, ?_⟩
      obtain hlt | rfl := hdue'
      · exact .inl hlt
      · exact hdue
  | closed reason =>
    cases h
    exact h'

theorem Phase.After.ne_opened (h : After now now' p p') (hp : p ≠ .opened) : p' ≠ .opened := by
  rintro rfl
  cases p with
  | opened => exact hp rfl
  | closing => obtain h | ⟨h, _⟩ := h <;> cases h
  | closed => cases h

end

def Limited (v : Visit) (now : Nat) : Prop :=
  ∀ reason due, v.phase = .closing reason due → due ≤ now + closeLimit

structure Moves (now : Nat) (v v' : Visit) : Prop where
  client : v'.client = v.client
  after : Phase.After now now v.phase v'.phase
  limited : v.Limited now → v'.Limited now

variable {v v' v'' : Visit} {now now' : Nat}

theorem Moves.refl (now : Nat) (v : Visit) : Moves now v v := ⟨rfl, .refl now _, id⟩

theorem Moves.trans (h : Moves now v v') (h' : Moves now v' v'') : Moves now v v'' :=
  ⟨h'.client.trans h.client, h.after.trans h'.after, fun hl ↦ h'.limited (h.limited hl)⟩

variable (v : Visit) (r : Roster) (now : Nat) (closing : Option Nat)

theorem limited_leave (reason : Departure) : (v.leave r now closing reason).2.Limited now := by
  intro reason' due h
  cases h
  exact Nat.add_le_add_left (Nat.min_le_right _ _) now

theorem arrive_cases (a : Arrival) (h : v.isOpen = true) :
    ∃ w : Visit, w.client = v.client ∧ w.phase = v.phase ∧
      (a.reason? = none ∧ v.arrive r now closing a = (r, w) ∨
        ∃ reason, a.reason? = some reason ∧
          v.arrive r now closing a = w.leave r now closing reason) := by
  simp only [arrive, h, if_true]
  refine ⟨if a.isFrame then { v with read := v.read + 1 } else v, ?_, ?_, ?_⟩
  · split <;> rfl
  · split <;> rfl
  · cases ha : a.reason? with
    | none => exact .inl ⟨rfl, rfl⟩
    | some reason => exact .inr ⟨reason, rfl, rfl⟩

theorem arrive_moves (a : Arrival) (h : v.isOpen = true) :
    v.Moves now (v.arrive r now closing a).2 ∧
      (v.arrive r now closing a).1.created = r.created := by
  have hp : v.phase = .opened := of_decide_eq_true h
  obtain ⟨w, hc, hw, ⟨_, he⟩ | ⟨reason, _, he⟩⟩ := v.arrive_cases r now closing a h
  · rw [he]
    refine ⟨⟨hc, hw ▸ .refl now _, ?_⟩, rfl⟩
    intro _ reason due hd
    rw [hw, hp] at hd
    cases hd
  · rw [he]
    refine ⟨⟨hc, ?_, fun _ ↦ w.limited_leave r now closing reason⟩, r.leave_created _⟩
    rw [hp]
    trivial

theorem arrive_shutdown (h : v.isOpen = true) :
    (v.arrive r now closing .shutdown).2.phase ≠ .opened := by
  obtain ⟨w, _, _, ⟨hn, _⟩ | ⟨reason, _, he⟩⟩ := v.arrive_cases r now closing .shutdown h
  · cases hn
  · rw [he]
    exact fun hp ↦ by cases hp

theorem enter_spec : (enter r now closing).1.created = r.created + 1 ∧
    (enter r now closing).2.client = r.created + 1 ∧ (enter r now closing).2.Limited now := by
  have hcreated := r.create.1.join_created r.create.2
  simp only [enter]
  split
  · rename_i r' hj
    rw [hj] at hcreated
    exact ⟨hcreated, rfl, fun _ _ h ↦ by cases h⟩
  · rename_i r' hj
    rw [hj] at hcreated
    exact ⟨(r'.leave_created _).trans hcreated, rfl, limited_leave _ _ _ _ _⟩

variable {v now}

theorem after_settle {p : Phase} (h : Phase.After now' now' p v.phase) :
    Phase.After now now' p (v.settle now').phase := by
  cases p with
  | opened => trivial
  | closing reason due =>
    obtain hp | ⟨hp, _⟩ := h
    · simp only [settle, hp]
      exact .inl rfl
    · simp only [settle, hp]
      split
      · exact .inl rfl
      · rename_i hlt
        exact .inr ⟨hp, .inl (Nat.lt_of_not_le hlt)⟩
  | closed reason =>
    have hp : v.phase = .closed reason := h
    simp only [settle, hp]
    rfl

theorem settle_client : (v.settle now).client = v.client := by
  unfold settle
  split
  · split <;> rfl
  · rfl

theorem limited_settle (h : v.Limited now) : (v.settle now).Limited now := by
  unfold settle
  split
  · split
    · exact fun _ _ hc ↦ by cases hc
    · exact h
  · exact h

theorem Limited.mono (h : v.Limited now) (hle : now ≤ now') : v.Limited now' :=
  fun reason due hd ↦ Nat.le_trans (h reason due hd) (Nat.add_le_add_right hle _)

end Visit

namespace Session

variable {s s' s'' : Session} {c d : ClientNumber}

theorem line?_modify (s : Session) (c d : Nat) (f : Line → Line) :
    (s.modify c f).line? d = if d = c then (s.line? d).map f else s.line? d := by
  unfold line? modify
  by_cases hd : d = 0
  · simp [hd]
  · by_cases hc : c = 0
    · simp [hc, hd]
    · have hi : c - 1 = d - 1 ↔ d = c := by omega
      by_cases h : d = c <;> simp [hc, hd, hi, h]

theorem line?_settle (s : Session) (c : ClientNumber) :
    s.settle.line? c =
      (s.line? c).map fun l ↦ { l with visit := l.visit.settle s.now } := by
  unfold line? settle
  by_cases hc : c = 0
  · simp [hc]
  · simp [hc]

theorem mem_lines_of_line? {l : Line} (h : s.line? c = some l) : l ∈ s.lines := by
  unfold line? at h
  split at h
  · cases h
  · exact List.mem_of_getElem? h

/-- How a session goes on at one moment. -/
structure Moves (s s' : Session) : Prop where
  now : s'.now = s.now
  abandoned : s'.abandoned = s.abandoned
  created : s'.audience.roster.created = s.audience.roster.created
  length : s'.lines.length = s.lines.length
  visits : ∀ c l, s.line? c = some l →
    ∃ l', s'.line? c = some l' ∧ l.visit.Moves s.now l'.visit

theorem Moves.refl (s : Session) : Moves s s :=
  ⟨rfl, rfl, rfl, rfl, fun _ l hl ↦ ⟨l, hl, .refl _ _⟩⟩

theorem Moves.trans (h : Moves s s') (h' : Moves s' s'') : Moves s s'' where
  now := h'.now.trans h.now
  abandoned := h'.abandoned.trans h.abandoned
  created := h'.created.trans h.created
  length := h'.length.trans h.length
  visits c l hl := by
    obtain ⟨l', hl', hv⟩ := h.visits c l hl
    obtain ⟨l'', hl'', hv'⟩ := h'.visits c l' hl'
    exact ⟨l'', hl'', hv.trans (h.now ▸ hv')⟩

theorem moves_foldl {α : Type} {f : Session → α → Session} (h : ∀ s x, Moves s (f s x))
    (s : Session) (xs : List α) : Moves s (xs.foldl f s) := by
  induction xs generalizing s with
  | nil => exact .refl s
  | cons x xs ih => exact (h s x).trans (ih (f s x))

theorem moves_modify {f : Line → Line}
    (h : ∀ l, s.line? c = some l → l.visit.Moves s.now (f l).visit) : Moves s (s.modify c f) := by
  refine ⟨?_, ?_, ?_, ?_, ?_⟩
  · unfold modify; split <;> rfl
  · unfold modify; split <;> rfl
  · unfold modify; split <;> rfl
  · unfold modify; split <;> simp
  · intro d l hl
    rw [line?_modify]
    split
    · rename_i hd
      exact ⟨f l, by rw [hl, Option.map_some], h l (hd ▸ hl)⟩
    · exact ⟨l, hl, .refl _ _⟩

theorem moves_modify_same {f : Line → Line} (h : ∀ l, (f l).visit = l.visit) :
    Moves s (s.modify c f) :=
  moves_modify fun l _ ↦ (h l).symm ▸ .refl s.now l.visit

theorem moves_audience {a : Audience} (h : a.roster.created = s.audience.roster.created) :
    Moves s { s with audience := a } :=
  ⟨rfl, rfl, h, rfl, fun _ l hl ↦ ⟨l, hl, .refl _ _⟩⟩

theorem moves_visit {l : Line} {v : Visit} {p : Peer} (hl : s.line? c = some l)
    (hv : l.visit.Moves s.now v) :
    Moves s (s.modify c fun line ↦ { line with visit := v, peer := p }) := by
  refine moves_modify fun l' hl' ↦ ?_
  cases hl.symm.trans hl'
  exact hv

theorem moves_arrive (s : Session) (c : ClientNumber) (a : Arrival) (goodbye : Wire.Octets) :
    Moves s (s.arrive c a goodbye) := by
  unfold arrive
  split
  · exact .refl s
  · rename_i l hl
    split
    · rename_i hopen
      obtain ⟨hv, hr⟩ := l.visit.arrive_moves s.audience.roster s.now
        (l.peer.closeTime (s.begun c) goodbye.length) a hopen
      refine (moves_visit hl hv).trans (moves_audience ?_)
      exact hr.trans (moves_visit hl hv).created.symm
    · exact .refl s

theorem moves_answer (s : Session) (c : ClientNumber) (payload : Wire.Octets) :
    Moves s (s.answer c payload) := by
  have hmod : Moves s (s.modify c fun line ↦
      { line with
        peer := line.peer.see (.pong payload)
        answered := line.answered + Wire.width payload.length }) :=
    moves_modify_same fun _ ↦ rfl
  unfold answer
  dsimp only
  split
  · exact hmod
  · exact hmod.trans (moves_audience (by rw [Audience.modify_roster]))

theorem moves_receive (s : Session) (c : ClientNumber) (m : Message) : Moves s (s.receive c m) := by
  unfold receive
  split
  · exact (s.moves_arrive c _ _).trans (moves_answer _ c _)
  · exact s.moves_arrive c _ _
  · exact s.moves_arrive c _ _

theorem moves_receiveAll (s : Session) (c : ClientNumber) (ms : List Message) :
    Moves s (s.receiveAll c ms) := by
  induction ms generalizing s with
  | nil => exact .refl s
  | cons m ms ih =>
    unfold receiveAll
    split
    · exact (s.moves_receive c m).trans (ih _)
    · exact .refl s

theorem moves_drop (s : Session) (c : ClientNumber) : Moves s (s.drop c) := by
  have hmod : Moves s (s.modify c fun line ↦
      { line with peer := { line.peer with present := false } }) :=
    moves_modify_same fun _ ↦ rfl
  refine (hmod.trans (moves_arrive _ c (.frame .error) [])).trans (moves_modify ?_)
  intro l _
  split
  · rename_i reason due hp
    refine ⟨rfl, ?_, fun _ _ _ hc ↦ by cases hc⟩
    rw [hp]
    exact .inl rfl
  · exact .refl _ _

theorem moves_notify (s : Session) (cs : List ClientNumber) : Moves s (s.notify cs) :=
  moves_foldl (fun s c ↦ s.moves_arrive c _ _) s cs

theorem moves_evict (s : Session) (c : ClientNumber) : Moves s (s.evict c).1 := by
  have hr : Moves s { s with
      audience := { s.audience with roster := (s.audience.roster.leave c).1 } } :=
    moves_audience (s.audience.roster.leave_created c)
  unfold evict
  dsimp only
  split
  · exact hr.trans (moves_notify _ _)
  · exact hr

theorem moves_clear (s : Session) : Moves s s.clear.1 :=
  (moves_audience (Roster.dismissAll_created _ _)).trans (moves_notify _ _)

theorem moves_retire (s : Session) : Moves s s.retire.1 :=
  (moves_audience (Roster.dismissAll_created _ _)).trans (moves_notify _ _)

theorem exists_line?_iff {c : Nat} : (∃ l, s.line? c = some l) ↔ 0 < c ∧ c ≤ s.lines.length := by
  unfold line?
  by_cases hc : c = 0
  · simp [hc]
  · simp only [hc, if_false, ← Option.isSome_iff_exists, isSome_getElem?]
    omega

theorem Moves.of_line? (h : Moves s s') {l' : Line} (hl' : s'.line? c = some l') :
    ∃ l, s.line? c = some l ∧ l.visit.Moves s.now l'.visit := by
  have hex := exists_line?_iff.mp ⟨l', hl'⟩
  rw [h.length] at hex
  obtain ⟨l, hl⟩ := exists_line?_iff.mpr hex
  obtain ⟨l'', hl'', hv⟩ := h.visits c l hl
  cases hl'.symm.trans hl''
  exact ⟨l, hl, hv⟩

/-- The connections have the numbers of their clients, and none of them closes for too long. -/
structure Ordered (s : Session) : Prop where
  created : s.audience.roster.created = s.lines.length
  named : ∀ c l, s.line? c = some l → l.visit.client = c
  limited : ∀ c l, s.line? c = some l → l.visit.Limited s.now

/-- When all were told to end, none is open any more. -/
def Told (s : Session) : Prop :=
  s.abandoned = true → ∀ c l, s.line? c = some l → l.visit.phase ≠ .opened

/-- How a session goes on in time. -/
structure Leads (s s' : Session) : Prop where
  ordered : s.Ordered → s'.Ordered
  told : s.Ordered → s.Told → s'.Told
  after : ∀ c l, s.line? c = some l → ∃ l', s'.line? c = some l' ∧
    Visit.Phase.After s.now s'.now l.visit.phase l'.visit.phase

theorem Leads.refl (s : Session) : Leads s s :=
  ⟨id, fun _ ↦ id, fun _ l hl ↦ ⟨l, hl, .refl _ _⟩⟩

theorem Leads.trans (h : Leads s s') (h' : Leads s' s'') : Leads s s'' where
  ordered ho := h'.ordered (h.ordered ho)
  told ho ht := h'.told (h.ordered ho) (h.told ho ht)
  after c l hl := by
    obtain ⟨l', hl', hv⟩ := h.after c l hl
    obtain ⟨l'', hl'', hv'⟩ := h'.after c l' hl'
    exact ⟨l'', hl'', hv.trans hv'⟩

theorem Leads.isSome_line? (h : Leads s s') {c : ClientNumber} (hc : (s.line? c).isSome) :
    (s'.line? c).isSome := by
  obtain ⟨l, hl⟩ := Option.isSome_iff_exists.mp hc
  obtain ⟨l', hl', -⟩ := h.after c l hl
  exact Option.isSome_iff_exists.mpr ⟨l', hl'⟩

theorem Moves.ordered (h : Moves s s') (ho : s.Ordered) : s'.Ordered where
  created := by rw [h.created, h.length, ho.created]
  named c l' hl' := by
    obtain ⟨l, hl, hv⟩ := h.of_line? hl'
    exact hv.client.trans (ho.named c l hl)
  limited c l' hl' := by
    obtain ⟨l, hl, hv⟩ := h.of_line? hl'
    exact h.now ▸ hv.limited (ho.limited c l hl)

theorem Moves.told (h : Moves s s') (ht : s.Told) : s'.Told := by
  intro ha c l' hl'
  obtain ⟨l, hl, hv⟩ := h.of_line? hl'
  exact hv.after.ne_opened (ht (h.abandoned ▸ ha) c l hl)

theorem Moves.leads (h : Moves s s') : Leads s s' where
  ordered := h.ordered
  told _ := h.told
  after c l hl := by
    obtain ⟨l', hl', hv⟩ := h.visits c l hl
    exact ⟨l', hl', h.now ▸ hv.after⟩

theorem Ordered.settle (h : s.Ordered) : s.settle.Ordered where
  created := by simp [Session.settle, h.created]
  named c l hl := by
    rw [line?_settle] at hl
    obtain ⟨l', hl', rfl⟩ := Option.map_eq_some_iff.mp hl
    exact Visit.settle_client.trans (h.named c l' hl')
  limited c l hl := by
    rw [line?_settle] at hl
    obtain ⟨l', hl', rfl⟩ := Option.map_eq_some_iff.mp hl
    exact Visit.limited_settle (h.limited c l' hl')

theorem Told.settle (h : s.Told) : s.settle.Told := by
  intro ha c l hl
  rw [line?_settle] at hl
  obtain ⟨l', hl', rfl⟩ := Option.map_eq_some_iff.mp hl
  have hafter : Visit.Phase.After s.now s.now l'.visit.phase (l'.visit.settle s.now).phase :=
    Visit.after_settle (.refl s.now _)
  exact hafter.ne_opened (h ha c l' hl')

theorem Ordered.later {t : Nat} (h : s.Ordered) (hle : s.now ≤ t) :
    Ordered { s with now := t } where
  created := h.created
  named := h.named
  limited c l hl := (h.limited c l hl).mono hle

theorem leads_settle {t : Nat} (hle : s.now ≤ t) (h : Moves { s with now := t } s') :
    Leads s s'.settle where
  ordered ho := (h.ordered (ho.later hle)).settle
  told _ ht := (h.told (s := { s with now := t }) ht).settle
  after c l hl := by
    obtain ⟨l', hl', hv⟩ := h.visits c l hl
    refine ⟨_, by rw [line?_settle, hl', Option.map_some], ?_⟩
    have hnow : s'.settle.now = t := h.now
    have hnow' : s'.now = t := h.now
    rw [hnow]
    dsimp only
    rw [hnow']
    exact Visit.after_settle hv.after

theorem leads_advance (s : Session) (ms : Nat) : Leads s (s.advance ms) :=
  leads_settle (Nat.le_add_right _ _) (.refl _)

theorem leads_write (s : Session) (c : ClientNumber) (octets : Wire.Octets) :
    Leads s (s.write c octets).1 := by
  unfold write
  split
  · exact .refl s
  · rename_i line _
    split
    · exact .refl s
    · dsimp only
      split
      · exact Moves.leads (moves_modify_same fun _ ↦ rfl)
      · exact leads_settle (Nat.le_max_left _ _) (.refl _)
    · have hmod : Moves s (s.modify c fun l ↦
          { l with receiver := (line.receiver.feed octets).1 }) :=
        moves_modify_same fun _ ↦ rfl
      exact (hmod.trans (moves_receiveAll _ c _)).leads

theorem leads_send (s : Session) (c : ClientNumber) (opcode : Wire.Opcode) (payload : Wire.Octets) :
    Leads s (s.send c opcode payload).1 := by
  unfold send
  split
  · exact .refl s
  · split
    · exact .refl s
    · have hw := s.leads_write c (Wire.sent opcode payload)
      dsimp only
      split
      · exact hw.trans (Moves.leads (moves_modify_same fun _ ↦ rfl))
      · exact hw

theorem arrive_told (s : Session) {c : ClientNumber} {l : Line} (goodbye : Wire.Octets)
    (hl : (s.arrive c .shutdown goodbye).line? c = some l) : l.visit.phase ≠ .opened := by
  unfold arrive at hl
  split at hl
  · rename_i hn
    rw [hn] at hl
    cases hl
  · rename_i l' hl'
    split at hl
    · rename_i hopen
      have hline : (s.modify c fun line ↦ { line with
          visit := (l'.visit.arrive s.audience.roster s.now
            (l'.peer.closeTime (s.begun c) goodbye.length) .shutdown).2
          peer := if (l'.visit.arrive s.audience.roster s.now
            (l'.peer.closeTime (s.begun c) goodbye.length) .shutdown).2.isOpen then l'.peer
            else l'.peer.part }).line? c = some l := hl
      rw [line?_modify, if_pos rfl, hl', Option.map_some] at hline
      cases hline
      exact l'.visit.arrive_shutdown _ _ _ hopen
    · rename_i hopen
      cases hl.symm.trans hl'
      exact fun hp ↦ hopen (decide_eq_true hp)

theorem foldl_told (s : Session) {c : ClientNumber} {cs : List ClientNumber} (hc : c ∈ cs)
    {l : Line} (hl : (cs.foldl (fun s c ↦ s.arrive c .shutdown []) s).line? c = some l) :
    l.visit.phase ≠ .opened := by
  induction cs generalizing s with
  | nil => cases hc
  | cons d ds ih =>
    by_cases hds : c ∈ ds
    · exact ih _ hds hl
    · obtain rfl : c = d := (List.mem_cons.mp hc).resolve_right hds
      have hrest := moves_foldl (fun s c ↦ s.moves_arrive c .shutdown [])
        (s.arrive c .shutdown []) ds
      obtain ⟨l', hl', hv⟩ := hrest.of_line? hl
      exact hv.after.ne_opened (s.arrive_told [] hl')

theorem leads_abandon (s : Session) : Leads s s.abandon := by
  have hfold := moves_foldl (fun s c ↦ s.moves_arrive c .shutdown []) s
    (s.lines.map (·.visit.client))
  refine ⟨fun ho ↦ ?_, fun ho _ _ c l hl ↦ ?_, fun c l hl ↦ ?_⟩
  · have ho' := hfold.ordered ho
    exact ⟨ho'.created, ho'.named, ho'.limited⟩
  · refine s.foldl_told ?_ hl
    obtain ⟨l', hl', _⟩ := hfold.of_line? hl
    exact List.mem_map.mpr ⟨l', mem_lines_of_line? hl', ho.named c l' hl'⟩
  · exact hfold.leads.after c l hl

theorem leads_dispatch (s : Session) (payload : String) : Leads s (s.dispatch payload).1 := by
  have hend := s.audience.le_dispatch_end s.timeout s.now payload
  have hcreated := s.audience.dispatch_created s.timeout s.now payload
  unfold dispatch
  dsimp only
  refine leads_settle hend (Moves.trans ?_ (moves_notify _ _))
  refine Moves.trans (moves_audience hcreated) (moves_foldl (fun s c ↦ ?_) _ _)
  exact moves_modify_same fun _ ↦ rfl

def join (s : Session) (a : Audience) (l : Line) : Session :=
  { s with audience := a, lines := s.lines ++ [l] }

theorem line?_join (s : Session) (a : Audience) (l : Line) (c : Nat) :
    (s.join a l).line? c = if c = s.lines.length + 1 then some l else s.line? c := by
  unfold line? join
  by_cases hc : c = 0
  · simp [hc]
  · by_cases h : c = s.lines.length + 1
    · simp [h]
    · simp only [hc, h, ↓reduceIte, List.getElem?_append]
      split
      · rfl
      · rw [List.getElem?_eq_none (l := s.lines) (by omega), List.getElem?_eq_none]
        simp only [List.length_cons, List.length_nil]
        omega

theorem line?_join_of_line? {a : Audience} {l l' : Line} {c : Nat} (h : s.line? c = some l') :
    (s.join a l).line? c = some l' := by
  have hle := (exists_line?_iff.mp ⟨l', h⟩).2
  rw [line?_join, if_neg (by omega), h]

theorem Ordered.join {a : Audience} {l : Line} (h : s.Ordered)
    (created : a.roster.created = s.audience.roster.created + 1)
    (named : l.visit.client = s.audience.roster.created + 1) (limited : l.visit.Limited s.now) :
    (s.join a l).Ordered where
  created := by simp [Session.join, created, h.created]
  named c l' hl' := by
    rw [line?_join] at hl'
    split at hl'
    · rename_i hc
      cases hl'
      rw [named, h.created, hc]
    · exact h.named c l' hl'
  limited c l' hl' := by
    rw [line?_join] at hl'
    split at hl'
    · cases hl'
      exact limited
    · exact h.limited c l' hl'

theorem leads_join {a : Audience} {l : Line} (h : s.abandoned = false)
    (created : a.roster.created = s.audience.roster.created + 1)
    (named : l.visit.client = s.audience.roster.created + 1) (limited : l.visit.Limited s.now) :
    Leads s (s.join a l) where
  ordered ho := ho.join created named limited
  told _ _ ha := by
    rw [show (s.join a l).abandoned = false from h] at ha
    cases ha
  after _ l' hl' := ⟨l', line?_join_of_line? hl', .refl _ _⟩

/-- Where all were told to end, whoever comes is told so at once. -/
theorem leads_join_told {a : Audience} {l : Line} (goodbye : Wire.Octets)
    (created : a.roster.created = s.audience.roster.created + 1)
    (named : l.visit.client = s.audience.roster.created + 1) (limited : l.visit.Limited s.now) :
    Leads s ((s.join a l).arrive l.visit.client .shutdown goodbye) := by
  have hmoves := (s.join a l).moves_arrive l.visit.client .shutdown goodbye
  refine ⟨fun ho ↦ hmoves.ordered (ho.join created named limited), ?_, ?_⟩
  · intro ho ht ha c l' hl'
    -- nobody else was open before, and only the one who came is told
    by_cases hc : c = l.visit.client
    · subst hc
      exact (s.join a l).arrive_told goodbye hl'
    · obtain ⟨l'', hl'', hv⟩ := hmoves.of_line? hl'
      rw [line?_join, if_neg (by rwa [← ho.created, ← named])] at hl''
      exact hv.after.ne_opened (ht (hmoves.abandoned ▸ ha) c l'' hl'')
  · exact fun c l' hl' ↦ hmoves.leads.after c l' (line?_join_of_line? hl')

theorem leads_connect (s : Session) (kind : Peer.Kind) : Leads s (s.connect kind) := by
  obtain ⟨hcreated, hnamed, hlimited⟩ := Visit.enter_spec s.audience.roster s.now
    (Peer.closeTime ⟨kind, true, false, []⟩ 0 0)
  unfold connect
  dsimp only
  split
  · exact leads_join_told [] hcreated hnamed hlimited
  · rename_i ha
    exact leads_join (Bool.eq_false_iff.mpr ha) hcreated hnamed hlimited

end Session

end ChangeRelay
