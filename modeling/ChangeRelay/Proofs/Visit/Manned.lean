import ChangeRelay.Proofs.Visit.Life

namespace ChangeRelay

namespace Session

variable {s s' s'' : Session} {c : ClientNumber}

def members (s : Session) : List ClientNumber := s.audience.roster.members

def IsOpen (s : Session) (c : ClientNumber) : Prop :=
  ∃ l, s.line? c = some l ∧ l.visit.phase = .opened

/-- A session goes on without newcomers: members only leave, and the connections of those who stay
remain open. -/
structure Keeps (s s' : Session) : Prop where
  ordered : s.Ordered → s'.Ordered
  created : s'.audience.roster.created = s.audience.roster.created
  members : s.Ordered → s'.members.Sublist s.members
  stays : s.Ordered → ∀ c ∈ s'.members, s.IsOpen c → s'.IsOpen c

theorem Keeps.refl (s : Session) : Keeps s s := ⟨id, rfl, fun _ ↦ .refl _, fun _ _ _ ↦ id⟩

theorem Keeps.trans (h : Keeps s s') (h' : Keeps s' s'') : Keeps s s'' where
  ordered ho := h'.ordered (h.ordered ho)
  created := h'.created.trans h.created
  members ho := (h'.members (h.ordered ho)).trans (h.members ho)
  stays ho c hc hopen := by
    have hc' := (h'.members (h.ordered ho)).subset hc
    exact h'.stays (h.ordered ho) c hc (h.stays ho c hc' hopen)

theorem keeps_foldl {α : Type} {f : Session → α → Session} (h : ∀ s x, Keeps s (f s x))
    (s : Session) (xs : List α) : Keeps s (xs.foldl f s) := by
  induction xs generalizing s with
  | nil => exact .refl s
  | cons x xs ih => exact (h s x).trans (ih (f s x))

theorem modify_members (s : Session) (c : ClientNumber) (f : Line → Line) :
    (s.modify c f).members = s.members := by
  unfold Session.members modify
  split <;> rfl

theorem IsOpen.modify (h : s.IsOpen c) {d : ClientNumber} {f : Line → Line}
    (hf : ∀ l, s.line? d = some l → l.visit.phase = .opened → (f l).visit.phase = .opened) :
    (s.modify d f).IsOpen c := by
  obtain ⟨l, hl, hp⟩ := h
  rw [IsOpen, line?_modify]
  split
  · rename_i hc
    exact ⟨f l, by rw [hl, Option.map_some], hf l (hc ▸ hl) hp⟩
  · exact ⟨l, hl, hp⟩

theorem keeps_modify {d : ClientNumber} {f : Line → Line} (hm : Moves s (s.modify d f))
    (hf : ∀ l, s.line? d = some l → l.visit.phase = .opened → (f l).visit.phase = .opened) :
    Keeps s (s.modify d f) where
  ordered := hm.ordered
  created := hm.created
  members _ := by rw [modify_members]
  stays _ _ _ hopen := hopen.modify hf

theorem keeps_modify_same {d : ClientNumber} {f : Line → Line}
    (h : ∀ l, (f l).visit = l.visit) : Keeps s (s.modify d f) :=
  keeps_modify (moves_modify_same h) fun l _ hp ↦ by rw [h, hp]

theorem keeps_audience {a : Audience} (hc : a.roster.created = s.audience.roster.created)
    (hm : a.roster.members.Sublist s.members) : Keeps s { s with audience := a } where
  ordered := (moves_audience hc).ordered
  created := hc
  members _ := hm
  stays _ _ _ := id

theorem arrive_spec {l : Line} (hl : s.line? c = some l) (hopen : l.visit.isOpen = true)
    (a : Arrival) (goodbye : Wire.Octets) :
    ∃ f r, s.arrive c a goodbye =
        { s.modify c f with audience := { (s.modify c f).audience with roster := r } } ∧
      ((∀ line, (f line).visit.phase = .opened) ∧ r = s.audience.roster ∨
        (∃ reason due, ∀ line, (f line).visit.phase = .closing reason due) ∧
          r = (s.audience.roster.leave l.visit.client).1) := by
  have hp : l.visit.phase = .opened := of_decide_eq_true hopen
  simp only [arrive, hl, hopen, if_true]
  refine ⟨_, _, rfl, ?_⟩
  obtain ⟨w, hw, hphase, ⟨-, he⟩ | ⟨reason, -, he⟩⟩ := l.visit.arrive_cases s.audience.roster s.now
    (l.peer.closeTime (s.begun c) goodbye.length) a hopen
  · rw [he]
    exact .inl ⟨fun _ ↦ hphase.trans hp, rfl⟩
  · rw [he, ← hw]
    exact .inr ⟨⟨reason, _, fun _ ↦ rfl⟩, rfl⟩

theorem keeps_arrive (s : Session) (c : ClientNumber) (a : Arrival) (goodbye : Wire.Octets) :
    Keeps s (s.arrive c a goodbye) := by
  have hmoves := s.moves_arrive c a goodbye
  cases hl : s.line? c with
  | none =>
    have hsame : s.arrive c a goodbye = s := by simp only [arrive, hl]
    rw [hsame]
    exact .refl s
  | some l =>
    by_cases hopen : l.visit.isOpen = true
    · obtain ⟨f, r, he, hr⟩ := arrive_spec hl hopen a goodbye
      refine ⟨hmoves.ordered, hmoves.created, fun ho ↦ ?_, fun ho d hd hdopen ↦ ?_⟩
      · rw [he]
        obtain ⟨-, rfl⟩ | ⟨-, rfl⟩ := hr
        · exact .refl _
        · change (s.audience.roster.leave l.visit.client).1.members.Sublist _
          rw [Roster.leave_members]
          exact List.filter_sublist
      · rw [he] at hd ⊢
        change (s.modify c f).IsOpen d
        obtain ⟨hf, rfl⟩ | ⟨-, rfl⟩ := hr
        · exact hdopen.modify fun l _ _ ↦ hf l
        · have hne : d ≠ c := by
            rintro rfl
            change d ∈ (s.audience.roster.leave l.visit.client).1.members at hd
            simp [Roster.leave_members, ho.named d l hl] at hd
          obtain ⟨k, hk, hkp⟩ := hdopen
          exact ⟨k, by rw [line?_modify, if_neg hne, hk], hkp⟩
    · have hsame : s.arrive c a goodbye = s := by simp only [arrive, hl, hopen]; rfl
      rw [hsame]
      exact .refl s

theorem keeps_answer (s : Session) (c : ClientNumber) (payload : Wire.Octets) :
    Keeps s (s.answer c payload) := by
  have hmod : Keeps s (s.modify c fun line ↦
      { line with
        peer := line.peer.see (.pong payload)
        answered := line.answered + Wire.width payload.length }) :=
    keeps_modify_same fun _ ↦ rfl
  unfold answer
  dsimp only
  split
  · exact hmod
  · refine hmod.trans (keeps_audience ?_ ?_)
    · rw [Audience.modify_roster]
    · rw [Audience.modify_roster]
      exact .refl _

theorem keeps_receive (s : Session) (c : ClientNumber) (m : Message) : Keeps s (s.receive c m) := by
  unfold receive
  split
  · exact (s.keeps_arrive c _ _).trans (keeps_answer _ c _)
  · exact s.keeps_arrive c _ _
  · exact s.keeps_arrive c _ _

theorem keeps_receiveAll (s : Session) (c : ClientNumber) (ms : List Message) :
    Keeps s (s.receiveAll c ms) := by
  induction ms generalizing s with
  | nil => exact .refl s
  | cons m ms ih =>
    unfold receiveAll
    split
    · exact (s.keeps_receive c m).trans (ih _)
    · exact .refl s

theorem keeps_later {t : Nat} (hle : s.now ≤ t) : Keeps s { s with now := t } where
  ordered ho := ho.later hle
  created := rfl
  members _ := .refl _
  stays _ _ _ := id

theorem keeps_settle (s : Session) : Keeps s s.settle where
  ordered := Ordered.settle
  created := rfl
  members _ := .refl _
  stays _ c _ hopen := by
    obtain ⟨l, hl, hp⟩ := hopen
    refine ⟨_, by rw [line?_settle, hl, Option.map_some], ?_⟩
    simp only [Visit.settle, hp]

theorem keeps_advance (s : Session) (ms : Nat) : Keeps s (s.advance ms) :=
  (keeps_later (Nat.le_add_right _ _)).trans (keeps_settle _)

theorem keeps_write (s : Session) (c : ClientNumber) (octets : Wire.Octets) :
    Keeps s (s.write c octets).1 := by
  unfold write
  split
  · exact .refl s
  · rename_i line _
    split
    · exact .refl s
    · dsimp only
      split
      · exact keeps_modify_same fun _ ↦ rfl
      · exact (keeps_later (Nat.le_max_left _ _)).trans (keeps_settle _)
    · have hmod : Keeps s (s.modify c fun l ↦
          { l with receiver := (line.receiver.feed octets).1 }) :=
        keeps_modify_same fun _ ↦ rfl
      exact hmod.trans (keeps_receiveAll _ c _)

theorem keeps_send (s : Session) (c : ClientNumber) (opcode : Wire.Opcode)
    (payload : Wire.Octets) : Keeps s (s.send c opcode payload).1 := by
  unfold send
  split
  · exact .refl s
  · split
    · exact .refl s
    · have hw := s.keeps_write c (Wire.sent opcode payload)
      dsimp only
      split
      · exact hw.trans (keeps_modify_same fun _ ↦ rfl)
      · exact hw

theorem keeps_drop (s : Session) (c : ClientNumber) : Keeps s (s.drop c) := by
  have hmod : Keeps s (s.modify c fun line ↦
      { line with peer := { line.peer with present := false } }) :=
    keeps_modify_same fun _ ↦ rfl
  refine (hmod.trans (keeps_arrive _ c (.frame .error) [])).trans (keeps_modify ?_ ?_)
  · refine moves_modify fun l _ ↦ ?_
    split
    · rename_i reason due hp
      refine ⟨rfl, ?_, fun _ _ _ hc ↦ by cases hc⟩
      rw [hp]
      exact .inl rfl
    · exact .refl _ _
  · intro l _ hp
    simp only [hp]

theorem keeps_notify (s : Session) (cs : List ClientNumber) : Keeps s (s.notify cs) :=
  keeps_foldl (fun s c ↦ s.keeps_arrive c _ _) s cs

theorem keeps_evict (s : Session) (c : ClientNumber) : Keeps s (s.evict c).1 := by
  have hr : Keeps s { s with
      audience := { s.audience with roster := (s.audience.roster.leave c).1 } } := by
    refine keeps_audience (s.audience.roster.leave_created c) ?_
    rw [Roster.leave_members]
    exact List.filter_sublist
  unfold evict
  dsimp only
  split
  · exact hr.trans (keeps_notify _ _)
  · exact hr

theorem keeps_clear (s : Session) : Keeps s s.clear.1 := by
  refine (keeps_audience (Roster.dismissAll_created _ _) ?_).trans (keeps_notify _ _)
  rw [Roster.dismissAll_members]
  exact List.nil_sublist _

theorem keeps_retire (s : Session) : Keeps s s.retire.1 := by
  refine (keeps_audience (Roster.dismissAll_created _ _) ?_).trans (keeps_notify _ _)
  rw [Roster.dismissAll_members]
  exact List.nil_sublist _

theorem keeps_abandon (s : Session) : Keeps s s.abandon := by
  have hfold := keeps_foldl (fun s c ↦ s.keeps_arrive c .shutdown []) s
    (s.lines.map (·.visit.client))
  exact ⟨s.leads_abandon.ordered, hfold.created, hfold.members, hfold.stays⟩

end Session

theorem Dispatch.settleAll_members (a : Audience) (d : Dispatch) :
    (settleAll a d).1.roster.members.Sublist a.roster.members := by
  unfold settleAll
  induction d.begun generalizing a d with
  | nil => exact .refl _
  | cons leg legs ih =>
    have hone : (d.settle a leg).1.roster.members.Sublist a.roster.members := by
      rw [settle_roster]
      split
      · exact .refl _
      · rw [Roster.leave_members]
        exact List.filter_sublist
    exact (ih _ _).trans hone

theorem Session.keeps_dispatch (s : Session) (payload : String) :
    Keeps s (s.dispatch payload).1 := by
  have hend := s.audience.le_dispatch_end s.timeout s.now payload
  have hcreated := s.audience.dispatch_created s.timeout s.now payload
  have hmembers : (s.audience.dispatch s.timeout s.now payload).1.roster.members.Sublist
      s.audience.roster.members := by
    refine (Dispatch.settleAll_members _ _).trans ?_
    rw [Dispatch.startAll_roster]
  unfold dispatch
  dsimp only
  refine Keeps.trans ?_ (keeps_settle _)
  refine Keeps.trans ?_ (keeps_notify _ _)
  refine Keeps.trans ?_ (keeps_foldl (fun s c ↦ ?_) _ _)
  · exact (keeps_later hend).trans (keeps_audience hcreated hmembers)
  · exact keeps_modify_same fun _ ↦ rfl

namespace Session

variable {s s' : Session} {c : ClientNumber}

/-- Each member has an open connection of its own. -/
structure Manned (s : Session) : Prop where
  ordered : s.Ordered
  nodup : s.members.Nodup
  isOpen : ∀ c ∈ s.members, s.IsOpen c

theorem Keeps.manned (h : Keeps s s') (hm : s.Manned) : s'.Manned where
  ordered := h.ordered hm.ordered
  nodup := hm.nodup.sublist (h.members hm.ordered)
  isOpen c hc := h.stays hm.ordered c hc (hm.isOpen c ((h.members hm.ordered).subset hc))

theorem IsOpen.join (h : s.IsOpen c) (a : Audience) (l : Line) : (s.join a l).IsOpen c := by
  obtain ⟨k, hk, hp⟩ := h
  exact ⟨k, line?_join_of_line? hk, hp⟩

end Session

/-- Whoever comes is let in and has an open connection, or stays out and its connection closes. -/
theorem Visit.enter_members (r : Roster) (now : Nat) (closing : Option Nat) :
    (enter r now closing).2.phase = .opened ∧ r.created + 1 ∉ r.members ∧
        (enter r now closing).1.members = Roster.place (r.created + 1) r.members ∨
      (∃ reason due, (enter r now closing).2.phase = .closing reason due) ∧
        (enter r now closing).1.members.Sublist r.members := by
  rcases enter_join r now closing with ⟨r', hjoin, henter⟩ | ⟨r', hjoin, henter⟩
  · rcases r.create.1.join_cases (r.created + 1) with ⟨-, he⟩ | ⟨-, -, he⟩ | ⟨-, -, hm, he⟩
    · cases hjoin.symm.trans he
    · cases hjoin.symm.trans he
    · cases hjoin.symm.trans he
      rw [henter]
      exact .inl ⟨rfl, hm, rfl⟩
  · have hmembers : r'.members = r.members := by
      rcases r.create.1.join_cases (r.created + 1) with ⟨-, he⟩ | ⟨-, -, he⟩ | ⟨-, -, -, he⟩
      · cases hjoin.symm.trans he
        rfl
      · cases hjoin.symm.trans he
        exact Roster.dismiss_members ..
      · cases hjoin.symm.trans he
    refine .inr ⟨⟨_, _, by rw [henter]; rfl⟩, ?_⟩
    rw [henter]
    change (r'.leave _).1.members.Sublist _
    rw [Roster.leave_members, hmembers]
    exact List.filter_sublist

namespace Session

variable {s : Session}

theorem IsOpen.of_join {a : Audience} {l : Line} {c : ClientNumber}
    (hc : c = s.lines.length + 1) (h : l.visit.phase = .opened) : (s.join a l).IsOpen c :=
  ⟨l, by rw [line?_join, if_pos hc], h⟩

theorem exists_join (s : Session) (kind : Peer.Kind) :
    ∃ a l closing, l.visit = (Visit.enter s.audience.roster s.now closing).2 ∧
      a.roster = (Visit.enter s.audience.roster s.now closing).1 ∧
      s.connect kind =
        if s.abandoned then (s.join a l).arrive l.visit.client .shutdown [] else s.join a l :=
  ⟨_, _, _, rfl, rfl, rfl⟩

theorem Manned.join {a : Audience} {l : Line} (h : s.Manned) {closing : Option Nat}
    (hv : l.visit = (Visit.enter s.audience.roster s.now closing).2)
    (hr : a.roster = (Visit.enter s.audience.roster s.now closing).1) : (s.join a l).Manned := by
  obtain ⟨hcreated, hnamed, hlimited⟩ := Visit.enter_spec s.audience.roster s.now closing
  have ho : (s.join a l).Ordered :=
    h.ordered.join (hr ▸ hcreated) (hv ▸ hnamed) (hv ▸ hlimited)
  have hmembers : (s.join a l).members = a.roster.members := rfl
  rcases Visit.enter_members s.audience.roster s.now closing with ⟨hp, hnew, hm⟩ | ⟨-, hm⟩
  · refine ⟨ho, ?_, fun c hc ↦ ?_⟩
    · rw [hmembers, hr, hm]
      exact Roster.nodup_place _ hnew h.nodup
    · rw [hmembers, hr, hm, Roster.mem_place] at hc
      obtain rfl | hc := hc
      · exact .of_join (by rw [h.ordered.created]) (hv ▸ hp)
      · exact (h.isOpen c hc).join a l
  · rw [← hr] at hm
    exact ⟨ho, h.nodup.sublist hm, fun c hc ↦ (h.isOpen c (hm.subset hc)).join a l⟩

structure Joined (s s' : Session) : Prop where
  manned : s'.Manned
  created : s'.audience.roster.created = s.audience.roster.created + 1
  members : ∀ c ∈ s'.members, c ∈ s.members ∨ c = s.audience.roster.created + 1
  running : ∃ l, s'.line? (s.audience.roster.created + 1) = some l ∧
    ∀ reason, l.visit.phase ≠ .closed reason

theorem joined_join {a : Audience} {l : Line} (h : s.Manned) {closing : Option Nat}
    (hv : l.visit = (Visit.enter s.audience.roster s.now closing).2)
    (hr : a.roster = (Visit.enter s.audience.roster s.now closing).1) :
    Joined s (s.join a l) where
  manned := h.join hv hr
  created := by
    change a.roster.created = _
    rw [hr]
    exact (Visit.enter_spec ..).1
  members c hc := by
    have hc' : c ∈ a.roster.members := hc
    rw [hr] at hc'
    rcases Visit.enter_members s.audience.roster s.now closing with ⟨-, -, hm⟩ | ⟨-, hm⟩
    · rw [hm, Roster.mem_place] at hc'
      exact hc'.symm
    · exact .inl (hm.subset hc')
  running := by
    refine ⟨l, by rw [line?_join, if_pos (by rw [h.ordered.created])], fun reason hp ↦ ?_⟩
    rw [hv] at hp
    rcases Visit.enter_members s.audience.roster s.now closing with ⟨hp', -⟩ | ⟨⟨_, _, hp'⟩, -⟩
    · cases hp'.symm.trans hp
    · cases hp'.symm.trans hp

theorem exists_running_arrive {d : ClientNumber} {l : Line} (hl : s.line? d = some l)
    (hp : ∀ reason, l.visit.phase ≠ .closed reason) (c : ClientNumber) (a : Arrival)
    (goodbye : Wire.Octets) :
    ∃ l', (s.arrive c a goodbye).line? d = some l' ∧
      ∀ reason, l'.visit.phase ≠ .closed reason := by
  cases hc : s.line? c with
  | none => exact ⟨l, by simpa only [arrive, hc] using hl, hp⟩
  | some k =>
    by_cases hopen : k.visit.isOpen = true
    · obtain ⟨f, r, he, hr⟩ := arrive_spec hc hopen a goodbye
      have hline : (s.arrive c a goodbye).line? d = (s.modify c f).line? d := by rw [he]; rfl
      rw [hline, line?_modify, hl]
      split
      · refine ⟨f l, rfl, fun reason hreason ↦ ?_⟩
        obtain ⟨hf, -⟩ | ⟨⟨_, _, hf⟩, -⟩ := hr
        · cases (hf l).symm.trans hreason
        · cases (hf l).symm.trans hreason
      · exact ⟨l, rfl, hp⟩
    · have hsame : s.arrive c a goodbye = s := by simp only [arrive, hc, hopen]; rfl
      exact ⟨l, by rw [hsame, hl], hp⟩

theorem Manned.connect (h : s.Manned) (kind : Peer.Kind) : Joined s (s.connect kind) := by
  obtain ⟨a, l, closing, hv, hr, he⟩ := s.exists_join kind
  have hjoined : Joined s (s.join a l) := joined_join h hv hr
  rw [he]
  split
  · have hkeeps := (s.join a l).keeps_arrive l.visit.client .shutdown []
    have ho := hjoined.manned.ordered
    obtain ⟨k, hk, hp⟩ := hjoined.running
    exact {
      manned := hkeeps.manned hjoined.manned
      created := hkeeps.created.trans hjoined.created
      members := fun c hc ↦ hjoined.members c ((hkeeps.members ho).subset hc)
      running := exists_running_arrive hk hp .. }
  · exact hjoined

end Session

end ChangeRelay
