import ChangeRelay.Broadcast.Queue
import ChangeRelay.Options.Basic
import ChangeRelay.Proofs.Except
import Mathlib.Order.MinMax

namespace ChangeRelay

def Setting.Domain.Has : Setting.Domain → Setting.Value → Prop
  | .path, .text t => t ≠ ""
  | .text, .text _ => True
  | .number least greatest, .number n => least ≤ n ∧ n ≤ greatest
  | _, _ => False

/-- Options that a relay can be started with if a queue and a server can have that many places. -/
structure ServeOptions.Suits (places : Nat) (o : ServeOptions) : Prop where
  pollInterval : 1 ≤ o.pollInterval
  writeTimeout : 1 ≤ o.writeTimeout
  queue : 1 ≤ (Queue.new o.queueCapacity).capacity ∧ (Queue.new o.queueCapacity).capacity ≤ places
  slots : 1 ≤ o.slots ∧ o.slots ≤ places

def Command.Suits (places : Nat) : Command → Prop
  | serve o => o.Suits places
  | watch o => 1 ≤ o.fallbackInterval

namespace Options

variable {s : Setting} {v : Setting.Value} {t : String} {env : List (String × String)}
  {r r' : Reading} {l : Level} {words : List String}

theorem has_of_readValue (h : readValue s t = .ok v) : s.domain.Has v := by
  unfold readValue at h
  split at h
  · rename_i hd
    split_ifs at h with ht
    cases h
    rw [hd]
    simpa [Setting.Domain.Has] using ht
  · rename_i hd
    cases h
    rw [hd]
    trivial
  · rename_i least greatest hd
    split at h
    · split_ifs at h with hn
      cases h
      rw [hd]
      exact hn
    · cases h

def Admitted (vs : List (Setting × Setting.Value)) : Prop := ∀ p ∈ vs, p.1.domain.Has p.2

theorem Admitted.append {vs ws : List (Setting × Setting.Value)} (hv : Admitted vs)
    (hw : Admitted ws) : Admitted (vs ++ ws) :=
  List.forall_mem_append.mpr ⟨hv, hw⟩

theorem Admitted.concat {vs : List (Setting × Setting.Value)} (hv : Admitted vs)
    (h : readValue s t = .ok v) : Admitted (vs ++ [(s, v)]) :=
  hv.append (List.forall_mem_singleton.mpr (has_of_readValue h))

theorem Admitted.has_of_lookup {vs : List (Setting × Setting.Value)} (hv : Admitted vs)
    (h : vs.lookup s = some v) : s.domain.Has v := by
  obtain ⟨before, after, rfl, -⟩ := List.lookup_eq_some_iff.mp h
  exact hv (s, v) (by simp)

theorem Reading.admitted_add (hr : Admitted r.given) (h : r.add s t = .ok r') :
    Admitted r'.given := by
  unfold add at h
  split_ifs at h
  obtain ⟨v, hv, h⟩ := bind_eq_ok_iff.mp h
  cases h
  exact hr.concat hv

theorem Reading.admitted_settle (hr : Admitted r.given) (h : r.settle = .ok r') :
    Admitted r'.given := by
  unfold settle at h
  split at h
  · cases h
    exact hr
  · cases h
  · exact admitted_add (r := { r with pending := none }) hr h

theorem Reading.admitted_begin {attached : Option String} (hr : Admitted r.given)
    (h : r.begin s attached = .ok r') : Admitted r'.given := by
  obtain ⟨u, hu, h⟩ := bind_eq_ok_iff.mp h
  have hu := admitted_settle hr hu
  cases attached with
  | some t => exact admitted_add hu h
  | none =>
    cases h
    exact hu

theorem not_help {e : Refusal} (h : (r.settle.bind fun _ ↦ .error e) = .ok r') : False := by
  obtain ⟨_, -, h⟩ := bind_eq_ok_iff.mp h
  cases h

theorem Level.admitted_long {name : List Char} (hr : Admitted r.given)
    (h : l.long r name = .ok r') : Admitted r'.given := by
  unfold long at h
  dsimp only at h
  split_ifs at h
  · exact (not_help h).elim
  · split at h
    · exact Reading.admitted_begin hr h
    · cases h

theorem Level.admitted_short {letter : Char} {rest : List Char} (hr : Admitted r.given)
    (h : l.short r letter rest = .ok r') : Admitted r'.given := by
  unfold short at h
  split_ifs at h
  · exact (not_help h).elim
  · split at h
    · cases h
    · split at h <;> exact Reading.admitted_begin hr h

theorem Level.admitted_read {command? : Option (String × List String)} (hr : Admitted r.given)
    (h : l.read r words = .ok (r', command?)) : Admitted r'.given := by
  -- a word that is the value of the last setting is not checked yet, and so not among the given
  induction words generalizing r with
  | nil =>
    cases h
    exact hr
  | cons w ws ih =>
    unfold read at h
    split_ifs at h
    · cases h
      exact hr
    · split at h
      · split at h
        · cases h
          exact hr
        · cases h
      · obtain ⟨u, hu, h⟩ := bind_eq_ok_iff.mp h
        exact ih (admitted_long hr hu) h
      · obtain ⟨u, hu, h⟩ := bind_eq_ok_iff.mp h
        exact ih (admitted_short hr hu) h
      · split at h
        · rename_i s _
          exact ih (r := { r with pending := some (s, some w) }) hr h
        · cases h

theorem Level.admitted_fromEnvironment {found : List (Setting × Setting.Value)}
    (h : l.fromEnvironment env r = .ok found) : Admitted found := by
  refine foldlM_keeps (P := Admitted) (fun {vs s vs'} hvs hstep ↦ ?_) (List.forall_mem_nil _) h
  split at hstep
  · obtain ⟨v, hv, hstep⟩ := bind_eq_ok_iff.mp hstep
    cases hstep
    exact hvs.concat hv
  · cases hstep
    exact hvs

theorem admitted_of_parse {o : Options} (h : parse env words = .ok o) :
    ∃ command vs, Admitted vs ∧ o = ofValues command fun s ↦ vs.lookup s := by
  have hempty : Admitted Reading.empty.given := List.forall_mem_nil _
  obtain ⟨⟨before, command?⟩, hread, h⟩ := bind_eq_ok_iff.mp h
  have hbefore : Admitted before.given := Level.admitted_read hempty hread
  dsimp only at h
  split at h
  · obtain ⟨_, -, h⟩ := bind_eq_ok_iff.mp h
    obtain ⟨_, -, h⟩ := bind_eq_ok_iff.mp h
    cases h
  · cases h
  · obtain ⟨⟨inner, _⟩, hinner, h⟩ := bind_eq_ok_iff.mp h
    obtain ⟨settled, hsettled, h⟩ := bind_eq_ok_iff.mp h
    obtain ⟨innerFound, hinnerFound, h⟩ := bind_eq_ok_iff.mp h
    obtain ⟨outer, houter, h⟩ := bind_eq_ok_iff.mp h
    obtain ⟨found, hfound, h⟩ := bind_eq_ok_iff.mp h
    cases h
    have hsettled := Reading.admitted_settle (Level.admitted_read hempty hinner) hsettled
    have houter := Reading.admitted_settle hbefore houter
    have hgiven := (hsettled.append houter).append (Level.admitted_fromEnvironment hinnerFound)
    exact ⟨_, _, hgiven.append (Level.admitted_fromEnvironment hfound), rfl⟩

def wordMax : Nat := Nat.pow 2 64 - 1

/-- The most places that there can be in a queue, or slots in a server: three bits of the 64 are not
for counting them. -/
def mostPlaces : Nat := Nat.pow 2 61 - 1

theorem Values.number_within {values : Values} {least greatest default : Nat}
    (hv : ∀ s v, values s = some v → s.domain.Has v) (hs : s.domain = .number least greatest)
    (hd : least ≤ default ∧ default ≤ greatest) :
    least ≤ values.number s default ∧ values.number s default ≤ greatest := by
  unfold number
  split
  · rename_i n hn
    have hn := hv s (.number n) hn
    rwa [hs] at hn
  · exact hd

def Suits (places : Nat) (o : Options) : Prop := 1 ≤ o.requestTimeout ∧ o.command.Suits places

theorem suits_ofValues (command : String) {values : Values}
    (hv : ∀ s v, values s = some v → s.domain.Has v) : (ofValues command values).Suits wordMax := by
  have least {s : Setting} {default : Nat} (hs : s.domain = .number 1 wordMax)
      (hd : 1 ≤ default ∧ default ≤ wordMax) : 1 ≤ values.number s default :=
    (Values.number_within hv hs hd).1
  have greatest {s : Setting} {default : Nat} (hs : s.domain = .number 0 wordMax)
      (hd : default ≤ wordMax) : max 1 (values.number s default) ≤ wordMax :=
    max_le (by decide) (Values.number_within hv hs ⟨Nat.zero_le _, hd⟩).2
  refine ⟨least rfl (by decide), ?_⟩
  unfold ofValues
  dsimp only
  split_ifs
  · exact ⟨least rfl (by decide), least rfl (by decide),
      ⟨le_max_right _ _, max_le (greatest rfl (by decide)) (by decide)⟩,
      ⟨le_max_left _ _, greatest rfl (by decide)⟩⟩
  · exact least rfl (by decide)

theorem suits_iff {o : Options} {places : Nat} (h : o.Suits wordMax) (hp : 1 ≤ places) :
    o.Suits places ↔ ∀ s, o.command = .serve s →
      s.queueCapacity ≤ places ∧ s.maxConnections ≤ places := by
  obtain ⟨socket, database, requestTimeout, command⟩ := o
  obtain ⟨hrequest, hcommand⟩ := h
  cases command with
  | watch o => exact ⟨fun _ ↦ nofun, fun _ ↦ ⟨hrequest, hcommand⟩⟩
  | serve o =>
    obtain ⟨hpoll, hwrite, ⟨hqueue, -⟩, ⟨hslots, -⟩⟩ := hcommand
    constructor
    · rintro ⟨-, -, -, ⟨-, hq⟩, ⟨-, hs⟩⟩ _ ⟨⟩
      exact ⟨(le_max_left _ _).trans hq, (le_max_right _ _).trans hs⟩
    · intro hplaces
      obtain ⟨hq, hs⟩ := hplaces o rfl
      exact ⟨hrequest, hpoll, hwrite, ⟨hqueue, max_le hq hp⟩, ⟨hslots, max_le hp hs⟩⟩

/-- All that is accepted is fit for a relay with room for any number of 64 bits; it is fit for a
relay with the room that there is if neither the queue nor the server is asked for more. -/
theorem suits {o : Options} (h : parse env words = .ok o) :
    o.Suits wordMax ∧
      (o.Suits mostPlaces ↔ ∀ s, o.command = .serve s →
        s.queueCapacity ≤ mostPlaces ∧ s.maxConnections ≤ mostPlaces) := by
  obtain ⟨command, vs, hvs, rfl⟩ := admitted_of_parse h
  have hsuits := suits_ofValues command fun s v ↦ hvs.has_of_lookup
  exact ⟨hsuits, suits_iff hsuits (by decide)⟩

def narrow : Options := ⟨none, none, 5000, .serve ⟨"localhost", 8082, 250, 1, 10000, 0⟩⟩

theorem suits_narrow :
    parse [("BEADCAST_POLL_INTERVAL_MS", "250")]
        ["serve", "--queue-capacity", "0", "--max-connections=0"] = .ok narrow ∧
      narrow.Suits mostPlaces := by
  have h : parse [("BEADCAST_POLL_INTERVAL_MS", "250")]
      ["serve", "--queue-capacity", "0", "--max-connections=0"] = .ok narrow := rfl
  refine ⟨h, (suits h).2.mpr ?_⟩
  rintro _ ⟨⟩
  decide

def crowded : Options :=
  ⟨none, none, 5000, .serve ⟨"localhost", 8082, 2000, 2305843009213693952, 10000, 64⟩⟩

theorem not_always_suits :
    ¬∀ env words o, parse env words = .ok o → o.Suits mostPlaces := by
  intro h
  have hparse : parse [] ["serve", "--queue-capacity", "2305843009213693952"] = .ok crowded :=
    rfl
  obtain ⟨-, -, -, ⟨-, hqueue⟩, -⟩ := h _ _ _ hparse
  exact absurd hqueue (by decide)

end Options

end ChangeRelay
