import ChangeRelay.Location
import ChangeRelay.Proofs.Files.Ways
import ChangeRelay.Proofs.Text.Utf8
import Mathlib

namespace ChangeRelay.Location

variable {t : FileTree} {here dir : List String} {p : Path} {name : String}

/-- The directory has a database directory, maybe behind links, and the file is in it. -/
structure HoldsDatabase (t : FileTree) (dir : List String) (name : String) : Prop where
  entry : ∃ inner, t.Leads (dir ++ [databaseDirectory]) inner ∧ t.at? inner = some .directory ∧
    ∃ node, (inner ++ [name], node) ∈ t.places
  file : ∃ place, t.Leads (dir ++ [databaseDirectory, name]) place ∧ t.at? place = some .file
  extension : ∃ stem ≠ [], name.toList = stem ++ '.' :: databaseExtension.toList

theorem not_idle_of_extension {stem : List Char}
    (h : name.toList = stem ++ '.' :: databaseExtension.toList) :
    Path.isIdle false name = false := by
  have hd : 'd' ∈ name.toList := by simp [h, databaseExtension]
  have hne : ∀ idle ∈ ["", "."], name ≠ idle := by
    rintro idle hi rfl
    rw [List.mem_pair] at hi
    rcases hi with rfl | rfl <;> simp at hd
  simpa [Path.isIdle] using hne

theorem mem_databasesIn_iff (hp : p.IsAt dir) :
    name ∈ databasesIn t here p ↔ HoldsDatabase t dir name := by
  have hinner : (p.join databaseDirectory).IsAt (dir ++ [databaseDirectory]) := hp.join rfl
  have hfile : t.isFile here ((p.join databaseDirectory).join name) = true ↔
      ∃ place, t.Leads (dir ++ [databaseDirectory, name]) place ∧ t.at? place = some .file := by
    simp only [FileTree.isFile_iff, FileTree.resolve_join hinner, List.append_assoc,
      List.cons_append, List.nil_append]
  simp only [databasesIn, List.mem_filter, Bool.and_eq_true, FileTree.mem_entries?_iff,
    FileTree.resolve_join hp, hfile,
    Path.hasExtension_iff (by decide : '.' ∉ databaseExtension.toList)]
  exact ⟨fun ⟨he, hf, hx⟩ ↦ ⟨he, hf, hx⟩, fun ⟨he, hf, hx⟩ ↦ ⟨he, hf, hx⟩⟩

theorem least_eq_min? (ws : List String) : least ws = ws.min? := by
  cases ws with
  | nil => rfl
  | cons w ws =>
    have hmin : (fun m x : String ↦ if x < m then x else m) = min := by
      funext m x
      rw [min_comm, min_def_lt]
    rw [least, hmin, List.min?_cons']

structure IsFirst (t : FileTree) (dir : List String) (name : String) : Prop where
  holds : HoldsDatabase t dir name
  least : ∀ other, HoldsDatabase t dir other →
    Text.Utf8.encode name.toList ≤ Text.Utf8.encode other.toList

theorem isFirst_of_databaseIn? (hp : p.IsAt dir) {db : Path}
    (h : databaseIn? t here p = some db) :
    ∃ name, IsFirst t dir name ∧ db.IsAt (dir ++ [databaseDirectory, name]) := by
  obtain ⟨name, hleast, rfl⟩ := Option.map_eq_some_iff.mp h
  rw [least_eq_min?, List.min?_eq_some_iff] at hleast
  simp only [mem_databasesIn_iff hp] at hleast
  obtain ⟨hholds, hle⟩ := hleast
  obtain ⟨stem, -, hstem⟩ := hholds.extension
  refine ⟨name, ⟨hholds, fun other ho hlt ↦ ?_⟩, ?_⟩
  · exact absurd (Text.Utf8.encode_lt_encode_iff.mp hlt) (not_lt.mpr (hle other ho))
  · rw [List.append_cons]
    exact (hp.join rfl).join (not_idle_of_extension hstem)

theorem databaseIn?_eq_none_iff (hp : p.IsAt dir) :
    databaseIn? t here p = none ↔ ∀ name, ¬HoldsDatabase t dir name := by
  simp only [databaseIn?, Option.map_eq_none_iff, least_eq_min?, List.min?_eq_none_iff,
    List.eq_nil_iff_forall_not_mem, mem_databasesIn_iff hp]

/-- The database that the search from a directory upward is for. -/
structure Nearest (t : FileTree) (start dir : List String) (name : String) : Prop where
  above : dir <+: start
  first : IsFirst t dir name
  nearest : ∀ d, d <+: start → dir.length < d.length → ∀ other, ¬HoldsDatabase t d other

theorem IsFirst.nearest (h : IsFirst t dir name) : Nearest t dir dir name :=
  ⟨List.prefix_rfl, h, fun _ hd hlt ↦ absurd hd.length_le (Nat.not_le.mpr hlt)⟩

theorem Nearest.down {start : List String} {w : String} (h : Nearest t start dir name)
    (hw : ∀ other, ¬HoldsDatabase t (start ++ [w]) other) : Nearest t (start ++ [w]) dir name where
  above := h.above.trans (List.prefix_append start [w])
  first := h.first
  nearest d hd hlt := by
    rcases List.prefix_concat_iff.mp hd with rfl | hd
    · exact hw
    · exact h.nearest d hd hlt

structure Searched (t : FileTree) (start : List String) (found : Option Path) : Prop where
  isSome_iff : found.isSome = true ↔ ∃ dir name, dir <+: start ∧ HoldsDatabase t dir name
  nearest : ∀ db, found = some db →
    ∃ dir name, Nearest t start dir name ∧ db.IsAt (dir ++ [databaseDirectory, name])

theorem searched_of_databaseIn? (hp : p.IsAt dir) {db : Path}
    (h : databaseIn? t here p = some db) : Searched t dir (some db) := by
  obtain ⟨name, hfirst, hdb⟩ := isFirst_of_databaseIn? hp h
  refine ⟨iff_of_true rfl ⟨_, name, List.prefix_rfl, hfirst.holds⟩, ?_⟩
  rintro _ ⟨⟩
  exact ⟨_, name, hfirst.nearest, hdb⟩

theorem searched_root (h : ∀ name, ¬HoldsDatabase t [] name) : Searched t [] none where
  isSome_iff := by
    refine iff_of_false Bool.false_ne_true ?_
    rintro ⟨dir, name, hdir, hname⟩
    exact h name (List.prefix_nil.mp hdir ▸ hname)
  nearest := nofun

theorem Searched.down {start : List String} {w : String} {found : Option Path}
    (h : Searched t start found) (hw : ∀ name, ¬HoldsDatabase t (start ++ [w]) name) :
    Searched t (start ++ [w]) found where
  isSome_iff := by
    rw [h.isSome_iff]
    refine exists_congr fun dir ↦ exists_congr fun name ↦ and_congr_left fun hname ↦ ?_
    rw [List.prefix_concat_iff, or_iff_right]
    rintro rfl
    exact hw name hname
  nearest db hdb := by
    obtain ⟨dir, name, hnearest, hat⟩ := h.nearest db hdb
    exact ⟨dir, name, hnearest.down hw, hat⟩

theorem searched_nearestDatabase {start : Path} (hs : start.IsAt dir) :
    Searched t dir (nearestDatabase t here start) := by
  unfold nearestDatabase
  -- a directory without a database leaves the search to the one above
  induction start using Path.ancestors.induct generalizing dir with
  | case1 start hp =>
    rw [Path.ancestors_of_none hp, List.findSome?_singleton]
    cases hd : databaseIn? t here start with
    | some db => exact searched_of_databaseIn? hs hd
    | none =>
      have hno := (databaseIn?_eq_none_iff hs).mp hd
      rw [hs.eq_nil hp] at hno ⊢
      exact searched_root hno
  | case2 start q hp ih =>
    rw [Path.ancestors_of_some hp, List.findSome?_cons]
    cases hd : databaseIn? t here start with
    | some db => exact searched_of_databaseIn? hs hd
    | none =>
      have hno := (databaseIn?_eq_none_iff hs).mp hd
      obtain ⟨above, w, rfl, hq⟩ := hs.parent hp
      exact (ih hq).down hno

theorem isAt_socketNear {db : Path} {w : String} (h : db.IsAt (dir ++ [w])) :
    (socketNear db).IsAt (dir ++ [socketName]) := by
  unfold socketNear
  split
  · rename_i q hq
    obtain ⟨above, v, hdir, habove⟩ := h.parent hq
    obtain ⟨rfl, -⟩ := List.append_inj' hdir rfl
    exact habove.join rfl
  · rename_i hq
    exact absurd (h.eq_nil hq) (List.append_ne_nil_of_right_ne_nil dir (List.cons_ne_nil w []))

structure Located (t : FileTree) (workingDirectory start : Path) (socket database : Option Path)
    (l : Location) : Prop where
  given : ∀ d, database = some d → ∃ a, l.database = some a ∧
    a.IsAt ((if d.rooted then [] else workingDirectory.names) ++ d.names)
  searched : database = none → Searched t start.names l.database
  unchanged : ∀ s, socket = some s → l.socket = s
  beside : socket = none → ∃ a, l.database = some a ∧
    ∀ dir name, a.IsAt (dir ++ [name]) → l.socket.IsAt (dir ++ [socketName])

theorem located_of {workingDirectory start : Path} {socket database found : Option Path} {s : Path}
    (hgiven : ∀ d, database = some d → ∃ a, found = some a ∧
      a.IsAt ((if d.rooted then [] else workingDirectory.names) ++ d.names))
    (hsearched : database = none → Searched t start.names found)
    (hs : socket.or (found.map socketNear) = some s) :
    Located t workingDirectory start socket database ⟨found, s⟩ where
  given := hgiven
  searched := hsearched
  unchanged := by
    rintro _ rfl
    cases hs
    rfl
  beside := by
    rintro rfl
    obtain ⟨a, ha, rfl⟩ := Option.map_eq_some_iff.mp hs
    exact ⟨a, ha, fun dir name h ↦ isAt_socketNear h⟩

section Answer

variable {workingDirectory start : Path} {socket database : Option Path}

theorem find_given {d a : Path} (ha : d.absolute? workingDirectory = some a) :
    find t workingDirectory socket (some d) start =
      .ok ⟨some a, socket.getD (socketNear a)⟩ := by
  cases socket <;> simp only [find, ha] <;> rfl

theorem find_empty {d : Path} (ha : d.absolute? workingDirectory = none) :
    find t workingDirectory socket (some d) start = .error (.io .emptyPath) := by
  simp only [find, ha]
  rfl

theorem find_searched : find t workingDirectory socket none start =
    match socket.or ((nearestDatabase t workingDirectory.names start).map socketNear) with
    | some s => .ok ⟨nearestDatabase t workingDirectory.names start, s⟩
    | none => .error .noDatabase := by
  unfold find
  cases socket with
  | some s => rfl
  | none => cases nearestDatabase t workingDirectory.names start <;> rfl

structure Answers (t : FileTree) (workingDirectory start : Path) (socket database : Option Path)
    (r : Except Tracker.Failure Location) : Prop where
  ok : ∀ l, r = .ok l → Located t workingDirectory start socket database l
  noDatabase_iff : r = .error .noDatabase ↔ socket = none ∧ database = none ∧
    ∀ dir name, dir <+: start.names → ¬HoldsDatabase t dir name
  fault : ∀ f, r = .error f → f = .noDatabase ∨ f = .io .emptyPath ∧ database = some ⟨false, []⟩

theorem answers_given (d : Path) : Answers t workingDirectory start socket (some d)
    (find t workingDirectory socket (some d) start) := by
  cases ha : d.absolute? workingDirectory with
  | none =>
    rw [find_empty ha, Path.absolute?_eq_none_iff.mp ha]
    refine ⟨nofun, iff_of_false nofun (by rintro ⟨-, ⟨⟩, -⟩), ?_⟩
    rintro _ ⟨⟩
    exact .inr ⟨rfl, rfl⟩
  | some a =>
    rw [find_given ha]
    refine ⟨?_, iff_of_false nofun (by rintro ⟨-, ⟨⟩, -⟩), nofun⟩
    rintro _ ⟨⟩
    refine located_of ?_ nofun ?_
    · rintro _ ⟨⟩
      exact ⟨a, rfl, Path.isAt_of_absolute? ha⟩
    · cases socket <;> rfl

theorem answers_searched (hs : start.rooted = true) : Answers t workingDirectory start socket none
    (find t workingDirectory socket none start) := by
  have hsearched : Searched t start.names (nearestDatabase t workingDirectory.names start) :=
    searched_nearestDatabase ⟨hs, rfl⟩
  rw [find_searched]
  split
  · rename_i s hsock
    refine ⟨?_, iff_of_false nofun ?_, nofun⟩
    · rintro _ ⟨⟩
      exact located_of nofun (fun _ ↦ hsearched) hsock
    · rintro ⟨rfl, -, hno⟩
      obtain ⟨a, ha, -⟩ := Option.map_eq_some_iff.mp hsock
      obtain ⟨dir, name, hdir, hname⟩ := hsearched.isSome_iff.mp (by rw [ha]; rfl)
      exact hno dir name hdir hname
  · rename_i hsock
    obtain ⟨hsocket, hfound⟩ := Option.or_eq_none_iff.mp hsock
    refine ⟨nofun, iff_of_true rfl ⟨hsocket, rfl, fun dir name hdir hname ↦ ?_⟩, ?_⟩
    · have hsome := hsearched.isSome_iff.mpr ⟨dir, name, hdir, hname⟩
      rw [Option.map_eq_none_iff.mp hfound] at hsome
      cases hsome
    · rintro _ ⟨⟩
      exact .inl rfl

end Answer

/-- The search takes the nearest directory that holds a database, and its first one. A database that
is given takes the place of the search, a socket that is given is taken as it is, and there is no
answer only if there is nothing of all that or the given path is empty. -/
theorem located (t : FileTree) (workingDirectory start : Path) (hs : start.rooted = true) :
    Searched t start.names (nearestDatabase t workingDirectory.names start) ∧
    ∀ socket database, Answers t workingDirectory start socket database
      (find t workingDirectory socket database start) := by
  refine ⟨searched_nearestDatabase ⟨hs, rfl⟩, fun socket database ↦ ?_⟩
  cases database with
  | none => exact answers_searched hs
  | some d => exact answers_given d

/-- A directory whose database directory is a link and holds a link to a database above it; the
database directory below holds no file at all. -/
def checkout : FileTree :=
  ⟨[([".beads"], .directory), ([".beads", "outer.db"], .file), (["work"], .directory),
    (["work", ".beads"], .link ⟨false, ["store"]⟩), (["work", "store"], .directory),
    (["work", "store", "b.db"], .file), (["work", "store", "a.txt"], .file),
    (["work", "store", "a.db"], .link ⟨true, [".beads", "outer.db"]⟩),
    (["work", "src"], .directory), (["work", "src", ".beads"], .directory),
    (["work", "src", ".beads", "inner.db"], .directory)]⟩

def sources : Path := ⟨true, ["work", ".", "src", ""]⟩

theorem find_checkout : find checkout sources none none sources =
    .ok ⟨some ⟨true, ["work", ".beads", "a.db"]⟩, ⟨true, ["work", ".beads", "bd.sock"]⟩⟩ := by
  cbv

theorem located_linked : sources.rooted = true ∧
    Located checkout sources sources none none
      ⟨some ⟨true, ["work", ".beads", "a.db"]⟩, ⟨true, ["work", ".beads", "bd.sock"]⟩⟩ :=
  ⟨rfl, ((located checkout sources sources rfl).2 none none).ok _ find_checkout⟩

end ChangeRelay.Location
