import ChangeRelay.Files.Tree
import Mathlib.Tactic.SplitIfs

namespace ChangeRelay

namespace Path

variable {p q : Path} {w : String} {dir vs ws : List String}

/-- A path from the root with these names. What is written between them tells no paths apart. -/
def IsAt (p : Path) (names : List String) : Prop := p.rooted = true ∧ p.names = names

def bare (ws : List String) : List String := ws.filter fun w ↦ !isIdle false w

theorem names_eq_bare (p : Path) : p.names = bare p.parts := by
  simp [names, bare, isIdle]

theorem bare_append (vs ws : List String) : bare (vs ++ ws) = bare vs ++ bare ws :=
  List.filter_append vs ws

theorem bare_reverse (ws : List String) : bare ws.reverse = (bare ws).reverse :=
  List.filter_reverse

theorem bare_bare (ws : List String) : bare (bare ws) = bare ws := by
  simp [bare, List.filter_filter]

theorem bare_cons_of_idle (h : isIdle false w = true) : bare (w :: ws) = bare ws := by
  simp [bare, h]

theorem bare_cons_of_not_idle (h : isIdle false w = false) : bare (w :: ws) = w :: bare ws := by
  simp [bare, h]

theorem dropIdle_of_idle (h : isIdle false w = true) :
    dropIdle true (w :: ws) = dropIdle true ws := by
  simp [dropIdle, h]

theorem dropIdle_of_not_idle (h : isIdle false w = false) :
    dropIdle true (w :: ws) = w :: ws := by
  simp [dropIdle, h]

theorem bare_dropIdle (ws : List String) : bare (dropIdle true ws) = bare ws := by
  induction ws with
  | nil => rfl
  | cons w ws ih =>
    cases hw : isIdle false w with
    | true => rw [dropIdle_of_idle hw, ih, bare_cons_of_idle hw]
    | false => rw [dropIdle_of_not_idle hw]

theorem not_idle_of_dropIdle (h : dropIdle true ws = w :: vs) : isIdle false w = false := by
  induction ws with
  | nil => cases h
  | cons v ws ih =>
    cases hv : isIdle false v with
    | true => exact ih (dropIdle_of_idle hv ▸ h)
    | false =>
      rw [dropIdle_of_not_idle hv] at h
      cases h
      exact hv

theorem IsAt.eq_nil (h : p.IsAt dir) (hp : p.parent? = none) : dir = [] := by
  obtain ⟨rooted, ws⟩ := p
  obtain ⟨rfl : rooted = true, rfl⟩ := h
  unfold parent? at hp
  split at hp
  · rename_i hd
    have hbare := bare_dropIdle ws.reverse
    rw [hd, bare_reverse] at hbare
    rw [names_eq_bare]
    exact List.reverse_eq_nil_iff.mp hbare.symm
  · cases hp

theorem IsAt.parent (h : p.IsAt dir) (hp : p.parent? = some q) :
    ∃ above w, dir = above ++ [w] ∧ q.IsAt above := by
  obtain ⟨rooted, ws⟩ := p
  obtain ⟨rfl : rooted = true, rfl⟩ := h
  unfold parent? at hp
  split at hp
  · cases hp
  · rename_i w vs hd
    cases hp
    refine ⟨_, w, ?_, rfl, rfl⟩
    have hbare := bare_dropIdle ws.reverse
    rw [hd, bare_cons_of_not_idle (not_idle_of_dropIdle hd), bare_reverse] at hbare
    rw [names_eq_bare, names_eq_bare, bare_reverse, bare_dropIdle, ← List.reverse_cons, hbare,
      List.reverse_reverse]

theorem ancestors_of_none (h : p.parent? = none) : p.ancestors = [p] := by
  unfold ancestors
  split
  · rfl
  · rename_i hq
    cases hq.symm.trans h

theorem ancestors_of_some (h : p.parent? = some q) : p.ancestors = p :: q.ancestors := by
  rw [ancestors]
  split
  · rename_i hq
    cases hq.symm.trans h
  · rename_i hq
    cases hq.symm.trans h
    rfl

theorem rooted_join (p : Path) (name : String) : (p.join name).rooted = p.rooted := by
  unfold join
  split <;> rfl

theorem exists_parts_join (p : Path) (name : String) :
    ∃ ws, (p.join name).parts = ws ++ [name] ∧ bare ws = p.names := by
  obtain ⟨rooted, ws⟩ := p
  unfold join
  split
  · rename_i hlast
    obtain ⟨vs, rfl⟩ := List.getLast?_eq_some_iff.mp hlast
    refine ⟨vs, by simp, ?_⟩
    rw [names_eq_bare, bare_append]
    simp [bare, isIdle]
  · exact ⟨ws, rfl, (names_eq_bare ⟨rooted, ws⟩).symm⟩

theorem IsAt.join (h : p.IsAt dir) (hw : isIdle false w = false) :
    (p.join w).IsAt (dir ++ [w]) := by
  obtain ⟨ws, hparts, hws⟩ := exists_parts_join p w
  refine ⟨(rooted_join p w).trans h.1, ?_⟩
  rw [names_eq_bare, hparts, bare_append, hws, bare_cons_of_not_idle hw, h.2]
  rfl

theorem absolute?_eq_none_iff {d dir : Path} : d.absolute? dir = none ↔ d = ⟨false, []⟩ := by
  obtain ⟨rooted, ws⟩ := d
  unfold absolute?
  cases rooted <;> cases ws <;> simp

theorem isAt_of_absolute? {d a dir : Path} (h : d.absolute? dir = some a) :
    a.IsAt ((if d.rooted then [] else dir.names) ++ d.names) := by
  have hslash : bare [""] = [] := rfl
  unfold absolute? at h
  split_ifs at h <;> cases h <;> refine ⟨rfl, ?_⟩
  all_goals
    simp only [names_eq_bare]
    split_ifs <;> simp only [bare_append, bare_bare, hslash, List.append_nil, List.nil_append]

theorem hasExtension_iff {extension name : String} (h : '.' ∉ extension.toList) :
    hasExtension extension name = true ↔
      ∃ stem ≠ [], name.toList = stem ++ '.' :: extension.toList := by
  have hall : ∀ c ∈ extension.toList.reverse, decide (c ≠ '.') = true := by
    intro c hc
    exact decide_eq_true fun he ↦ h (he ▸ List.mem_reverse.mp hc)
  unfold hasExtension
  simp only [Bool.and_eq_true, decide_eq_true_eq]
  constructor
  · rintro ⟨he, hlen⟩
    have hsplit := (List.takeWhile_append_dropWhile (p := (· ≠ '.'))
      (l := name.toList.reverse)).symm
    have hdot := List.head?_dropWhile_not (· ≠ '.') name.toList.reverse
    generalize name.toList.reverse.takeWhile (· ≠ '.') = e at he hlen hsplit
    generalize name.toList.reverse.dropWhile (· ≠ '.') = rest at hsplit hdot
    rw [hsplit, List.drop_left] at hlen
    obtain ⟨c, stem, rfl⟩ := List.exists_cons_of_length_pos (by omega : 0 < rest.length)
    obtain rfl : c = '.' := by simpa using hdot
    have hstem : stem ≠ [] := List.ne_nil_of_length_pos (Nat.le_of_succ_le_succ hlen)
    refine ⟨stem.reverse, List.reverse_ne_nil_iff.mpr hstem, ?_⟩
    rw [← List.reverse_reverse name.toList, hsplit, List.reverse_append, List.reverse_cons, he,
      List.append_assoc]
    rfl
  · rintro ⟨stem, hstem, hname⟩
    have hrev : name.toList.reverse = extension.toList.reverse ++ '.' :: stem.reverse := by
      rw [hname, List.reverse_append, List.reverse_cons, List.append_assoc]
      rfl
    have htake : name.toList.reverse.takeWhile (· ≠ '.') = extension.toList.reverse := by
      rw [hrev, List.takeWhile_append_of_pos hall, List.takeWhile_cons_of_neg (by decide),
        List.append_nil]
    rw [htake, hrev, List.drop_left, List.reverse_reverse]
    have hpos := List.length_pos_iff.mpr hstem
    simp only [List.length_cons, List.length_reverse, true_and]
    omega

end Path

namespace FileTree

variable {t : FileTree} {links : Nat} {here us vs ws : List String} {w : String}

/-- The second way is the first one without some of the parts that mean nothing; the last part stays
in any case. -/
inductive Sheds : List String → List String → Prop
  | nil : Sheds [] []
  | keep {w : String} {ws vs : List String} (h : Sheds ws vs) : Sheds (w :: ws) (w :: vs)
  | drop {w v : String} {ws vs : List String} (hw : Path.isIdle false w = true)
      (h : Sheds ws (v :: vs)) : Sheds (w :: ws) (v :: vs)

theorem Sheds.append (h : Sheds ws vs) (us : List String) : Sheds (us ++ ws) (us ++ vs) := by
  induction us with
  | nil => exact h
  | cons u us ih => exact ih.keep

theorem sheds_bare (ws : List String) (w : String) : Sheds (ws ++ [w]) (Path.bare ws ++ [w]) := by
  induction ws with
  | nil => exact .keep .nil
  | cons v ws ih =>
    cases hv : Path.isIdle false v with
    | true =>
      rw [Path.bare_cons_of_idle hv]
      obtain ⟨u, us, hu⟩ := List.exists_cons_of_ne_nil
        (List.append_ne_nil_of_right_ne_nil (Path.bare ws) (List.cons_ne_nil w []))
      rw [hu] at ih ⊢
      exact .drop hv ih
    | false =>
      rw [Path.bare_cons_of_not_idle hv]
      exact .keep ih

def enter (t : FileTree) (links : Nat) (here : List String) (w : String) :
    Option (Nat × List String × List String) :=
  if t.at? here ≠ some .directory then none
  else if w = "" || w = "." then some (links, here, [])
  else if w = ".." then some (links, here.dropLast, [])
  else
    match t.at? (here ++ [w]) with
    | none => none
    | some (.link target) =>
      match links with
      | 0 => none
      | fewer + 1 => some (fewer, if target.rooted then [] else here, target.parts)
    | some _ => some (links, here ++ [w], [])

theorem walk_cons (links : Nat) (here : List String) (w : String) (ws : List String) :
    t.walk links here (w :: ws) =
      (t.enter links here w).bind fun s ↦ t.walk s.1 s.2.1 (s.2.2 ++ ws) := by
  rw [walk, enter]
  split_ifs
  · rfl
  · rfl
  · rfl
  · cases t.at? (here ++ [w]) with
    | none => rfl
    | some node =>
      cases node with
      | directory => rfl
      | file => rfl
      | link target => cases links <;> rfl

theorem enter_eq_some {l : Nat} {h us : List String} (he : t.enter links here w = some (l, h, us)) :
    l < links ∨ l = links ∧ us = [] := by
  unfold enter at he
  split_ifs at he
  · cases he
    exact .inr ⟨rfl, rfl⟩
  · cases he
    exact .inr ⟨rfl, rfl⟩
  · split at he
    · cases he
    · cases links with
      | zero => cases he
      | succ fewer =>
        cases he
        exact .inl (Nat.lt_succ_self _)
    · cases he
      exact .inr ⟨rfl, rfl⟩

theorem enter_of_not_directory (h : t.at? here ≠ some .directory) (w : String) :
    t.enter links here w = none :=
  if_pos h

theorem enter_of_idle (h : t.at? here = some .directory) (hw : Path.isIdle false w = true) :
    t.enter links here w = some (links, here, []) := by
  rw [enter, if_neg (not_not_intro h), if_pos (by simpa [Path.isIdle] using hw)]

theorem walk_sheds (h : Sheds ws vs) : t.walk links here ws = t.walk links here vs := by
  -- a link that is followed lengthens the way, but leaves fewer links to follow
  induction links using Nat.strongRecOn generalizing here ws vs with
  | ind links ihlinks =>
    induction h generalizing here with
    | nil => rfl
    | @keep w ws vs h ih =>
      rw [walk_cons, walk_cons]
      cases he : t.enter links here w with
      | none => rfl
      | some s =>
        obtain ⟨l, place, us⟩ := s
        rcases enter_eq_some he with hl | ⟨rfl, rfl⟩
        · exact ihlinks l hl (h.append us)
        · exact ih
    | @drop w v ws vs hw h ih =>
      by_cases hdir : t.at? here = some .directory
      · rw [walk_cons, enter_of_idle hdir hw]
        exact ih
      · rw [walk_cons, walk_cons, enter_of_not_directory hdir, enter_of_not_directory hdir]
        rfl

/-- The place that names lead to from the root. -/
def Leads (t : FileTree) (names place : List String) : Prop :=
  t.walk maxLinks [] names = some place

theorem resolve_join {p : Path} {dir : List String} (hp : p.IsAt dir) (here : List String)
    (name : String) {place : List String} :
    t.resolve here (p.join name) = some place ↔ t.Leads (dir ++ [name]) place := by
  obtain ⟨ws, hparts, hws⟩ := p.exists_parts_join name
  rw [resolve, if_pos ((p.rooted_join name).trans hp.1), hparts, walk_sheds (sheds_bare ws name),
    hws, hp.2]
  rfl

/-- An entry of a directory is a place in it. -/
theorem mem_entries?_iff {p : Path} {name : String} :
    name ∈ (t.entries? here p).getD [] ↔
      ∃ place, t.resolve here p = some place ∧ t.at? place = some .directory ∧
        ∃ node, (place ++ [name], node) ∈ t.places := by
  unfold entries?
  cases t.resolve here p with
  | none => simp
  | some place =>
    by_cases hdir : t.at? place = some .directory
    · simp only [hdir, if_true, Option.getD_some, Option.some.injEq, exists_eq_left', true_and,
        List.mem_filterMap, List.mem_filter, decide_eq_true_eq]
      constructor
      · rintro ⟨⟨names, node⟩, ⟨hmem, rfl⟩, hlast⟩
        obtain ⟨above, rfl⟩ := List.getLast?_eq_some_iff.mp hlast
        rw [List.dropLast_concat]
        exact ⟨node, hmem⟩
      · rintro ⟨node, hmem⟩
        exact ⟨_, ⟨hmem, List.dropLast_concat⟩, List.getLast?_concat⟩
    · simp [hdir]

theorem isFile_iff {p : Path} : t.isFile here p = true ↔
    ∃ place, t.resolve here p = some place ∧ t.at? place = some .file := by
  unfold isFile
  cases t.resolve here p <;> simp

end FileTree

end ChangeRelay
