import ChangeRelay.Event.Basic

namespace ChangeRelay

def Spells (kind word : String) : Prop :=
  ∃ before letters after, kind.toList = before ++ letters ++ after ∧
    (∀ c ∈ before, Text.isBlank c = true) ∧ (∀ c ∈ after, Text.isBlank c = true) ∧
    letters.map Char.toLower = word.toList

namespace Operation

theorem toLower_of_isBlank {c : Char} (h : Text.isBlank c = true) : c.toLower = c := by
  simp only [Text.isBlank, Bool.or_eq_true, Bool.and_eq_true, decide_eq_true_eq, beq_iff_eq] at h
  refine dif_neg ?_
  rintro ⟨h₁, h₂⟩
  have h₁' : 65 ≤ c.toNat := h₁
  have h₂' : c.toNat ≤ 90 := h₂
  omega

theorem lowerAscii_eq (c : Char) : lowerAscii c = c.toLower := by
  unfold lowerAscii
  simp only [Bool.and_eq_true, decide_eq_true_eq, Char.le_def]
  split
  · rename_i h
    have h₂ : c.toNat ≤ 90 := h.2
    have hl : c.toLower = ⟨c.val + 32, _⟩ := dif_pos h
    have hv : (c.toNat + 32).isValidChar := .inl (by omega)
    rw [hl, Char.ofNat, dif_pos hv, ← Char.toNat_inj]
    change c.toNat + 32 = (c.val + 32).toNat
    rw [UInt32.toNat_add]
    change c.toNat + 32 = (c.toNat + 32) % 4294967296
    omega
  · rename_i h
    have hl : c.toLower = c := dif_neg h
    exact hl.symm

theorem spells_iff {kind word : String} (hw : ∀ c ∈ word.toList, Text.isBlank c = false) :
    Spells kind word ↔ String.ofList ((Text.trim kind.toList).map lowerAscii) = word := by
  have hl : lowerAscii = Char.toLower := funext lowerAscii_eq
  rw [hl, ← String.toList_inj, String.toList_ofList]
  constructor
  · rintro ⟨before, letters, after, hk, hb, ha, hm⟩
    have hn : ∀ c ∈ letters, Text.isBlank c = false := by
      intro c hc
      cases hcb : Text.isBlank c with
      | false => rfl
      | true =>
        have hmem : c ∈ word.toList := by
          rw [← hm, ← toLower_of_isBlank hcb]
          exact List.mem_map_of_mem hc
        exact hcb.symm.trans (hw c hmem)
    rw [hk, Text.trim_of_blanks hb ha hn, hm]
  · intro h
    obtain ⟨before, after, hk, hb, ha⟩ := Text.exists_trim kind.toList
    exact ⟨before, _, after, hk, hb, ha, h⟩

def words : Operation → List String
  | created => ["create", "created"]
  | updated => ["update", "updated"]
  | deleted => ["delete", "deleted"]
  | unknown => []

/-- The operation that a kind stands for: the one with a word for it, or else the unknown one. -/
def Means (o : Operation) (kind : String) : Prop :=
  (∃ word ∈ o.words, Spells kind word) ∨ o = unknown ∧ ∀ p, ∀ word ∈ words p, ¬Spells kind word

theorem ofKind_eq_iff {kind : String} {o : Operation} : ofKind kind = o ↔ o.Means kind := by
  -- no word has a blank in it that trimming could take away
  have hw : ∀ p, ∀ word ∈ words p, ∀ c ∈ word.toList, Text.isBlank c = false := by
    intro p
    cases p <;> simp [words, Text.isBlank]
  have hs : o.Means kind ↔
      let s := String.ofList ((Text.trim kind.toList).map lowerAscii)
      s ∈ o.words ∨ o = unknown ∧ ∀ p, s ∉ words p := by
    refine or_congr ⟨?_, ?_⟩ (and_congr_right fun _ ↦ ⟨?_, ?_⟩)
    · rintro ⟨word, hm, h⟩
      rwa [(spells_iff (hw o word hm)).mp h]
    · exact fun hm ↦ ⟨_, hm, (spells_iff (hw o _ hm)).mpr rfl⟩
    · exact fun h p hm ↦ h p _ hm ((spells_iff (hw p _ hm)).mpr rfl)
    · rintro h p word hm hk
      exact h p ((spells_iff (hw p word hm)).mp hk ▸ hm)
  rw [hs, ofKind]
  generalize String.ofList ((Text.trim kind.toList).map lowerAscii) = s
  have hp : (∀ p, s ∉ words p) ↔ s ∉ words created ∧ s ∉ words updated ∧ s ∉ words deleted :=
    ⟨fun h ↦ ⟨h _, h _, h _⟩, fun ⟨hc, hu, hd⟩ p ↦ by cases p <;> simp_all [words]⟩
  simp only [hp]
  cases o <;> simp only [words] <;> grind

end Operation

end ChangeRelay
