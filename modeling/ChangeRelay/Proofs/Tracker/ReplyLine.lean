import ChangeRelay.Proofs.Json.Fields
import ChangeRelay.Proofs.Tracker.RequestLine

namespace ChangeRelay.Tracker

open Json

namespace Envelope

def notNull (v : Json) : Option Json :=
  match v with
  | .null => none
  | _ => some v

/-- Data of a tree that leaves one level of brackets to the envelope. -/
def data? (x : Tree) : Option (Option Json) := (x.value? (maxDepth - 1)).map notNull

/-- The envelopes among the syntax trees: objects with each of the three members at most once, and
others of any value, and arrays of at most three. -/
inductive Says : Tree → Envelope → Prop
  | object {ms : List (List Piece × Tree)} {d : Draft} (names : ∀ m ∈ ms, (textOf? m.1).isSome)
      (success : Given Tree.asBool? none (named "success" ms) d.success)
      (data : Given data? none (named "data" ms) d.data)
      (error : Given Tree.asTextOrNull? none (named "error" ms) d.error) :
      Says (.object ms) d.finish
  | array {xs : List Tree} {d : Draft} (length : xs.length ≤ 3)
      (success : Given Tree.asBool? none xs[0]?.toList d.success)
      (data : Given data? none xs[1]?.toList d.data)
      (error : Given Tree.asTextOrNull? none xs[2]?.toList d.error) : Says (.array xs) d.finish

def IsEnvelope (s : List Char) (e : Envelope) : Prop := ∃ x, IsText s x ∧ Says x e

theorem takes_data : Takes Starts readData data? := (takes_any (maxDepth - 1)).map notNull

def Draft.step (d : Draft) (name : String) : Tree → Option Draft :=
  if name = "success" then fillFrom d.success Tree.asBool? fun b ↦ { d with success := some b }
  else if name = "data" then fillFrom d.data data? fun v ↦ { d with data := some v }
  else if name = "error" then fillFrom d.error Tree.asTextOrNull? fun t ↦ { d with error := some t }
  else fun _ ↦ some d

theorem takes_member (d : Draft) (name : String) :
    Takes ValueText (d.member name) (d.step name) := by
  unfold Draft.member Draft.step
  split_ifs
  · exact takes_bool.fill _ _ _
  · exact takes_data.fill _ _ _
  · exact takes_nullOrText.fill _ _ _
  · exact takes_ignore d

theorem takes_object : Takes (MembersText true) readObject
    fun ms ↦ (foldMembers Draft.step .empty ms).map Draft.finish :=
  (takes_readObject takes_member Draft.empty).map Draft.finish

theorem foldMembers_eq_some_iff {ms : List (List Piece × Tree)} {d d' : Draft} :
    foldMembers Draft.step d ms = some d' ↔ (∀ m ∈ ms, (textOf? m.1).isSome) ∧
      Given Tree.asBool? d.success (named "success" ms) d'.success ∧
      Given data? d.data (named "data" ms) d'.data ∧
      Given Tree.asTextOrNull? d.error (named "error" ms) d'.error := by
  induction ms generalizing d with
  | nil =>
    obtain ⟨s, v, t⟩ := d
    obtain ⟨s', v', t'⟩ := d'
    simp [foldMembers, named, given_nil_iff]
  | cons m ms ih =>
    obtain ⟨ps, x⟩ := m
    cases hk : textOf? ps with
    | none => simp [foldMembers, hk]
    | some k =>
      have hname : ∀ name, named name ((ps, x) :: ms) =
          if k = name then x :: named name ms else named name ms := fun name ↦ named_cons hk
      simp only [foldMembers, hk, Option.bind_eq_bind, Option.bind_some, Option.bind_eq_some_iff,
        ih, hname, List.forall_mem_cons, Option.isSome_some, true_and]
      unfold Draft.step
      -- the field of that name takes the value if it is empty, and the others stay as they are
      by_cases hs : k = "success"
      · subst hs
        simp only [if_true, exists_fillFrom_iff, given_cons_iff, String.reduceEq, if_false]
        grind
      by_cases hd : k = "data"
      · subst hd
        simp only [if_true, exists_fillFrom_iff, given_cons_iff, String.reduceEq, if_false]
        grind
      by_cases he : k = "error"
      · subst he
        simp only [if_true, exists_fillFrom_iff, given_cons_iff, String.reduceEq, if_false]
        grind
      simp [hs, hd, he]

def ofElements : List Tree → Option Envelope :=
  element Tree.asBool? fun success ↦ element data? fun data ↦
    element Tree.asTextOrNull? fun error ↦ noElement (Draft.finish ⟨success, data, error⟩)

theorem takes_array : Takes (ItemsText true) readArray ofElements :=
  takes_element true takes_bool fun s ↦ takes_element false takes_data fun d ↦
    takes_element false takes_nullOrText fun e ↦ takes_endArray (Draft.finish ⟨s, d, e⟩)

theorem ofElements_eq_some_iff {xs : List Tree} {e : Envelope} :
    ofElements xs = some e ↔ ∃ d : Draft, xs.length ≤ 3 ∧
      Given Tree.asBool? none xs[0]?.toList d.success ∧ Given data? none xs[1]?.toList d.data ∧
      Given Tree.asTextOrNull? none xs[2]?.toList d.error ∧ d.finish = e := by
  simp only [ofElements, element_eq_some_iff, noElement_eq_some_iff, List.getElem?_tail,
    ← List.length_eq_zero_iff, List.length_tail]
  constructor
  · rintro ⟨s, hs, v, hv, t, ht, hlen, rfl⟩
    exact ⟨⟨s, v, t⟩, by omega, hs, hv, ht, rfl⟩
  · rintro ⟨⟨s, v, t⟩, hlen, hs, hv, ht, rfl⟩
    exact ⟨s, hs, v, hv, t, ht, by omega, rfl⟩

theorem ofText_eq_ok_iff {s : String} {e : Envelope} :
    ofText s = .ok e ↔ IsEnvelope s.toList e := by
  rw [ofText, readRecord_eq_ok_iff takes_object takes_array, IsEnvelope]
  refine exists_congr fun x ↦ and_congr_right fun _ ↦ ?_
  constructor
  · rintro (⟨ms, rfl, h⟩ | ⟨xs, rfl, h⟩)
    · obtain ⟨d, hd, rfl⟩ := Option.map_eq_some_iff.mp h
      obtain ⟨hnames, hs, hv, he⟩ := foldMembers_eq_some_iff.mp hd
      exact .object hnames hs hv he
    · obtain ⟨d, hlen, hs, hv, he, rfl⟩ := ofElements_eq_some_iff.mp h
      exact .array hlen hs hv he
  · intro h
    cases h with
    | object hnames hs hv he =>
      have hd := (foldMembers_eq_some_iff (d := .empty)).mpr ⟨hnames, hs, hv, he⟩
      exact .inl ⟨_, rfl, congrArg (Option.map Draft.finish) hd⟩
    | array hlen hs hv he =>
      exact .inr ⟨_, rfl, ofElements_eq_some_iff.mpr ⟨_, hlen, hs, hv, he, rfl⟩⟩

/-- The reason that a refusal gives, if it has any text. -/
def reason (e : Envelope) : String := (e.error.filter (· ≠ "")).getD "request failed"

theorem result_of_success {e : Envelope} (h : e.success = true) (operation : String) :
    e.result operation = .ok (e.data.getD .null) :=
  if_pos h

theorem result_of_refusal {e : Envelope} (h : e.success = false) (operation : String) :
    e.result operation = .error (.rejected operation e.reason) := by
  rw [result, h, if_neg Bool.false_ne_true]
  split
  · rename_i he
    rw [reason, he]
    rfl
  · rename_i he
    rw [reason, he]
    rfl
  · rename_i m hm he
    rw [reason, he, Option.filter_some, if_pos (decide_eq_true (by simpa using hm))]
    rfl

end Envelope

namespace Reply

/-- The octets of a reply up to and with the first newline, or all of them if there is none. -/
inductive FirstLine : List UInt8 → List UInt8 → Prop
  | ended {body : List UInt8} (h : newline ∉ body) (rest : List UInt8) :
    FirstLine (body ++ newline :: rest) (body ++ [newline])
  | whole {octets : List UInt8} (h : newline ∉ octets) : FirstLine octets octets

variable {octets line : List UInt8} {operation : String}

theorem exists_firstLine (octets : List UInt8) : ∃ line, FirstLine octets line := by
  by_cases h : newline ∈ octets
  · obtain ⟨body, rest, rfl, hbody⟩ := List.eq_append_cons_of_mem h
    exact ⟨_, .ended hbody rest⟩
  · exact ⟨octets, .whole h⟩

theorem FirstLine.firstLine_eq (h : FirstLine octets line) : firstLine octets = line := by
  cases h with
  | ended hbody rest => exact firstLine_append hbody rest
  | whole hno =>
    have hall : ∀ a ∈ octets, decide (a ≠ newline) = true := by
      intro a ha
      exact decide_eq_true fun he ↦ hno (he ▸ ha)
    rw [← List.append_nil octets, firstLine, List.takeWhile_append_of_pos hall,
      List.dropWhile_append_of_pos hall]
    simp

theorem FirstLine.eq_nil_iff (h : FirstLine octets line) : octets = [] ↔ line = [] := by
  cases h with
  | ended hbody rest => simp
  | whole => exact Iff.rfl

structure Classified (operation : String) (line : List UInt8) (answer : Except Failure Json) :
    Prop where
  empty : line = [] → answer = .error .emptyResponse
  notText : (∀ cs, line ≠ Text.Utf8.encode cs) → ∃ f, answer = .error (.io (.text f))
  malformed {cs : List Char} : line ≠ [] → line = Text.Utf8.encode cs →
    (∀ e, ¬Envelope.IsEnvelope (Text.trim cs) e) → ∃ f, answer = .error (.malformed f)
  refused {cs : List Char} {e : Envelope} : line = Text.Utf8.encode cs →
    Envelope.IsEnvelope (Text.trim cs) e → e.success = false →
      answer = .error (.rejected operation e.reason)
  data {cs : List Char} {e : Envelope} : line = Text.Utf8.encode cs →
    Envelope.IsEnvelope (Text.trim cs) e → e.success = true → answer = .ok (e.data.getD .null)

theorem not_isEnvelope_nil {e : Envelope} : ¬Envelope.IsEnvelope [] e := by
  rintro ⟨x, ⟨b, hb, b', t, hb', hs, ht⟩, -⟩
  obtain ⟨c, u, rfl, -⟩ := ht.startsItem
  simp at hs

theorem read_of_text {cs : List Char} (hne : octets ≠ []) (h : FirstLine octets line)
    (hcs : line = Text.Utf8.encode cs) :
    Reply.read operation octets =
      match Envelope.ofText (String.ofList (Text.trim cs)) with
      | .error f => .error (.malformed f)
      | .ok e => e.result operation := by
  have hempty : octets.isEmpty = false := by simpa using hne
  rw [read, hempty, h.firstLine_eq, Text.Utf8.decode_eq_ok_iff.mpr hcs]
  rfl

theorem read_of_envelope {cs : List Char} {e : Envelope} (h : FirstLine octets line)
    (hcs : line = Text.Utf8.encode cs) (he : Envelope.IsEnvelope (Text.trim cs) e) :
    Reply.read operation octets = e.result operation := by
  have hne : octets ≠ [] := by
    intro hnil
    have hline := h.eq_nil_iff.mp hnil
    rw [hcs] at hline
    have hcs : cs = [] := Text.Utf8.encode_injective hline
    rw [hcs] at he
    exact not_isEnvelope_nil he
  have hread : Envelope.ofText (String.ofList (Text.trim cs)) = .ok e :=
    Envelope.ofText_eq_ok_iff.mpr (by rwa [String.toList_ofList])
  rw [read_of_text hne h hcs, hread]

theorem classified_read (h : FirstLine octets line) :
    Classified operation line (Reply.read operation octets) where
  empty hline := by
    rw [h.eq_nil_iff.mpr hline]
    rfl
  notText hno := by
    have hne : octets ≠ [] := fun hnil ↦ hno [] (h.eq_nil_iff.mp hnil)
    have hempty : octets.isEmpty = false := by simpa using hne
    cases hdecode : Text.Utf8.decode line with
    | ok cs => exact absurd (Text.Utf8.decode_eq_ok_iff.mp hdecode) (hno cs)
    | error f =>
      refine ⟨f, ?_⟩
      rw [read, hempty, h.firstLine_eq, hdecode]
      rfl
  malformed {cs} hne hcs hno := by
    rw [read_of_text (fun hnil ↦ hne (h.eq_nil_iff.mp hnil)) h hcs]
    cases hread : Envelope.ofText (String.ofList (Text.trim cs)) with
    | error f => exact ⟨f, rfl⟩
    | ok e =>
      have he := Envelope.ofText_eq_ok_iff.mp hread
      rw [String.toList_ofList] at he
      exact absurd he (hno e)
  refused hcs he hs := by
    rw [read_of_envelope h hcs he]
    exact Envelope.result_of_refusal hs operation
  data hcs he hs := by
    rw [read_of_envelope h hcs he]
    exact Envelope.result_of_success hs operation

theorem read_eq_of_firstLine {octets' : List UInt8} (h : FirstLine octets line)
    (h' : FirstLine octets' line) : Reply.read operation octets = Reply.read operation octets' := by
  have hempty : octets.isEmpty = octets'.isEmpty := by
    rw [Bool.eq_iff_iff, List.isEmpty_iff, List.isEmpty_iff, h.eq_nil_iff, h'.eq_nil_iff]
  rw [Reply.read, Reply.read, hempty, h.firstLine_eq, h'.firstLine_eq]

/-- The first line of what the daemon wrote before it closed the connection decides the answer: by
whether there is any, whether it is text, and which envelope it holds. -/
theorem classified (socket operation : String) (timeout : Nat) (octets : List UInt8) :
    ∃ line, FirstLine octets line ∧
      Classified operation line ((Outcome.closed octets).answer socket operation timeout) ∧
      ∀ octets', FirstLine octets' line → (Outcome.closed octets').answer socket operation timeout =
        (Outcome.closed octets).answer socket operation timeout := by
  obtain ⟨line, h⟩ := exists_firstLine octets
  exact ⟨line, h, classified_read h, fun octets' h' ↦ read_eq_of_firstLine h' h⟩

def nested : Nat → Tree
  | 0 => .array []
  | n + 1 => .array [nested n]

def nestedText : Nat → List Char
  | 0 => ['[', ']']
  | n + 1 => '[' :: (nestedText n ++ [']'])

def nestedValue : Nat → Json
  | 0 => .arr []
  | n + 1 => .arr [nestedValue n]

theorem treeText_nested (n : Nat) : TreeText (nestedText n) (nested n) := by
  have blank : IsBlanks [] := by simp [IsBlanks]
  induction n with
  | zero => exact @TreeText.array [] [] (by simp) (.none blank)
  | succ n ih =>
    have hs : Divided [nestedText n] ([] ++ (nestedText n ++ [])) := .some blank (.close blank)
    rw [List.nil_append, List.append_nil] at hs
    exact @TreeText.array [(nestedText n, nested n)] _ (List.forall_mem_singleton.mpr ih) hs

theorem value?_nested (n : Nat) : (nested n).value? n = none ∧
    (nested n).value? (n + 1) = some (nestedValue n) := by
  induction n with
  | zero => exact ⟨by rw [nested, Tree.value?], by simp [nested, Tree.value?, values?, nestedValue]⟩
  | succ n ih => simp [nested, Tree.value?, values?, nestedValue, ih]

def plainMember (name : String) (text : List Char) (value : Tree) : Member :=
  ⟨name.toList, name.toList.map .char, [], [], text, value⟩

def success (data : Tree) : Tree :=
  .object [("success".toList.map .char, .bool true), ("data".toList.map .char, data)]

def successText (data : List Char) (x : Tree) : List Char :=
  '\x7b' :: ((plainMember "success" ['t', 'r', 'u', 'e'] (.bool true)).written ++ ',' ::
    (plainMember "data" data x).written) ++ ['\x7d']

theorem isText_success {data : List Char} {x : Tree} (h : TreeText data x) :
    IsText (successText data x) (success x) := by
  have blank : IsBlanks [] := by simp [IsBlanks]
  have named : ∀ {name : String} (text : List Char) (value : Tree),
      (∀ c ∈ name.toList, c ≠ '"' ∧ c ≠ '\\' ∧ 0x20 ≤ c.toNat) →
        (plainMember name text value).IsNamed :=
    fun text value h ↦ ⟨piecesText_plain h, blank, blank⟩
  have hs : Divided _ ([] ++ ((plainMember "success" ['t', 'r', 'u', 'e'] (.bool true)).written ++
      ([] ++ ',' :: ([] ++ ((plainMember "data" data x).written ++ []))))) :=
    .some blank (.more blank blank (.close blank))
  simp only [List.nil_append, List.append_nil] at hs
  have hnamed : ∀ m ∈ [plainMember "success" ['t', 'r', 'u', 'e'] (.bool true),
      plainMember "data" data x], m.IsNamed :=
    List.forall_mem_cons.mpr ⟨named _ _ (by simp),
      List.forall_mem_singleton.mpr (named _ _ (by simp))⟩
  have htext : ∀ m ∈ [plainMember "success" ['t', 'r', 'u', 'e'] (.bool true),
      plainMember "data" data x], TreeText m.text m.value :=
    List.forall_mem_cons.mpr ⟨.trueWord, List.forall_mem_singleton.mpr h⟩
  exact ⟨[], blank, [], successText data x, blank, (List.append_nil _).symm,
    .object hnamed htext hs⟩

theorem not_says_success {x : Tree} {e : Envelope} (h : Envelope.data? x = none) :
    ¬Envelope.Says (success x) e := by
  have hname : ∀ name name', named name [(name'.toList.map .char, x)] =
      if name' = name then [x] else [] := fun _ _ ↦ named_cons (textOf?_plain _)
  intro hsays
  cases hsays with
  | object _ _ hdata _ =>
    rw [named_cons (textOf?_plain _), hname, if_neg (by decide), if_pos rfl] at hdata
    obtain ⟨-, a, ha, -⟩ := given_cons_iff.mp hdata
    cases h.symm.trans ha

theorem not_isBlank_nestedText (n : Nat) : ∀ c ∈ nestedText n, Text.isBlank c = false := by
  induction n with
  | zero => simp [nestedText, Text.isBlank]
  | succ n ih =>
    have hlast : ∀ c ∈ [']'], Text.isBlank c = false := by simp [Text.isBlank]
    exact List.forall_mem_cons.mpr ⟨rfl, List.forall_mem_append.mpr ⟨ih, hlast⟩⟩

theorem not_isBlank_successText {data : List Char} (x : Tree)
    (h : ∀ c ∈ data, Text.isBlank c = false) :
    ∀ c ∈ successText data x, Text.isBlank c = false := by
  have hplain : ∀ {name : String} {text : List Char} (value : Tree),
      (∀ c ∈ name.toList, Text.isBlank c = false) → (∀ c ∈ text, Text.isBlank c = false) →
        ∀ c ∈ (plainMember name text value).written, Text.isBlank c = false := by
    intro name text value hname htext
    simp only [plainMember, Member.written, List.forall_mem_append, List.forall_mem_cons]
    exact ⟨rfl, hname, rfl, by simp, rfl, by simp, htext⟩
  have hbrace : ∀ c ∈ ['\x7d'], Text.isBlank c = false := by simp [Text.isBlank]
  refine List.forall_mem_append.mpr ⟨List.forall_mem_cons.mpr ⟨rfl, ?_⟩, hbrace⟩
  refine List.forall_mem_append.mpr ⟨?_, List.forall_mem_cons.mpr ⟨rfl, ?_⟩⟩
  · exact hplain _ (by simp [Text.isBlank]) (by simp [Text.isBlank])
  · exact hplain _ (by simp [Text.isBlank]) h

theorem firstLine_of_line {s : List Char} (h : ∀ c ∈ s, Text.isBlank c = false) :
    FirstLine (Text.Utf8.encode (s ++ ['\n'])) (Text.Utf8.encode (s ++ ['\n'])) := by
  have hno : newline ∉ Text.Utf8.encode s := by
    intro hmem
    obtain ⟨c, hc, hcode⟩ := (Text.Utf8.mem_encode_iff (by decide)).mp hmem
    have hc' : c = '\n' := Char.toNat_inj.mp hcode
    rw [hc'] at hc
    exact absurd (h _ hc) (by decide)
  rw [Text.Utf8.encode_append]
  exact .ended hno []

def IsMalformed (s : List Char) : Prop :=
  ∃ f, (Outcome.closed (Text.Utf8.encode (s ++ ['\n']))).answer "bd.sock" "ready" 1 =
    .error (.malformed f)

theorem isMalformed_success {data : List Char} {x : Tree} (h : TreeText data x)
    (hblank : ∀ c ∈ data, Text.isBlank c = false) (hx : Envelope.data? x = none) :
    IsMalformed (successText data x) := by
  have hblank := not_isBlank_successText x hblank
  have htrim : Text.trim (successText data x ++ ['\n']) = successText data x :=
    Text.trim_of_blanks (b := []) (by simp) (by simp [Text.isBlank]) hblank
  have hno : ∀ e, ¬Envelope.IsEnvelope (Text.trim (successText data x ++ ['\n'])) e := by
    rintro e ⟨x', hx', hsays⟩
    rw [htrim] at hx'
    rw [hx'.unique (isText_success h)] at hsays
    exact not_says_success hx hsays
  have hne : Text.Utf8.encode (successText data x ++ ['\n']) ≠ [] := by
    rw [Text.Utf8.encode_append]
    exact List.append_ne_nil_of_right_ne_nil _ (by decide)
  have hclass : Classified "ready" _ _ := classified_read (firstLine_of_line hblank)
  exact hclass.malformed hne rfl hno

def hugeNumber : Tree := .number ⟨false, ['1'], none, some (false, ['9', '9', '9'])⟩

def loneSurrogate : Tree := .string [.unit 0xD800]

/-- Data are not just anything: those in 127 brackets are one level too deep, and neither a number
beyond every double nor half a pair of surrogates is read. -/
theorem not_always_read :
    (IsText (successText (nestedText 126) (nested 126)) (success (nested 126)) ∧
      (nested 126).value? 127 = some (nestedValue 126) ∧
      IsMalformed (successText (nestedText 126) (nested 126))) ∧
    (IsText (successText "1e999".toList hugeNumber) (success hugeNumber) ∧
      IsMalformed (successText "1e999".toList hugeNumber)) ∧
    (IsText (successText "\"\\ud800\"".toList loneSurrogate) (success loneSurrogate) ∧
      IsMalformed (successText "\"\\ud800\"".toList loneSurrogate)) := by
  have hnested : Envelope.data? (nested 126) = none :=
    congrArg (Option.map Envelope.notNull) (value?_nested 126).1
  have hnumber : TreeText "1e999".toList hugeNumber := by
    have digits : IsDigits ['1'] ∧ IsDigits ['9', '9', '9'] := by simp [IsDigits]
    exact .number (.mk false digits.1 (.inr rfl) .absent (.present (.inl rfl) .none digits.2))
  have hstring : TreeText "\"\\ud800\"".toList loneSurrogate := by
    have unit : unitOf 'd' '8' '0' '0' = some 0xD800 := rfl
    exact .string (.cons (.unit unit) .nil)
  refine ⟨⟨isText_success (treeText_nested 126), (value?_nested 126).2, ?_⟩,
    ⟨isText_success hnumber, ?_⟩, isText_success hstring, ?_⟩
  · exact isMalformed_success (treeText_nested 126) (not_isBlank_nestedText 126) hnested
  · exact isMalformed_success hnumber (by simp [Text.isBlank]) (by decide +kernel)
  · exact isMalformed_success hstring (by simp [Text.isBlank]) rfl

end Reply

end ChangeRelay.Tracker
