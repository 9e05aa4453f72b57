namespace ChangeRelay.Text.Utf8

/-- Octets that are no text: after `index` good ones, `length` octets are bad, or the text ends
within a character. -/
structure Fault where
  index : Nat
  length : Option Nat
  deriving DecidableEq

def Fault.message (f : Fault) : String :=
  match f.length with
  | some n => "invalid utf-8 sequence of " ++ toString n ++ " bytes from index " ++ toString f.index
  | none => "incomplete utf-8 byte sequence from index " ++ toString f.index

def isTail (b : UInt8) : Bool := 0x80 ≤ b && b ≤ 0xBF

def secondRange (first : UInt8) : UInt8 × UInt8 :=
  if first = 0xE0 then (0xA0, 0xBF)
  else if first = 0xED then (0x80, 0x9F)
  else if first = 0xF0 then (0x90, 0xBF)
  else if first = 0xF4 then (0x80, 0x8F)
  else (0x80, 0xBF)

def isSecond (first b : UInt8) : Bool := (secondRange first).1 ≤ b && b ≤ (secondRange first).2

def bits (b : UInt8) : Nat := b.toNat % 64

/-- The first character and the octets after it, or the length of the bad sequence at the start. -/
def first : List UInt8 → Except (Option Nat) (Char × List UInt8)
  | [] => .error none
  | a :: s =>
    if a < 0x80 then .ok (Char.ofNat a.toNat, s)
    else if a < 0xC2 || 0xF4 < a then .error (some 1)
    else
      match s with
      | [] => .error none
      | b :: s =>
        if !isSecond a b then .error (some 1)
        else if a < 0xE0 then .ok (Char.ofNat (a.toNat % 32 * 64 + bits b), s)
        else
          match s with
          | [] => .error none
          | c :: s =>
            if !isTail c then .error (some 2)
            else if a < 0xF0 then .ok (Char.ofNat ((a.toNat % 16 * 64 + bits b) * 64 + bits c), s)
            else
              match s with
              | [] => .error none
              | d :: s =>
                if !isTail d then .error (some 3)
                else .ok (Char.ofNat (((a.toNat % 8 * 64 + bits b) * 64 + bits c) * 64 + bits d), s)

theorem length_of_first {s r : List UInt8} {c : Char} (h : first s = .ok (c, r)) :
    r.length < s.length := by
  unfold first at h
  repeat' split at h
  all_goals cases h
  all_goals simp only [List.length_cons]; omega

def decodeFrom (index : Nat) (s : List UInt8) : Except Fault (List Char) :=
  if s.isEmpty then .ok []
  else
    match _h : first s with
    | .error n => .error ⟨index, n⟩
    | .ok (c, r) => (decodeFrom (index + c.utf8Size) r).map (c :: ·)
termination_by s.length
decreasing_by exact length_of_first _h

def decode (s : List UInt8) : Except Fault (List Char) := decodeFrom 0 s

def encode (s : List Char) : List UInt8 := s.flatMap String.utf8EncodeChar

end ChangeRelay.Text.Utf8
