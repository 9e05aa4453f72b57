import ChangeRelay.Socket.Frame
import ChangeRelay.Text.Utf8

namespace ChangeRelay.Wire

abbrev Octets := List UInt8

inductive Opcode where
  | continuation
  | text
  | binary
  | close
  | ping
  | pong
  | reserved
  deriving DecidableEq

def Opcode.ofCode : Nat → Opcode
  | 0 => continuation
  | 1 => text
  | 2 => binary
  | 8 => close
  | 9 => ping
  | 10 => pong
  | _ => reserved

def Opcode.code : Opcode → Nat
  | continuation => 0
  | text => 1
  | binary => 2
  | close => 8
  | ping => 9
  | pong => 10
  | reserved => 3

structure Header where
  final : Bool
  extension : Nat
  opcode : Opcode
  mask : Octets
  size : Nat
  deriving DecidableEq

structure Packet where
  header : Header
  payload : Octets
  deriving DecidableEq

def number (s : Octets) : Nat := s.foldl (fun n b ↦ 256 * n + b.toNat) 0

def octets : Nat → Nat → Octets
  | 0, _ => []
  | k + 1, n => UInt8.ofNat (n / Nat.pow 256 k) :: octets k n

def sizeOctets (start : Nat) : Nat := if start = 126 then 2 else if start = 127 then 8 else 0

def maxPayload : Nat := 16 * Nat.pow 2 20

/-- A payload and the mask on it cancel out each other when they are combined once more. -/
def unmask : Octets → Octets → Octets
  | a :: as, b :: s => (a ^^^ b) :: unmask (as ++ [a]) s
  | _, s => s

def header? : Octets → Option (Header × Octets)
  | a :: b :: s =>
    let start := b.toNat % 128
    let (sizes, s) := s.splitAt (sizeOctets start)
    let (mask, body) := s.splitAt (if 128 ≤ b.toNat then 4 else 0)
    if sizes.length < sizeOctets start || 128 ≤ b.toNat && mask.length < 4 then none
    else
      let size := if sizes.isEmpty then start else number sizes
      some (⟨128 ≤ a.toNat, a.toNat / 16 % 8, .ofCode (a.toNat % 16), mask, size⟩, body)
  | _ => none

inductive Reading where
  | incomplete
  | fault
  | packet (p : Packet) (rest : Octets)
  deriving DecidableEq

/-- Reads a packet. Its opcode and size are looked at as soon as the header is there, all else once
the payload is. -/
def read (s : Octets) : Reading :=
  match header? s with
  | none => .incomplete
  | some (h, body) =>
    if h.opcode = .reserved || maxPayload < h.size then .fault
    else if body.length < h.size then .incomplete
    else .packet ⟨h, unmask h.mask (body.take h.size)⟩ (body.drop h.size)

theorem length_of_header? {s body : Octets} {h : Header} (e : header? s = some (h, body)) :
    body.length < s.length := by
  unfold header? at e
  split at e
  · simp only [List.splitAt_eq] at e
    repeat' split at e
    all_goals cases e
    all_goals simp only [List.length_drop, List.length_cons]; omega
  · cases e

theorem length_of_read {s rest : Octets} {p : Packet} (e : read s = .packet p rest) :
    rest.length < s.length := by
  unfold read at e
  split at e
  · cases e
  · next h body eh =>
    have := length_of_header? eh
    repeat' split at e
    all_goals cases e
    simp only [List.length_drop]
    omega

def headerOctets (opcode : Opcode) (masked : Bool) (size : Nat) : Octets :=
  let flag := if masked then 128 else 0
  let sizes := if size < 126 then [UInt8.ofNat (flag + size)]
    else if size < 65536 then UInt8.ofNat (flag + 126) :: octets 2 size
    else UInt8.ofNat (flag + 127) :: octets 8 size
  UInt8.ofNat (128 + opcode.code) :: sizes ++ if masked then [0, 0, 0, 0] else []

def sent (opcode : Opcode) (payload : Octets) : Octets :=
  headerOctets opcode true payload.length ++ payload

/-- How many octets a payload takes up when it is sent by the side that accepts connections. -/
def width (size : Nat) : Nat := (headerOctets .text false size).length + size

end ChangeRelay.Wire
