import ChangeRelay.Socket.Wire

namespace ChangeRelay

open Wire

/-- The octets that are no whole packet yet, and a message whose last packet did not come yet:
whether it is a text, and its octets so far. -/
structure Receiver where
  pending : Octets
  begun : Option (Bool × Octets)
  deriving DecidableEq

abbrev Message := Frame × Octets

namespace Receiver

def new : Receiver := ⟨[], none⟩

def isText (final : Bool) (s : Octets) : Bool :=
  match Text.Utf8.decode s with
  | .ok _ => true
  | .error f => !final && f.length.isNone

def extend (text final : Bool) (s : Octets) : Option (Option (Bool × Octets) × Option Message) :=
  if text && !isText final s then none
  else if final then some (none, some (if text then .text else .binary, s))
  else some (some (text, s), none)

def isGoodbye (s : Octets) : Bool := s.isEmpty || (2 ≤ s.length && isText true (s.drop 2))

def accept (begun : Option (Bool × Octets)) (p : Packet) :
    Option (Option (Bool × Octets) × Option Message) :=
  let control (f : Frame) :=
    if p.header.final && p.payload.length ≤ 125 then some (begun, some (f, p.payload)) else none
  if p.header.extension ≠ 0 || p.header.mask.isEmpty then none
  else
    match p.header.opcode, begun with
    | .close, _ => if isGoodbye p.payload then control .close else none
    | .ping, _ => control .ping
    | .pong, _ => control .pong
    | .continuation, some (text, s) => extend text p.header.final (s ++ p.payload)
    | .text, none => extend true p.header.final p.payload
    | .binary, none => extend false p.header.final p.payload
    | _, _ => none

/-- Reads the messages off octets, the last of them an error where something is against the rules.
-/
def readAll (begun : Option (Bool × Octets)) (s : Octets) : Receiver × List Message :=
  match _h : read s with
  | .incomplete => (⟨s, begun⟩, [])
  | .fault => (⟨[], none⟩, [(.error, [])])
  | .packet p rest =>
    match accept begun p with
    | none => (⟨[], none⟩, [(.error, [])])
    | some (begun, message) =>
      let (r, ms) := readAll begun rest
      (r, message.toList ++ ms)
termination_by s.length
decreasing_by exact length_of_read _h

def feed (r : Receiver) (s : Octets) : Receiver × List Message := readAll r.begun (r.pending ++ s)

end Receiver

end ChangeRelay
