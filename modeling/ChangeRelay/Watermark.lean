import ChangeRelay.Event.Basic

namespace ChangeRelay

structure Watermark where
  level : Int
  deriving DecidableEq, Inhabited

namespace Watermark

def start : Watermark := ⟨0⟩

def rise (c : Watermark) (es : List Event) : Watermark :=
  ⟨es.foldl (fun m e ↦ max m e.timestamp) c.level⟩

end Watermark

end ChangeRelay
