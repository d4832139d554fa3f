import LineShell.Host

/-! Where the output of a session goes. -/

namespace LineShell

inductive Sink
  /-- Keeps everything that it is given, the last piece first. -/
  | working (pieces : List Bytes)
  | broken (cause : IoError)
  deriving DecidableEq, Repr

namespace Sink

/-- Takes octets. To write none is no attempt at all, and so it cannot fail. -/
def write : Sink → Bytes → Except IoError Unit × Sink
  | working pieces, b => (.ok (), working (b :: pieces))
  | broken cause, b => (if b.isEmpty then .ok () else .error cause, broken cause)

def flush : Sink → Except IoError Unit
  | working _ => .ok ()
  | broken cause => .error cause

def written : Sink → Bytes
  | working pieces => pieces.reverse.flatten
  | broken _ => []

end Sink

end LineShell
