import LineShell.Path
import LineShell.SystemError

/-! The outside world as the shell meets it. Whatever keeps the world's state answers a question
and moves on, so an answer may depend on all that was asked before, and on nothing else. -/

namespace LineShell

/-- The word in which the system tells how a child ended. -/
structure WaitStatus where
  word : UInt32
  deriving DecidableEq, Repr

namespace WaitStatus

def ending (s : WaitStatus) : Nat := s.word.toNat % 128

def exitCode? (s : WaitStatus) : Option Nat :=
  if s.ending = 0 then some (s.word.toNat / 256 % 256) else none

def signal? (s : WaitStatus) : Option Nat :=
  if s.ending = 0 ∨ s.ending = 127 then none else some s.ending

def code (s : WaitStatus) : Nat :=
  match s.exitCode?, s.signal? with
  | some code, _ => code
  | none, some signal => 128 + signal
  | none, none => 128

end WaitStatus

structure Launch where
  program : Path
  argv : List Text
  environment : List (Text × Text)
  directory : Path
  deriving DecidableEq, Repr

structure Stream where
  data : Bytes
  fault : Option IoError := none
  deriving DecidableEq, Repr

namespace Stream

def contents (s : Stream) : Except IoError Bytes :=
  match s.fault with
  | none => .ok s.data
  | some e => .error e

def text (s : Stream) : Except IoError Text :=
  match s.contents with
  | .error e => .error e
  | .ok data =>
    match Utf8.decode? data with
    | some t => .ok t
    | none => .error .notUtf8

end Stream

inductive EntryKind
  | file
  | directory
  | link
  | other
  deriving DecidableEq, Repr

structure Entry where
  name : Bytes
  kind : EntryKind
  leadsToDirectory : Bool
  deriving DecidableEq, Repr

structure Host (σ : Type) where
  isPresent : Path → σ → Bool × σ
  /-- Whether a path leads to a regular file that the user may execute. -/
  isExecutable : Path → σ → Bool × σ
  /-- Whether a path leads to a directory that the user may enter. -/
  isSearchable : Path → σ → Bool × σ
  canonicalize : Path → σ → Option Path × σ
  /-- The entries of a directory in no particular order, if it can be read. -/
  list : Path → σ → Option (List Entry) × σ
  read : Path → σ → Except IoError Stream × σ
  save : Path → Bytes → σ → Except IoError Unit × σ
  launch : Launch → σ → Except IoError (WaitStatus × Bytes) × σ

end LineShell
