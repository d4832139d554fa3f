import LineShell.Environment
import LineShell.History
import LineShell.Sink

/-! What a session remembers from line to line. -/

namespace LineShell

structure Session where
  program : Text
  pid : Nat
  environment : Environment
  aliases : Table := {}
  history : History
  directory : Path
  status : Int := 0
  lineCount : Nat := 0
  sink : Sink := .working []
  /-- What there was to complain about, the last complaint first. -/
  complaints : List Text := []
  deriving DecidableEq, Repr

namespace Session

def accept (s : Session) (line : Text) : Session :=
  { s with history := s.history.add line, lineCount := s.lineCount + 1 }

def report (s : Session) (command message : Text) : Session :=
  { s with
    complaints :=
      (s.program ++ ": ".toList ++ Text.ofNat s.lineCount ++ ": ".toList ++ command ++
        ": ".toList ++ message) :: s.complaints }

def diagnostics (s : Session) : List Text := s.complaints.reverse

def withStatus (s : Session) (status : Int) : Session := { s with status }

end Session

end LineShell
