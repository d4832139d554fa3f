import LineShell.Builtin.Aliases
import LineShell.Builtin.Directory
import LineShell.Builtin.Listing

/-! Running a builtin by its name. -/

namespace LineShell.Builtin

variable {σ : Type}

def runExit (m : Machine σ) : List Text → Except CommandError Outcome × Machine σ
  | [] => (.ok (.exit m.session.status), m)
  | numeral :: _ =>
    match Numeral.read? Numeral.statusMax numeral with
    | some n => (.ok (.exit ((n % 256 : Nat) : Int)), m)
    | none => (.error (.illegalNumber numeral), m)

def handle (host : Host σ) (m : Machine σ) (args : List Text) :
    Builtin → Except CommandError Outcome × Machine σ
  | .exit => runExit m args
  | .env => runEnv m args
  | .setenv => runSetenv m args
  | .unsetenv => runUnsetenv m args
  | .cd => runCd host m args
  | .help => runHelp m args
  | .history => runHistory m args
  | .alias => runAlias m args

def run (host : Host σ) (b : Builtin) (m : Machine σ) (args : List Text) :
    Except CommandError Outcome × Machine σ :=
  b.handle host (m.record (.call b args)) args

end LineShell.Builtin
