import LineShell.Builtin.Basic
import LineShell.Environment
import LineShell.Host

/-! What the name of a command leads to. -/

namespace LineShell

inductive Resolution
  | builtin (command : Builtin)
  | external (program : Path)
  | notExecutable (path : Path)
  | notFound
  deriving DecidableEq, Repr

namespace Resolution

variable {σ : Type}

def ofPath (host : Host σ) (directory : Path) (name : Text) (w : σ) : Resolution × σ :=
  let candidate := directory.join (.ofText name)
  match host.isExecutable candidate w with
  | (true, w) => (external candidate, w)
  | (false, w) =>
    match host.isPresent candidate w with
    | (true, w) => (notExecutable candidate, w)
    | (false, w) => (notFound, w)

/-- The path to try for a name in an entry of the search path. An empty entry means the working
directory, and a relative one starts there. -/
def candidate (directory : Path) (name entry : Text) : Path :=
  (if entry.isEmpty then directory else directory.join (.ofText entry)).join (.ofText name)

def firstExecutable (host : Host σ) : List Path → σ → Resolution × σ
  | [], w => (notFound, w)
  | p :: later, w =>
    match host.isExecutable p w with
    | (true, w) => (external p, w)
    | (false, w) => firstExecutable host later w

def search (host : Host σ) (directory : Path) (searchPath : Option Text) (name : Text) (w : σ) :
    Resolution × σ :=
  match searchPath with
  | none => (notFound, w)
  | some searchPath =>
    if name.isEmpty then (notFound, w)
    else firstExecutable host ((List.splitOn ':' searchPath).map (candidate directory name)) w

def resolve (host : Host σ) (environment : Environment) (directory : Path) (name : Text) (w : σ) :
    Resolution × σ :=
  match Builtin.named? name with
  | some b => (builtin b, w)
  | none =>
    if name.contains '/' then ofPath host directory name w
    else search host directory (environment.lookup "PATH".toList) name w

end Resolution

end LineShell
