import LineShell.Builtin.Variables

/-! The builtin that changes the working directory. -/

namespace LineShell.Builtin

variable {σ : Type}

def cdTarget (environment : Environment) : List Text → Except CommandError (Text × Bool)
  | [] =>
    match environment.lookup "HOME".toList with
    | some home => .ok (if home.isEmpty then "/".toList else home, false)
    | none => .ok ("/".toList, false)
  | target :: _ =>
    if target = "-".toList then
      match environment.lookup "OLDPWD".toList with
      | some old => .ok (old, true)
      | none => .error .noOldPwd
    else .ok (target, false)

def destination (host : Host σ) (directory : Path) (target : Text) (w : σ) : Option Path × σ :=
  match host.canonicalize (directory.join (.ofText target)) w with
  | (none, w) => (none, w)
  | (some arrived, w) =>
    match host.isSearchable arrived w with
    | (true, w) => (some arrived, w)
    | (false, w) => (none, w)

def move (m : Machine σ) (arrived : Path) : Except CommandError Unit × Machine σ :=
  match assign m "OLDPWD".toList m.session.directory.display with
  | (.error e, m) => (.error e, m)
  | (.ok (), m) =>
    match assign m "PWD".toList arrived.display with
    | (.error e, m) => (.error e, m)
    | (.ok (), m) => (.ok (), m.update fun s => { s with directory := arrived })

def runCd (host : Host σ) (m : Machine σ) (args : List Text) :
    Except CommandError Outcome × Machine σ :=
  match cdTarget m.session.environment args with
  | .error e => (.error e, m)
  | .ok (target, echo) =>
    match m.ask (destination host m.session.directory target) with
    | (none, m) => (.error (.cdFailed target), m)
    | (some arrived, m) =>
      match move m arrived with
      | (.error e, m) => (.error e, m)
      | (.ok (), m) => sayAll m (if echo then [arrived.display] else [])

end LineShell.Builtin
