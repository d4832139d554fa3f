import LineShell.Builtin.Outcome
import LineShell.Machine

/-! The builtins that print, set and remove variables. -/

namespace LineShell.Builtin

variable {σ : Type}

def say (m : Machine σ) (lines : List Text) : Except CommandError Unit × Machine σ :=
  match m.print (Text.unlines lines) with
  | (.ok (), m) => (.ok (), m)
  | (.error e, m) => (.error (.io e), m)

def sayAll (m : Machine σ) (lines : List Text) : Except CommandError Outcome × Machine σ :=
  match say m lines with
  | (.ok (), m) => (.ok (.status 0), m)
  | (.error e, m) => (.error e, m)

def assign (m : Machine σ) (name value : Text) : Except CommandError Unit × Machine σ :=
  match m.session.environment.set name value with
  | .ok environment => (.ok (), m.update fun s => { s with environment })
  | .error e => (.error (.environment e), m)

def runEnv (m : Machine σ) : List Text → Except CommandError Outcome × Machine σ
  | [] =>
    let (assignments, environment) := m.session.environment.flatten
    sayAll (m.update fun s => { s with environment }) assignments
  | _ :: _ => (.error (.usage .env), m)

def runSetenv (m : Machine σ) : List Text → Except CommandError Outcome × Machine σ
  | [name, value] =>
    match assign m name value with
    | (.ok (), m) => (.ok (.status 0), m)
    | (.error e, m) => (.error e, m)
  | _ => (.error (.usage .setenv), m)

def unsetAll (environment : Environment) (names : List Text) : Environment :=
  names.foldl (fun e name => (e.unset name).2) environment

def runUnsetenv (m : Machine σ) : List Text → Except CommandError Outcome × Machine σ
  | [] => (.error (.usage .unsetenv), m)
  | names =>
    (.ok (.status 0),
      m.update fun s => { s with environment := unsetAll s.environment names })

end LineShell.Builtin
