import LineShell.Startup.Boot
import LineShell.Warning.Filter

/-! The shell as a program: from the arguments of its process to the status it ends with. -/

namespace LineShell

inductive Note
  | warning (w : Warning)
  | complaint (line : Text)
  deriving DecidableEq, Repr

structure Conclusion (σ : Type) where
  code : Int
  output : Bytes := []
  notes : List Note := []
  world : σ

namespace CommandLine

variable {σ : Type}

def versionText : Text := "hsh 0.1.0".toList

def complaint (program : Text) (e : ShellError) : Note :=
  .complaint (program ++ ": ".toList ++ e.message)

def filter (inv : Invocation) : Filter :=
  if inv.flags.debug then Filter.read "debug".toList
  else
    match Boot.initial? inv.entries "HSH_LOG".toList with
    | some rules => Filter.read rules
    | none => Filter.standard

def warnings (inv : Invocation) (ws : List Warning) : List Note :=
  (ws.filter (filter inv).admits).map .warning

def runShell (host : Host σ) (inv : Invocation) (w : σ) : Conclusion σ :=
  let boot := Boot.boot host inv w
  match boot.result with
  | .error e =>
    { code := e.exitCode, notes := warnings inv boot.warnings ++ [complaint inv.program e],
      world := boot.world }
  | .ok (m, source) =>
    let ending := Shell.run host m source.feed
    let session := ending.machine.session
    let unsaved := ending.unsaved.toList.map fun e => ⟨.shell, e.message⟩
    let (code, failure) := match ending.result with
      | .ok status => (status, [])
      | .error e => ((ShellError.io e).exitCode, [complaint inv.program (.io e)])
    { code, output := session.sink.written,
      notes := warnings inv boot.warnings ++ session.diagnostics.map .complaint ++
        warnings inv unsaved ++ failure,
      world := ending.machine.world }

def run (host : Host σ) (inv : Invocation) (args : List Text) (w : σ) : Conclusion σ :=
  match inv.flags.parse args with
  | (.error e, _) =>
    let e := ShellError.flags e
    { code := e.exitCode, notes := [complaint inv.program e], world := w }
  | (.ok (), flags) =>
    if flags.help then
      { code := 0, output := Utf8.encode (Text.unlines Flags.helpText), world := w }
    else if flags.version then
      { code := 0, output := Utf8.encode (Text.unlines [versionText]), world := w }
    else runShell host { inv with flags } w

end CommandLine

end LineShell
