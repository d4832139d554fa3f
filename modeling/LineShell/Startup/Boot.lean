import LineShell.Shell
import LineShell.ShellError
import LineShell.Startup.Config
import LineShell.Startup.Directive
import LineShell.Warning.Basic

/-! How a shell comes up: from the process's environment, the configuration, the history that was
kept, and the flags, which decide where lines come from. -/

namespace LineShell

structure Invocation where
  program : Text
  pid : Nat
  flags : Flags := {}
  entries : List Text
  directory : Path
  input : Stream
  deriving DecidableEq, Repr

structure Boot (σ : Type) where
  result : Except ShellError (Machine σ × Source)
  world : σ
  warnings : List Warning

namespace Boot

variable {σ : Type}

def bufferSize : Nat := 8192

def initial? (entries : List Text) (name : Text) : Option Text :=
  (entries.filterMap Environment.binding?).lookup name

def home? (entries : List Text) : Option Path :=
  ((initial? entries "HOME".toList).filter fun home => !home.isEmpty).map Path.ofText

/-- Opens the history kept under a home directory. If that fails, a history without a file takes
its place, so that the file is not written over. -/
def openHistory (host : Host σ) (home : Path) (bound : Nat) (w : σ) :
    History × List Warning × σ :=
  match History.ofFile host (Config.historyFile home) bound w with
  | (.ok h, w) => (h, [], w)
  | (.error e, w) => (.inMemory bound, [⟨.shell, e.message⟩], w)

def loadConfig (host : Host σ) (home : Path) (environment : Environment) (w : σ) :
    Config × List Warning × σ :=
  let (loaded, c, w) := ({} : Config).load host home environment w
  let skipped := (c.complaints (Config.startupFile home)).map (Warning.mk .startupFile)
  match loaded with
  | .ok () => (c, skipped, w)
  | .error e => (c, skipped ++ [⟨.shell, e.message⟩], w)

def prepare (host : Host σ) (inv : Invocation) (environment : Environment) (w : σ) :
    (History × List Directive) × List Warning × σ :=
  match home? inv.entries with
  | none =>
    ((.inMemory ({} : Config).bound, []),
      [⟨.shell, "Home directory not found; history will not be saved".toList⟩], w)
  | some home =>
    let (c, complaints, w) := loadConfig host home environment w
    let (h, more, w) := openHistory host home c.bound w
    ((h, c.directives), complaints ++ more, w)

def source (host : Host σ) (inv : Invocation) (w : σ) : Except ShellError Source × σ :=
  match inv.flags.command, inv.flags.script with
  | some command, _ => (.ok (.single (some command)), w)
  | none, some script =>
    let path := Path.ofText script
    match host.read path w with
    | (.ok stream, w) => (.ok (.reader (.ofStream bufferSize stream)), w)
    | (.error e, w) => (.error (.scriptOpen path e), w)
  | none, none => (.ok (.reader (.ofStream bufferSize inv.input)), w)

def boot (host : Host σ) (inv : Invocation) (w : σ) : Boot σ :=
  let environment := Environment.ofEntries inv.entries
  let ((history, directives), warnings, w) := prepare host inv environment w
  let session : Session :=
    { program := inv.program, pid := inv.pid, environment, history, directory := inv.directory }
  let session := session.applyDirectives directives
  match source host inv w with
  | (.ok source, w) => { result := .ok ({ session, world := w }, source), world := w, warnings }
  | (.error e, w) => { result := .error e, world := w, warnings }

end Boot

end LineShell
