import LineShell.Environment
import LineShell.Host
import LineShell.Startup.Setting

/-! The configuration: what the startup file and one variable make of the defaults. -/

namespace LineShell

structure Config where
  bound : Nat := 4096
  directives : List Directive := []
  /-- The numbers of the lines that were passed over, counted from one, and what is wrong there. -/
  skipped : List (Nat × SettingError) := []
  deriving DecidableEq, Repr

inductive ConfigError
  | read (path : Path) (cause : IoError)
  | invalidBound (numeral : Text)
  deriving DecidableEq, Repr

def ConfigError.message : ConfigError → Text
  | read path cause => "failed to read ".toList ++ path.display ++ ": ".toList ++ cause.message
  | invalidBound numeral => "invalid HSH_HISTSIZE '".toList ++ numeral ++ "'".toList

namespace Config

def startupFile (home : Path) : Path := home.join (.ofText ".hshrc".toList)

def historyFile (home : Path) : Path := home.join (.ofText ".hsh_history".toList)

def takeLine (c : Config) (number : Nat) (line : Text) : Config :=
  match Setting.parse line with
  | .ok .nothing => c
  | .ok (.directive d) => { c with directives := c.directives ++ [d] }
  | .ok (.bound entries) => { c with bound := entries }
  | .error e => { c with skipped := c.skipped ++ [(number, e)] }

def takeLines (number : Nat) (c : Config) : List Text → Config
  | [] => c
  | line :: later => takeLines (number + 1) (c.takeLine number line) later

def takeText (c : Config) (t : Text) : Config := takeLines 1 c (Text.lines t)

def complaints (c : Config) (path : Path) : List Text :=
  c.skipped.map fun (number, e) =>
    path.display ++ ':' :: Text.ofNat number ++ ": ".toList ++ e.message

variable {σ : Type}

def loadFile (host : Host σ) (path : Path) (c : Config) (w : σ) :
    Except ConfigError Unit × Config × σ :=
  match host.isPresent path w with
  | (false, w) => (.ok (), c, w)
  | (true, w) =>
    match host.read path w with
    | (.error e, w) => (.error (.read path e), c, w)
    | (.ok stream, w) =>
      match stream.text with
      | .error e => (.error (.read path e), c, w)
      | .ok t => (.ok (), c.takeText t, w)

def override (environment : Environment) (c : Config) : Except ConfigError Config :=
  match environment.lookup "HSH_HISTSIZE".toList with
  | none => .ok c
  | some numeral =>
    match Numeral.read? Numeral.wordMax (Text.trim numeral) with
    | some n => .ok { c with bound := n }
    | none => .error (.invalidBound numeral)

/-- Loads the startup file and then the override, which counts even if the file cannot be read.
If both fail, the override is what is complained about. -/
def load (host : Host σ) (home : Path) (environment : Environment) (c : Config) (w : σ) :
    Except ConfigError Unit × Config × σ :=
  let (loaded, c, w) := loadFile host (startupFile home) c w
  match c.override environment with
  | .error e => (.error e, c, w)
  | .ok c => (loaded, c, w)

end Config

end LineShell
