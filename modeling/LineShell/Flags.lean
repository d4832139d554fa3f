import LineShell.Text.Basic

/-! The command line of the shell: flags, then a script, then whatever the script is to get. -/

namespace LineShell

inductive Flag
  | command
  | debug
  | help
  | version
  deriving DecidableEq, Repr

namespace Flag

def all : List Flag := [command, debug, help, version]

def short : Flag → Text
  | command => "-c".toList
  | debug => "-d".toList
  | help => "-h".toList
  | version => "-V".toList

def long : Flag → Text
  | command => "--command".toList
  | debug => "--debug".toList
  | help => "--help".toList
  | version => "--version".toList

def description : Flag → Text
  | command => "Run a single command line and exit".toList
  | debug => "Enable debug logging".toList
  | help => "Print this help message".toList
  | version => "Show version information".toList

def takesValue : Flag → Bool
  | command => true
  | _ => false

def spelled? (arg : Text) : Option Flag := all.find? fun f => arg == f.short || arg == f.long

def helpLine (f : Flag) : Text :=
  let long := f.long ++ if f.takesValue then " <arg>".toList else []
  "  ".toList ++ f.short ++ ", ".toList ++ long ++ List.replicate (17 - long.length) ' ' ++
    ' ' :: f.description

end Flag

inductive FlagError
  | missingValue (arg : Text)
  | unknown (arg : Text)
  deriving DecidableEq, Repr

def FlagError.message : FlagError → Text
  | missingValue arg => "Flag ".toList ++ arg ++ " requires a value".toList
  | unknown arg => "Unknown flag ".toList ++ arg

structure Flags where
  command : Option Text := none
  debug : Bool := false
  help : Bool := false
  version : Bool := false
  script : Option Text := none
  scriptArgs : List Text := []
  deriving DecidableEq, Repr

namespace Flags

def set (f : Flags) (value : Text) : Flag → Flags
  | .command => { f with command := some value }
  | .debug => { f with debug := true }
  | .help => { f with help := true }
  | .version => { f with version := true }

def value? (f : Flags) : Flag → Option Text
  | .command => f.command
  | .debug => if f.debug then some "true".toList else none
  | .help => if f.help then some "true".toList else none
  | .version => if f.version then some "true".toList else none

def looksLikeFlag (arg : Text) : Bool := arg.head? == some '-' && arg != ['-']

/-- Reads arguments from left to right. The first that is neither a flag nor the value of one is
the script, and all that follow it belong to the script. What was read before an error stays. -/
def parse (f : Flags) : List Text → Except FlagError Unit × Flags
  | [] => (.ok (), f)
  | arg :: later =>
    if f.script.isSome then (.ok (), { f with scriptArgs := f.scriptArgs ++ arg :: later })
    else
      match Flag.spelled? arg with
      | some flag =>
        if flag.takesValue then
          match later with
          | [] => (.error (.missingValue arg), f)
          | value :: later => parse (f.set value flag) later
        else parse (f.set [] flag) later
      | none =>
        if looksLikeFlag arg then (.error (.unknown arg), f)
        else parse { f with script := some arg } later

def helpText : List Text :=
  ["Usage: hsh [OPTIONS] [SCRIPT [ARGS...]]".toList, [],
    "ARGS after SCRIPT are accepted and ignored.".toList, [], "Options:".toList] ++
    Flag.all.map Flag.helpLine

end Flags

end LineShell
