import LineShell.FileTree.Program
import LineShell.FileTree.Script
import LineShell.Table

/-! Starting the programs of a file tree: what can be started, how much can be handed over, and
where a program is looked for whose name holds no slash. -/

namespace LineShell

namespace Node

def isExecutableMode (mode : Nat) : Bool := mode &&& 0o111 != 0

def isExecutable : Node → Bool
  | .file _ mode => isExecutableMode mode
  | .script _ => true
  | .interpreter => true
  | _ => false

def scriptLine? : Node → Option ScriptLine
  | .script _ => some { interpreter := ScriptLine.shellPath }
  | .file data _ => ScriptLine.read? data
  | _ => none

end Node

namespace FileTree

structure Summons where
  file : Path
  environment : List Bytes
  directory : Path
  space : Nat

namespace Summons

def stringLimit : Nat := Nat.pow 2 17

def memory : Nat := Nat.pow 2 21

def spaceFor (strings : Nat) : Nat := memory - 8 * strings

def fits (s : Summons) (argv : List Bytes) : Bool :=
  let strings := s.file.octets :: s.environment ++ argv
  strings.all (fun b => b.length < stringLimit) &&
    decide (strings.foldr (fun b n => b.length + 1 + n) 0 ≤ s.space)

end Summons

def executable (t : FileTree) (p : Path) : Except SystemError Node :=
  if p.octets.isEmpty then .error .permissionDenied
  else
    match t.find .target p with
    | .error (.system e) => .error e
    | .error _ => .error .noSuchFile
    | .ok (_, none) => .error .noSuchFile
    | .ok (_, some node) => if node.isExecutable then .ok node else .error .permissionDenied

/-- Starts a program with arguments, the first of which is a name for itself. In front of those of
a script go the words of its first line and the path to it, and then the interpreter is started.
There can be only so many programs in such a row. -/
def exec (t : FileTree) (s : Summons) (p : Path) (argv : List Bytes) :
    Nat → Except SystemError (WaitStatus × Bytes)
  | 0 =>
    match t.executable p with
    | .error e => .error e
    | .ok _ => .error .tooManyLinks
  | row + 1 =>
    match t.executable p with
    | .error e => .error e
    | .ok .interpreter =>
      .ok (t.interpret
        { self := p, args := argv.drop 1, environment := s.environment, directory := s.directory })
    | .ok node =>
      match node.scriptLine? with
      | none => .error .execFormat
      | some line =>
        let argv := line.interpreter.octets :: line.argument.toList ++ p.octets :: argv.drop 1
        if s.fits argv then t.exec s line.interpreter argv row else .error .argumentsTooLong

def rowLimit : Nat := 6

def start (t : FileTree) (environment : List Bytes) (argv : List Bytes) (p : Path) :
    Except SystemError (WaitStatus × Bytes) :=
  match t.executable p with
  | .error e => .error e
  | .ok _ =>
    let s : Summons :=
      { file := p, environment, directory := pathTo t.directory,
        space := Summons.spaceFor (argv.length + environment.length) }
    if s.fits argv then t.exec s p argv rowLimit else .error .argumentsTooLong

/-- Starts the first of some programs that is there. What is no program is taken for a script of
the shell. One that may not be started is passed over, but remembered if there is no other. -/
def startFirst (t : FileTree) (environment : List Bytes) (argv : List Bytes)
    (failure : SystemError) : List Path → Except SystemError (WaitStatus × Bytes)
  | [] => .error failure
  | p :: later =>
    match t.start environment argv p with
    | .ok ended => .ok ended
    | .error .execFormat =>
      let shell := ScriptLine.shellPath
      t.start environment (shell.octets :: p.octets :: argv.drop 1) shell
    | .error .permissionDenied => t.startFirst environment argv .permissionDenied later
    | .error e =>
      if e = .noSuchFile ∨ e = .notDirectory then
        let failure := if failure = .permissionDenied then failure else e
        t.startFirst environment argv failure later
      else .error e

def standardSearchPath : Text := "/bin:/usr/bin".toList

def nameWindow : Nat := 256

/-- The paths to try for a name, from a search path. An entry that is longer than any path counts
as an empty one, and ends the search if it is the last. -/
def candidates (searchPath name : Bytes) : List Path :=
  let isTooLong (entry : Bytes) : Bool := pathLimit < entry.length
  let entries := List.splitOn 58 searchPath
  let entries := if entries.getLast?.any isTooLong then entries.dropLast else entries
  let name := name.take nameWindow
  entries.map fun entry =>
    ⟨if entry.isEmpty || isTooLong entry then name else entry ++ Path.slash :: name⟩

def assigned? (name : Text) (environment : List Bytes) : Option Bytes :=
  let start := Utf8.encode (name ++ ['='])
  (environment.find? (start.isPrefixOf ·)).map (·.drop start.length)

def holdsNul (r : Launch) : Bool :=
  r.program.octets.contains 0 || r.directory.octets.contains 0 ||
    r.argv.any (·.contains '\x00') ||
    (Table.ofPairs r.environment).entries.any fun e => e.1.contains '\x00' || e.2.contains '\x00'

def startHere (t : FileTree) (r : Launch) : Except SystemError (WaitStatus × Bytes) :=
  let name := r.program.octets
  let environment := (Table.ofPairs r.environment).sorted.map fun e =>
    Utf8.encode (e.1 ++ '=' :: e.2)
  let argv := if r.argv.isEmpty then [name] else r.argv.map Utf8.encode
  if name.contains Path.slash then t.start environment argv r.program
  else if name.isEmpty then .error .noSuchFile
  else
    let searchPath :=
      (assigned? "PATH".toList environment).getD (Utf8.encode standardSearchPath)
    t.startFirst environment argv .noSuchFile (candidates searchPath name)

def launch (t : FileTree) (r : Launch) : Except IoError (WaitStatus × Bytes) :=
  if holdsNul r then .error .nulInData
  else
    match t.find .target r.directory with
    | .error e => .error e
    | .ok (_, none) => .error (.system .noSuchFile)
    | .ok (l, some .directory) =>
      match { t with directory := l }.startHere r with
      | .ok ended => .ok ended
      | .error e => .error (.system e)
    | .ok (_, some _) => .error (.system .notDirectory)

end FileTree

end LineShell
