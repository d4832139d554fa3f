import LineShell.Host

/-! A file tree held in memory, and how a path leads through it. -/

namespace LineShell

inductive Action
  | echo
  | args
  | self
  | directory
  | environment
  | write (octets : Bytes)
  | exit (code : Nat)
  | exitArgument
  | die (signal : Nat)
  deriving DecidableEq, Repr

inductive Node
  | directory
  | file (data : Bytes) (mode : Nat)
  | script (actions : List Action)
  | interpreter
  /-- A file that stays empty, whatever is written to it. -/
  | sinkhole
  | link (target : Path)
  deriving DecidableEq, Repr

/-- The names that lead from the root to a place. -/
abbrev Location := List Bytes

structure FileTree where
  nodes : List (Location × Node) := []
  directory : Location := []
  deriving DecidableEq, Repr

namespace FileTree

def node? (t : FileTree) (l : Location) : Option Node :=
  if l.isEmpty then some .directory else t.nodes.lookup l

def put (t : FileTree) (l : Location) (n : Node) : FileTree :=
  { t with nodes := (l, n) :: t.nodes.filter fun e => e.1 ≠ l }

def childNames (t : FileTree) (l : Location) : List Bytes :=
  t.nodes.filterMap fun e =>
    match e.1.getLast? with
    | some name => if e.1.dropLast = l then some name else none
    | none => none

def dotDot : Bytes := Utf8.encode "..".toList

inductive Aim
  | place
  | target
  | file
  deriving DecidableEq, Repr

/-- The steps that are gone along a path. A slash at the end asks for a directory, and so does one
more step that is empty and stays where it is. -/
def route (p : Path) : List Bytes :=
  (List.splitOn Path.slash p.octets).filter (fun s => !s.isEmpty) ++
    if p.octets.getLast? = some Path.slash then [[]] else []

/-- Goes along steps from a directory. What the last one leads to may be missing; if it is a link,
that is followed unless the place itself is asked for. Only so many links are followed. -/
def walk (t : FileTree) (aim : Aim) (links : Nat) (here : Location) :
    List Bytes → Except SystemError (Location × Option Node)
  | [] => .ok (here, t.node? here)
  | step :: later =>
    if Path.isIdle step then walk t aim links here later
    else if step = dotDot then walk t aim links here.dropLast later
    else if aim = .file ∧ later = [[]] then .error .isDirectory
    else if 255 < step.length then .error .nameTooLong
    else
      let there := here ++ [step]
      match t.node? there with
      | none => if later.isEmpty then .ok (there, none) else .error .noSuchFile
      | some .directory => walk t aim links there later
      | some (.link target) =>
        if later.isEmpty && aim == .place then .ok (there, some (.link target))
        else
          match links with
          | 0 => .error .tooManyLinks
          | links + 1 =>
            walk t aim links (if target.IsAbsolute then [] else here) (route target ++ later)
      | some node => if later.isEmpty then .ok (there, some node) else .error .notDirectory
termination_by steps => (links, steps.length)

def linkLimit : Nat := 40

def pathLimit : Nat := 4095

def trace (t : FileTree) (aim : Aim) (p : Path) : Except IoError (Location × Option Node) :=
  if p.octets.isEmpty then .error (.system .noSuchFile)
  else if p.octets.contains 0 then .error .nulInPath
  else
    let start := if p.IsAbsolute then [] else t.directory
    match t.walk aim linkLimit start (route p) with
    | .ok found => .ok found
    | .error e => .error (.system e)

def find (t : FileTree) (aim : Aim) (p : Path) : Except IoError (Location × Option Node) :=
  if pathLimit < p.octets.length && !p.octets.contains 0 then .error (.system .nameTooLong)
  else t.trace aim p

def target? (t : FileTree) (p : Path) : Option Node :=
  match t.find .target p with
  | .ok (_, node) => node
  | .error _ => none

def pathTo (l : Location) : Path :=
  ⟨if l.isEmpty then [Path.slash] else l.flatMap (Path.slash :: ·)⟩

end FileTree

end LineShell
