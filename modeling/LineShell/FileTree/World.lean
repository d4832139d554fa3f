import LineShell.FileTree.Change
import LineShell.FileTree.Launch

/-! A file tree as the world around a shell. -/

namespace LineShell.FileTree

def isExecutable (t : FileTree) (p : Path) : Bool :=
  match t.target? p with
  | some node => node.isExecutable
  | none => false

/-- Goes step by step, so that a path may be longer than the system takes at once. -/
def canonicalize (t : FileTree) (p : Path) : Option Path :=
  match t.trace .target p with
  | .ok (l, some _) => some (pathTo l)
  | _ => none

def kindOf : Node → EntryKind
  | .directory => .directory
  | .link _ => .link
  | .sinkhole => .other
  | .file _ _ | .script _ | .interpreter => .file

def listed? (t : FileTree) (p : Path) (l : Location) (name : Bytes) : Option Entry :=
  (t.node? (l ++ [name])).map fun node =>
    let target := t.target? (p.join ⟨name⟩)
    { name, kind := kindOf node, leadsToDirectory := target == some .directory }

def list (t : FileTree) (p : Path) : Option (List Entry) :=
  match t.find .target p with
  | .ok (l, some .directory) => some ((t.childNames l).filterMap (t.listed? p l))
  | _ => none

def read (t : FileTree) (p : Path) : Except IoError Stream :=
  match t.find .target p with
  | .error e => .error e
  | .ok (_, none) => .error (.system .noSuchFile)
  | .ok (_, some .directory) => .ok { data := [], fault := some (.system .isDirectory) }
  | .ok (_, some (.file data _)) => .ok { data }
  | .ok (_, some _) => .ok { data := [] }

def host : Host FileTree where
  isPresent p t := ((t.target? p).isSome, t)
  isExecutable p t := (t.isExecutable p, t)
  isSearchable p t := (t.target? p == some .directory, t)
  canonicalize p t := (t.canonicalize p, t)
  list p t := (t.list p, t)
  read p t := (t.read p, t)
  save p data t := t.save p data
  launch r t := (t.launch r, t)

end LineShell.FileTree
