import LineShell.FileTree.Basic

/-! Creating, replacing and removing what is in a file tree. -/

namespace LineShell.FileTree

def pathOf (start : Bytes) (steps : List Bytes) : Path :=
  ⟨start ++ List.intercalate [Path.slash] steps⟩

def createDirectory (t : FileTree) (p : Path) : Except IoError FileTree :=
  match t.find .place p with
  | .error e => .error e
  | .ok (_, some _) => .error (.system .fileExists)
  | .ok (l, none) => .ok (t.put l .directory)

def ensureDirectory (t : FileTree) (p : Path) : Except IoError Unit × FileTree :=
  match t.createDirectory p with
  | .ok t => (.ok (), t)
  | .error e => (if t.target? p = some .directory then .ok () else .error e, t)

/-- Creates the directory at the end of steps, after those that lead to it as far as they are
missing. What was created before something goes wrong stays there. -/
def ensureDirectories (t : FileTree) (start : Bytes) (steps : List Bytes) :
    Except IoError Unit × FileTree :=
  if _h : steps = [] then (.ok (), t)
  else
    let p := pathOf start steps
    match t.createDirectory p with
    | .error (.system .noSuchFile) =>
      match t.ensureDirectories start (Path.trimSteps steps.dropLast) with
      | (.ok (), t) => t.ensureDirectory p
      | failed => failed
    | _ => t.ensureDirectory p
termination_by steps.length
decreasing_by
  have := List.length_pos_iff.2 _h
  have := Path.length_trimSteps_le steps.dropLast
  simp only [List.length_dropLast] at this
  omega

def ensureParents (t : FileTree) (p : Path) : Except IoError Unit × FileTree :=
  t.ensureDirectories p.start (Path.trimSteps p.steps.dropLast)

def replace (t : FileTree) (p : Path) (data : Bytes) : Except IoError FileTree :=
  match t.find .file p with
  | .error e => .error e
  | .ok (_, some .directory) => .error (.system .isDirectory)
  | .ok (l, some (.file _ mode)) => .ok (t.put l (.file data mode))
  | .ok (_, some .sinkhole) => .ok t
  | .ok (l, some _) => .ok (t.put l (.file data 0o755))
  | .ok (l, none) => .ok (t.put l (.file data 0o644))

def save (t : FileTree) (p : Path) (data : Bytes) : Except IoError Unit × FileTree :=
  match t.ensureParents p with
  | (.ok (), t) =>
    match t.replace p data with
    | .ok t => (.ok (), t)
    | .error e => (.error e, t)
  | failed => failed

def place (t : FileTree) (aim : Aim) (p : Path) (n : Node) : FileTree :=
  let t := (t.ensureParents p).2
  match t.find aim p with
  | .ok (l, _) => if l.isEmpty then t else t.put l n
  | .error _ => t

end LineShell.FileTree
