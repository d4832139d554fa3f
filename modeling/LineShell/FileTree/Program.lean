import LineShell.FileTree.Basic
import LineShell.Text.Numeral

/-! What the programs of a file tree do once they are started. -/

namespace LineShell

namespace WaitStatus

def ofExit (code : Nat) : WaitStatus := ⟨UInt32.ofNat (code % 256 * 256)⟩

def ofSignal (signal : Nat) : WaitStatus := ⟨UInt32.ofNat (signal % 128)⟩

end WaitStatus

namespace FileTree

structure Start where
  self : Path
  args : List Bytes
  environment : List Bytes
  directory : Path

namespace Start

def line (octets : Bytes) : Bytes := octets ++ [10]

def label (t : Text) (octets : Bytes) : Bytes := line (Utf8.encode t ++ octets)

def misuse : Nat := 2

def statusOf (numeral : Bytes) : Nat :=
  match Utf8.decode? numeral with
  | some t =>
    if t.all Char.isDigit then (Numeral.read? Numeral.statusMax t).getD misuse else misuse
  | none => misuse

def act (s : Start) : Action → Bytes × Option WaitStatus
  | .echo => (line (List.intercalate [32] s.args), none)
  | .args => (s.args.flatMap (label "arg:".toList), none)
  | .self => (label "self:".toList s.self.octets, none)
  | .directory => (label "cwd:".toList s.directory.octets, none)
  | .environment =>
    let lines := s.environment.flatMap (List.splitOn 10)
    ((lines.mergeSort fun a b => decide (a ≤ b)).flatMap line, none)
  | .write octets => (octets, none)
  | .exit code => ([], some (WaitStatus.ofExit code))
  | .exitArgument => ([], some (WaitStatus.ofExit (statusOf (s.args.headD []))))
  | .die signal => ([], some (WaitStatus.ofSignal signal))

def perform (s : Start) : List Action → WaitStatus × Bytes
  | [] => (WaitStatus.ofExit 0, [])
  | action :: later =>
    match s.act action with
    | (written, some status) => (status, written)
    | (written, none) =>
      let (status, more) := s.perform later
      (status, written ++ more)

def carryOut (status : Nat) : List Text → WaitStatus × Bytes
  | [] => (WaitStatus.ofExit status, [])
  | t :: later =>
    match (Text.words t).map String.ofList with
    | [] => carryOut status later
    | "exit" :: [] => (WaitStatus.ofExit status, [])
    | "exit" :: code :: _ => (WaitStatus.ofExit (statusOf (Utf8.encode code.toList)), [])
    | "echo" :: words =>
      let (ended, more) := carryOut 0 later
      (ended, line (Utf8.encode (List.intercalate [' '] (words.map String.toList))) ++ more)
    | ":" :: _ => carryOut 0 later
    | "true" :: _ => carryOut 0 later
    | "false" :: _ => carryOut 1 later
    | word :: _ => if word.startsWith "#" then carryOut status later else carryOut 127 later

end Start

def interpret (t : FileTree) (s : Start) : WaitStatus × Bytes :=
  match s.args with
  | [] => (WaitStatus.ofExit 0, [])
  | script :: args =>
    match t.target? ⟨script⟩ with
    | some (.script actions) => { s with self := ⟨script⟩, args }.perform actions
    | some (.file data _) => Start.carryOut 0 (Text.lines (Utf8.lossy data))
    | some .sinkhole => (WaitStatus.ofExit 0, [])
    | _ => (WaitStatus.ofExit Start.misuse, [])

end FileTree

end LineShell
