import LineShell.CommandLine
import LineShell.FileTree.World

/-! The program. What a run may need is read before it, the run is pure, and what it leaves behind
is written after it. It sees those files only, and no programs. -/

namespace LineShell.Main

def contents? (p : Path) : IO (Option Bytes) := do
  try
    let data ← IO.FS.readBinFile (String.ofList p.display)
    return some data.toList
  catch _ => return none

def takeIn (t : FileTree) (p : Path) : IO FileTree := do
  match ← contents? p with
  | some data => return t.place .target p (.file data 0o644)
  | none => return t

def entries : IO (List Text) := do
  let data := (← contents? (.ofText "/proc/self/environ".toList)).getD []
  return (List.splitOn 0 data).filterMap Utf8.decode?

def pid : IO Nat := do
  let data := (← contents? (.ofText "/proc/self/stat".toList)).getD []
  return (Numeral.read? Numeral.statusMax (Text.firstWord (Utf8.lossy data))).getD 0

def directory : IO Path := do
  return .ofText (← IO.currentDir).toString.toList

def files (inv : Invocation) (flags : Flags) : List Path :=
  let kept := match Boot.home? inv.entries with
    | some home => [Config.startupFile home, Config.historyFile home]
    | none => []
  kept ++ flags.script.toList.map fun script => inv.directory.join (.ofText script)

def tree (inv : Invocation) (flags : Flags) : IO FileTree := do
  let known := (Boot.home? inv.entries).toList ++ [inv.directory]
  let bare := known.foldl (fun t p => t.place .target p .directory) {}
  let full ← (files inv flags).foldlM takeIn bare
  match full.find .target inv.directory with
  | .ok (l, _) => return { full with directory := l }
  | .error _ => return full

def keepHistory (inv : Invocation) (old new : FileTree) : IO Unit := do
  match Boot.home? inv.entries with
  | none => return
  | some home =>
    let p := Config.historyFile home
    match new.target? p with
    | some (.file data mode) =>
      if old.target? p != some (.file data mode) then
        IO.FS.createDirAll (String.ofList home.display)
        IO.FS.writeBinFile (String.ofList p.display) (ByteArray.mk data.toArray)
    | _ => return

def input (flags : Flags) : IO Stream := do
  if flags.command.isSome || flags.script.isSome || flags.help || flags.version then
    return { data := [] }
  let stdin ← IO.getStdin
  return { data := (← stdin.readBinToEnd).toList }

def run (args : List Text) : IO UInt32 := do
  let flags := (({} : Flags).parse args).2
  let inv : Invocation :=
    { program := "hsh".toList, pid := ← pid, entries := ← entries, directory := ← directory,
      input := ← input flags }
  let before ← tree inv flags
  let done := CommandLine.run FileTree.host inv args before
  let stdout ← IO.getStdout
  stdout.write (ByteArray.mk done.output.toArray)
  stdout.flush
  for note in done.notes do
    match note with
    | .warning w => IO.eprintln (String.ofList w.shown)
    | .complaint line => IO.eprintln (String.ofList line)
  keepHistory inv before done.world
  return UInt32.ofNat (done.code % 256).toNat

end LineShell.Main

def main (args : List String) : IO UInt32 := LineShell.Main.run (args.map String.toList)
