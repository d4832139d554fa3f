import LineShell.Completion.Candidate
import LineShell.Session
import LineShell.Builtin.Basic

/-! Completion of the word at the cursor: the name of a command, or a path. -/

namespace LineShell

def insertSorted (t : Text) : List Text → List Text
  | [] => [t]
  | u :: later =>
    if t = u then u :: later
    else if t < u then t :: u :: later
    else u :: insertSorted t later

def sortedSet (texts : List Text) : List Text := texts.foldl (fun s t => insertSorted t s) []

structure Completer where
  commands : List Text := []
  aliases : List Text := []
  /-- The search path for which the commands were found. -/
  scanned : Option Text := none
  base : Path
  deriving DecidableEq, Repr

namespace Completer

variable {σ : Type}

def commandName? (e : Entry) : Option Text :=
  match e.kind with
  | .file | .link => Utf8.decode? e.name
  | .directory | .other => none

def scan (host : Host σ) : List Path → σ → List Text × σ
  | [], w => ([], w)
  | p :: later, w =>
    let (entries, w) := host.list p w
    let (names, w) := scan host later w
    ((entries.getD []).filterMap commandName? ++ names, w)

def places (directory : Path) (searchPath : Option Text) : List Path :=
  match searchPath with
  | none => []
  | some searchPath =>
    (List.splitOn ':' searchPath).map fun entry => directory.join (.ofText entry)

def refresh (host : Host σ) (c : Completer) (directory : Path) (searchPath : Option Text)
    (w : σ) : Completer × σ :=
  if c.scanned = searchPath ∧ c.commands ≠ [] then (c, w)
  else
    let (names, w) := scan host (places directory searchPath) w
    ({ c with
        commands := sortedSet (Builtin.all.map Builtin.name ++ names), scanned := searchPath }, w)

def updateAliases (c : Completer) (aliases : Table) : Completer :=
  { c with aliases := sortedSet aliases.names }

/-- Takes over what a session has changed. A directory whose path has the same steps is the same
directory, and the path to it is kept. -/
def sync (host : Host σ) (c : Completer) (s : Session) (w : σ) : Completer × σ :=
  let (c, w) := c.refresh host s.directory (s.environment.lookup "PATH".toList) w
  let base := if c.base.agrees s.directory then c.base else s.directory
  ({ c.updateAliases s.aliases with base }, w)

def ofCommand (c : Completer) (typed : Text) : List Candidate :=
  (c.commands.filter typed.isPrefixOf).map
      (fun name => { display := name, replacement := name ++ [' '] }) ++
    (c.aliases.filter typed.isPrefixOf).map
      fun name => { display := name ++ " (alias)".toList, replacement := name ++ [' '] }

def cutAtWord : Text → Text × Text
  | [] => ([], [])
  | c :: r =>
    let (before, word) := cutAtWord r
    if before.isEmpty && !Text.isBlank c then ([], c :: word) else (c :: before, word)

def isSuffixOf (t u : Text) : Bool := t.reverse.isPrefixOf u.reverse

def isCommandPosition (before : Text) : Bool :=
  let before := Text.trimEnd before
  before.isEmpty || isSuffixOf "&&".toList before || isSuffixOf "||".toList before ||
    isSuffixOf ";".toList before

/-- The word before a place in a line, with the text before it. The place is counted in octets and
has to be a boundary between characters. A word begins one octet after a blank, and so the blank
has to be of one octet. -/
def wordAt? (line : Text) (place : Nat) : Option (Text × Text) :=
  match Text.cutAtOffset place line with
  | none => none
  | some (t, _) =>
    let (before, word) := cutAtWord t
    match before.getLast? with
    | some blank => if blank.utf8Size = 1 then some (before, word) else none
    | none => some (before, word)

def complete (host : Host σ) (c : Completer) (line : Text) (place : Nat) (w : σ) :
    Option (Nat × List Candidate) × σ :=
  match wordAt? line place with
  | none => (none, w)
  | some (before, word) =>
    if isCommandPosition before && !word.contains '/' then
      (some (Text.octetLength before, c.ofCommand word), w)
    else
      let (candidates, w) := Candidate.ofPath host c.base word w
      (some (Text.octetLength before, candidates), w)

end Completer

end LineShell
