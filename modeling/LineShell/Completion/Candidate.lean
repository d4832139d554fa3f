import LineShell.Host

/-! What may be put in for a word, and the candidates among the files. -/

namespace LineShell

structure Candidate where
  display : Text
  replacement : Text
  deriving DecidableEq, Repr

namespace Candidate

def cutAtSlash : Text → Text × Text
  | [] => ([], [])
  | c :: r =>
    let (directory, rest) := cutAtSlash r
    if directory.isEmpty && c != '/' then ([], c :: rest) else (c :: directory, rest)

def ofListed? (directory typed : Text) (e : Entry) : Option Candidate :=
  match Utf8.decode? e.name with
  | none => none
  | some name =>
    if !typed.isPrefixOf name || (typed.isEmpty && name.head? == some '.') then none
    else if e.leadsToDirectory then
      some { display := name ++ ['/'], replacement := directory ++ name ++ ['/'] }
    else some { display := name, replacement := directory ++ name ++ [' '] }

def sorted (cs : List Candidate) : List Candidate :=
  cs.mergeSort fun a b => !decide (b.display < a.display)

def ofPath {σ : Type} (host : Host σ) (base : Path) (word : Text) (w : σ) :
    List Candidate × σ :=
  let (directory, typed) := cutAtSlash word
  let place := if directory.isEmpty then base else base.join (.ofText directory)
  match host.list place w with
  | (none, w) => ([], w)
  | (some entries, w) => (sorted (entries.filterMap (ofListed? directory typed)), w)

end Candidate

end LineShell
