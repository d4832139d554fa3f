import LineShell.Text.Basic

/-! Tables of names and values that keep the order in which names were first set. -/

namespace LineShell

/-- Names with their values. Setting a name again keeps its place; a new one goes to the end. -/
structure Table where
  entries : List (Text × Text) := []
  deriving DecidableEq, Repr

namespace Table

def put (name value : Text) : List (Text × Text) → List (Text × Text)
  | [] => [(name, value)]
  | (n, v) :: later =>
    if n = name then (n, value) :: later else (n, v) :: put name value later

def insert (t : Table) (name value : Text) : Table := ⟨put name value t.entries⟩

def erase (t : Table) (name : Text) : Table := ⟨t.entries.filter fun e => e.1 ≠ name⟩

def remove (t : Table) (name : Text) : Bool × Table :=
  let kept := t.erase name
  (t.entries.length != kept.entries.length, kept)

def get? (t : Table) (name : Text) : Option Text := t.entries.lookup name

def names (t : Table) : List Text := t.entries.map (·.1)

def size (t : Table) : Nat := t.entries.length

def isEmpty (t : Table) : Bool := t.entries.isEmpty

def sorted (t : Table) : List (Text × Text) :=
  t.entries.mergeSort fun a b => !decide (b.1 < a.1)

def ofPairs (pairs : List (Text × Text)) : Table :=
  pairs.foldl (fun t p => t.insert p.1 p.2) {}

end Table

end LineShell
