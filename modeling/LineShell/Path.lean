import LineShell.Text.Utf8

/-! Paths are octets: the system gives them no encoding. -/

namespace LineShell

structure Path where
  octets : Bytes
  deriving DecidableEq, Repr

namespace Path

def slash : UInt8 := 47

def ofText (t : Text) : Path := ⟨Utf8.encode t⟩

def display (p : Path) : Text := Utf8.lossy p.octets

def IsAbsolute (p : Path) : Prop := p.octets.head? = some slash

instance (p : Path) : Decidable p.IsAbsolute := inferInstanceAs (Decidable (_ = _))

/-- A name seen from a directory. An absolute name stands for itself, and nothing is tidied up. -/
def join (directory name : Path) : Path :=
  if name.IsAbsolute then name
  else if directory.octets = [] ∨ directory.octets.getLast? = some slash then
    ⟨directory.octets ++ name.octets⟩
  else ⟨directory.octets ++ slash :: name.octets⟩

def dot : Bytes := Utf8.encode ".".toList

def isIdle (step : Bytes) : Bool := step.isEmpty || step = dot

def start (p : Path) : Bytes :=
  if p.IsAbsolute then [slash]
  else if p.octets.take 2 = dot ∨ p.octets.take 2 = dot ++ [slash] then dot
  else []

def trimSteps (steps : List Bytes) : List Bytes := (steps.reverse.dropWhile isIdle).reverse

theorem length_trimSteps_le (steps : List Bytes) :
    (trimSteps steps).length ≤ steps.length := by
  have := (List.dropWhile_suffix (l := steps.reverse) isIdle).length_le
  simpa [trimSteps] using this

def steps (p : Path) : List Bytes :=
  trimSteps (List.splitOn slash (p.octets.drop p.start.length))

def agrees (p q : Path) : Bool :=
  p.start == q.start && p.steps.filter (!isIdle ·) == q.steps.filter (!isIdle ·)

end Path

end LineShell
