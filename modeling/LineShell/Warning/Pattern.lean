import LineShell.Text.Alphanumeric
import LineShell.Warning.Pattern.Bracket

/-! Patterns for the values of fields: regular expressions, as far as a filter rule has room for
them. It has none for a closing brace, so nothing can be counted. -/

namespace LineShell.Pattern

inductive Item
  | flags
  | part (height : Nat)
  deriving DecidableEq, Repr

def Item.height : Item → Nat
  | .flags => 0
  | .part h => h

structure Group where
  mode : Mode := {}
  items : List Item := []
  branches : List Nat := []
  deriving DecidableEq, Repr

namespace Group

def height (g : Group) : Nat :=
  heightOfAll (heightOfAll (g.items.map Item.height) :: g.branches)

def add (g : Group) (i : Item) : Group := { g with items := i :: g.items }

def branch (g : Group) : Group :=
  { g with items := [], branches := heightOfAll (g.items.map Item.height) :: g.branches }

def repeated? (g : Group) : Option Group :=
  match g.items with
  | .part h :: items => some { g with items := .part (h + 1) :: items }
  | _ => none

end Group

structure Reader where
  here : Group := {}
  outer : List Group := []
  names : List Text := []
  deriving DecidableEq, Repr

namespace Reader

def add (r : Reader) (h : Nat) : Reader := { r with here := r.here.add (.part h) }

def openGroup (r : Reader) (mode : Mode) : Reader :=
  { r with here := { mode }, outer := r.here :: r.outer }

def closeGroup? (r : Reader) : Option Reader :=
  match r.outer with
  | g :: outer => some { r with here := g.add (.part (r.here.height + 1)), outer }
  | [] => none

def isName : Text → Bool
  | [] => false
  | c :: r =>
    (c == '_' || Text.isAlphabetic c) &&
      r.all fun c => "_.[]".toList.contains c || Text.isAlphanumeric c

def named? (r : Reader) (t : Text) : Option (Reader × Text) :=
  match Text.cutAt '>' t with
  | some (name, t) =>
    if isName name && !r.names.contains name then
      some ({ r.openGroup r.here.mode with names := name :: r.names }, t)
    else none
  | none => none

def flagged? (r : Reader) (t : Text) : Option (Reader × Text) :=
  match r.here.mode.readFlags [] false false t with
  | some (mode, ':', t) => some (r.openGroup mode, t)
  | some (mode, _, t) => some ({ r with here := { r.here.add .flags with mode } }, t)
  | none => none

def group? (r : Reader) (t : Text) : Option (Reader × Text) :=
  match r.here.mode.skip t with
  | '?' :: 'P' :: '<' :: t => r.named? t
  | '?' :: '<' :: t => r.named? t
  | '?' :: t => r.flagged? t
  | t => some (r.openGroup r.here.mode, t)

def repeated? (r : Reader) (t : Text) : Option (Reader × Text) :=
  let t := match t with
    | '?' :: t => t
    | t => t
  r.here.repeated?.map fun here => ({ r with here }, t)

def atom? (r : Reader) (c : Char) (t : Text) : Option (Reader × Text) :=
  match Atom.read r.here.mode c t with
  | some (a, t) => if a.isUsable r.here.mode then some (r.add 0, t) else none
  | none => none

def step (r : Reader) (c : Char) (t : Text) : Option (Reader × Text) :=
  match c with
  | '(' => r.group? t
  | ')' => r.closeGroup?.map (·, t)
  | '|' => some ({ r with here := r.here.branch }, t)
  | '[' => (Bracket.read? r.here.mode t).map fun (h, t) => (r.add h, t)
  | '*' => r.repeated? t
  | '+' => r.repeated? t
  | '?' => r.repeated? t
  | '{' => none
  | c => r.atom? c t

def run (r : Reader) : Nat → Text → Option Reader
  | fuel, t =>
    match fuel, r.here.mode.skip t with
    | _, [] => some r
    | 0, _ => none
    | fuel + 1, c :: t =>
      match r.step c t with
      | some (r, t) => run r fuel t
      | none => none

end Reader

def heightLimit : Nat := 250

def isPattern (t : Text) : Bool :=
  match Reader.run {} t.length t with
  | some r => r.outer.isEmpty && r.here.height ≤ heightLimit
  | none => false

end LineShell.Pattern
