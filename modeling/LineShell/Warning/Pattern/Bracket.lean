import LineShell.Warning.Pattern.Atom

/-! Sets of characters in brackets, which may lie in each other. -/

namespace LineShell.Pattern

def heightOfAll : List Nat → Nat
  | [] => 0
  | [h] => h
  | hs => hs.foldl max 0 + 1

structure Bracket where
  members : List Nat := []
  left : Option Nat := none
  /-- Whether there was nothing yet but hyphens, which mean themselves there. -/
  isFresh : Bool := true
  deriving DecidableEq, Repr

namespace Bracket

def height (b : Bracket) : Nat :=
  match b.left with
  | none => heightOfAll b.members
  | some h => max h (heightOfAll b.members) + 1

def add (b : Bracket) (h : Nat) : Bracket :=
  { b with members := h :: b.members, isFresh := false }

def operate (b : Bracket) : Bracket := { left := some b.height, isFresh := false }

def afterOperator? : Text → Option Text
  | '&' :: '&' :: r => some r
  | '-' :: '-' :: r => some r
  | '~' :: '~' :: r => some r
  | _ => none

def afterNegation? (m : Mode) (t : Text) : Option Text :=
  match m.skip t with
  | '^' :: r => if m.unicode then some r else none
  | t => some t

def setNames : List Text :=
  ["alnum", "alpha", "ascii", "blank", "cntrl", "digit", "graph", "lower", "print", "punct",
    "space", "upper", "word", "xdigit"].map String.toList

def afterName? (t : Text) : Option Text :=
  match Text.cutAt ':' t with
  | some (name, ']' :: r) => if setNames.contains name then some r else none
  | _ => none

def namedSet? : Text → Option (Bool × Text)
  | ':' :: '^' :: r => (afterName? r).map (true, ·)
  | ':' :: r => (afterName? r).map (false, ·)
  | _ => none

def isUsableSet (m : Mode) (negated : Bool) : Bool := if m.unicode then !m.anyCase else !negated

def afterMember? (m : Mode) (t : Text) : Option Text :=
  match Atom.readMember m t with
  | none => none
  | some (first, r) =>
    let single (r : Text) : Option Text := if first.isMember m then some r else none
    match m.skip r with
    | '-' :: r =>
      if m.decisive? r = some ']' ∨ m.decisive? r = some '-' then single ('-' :: r)
      else
        match Atom.readMember m (m.skip r) with
        | some (last, r) =>
          if first.isRange last && first.isMember m && last.isMember m then some r else none
        | none => none
    | r => single r

/-- Reads to the end of the outermost of some brackets, and tells their height. Each step reads
at least one character. -/
def read (m : Mode) (here : Bracket) (outer : List Bracket) : Nat → Text → Option (Nat × Text)
  | 0, _ => none
  | fuel + 1, t =>
    match m.skip t with
    | [] => none
    | c :: r =>
      if here.isFresh && (c == '-' || c == ']' && here.members.isEmpty) then
        if (Atom.literal c false).isMember m then
          read m { here.add 0 with isFresh := c == '-' } outer fuel r
        else none
      else if c = ']' then
        match outer with
        | [] => some (here.height + 1, r)
        | b :: outer => read m (b.add (here.height + 1)) outer fuel r
      else if c = '[' then
        match namedSet? r with
        | some (negated, r) =>
          if isUsableSet m negated then read m (here.add 0) outer fuel r else none
        | none =>
          match afterNegation? m r with
          | some r => read m {} (here :: outer) fuel r
          | none => none
      else
        match afterOperator? (c :: r) with
        | some r => read m here.operate outer fuel r
        | none =>
          match afterMember? m (c :: r) with
          | some r => read m (here.add 0) outer fuel r
          | none => none

def read? (m : Mode) (t : Text) : Option (Nat × Text) :=
  match afterNegation? m t with
  | some r => read m {} [] r.length r
  | none => none

end Bracket

end LineShell.Pattern
