import LineShell.Warning.Basic
import LineShell.Warning.Pattern

/-! Filters that pick some of the warnings, and how they are read. -/

namespace LineShell

structure Field where
  name : Text
  hasValue : Bool
  deriving DecidableEq, Repr

structure FilterRule where
  topics : Option Text := none
  span : Option Text := none
  field : Option Field := none
  severity : Severity := .trace
  deriving DecidableEq, Repr

namespace Field

def isPlusNumeral (t : Text) : Bool :=
  match t with
  | '+' :: r =>
    let (mantissa, scale) := (Text.cutAt 'e' (r.map Char.toLower)).getD (r, ['0'])
    let (whole, part) := (Text.cutAt '.' mantissa).getD (mantissa, [])
    let scale := match scale with
      | '-' :: r => r
      | r => Numeral.dropPlus r
    ["inf".toList, "infinity".toList, "nan".toList].contains (r.map Char.toLower) ||
      !(whole ++ part).isEmpty && (whole ++ part).all Char.isDigit &&
        !scale.isEmpty && scale.all Char.isDigit
  | _ => false

def read? (t : Text) : Option Field :=
  match List.splitOn '=' t with
  | name :: value :: _ =>
    if Pattern.isPattern value || isPlusNumeral value then some ⟨name, true⟩ else none
  | _ => some ⟨t, false⟩

end Field

namespace FilterRule

inductive Place
  | start
  | word (since : Nat)
  | span (since : Nat)
  | field (since : Nat)
  | afterField
  | afterSpan
  | severity (since : Nat)
  deriving DecidableEq, Repr

structure Draft where
  rule : FilterRule := {}
  place : Place := .start
  deriving DecidableEq, Repr

namespace Draft

def part? (t : Text) (since till : Nat) : Option Text :=
  match Text.cutAtOffset since t with
  | some (_, r) => (Text.cutAtOffset (till - since) r).map (·.1)
  | none => none

def rest? (t : Text) (since : Nat) : Option Text := (Text.cutAtOffset since t).map (·.2)

def isWordStart (c : Char) : Bool :=
  Text.isAlphanumeric c || c == '-' || c == ':' || c == '_'

def goto (d : Draft) (place : Place) : Option Draft := some { d with place }

def endTopics (d : Draft) (topics : Option Text) (place : Place) : Option Draft :=
  topics.map fun t => { rule := { d.rule with topics := some t }, place }

def endSpan (d : Draft) (span : Option Text) (place : Place) : Option Draft :=
  span.map fun t => { rule := { d.rule with span := some t }, place }

def step (whole : Text) (d : Draft) (offset : Nat) (c : Char) : Option Draft :=
  match d.place with
  | .start =>
    if c = '[' then d.goto (.span (offset + 1))
    else if isWordStart c then d.goto (.word offset)
    else none
  | .word since =>
    if c = '=' then d.endTopics (part? whole since offset) (.severity (offset + 1))
    else if c = '[' then d.endTopics (part? whole since offset) (.span (offset + 1))
    else some d
  | .span since =>
    if c = ']' then d.endSpan (part? whole since offset) .afterSpan
    else if c = '{' then
      match part? whole since offset with
      | some [] => d.goto (.field (offset + 1))
      | span => d.endSpan span (.field (offset + 1))
    else some d
  | .field since =>
    if c = '}' then
      match part? whole since offset with
      | none => none
      | some [] => none
      | some t =>
        (Field.read? t).map fun field =>
          { rule := { d.rule with field := some field }, place := .afterField }
    else some d
  | .afterField => if c = ']' then d.goto .afterSpan else none
  | .afterSpan => if c = '=' then d.goto (.severity (offset + 1)) else none
  | .severity _ => some d

def run (whole : Text) (d : Draft) (offset : Nat) : Text → Option Draft
  | [] => some d
  | c :: r =>
    match d.step whole offset c with
    | some d => run whole d (offset + c.utf8Size) r
    | none => none

def finish (whole : Text) (d : Draft) : Option FilterRule :=
  match d.place with
  | .word since =>
    (rest? whole since).map fun t =>
      match Severity.read? t with
      | some severity => { d.rule with severity }
      | none => { d.rule with topics := some t }
  | .severity since =>
    match rest? whole since with
    | none => none
    | some [] => some d.rule
    | some t => (Severity.read? t).map fun severity => { d.rule with severity }
  | .afterSpan => some d.rule
  | _ => none

end Draft

/-- Reads topics, a span and a field in brackets, and a severity after an equals sign; nearly all
of it can be left out. Blanks around a rule are passed over, but the offsets of its parts, which
are counted without them, apply to the rule as it is given. -/
def read? (t : Text) : Option FilterRule :=
  match Draft.run t {} 0 (Text.trim t) with
  | some d => d.finish t
  | none => none

/-- Whether a rule is about warnings at all. They arise in no span, and all that can be said of
them beside their topic is that they have a message. -/
def appliesTo (r : FilterRule) (topic : Topic) : Bool :=
  r.span.isNone && r.field.all (· == ⟨"message".toList, false⟩) &&
    r.topics.all (·.isPrefixOf topic.path)

def closeness (r : FilterRule) : Nat :=
  2 * (r.topics.map (·.length + 1)).getD 0 + (if r.field.isSome then 1 else 0)

end FilterRule

abbrev Filter := List FilterRule

namespace Filter

def standard : Filter := [{ severity := .warn }]

def read (t : Text) : Filter :=
  let parts := (List.splitOn ',' t).filter fun part => !part.isEmpty
  (parts.mapM FilterRule.read?).getD standard

def deciding? (f : Filter) (topic : Topic) : Option FilterRule :=
  (f.filter (·.appliesTo topic)).foldl
    (fun best r =>
      match best with
      | some b => if b.closeness ≤ r.closeness then some r else some b
      | none => some r)
    none

def admits (f : Filter) (w : Warning) : Bool :=
  match f.deciding? w.topic with
  | some r => decide (Severity.warn.rank ≤ r.severity.rank)
  | none => false

end Filter

end LineShell
