import LineShell.Expansion
import LineShell.Proofs.Text.Words
import Mathlib.Data.List.Basic
import Mathlib.Data.List.TakeWhile

/-! Expansion of variables against the grammar of references. A text has one reading from the left
as references and other characters, whatever the variables hold, and each piece of it is replaced
by what it stands for. -/

namespace LineShell.Expander

open Text

inductive Piece
  | status
  | process
  | named (name : Text)
  | dollar
  | plain (c : Char)
  deriving DecidableEq, Repr

def meaning (x : Expander) : Piece → Text
  | .status => Text.ofInt x.status
  | .process => Text.ofNat x.pid
  | .named name => (x.environment.lookup name).getD []
  | .dollar => ['$']
  | .plain c => [c]

/-- A reading of a text in pieces from the left, where a name is as long as it can be. -/
inductive Cuts : Text → List Piece → Prop
  | nil : Cuts [] []
  | status {r : Text} {ps : List Piece} (later : Cuts r ps) :
      Cuts ('$' :: '?' :: r) (.status :: ps)
  | process {r : Text} {ps : List Piece} (later : Cuts r ps) :
      Cuts ('$' :: '$' :: r) (.process :: ps)
  | named {name r : Text} {ps : List Piece} (shown : name ≠ [])
      (all : ∀ c ∈ name, isNameChar c = true)
      (longest : ∀ c, r.head? = some c → isNameChar c = false) (later : Cuts r ps) :
      Cuts ('$' :: (name ++ r)) (.named name :: ps)
  | dollar {r : Text} {ps : List Piece}
      (alone : ∀ c, r.head? = some c → c ≠ '?' ∧ c ≠ '$' ∧ isNameChar c = false)
      (later : Cuts r ps) : Cuts ('$' :: r) (.dollar :: ps)
  | plain {c : Char} {r : Text} {ps : List Piece} (other : c ≠ '$') (later : Cuts r ps) :
      Cuts (c :: r) (.plain c :: ps)

def cut : Text → List Piece
  | [] => []
  | '$' :: '?' :: r => .status :: cut r
  | '$' :: '$' :: r => .process :: cut r
  | '$' :: r =>
    if r.takeWhile isNameChar = [] then .dollar :: cut r
    else .named (r.takeWhile isNameChar) :: cut (r.dropWhile isNameChar)
  | c :: r => .plain c :: cut r
termination_by t => t.length
decreasing_by
  all_goals
    have hname : (r.dropWhile isNameChar).length ≤ r.length := (List.dropWhile_suffix _).length_le
    simp only [List.length_cons]
    omega

variable {x : Expander} {t r name : Text} {ps qs : List Piece}

theorem expandFrom_name (hall : ∀ c ∈ name, isNameChar c = true)
    (hlongest : ∀ c, r.head? = some c → isNameChar c = false) (read : Text) :
    x.expandFrom (.name read) (name ++ r) =
      x.value (read.reverse ++ name) ++ x.expandFrom .plain r := by
  induction name generalizing read with
  | nil =>
    rw [List.nil_append, List.append_nil]
    cases r with
    | nil => exact (List.append_nil _).symm
    | cons c r =>
      have hc : ¬ isNameChar c = true := by simp [hlongest c rfl]
      have hends : x.step (.name read) c =
          (x.value read.reverse ++ (startAt c).1, (startAt c).2) := by rw [step, if_neg hc]
      rw [expandFrom, hends, List.append_assoc]
      rfl
  | cons c name ih =>
    obtain ⟨hc, hname⟩ := List.forall_mem_cons.1 hall
    rw [List.cons_append, expandFrom, step, if_pos hc, List.nil_append, ih hname,
      List.reverse_cons, List.append_assoc, List.singleton_append]

theorem expandFrom_plain {c : Char} (hc : c ≠ '$') (r : Text) :
    x.expandFrom .plain (c :: r) = c :: x.expandFrom .plain r := by
  rw [expandFrom, step, startAt, if_neg hc]
  rfl

theorem expandFrom_dollar (r : Text) :
    x.expandFrom .plain ('$' :: r) = x.expandFrom .dollar r := by
  rw [expandFrom, step, startAt, if_pos rfl]
  rfl

theorem Cuts.expandFrom_eq (h : Cuts t ps) : x.expandFrom .plain t = ps.flatMap x.meaning := by
  induction h with
  | nil => rfl
  | status _ ih =>
    rw [expandFrom_dollar, expandFrom, step, if_pos rfl, ih]
    rfl
  | process _ ih =>
    rw [expandFrom_dollar, expandFrom, step, if_neg (by decide), if_pos rfl, ih]
    rfl
  | @named name r ps hshown hall hlongest _ ih =>
    obtain ⟨c, name, rfl⟩ := List.exists_cons_of_ne_nil hshown
    obtain ⟨hc, hname⟩ := List.forall_mem_cons.1 hall
    have hstatus : c ≠ '?' := by
      rintro rfl
      exact absurd hc (by decide)
    have hprocess : c ≠ '$' := by
      rintro rfl
      exact absurd hc (by decide)
    rw [expandFrom_dollar, List.cons_append, expandFrom, step, if_neg hstatus, if_neg hprocess,
      if_pos hc, List.nil_append, expandFrom_name hname hlongest, ih]
    rfl
  | @dollar r ps halone _ ih =>
    rw [expandFrom_dollar, List.flatMap_cons, ← ih]
    cases r with
    | nil => rfl
    | cons c r =>
      obtain ⟨hstatus, hprocess, hname⟩ := halone c rfl
      have hc : ¬ isNameChar c = true := by simp [hname]
      rw [expandFrom, step, if_neg hstatus, if_neg hprocess, if_neg hc, expandFrom_plain hprocess]
      rfl
  | plain hc _ ih =>
    rw [expandFrom_plain hc, ih]
    rfl

theorem expandVariables_append (hplain : '$' ∉ t) (r : Text) :
    x.expandVariables (t ++ r) = t ++ x.expandVariables r := by
  induction t with
  | nil => rfl
  | cons c t ih =>
    rw [List.mem_cons, not_or] at hplain
    rw [List.cons_append, expandVariables, expandFrom_plain (Ne.symm hplain.1), ← expandVariables,
      ih hplain.2, List.cons_append]

theorem expandVariables_named (hshown : name ≠ []) (hall : ∀ c ∈ name, isNameChar c = true) :
    x.expandVariables ('$' :: name) = x.value name := by
  have hcuts : Cuts ('$' :: (name ++ [])) [.named name] := .named hshown hall nofun .nil
  have hmeaning := hcuts.expandFrom_eq (x := x)
  rwa [List.append_nil, List.flatMap_singleton] at hmeaning

-- the second dollar sign belongs to the first, and so the third begins the name
example : cut "$$$X?$é$".toList =
    [.process, .named "X".toList, .plain '?', .dollar, .plain 'é', .dollar] := by
  cbv

end LineShell.Expander
