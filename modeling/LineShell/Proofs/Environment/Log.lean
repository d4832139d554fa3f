import LineShell.Environment
import LineShell.Proofs.Table.Log
import LineShell.Proofs.Text.Lines

/-! Variables after any operations on them, among which are the requests for the assignments. These
are rebuilt only when something has changed, and yet they are never out of date. -/

namespace LineShell.Environment

open Table (Change)

inductive Operation
  | set (name value : Text)
  | unset (name : Text)
  | flatten
  | lookup (name : Text)
  deriving DecidableEq, Repr

namespace Operation

def change? : Operation → Option Change
  | set name value => if name ≠ [] ∧ '=' ∉ name then some (.put name value) else none
  | unset name => some (.drop name)
  | flatten | lookup _ => none

def apply (e : Environment) : Operation → Environment
  | set name value => e.setIfValid name value
  | unset name => (e.unset name).2
  | flatten => e.flatten.2
  | lookup _ => e

end Operation

def run (e : Environment) (ops : List Operation) : Environment := ops.foldl Operation.apply e

def changes (ops : List Operation) : List Change := ops.filterMap Operation.change?

section

variable {e : Environment} {name value : Text}

theorem isName_iff : isName name = true ↔ name ≠ [] ∧ '=' ∉ name := by
  simp [isName]

theorem set_of_valid (h : name ≠ [] ∧ '=' ∉ name) (e : Environment) (value : Text) :
    e.set name value = .ok { e with vars := e.vars.insert name value, changed := true } :=
  if_pos (isName_iff.2 h)

theorem set_of_not_valid (h : ¬ (name ≠ [] ∧ '=' ∉ name)) (e : Environment) (value : Text) :
    e.set name value = .error (.invalidName name) := if_neg (mt isName_iff.1 h)

theorem vars_apply (e : Environment) (op : Operation) :
    (op.apply e).vars = (op.change?.map (Change.apply e.vars)).getD e.vars := by
  cases op with
  | set name value =>
    rw [Operation.apply, setIfValid, Operation.change?]
    by_cases h : name ≠ [] ∧ '=' ∉ name
    · rw [set_of_valid h, if_pos h]
      rfl
    · rw [set_of_not_valid h, if_neg h]
      rfl
  | unset name =>
    rw [Operation.apply, unset]
    split
    · rfl
    · next h =>
      exact (Table.erase_of_notMem fun hmem => h (Table.get?_isSome.2 hmem)).symm
  | flatten =>
    rw [Operation.apply, flatten]
    split <;> rfl
  | lookup name => rfl

theorem vars_run (e : Environment) (ops : List Operation) :
    (e.run ops).vars = (changes ops).foldl Change.apply e.vars := by
  induction ops generalizing e with
  | nil => rfl
  | cons op ops ih =>
    rw [run, List.foldl_cons, ← run, ih, vars_apply]
    simp only [changes, List.filterMap_cons]
    cases op.change? <;> rfl

def Fresh (e : Environment) : Prop :=
  e.changed = false → e.flattened = e.vars.entries.map assignment

theorem Fresh.flatten (h : e.Fresh) :
    e.flatten = (e.vars.entries.map assignment,
      { e with flattened := e.vars.entries.map assignment, changed := false }) := by
  rw [Environment.flatten]
  split
  · rfl
  · next hkept =>
    -- the lengths need not be compared: what is kept is right as long as nothing has changed
    rw [Bool.or_eq_true, not_or] at hkept
    have hchanged : e.changed = false := eq_false_of_ne_true hkept.1
    obtain ⟨vars, flattened, changed⟩ := e
    obtain rfl : changed = false := hchanged
    obtain rfl : flattened = vars.entries.map assignment := h rfl
    rfl

theorem Fresh.apply (h : e.Fresh) (op : Operation) : (op.apply e).Fresh := by
  cases op with
  | set name value =>
    rw [Operation.apply, setIfValid]
    by_cases hname : name ≠ [] ∧ '=' ∉ name
    · rw [set_of_valid hname]
      exact fun hc => nomatch hc
    · rwa [set_of_not_valid hname]
  | unset name =>
    rw [Operation.apply, unset]
    split
    · exact fun hc => nomatch hc
    · exact h
  | flatten =>
    rw [Operation.apply, h.flatten]
    exact fun _ => rfl
  | lookup name => exact h

theorem Fresh.run (h : e.Fresh) (ops : List Operation) : (e.run ops).Fresh := by
  induction ops generalizing e with
  | nil => exact h
  | cons op ops ih => exact ih (h.apply op)

theorem run_append (e : Environment) (ops more : List Operation) :
    e.run (ops ++ more) = (e.run ops).run more := List.foldl_append

theorem ofPairs_eq_run (pairs : List (Text × Text)) :
    ofPairs pairs = run {} (pairs.map fun p => .set p.1 p.2) := by
  rw [ofPairs, run, List.foldl_map]
  rfl

theorem valid_of_put_mem_changes {ops : List Operation} (h : .put name value ∈ changes ops) :
    name ≠ [] ∧ '=' ∉ name := by
  obtain ⟨op, -, hop⟩ := List.mem_filterMap.1 h
  cases op with
  | set n v =>
    rw [Operation.change?] at hop
    split at hop
    · next hn =>
      obtain ⟨rfl, rfl⟩ := Change.put.inj (Option.some.inj hop)
      exact hn
    · exact nomatch hop
  | unset n => exact nomatch hop
  | flatten => exact nomatch hop
  | lookup n => exact nomatch hop

/-- The variables are what a log of operations makes of none: what they are, in which order they
stand, and the assignments that are made from them. -/
structure Follows (log : List Operation) (e : Environment) : Prop where
  distinct : e.vars.names.Nodup
  valid : ∀ name ∈ e.vars.names, name ≠ [] ∧ '=' ∉ name
  lookup : ∀ name value, e.lookup name = some value ↔ Table.Settled (changes log) name value
  entered : ∀ name ∈ e.vars.names, ∃! p, Table.Entered (changes log) name p
  ordered : e.vars.names.Pairwise fun a b => ∀ p q,
    Table.Entered (changes log) a p → Table.Entered (changes log) b q → p.length < q.length
  refused : ∀ name value, ((∃ cause, e.set name value = .error cause) ↔ name = [] ∨ '=' ∈ name) ∧
    (name = [] ∨ '=' ∈ name → e.setIfValid name value = e)
  assignments : e.flatten.1 = e.vars.entries.map fun p => p.1 ++ '=' :: p.2
  pairs : e.flatten.1.map (Text.cutAt '=') = e.vars.entries.map some

theorem refused_iff (e : Environment) (name value : Text) :
    ((∃ cause, e.set name value = .error cause) ↔ name = [] ∨ '=' ∈ name) ∧
      (name = [] ∨ '=' ∈ name → e.setIfValid name value = e) := by
  by_cases h : name ≠ [] ∧ '=' ∉ name
  · have hname : ¬ (name = [] ∨ '=' ∈ name) := not_or.2 h
    rw [set_of_valid h]
    exact ⟨⟨nofun, fun hc => absurd hc hname⟩, fun hc => absurd hc hname⟩
  · have hname : name = [] ∨ '=' ∈ name := Decidable.not_not.1 fun hc => h (not_or.1 hc)
    have hset := set_of_not_valid h e value
    exact ⟨⟨fun _ => hname, fun _ => ⟨_, hset⟩⟩, fun _ => by rw [setIfValid, hset]⟩

theorem follows_run (ops : List Operation) : Follows ops (run {} ops) := by
  have hvars : (run {} ops).vars = Table.after (changes ops) := vars_run {} ops
  have hvalid : ∀ name ∈ (run {} ops).vars.names, name ≠ [] ∧ '=' ∉ name := by
    intro name hname
    rw [hvars] at hname
    obtain ⟨value, earlier, later, hlog, -⟩ := Table.mem_names_after.1 hname
    have hput : .put name value ∈ changes ops := by
      rw [hlog]
      simp
    exact valid_of_put_mem_changes hput
  have hflatten : (run {} ops).flatten.1 = (run {} ops).vars.entries.map assignment := by
    rw [(Fresh.run (fun _ => rfl) ops).flatten]
  refine ⟨?_, hvalid, ?_, ?_, ?_, refused_iff _, hflatten, ?_⟩
  · rw [hvars]
    exact Table.nodup_names_after _
  · intro name value
    rw [Environment.lookup, hvars]
    exact Table.get?_after_iff
  · intro name hname
    rw [hvars] at hname
    obtain ⟨p, hp⟩ := Table.exists_entered (Table.mem_names_after.1 hname)
    exact ⟨p, hp, fun _ hq => hq.unique hp⟩
  · rw [hvars]
    exact Table.pairwise_names_after _
  · rw [hflatten, List.map_map]
    refine List.map_congr_left fun e he => ?_
    exact Text.cutAt_append (hvalid e.1 (List.mem_map_of_mem he)).2 e.2

example : (run {} [.set "A".toList "1".toList, .set "B".toList [], .flatten, .unset "A".toList,
    .set "B".toList "2".toList, .set "=".toList [], .set "A".toList []]).flatten.1 =
      ["B=2".toList, "A=".toList] := by
  decide

end

end LineShell.Environment
